import FetchQuery.Proofs.LiteralText

namespace FetchQuery.Text

theorem eq_doubled_of_undoubled? {close : Char} {cs text rest : List Char}
    (h : undoubled? close cs = some (text, rest)) :
    cs = doubled close text ++ close :: rest ∧ rest.head? ≠ some close := by
  induction cs using undoubled?.induct close generalizing text with
  | case1 => cases h
  | case2 =>
    simp only [undoubled?, if_true, Option.some.injEq, Prod.mk.injEq] at h
    obtain ⟨rfl, rfl⟩ := h
    simp [doubled]
  | case3 ds ih =>
    -- a `close` that stands twice belongs to the text
    simp only [undoubled?, if_true] at h
    obtain ⟨⟨inner, _⟩, hr, he⟩ := Option.map_eq_some_iff.1 h
    obtain ⟨rfl, rfl⟩ := Prod.mk.inj he
    obtain ⟨rfl, hrest⟩ := ih hr
    simp [doubled, hrest]
  | case4 d ds hd =>
    simp only [undoubled?, if_true, if_neg hd, Option.some.injEq, Prod.mk.injEq] at h
    obtain ⟨rfl, rfl⟩ := h
    simp [doubled, hd]
  | case5 c cs hc ih =>
    rw [undoubled?.eq_def] at h
    simp only [if_neg hc] at h
    obtain ⟨⟨inner, _⟩, hr, he⟩ := Option.map_eq_some_iff.1 h
    obtain ⟨rfl, rfl⟩ := Prod.mk.inj he
    obtain ⟨rfl, hrest⟩ := ih hr
    simp [doubled, hc, hrest]

theorem undoubled?_eq_some_iff {close : Char} {cs text rest : List Char} :
    undoubled? close cs = some (text, rest) ↔
      cs = doubled close text ++ close :: rest ∧ rest.head? ≠ some close := by
  refine ⟨eq_doubled_of_undoubled?, ?_⟩
  rintro ⟨rfl, h⟩
  exact undoubled?_doubled close text rest h

end FetchQuery.Text

namespace FetchQuery.Sql

theorem quotedText?_eq_some_iff {token s : String} : quotedText? token = some s ↔ token = quoted s := by
  refine ⟨fun h => ?_, fun h => h ▸ quotedText?_quoted s⟩
  unfold quotedText? at h
  split at h
  next rest hrest =>
    split at h
    next text htext =>
      obtain rfl := Option.some.inj h
      rw [← String.toList_inj, hrest, (Text.eq_doubled_of_undoubled? htext).1]
      simp [quoted, Text.enclose]
    next => cases h
  next => cases h

namespace Dialect

def start : Dialect → Char
  | sqlServer => '['
  | postgres => '"'

def close : Dialect → Char
  | sqlServer => ']'
  | postgres => '"'

/-- Reads a quoted name at the start of a text: the name, and the text that is left after it. A closing
quote that stands twice belongs to the name. -/
def scanName? (d : Dialect) (text : String) : Option (String × String) :=
  match text.toList with
  | [] => none
  | c :: cs =>
    if c = d.start then
      (Text.undoubled? d.close cs).map fun r => (String.ofList r.1, String.ofList r.2)
    else none

theorem toList_quote (d : Dialect) (n : String) :
    (d.quote n).toList = d.start :: (Text.doubled d.close n.toList ++ [d.close]) := by
  cases d <;> exact String.toList_ofList

theorem scanName?_eq_some_iff {d : Dialect} {text n r : String} :
    d.scanName? text = some (n, r) ↔
      text = d.quote n ++ r ∧ r.toList.head? ≠ some d.close := by
  rw [← String.toList_inj, String.toList_append, toList_quote, scanName?]
  cases text.toList with
  | nil => simp
  | cons c cs =>
    by_cases hc : c = d.start
    · have hread : ((Text.undoubled? d.close cs).map fun p => (String.ofList p.1, String.ofList p.2)) =
          some (n, r) ↔ Text.undoubled? d.close cs = some (n.toList, r.toList) := by
        rw [Option.map_eq_some_iff]
        constructor
        · rintro ⟨⟨name, rest⟩, h, he⟩
          obtain ⟨rfl, rfl⟩ := Prod.mk.inj he
          rw [h, String.toList_ofList, String.toList_ofList]
        · intro h
          exact ⟨_, h, by simp⟩
      simp only [hc, if_true, hread, Text.undoubled?_eq_some_iff]
      simp
    · simp [hc]

theorem quote_append_inj {d : Dialect} {n m r s : String} (hr : r.toList.head? ≠ some d.close)
    (hs : s.toList.head? ≠ some d.close) (h : d.quote n ++ r = d.quote m ++ s) : n = m ∧ r = s := by
  have hscan : d.scanName? (d.quote n ++ r) = some (n, r) := scanName?_eq_some_iff.2 ⟨rfl, hr⟩
  rw [h, scanName?_eq_some_iff.2 ⟨rfl, hs⟩] at hscan
  obtain ⟨hn, hrest⟩ := Prod.mk.inj (Option.some.inj hscan)
  exact ⟨hn.symm, hrest.symm⟩

/-- Scanning finds a name and what is left after it in the text of the two and in no other one, so that
texts are the same only if their names and what follows them are. -/
theorem scanName?_quote (d : Dialect) (n m r s : String)
    (hr : r.toList.head? ≠ some d.close) (hs : s.toList.head? ≠ some d.close) :
    (∀ text, d.scanName? text = some (n, r) ↔ text = d.quote n ++ r) ∧
      (d.quote n ++ r = d.quote m ++ s → n = m ∧ r = s) := by
  refine ⟨fun text => ?_, quote_append_inj hr hs⟩
  rw [scanName?_eq_some_iff, and_iff_left hr]

theorem scanName?_quote_brackets :
    Dialect.sqlServer.quote "a]]" = "[a]]]]]" ∧
      (∀ text, Dialect.sqlServer.scanName? text = some ("a]]", ".[b]") ↔
        text = Dialect.sqlServer.quote "a]]" ++ ".[b]") ∧
      (Dialect.sqlServer.quote "a]]" ++ ".[b]" = Dialect.sqlServer.quote "a]" ++ " ]" →
        "a]]" = "a]" ∧ ".[b]" = " ]") :=
  ⟨by decide, Dialect.sqlServer.scanName?_quote "a]]" "a]" ".[b]" " ]" (by decide) (by decide)⟩

end Dialect

end FetchQuery.Sql
