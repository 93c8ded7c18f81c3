import FetchQuery.Proofs.LiteralValue
import FetchQuery.Proofs.QuotedName

namespace FetchQuery.Sql

open Statement (Column)

def namePart (o : LayoutOptions) (token : String) : String :=
  String.singleton o.spaceChar ++ "as" ++ String.singleton o.spaceChar ++ token

/-- The text ends in the keyword and the name in quotes. -/
def EndsInName (o : LayoutOptions) (name text : String) : Prop :=
  ∃ front token, text = front ++ namePart o token ∧ quotedText? token = some name

theorem toList_quoted {s : String} (h : '\x27' ∉ s.toList) :
    (quoted s).toList = '\x27' :: (s.toList ++ ['\x27']) := by
  simp [quoted, Text.enclose, Text.doubled_eq_self h]

theorem eq_of_quoted_suffix {a b : String} (ha : '\x27' ∉ a.toList) (hb : '\x27' ∉ b.toList)
    (h : (quoted a).toList <:+ (quoted b).toList) : a = b := by
  obtain ⟨front, he⟩ := h
  rw [toList_quoted ha, toList_quoted hb] at he
  cases front with
  | nil => exact String.toList_inj.1 (by simpa using he)
  | cons c front =>
    -- the opening quote of `a` would stand inside of `b`
    have hrest : (front ++ '\x27' :: a.toList) ++ ['\x27'] = b.toList ++ ['\x27'] := by
      simpa using (List.cons.inj he).2
    have hb' : front ++ '\x27' :: a.toList = b.toList := List.append_cancel_right hrest
    apply absurd _ hb
    rw [← hb']
    exact List.mem_append_right front List.mem_cons_self

theorem HoldsGuid.quote_not_mem {cs inner : List Char} (h : HoldsGuid cs inner) : '\x27' ∉ cs := by
  intro hc
  exact absurd (h.mem hc) (by decide)

theorem eq_of_quoted_suffixes {a b : String} {i j t : List Char} (ha : HoldsGuid a.toList i)
    (hb : HoldsGuid b.toList j) (hat : (quoted a).toList <:+ t) (hbt : (quoted b).toList <:+ t) :
    a = b := by
  cases List.suffix_or_suffix_of_suffix hat hbt with
  | inl h => exact eq_of_quoted_suffix ha.quote_not_mem hb.quote_not_mem h
  | inr h => exact (eq_of_quoted_suffix hb.quote_not_mem ha.quote_not_mem h).symm

theorem toList_suffix_namePart (o : LayoutOptions) (front token : String) :
    token.toList <:+ (front ++ namePart o token).toList := by
  refine ⟨front.toList ++ (namePart o "").toList, ?_⟩
  simp [namePart]

theorem MatchesNumber.not_quoted_suffix {cs t : List Char} (h : MatchesNumber cs) (hn : cs <:+ t)
    (s : String) : ¬ (quoted s).toList <:+ t := by
  rintro ⟨front, rfl⟩
  obtain ⟨start, he⟩ := hn
  have hne : cs ≠ [] := by
    obtain ⟨sign, whole, fraction, rfl, _, hw, _⟩ := h
    simp [hw.1]
  have hlast : cs.getLast? = some '\x27' := by
    rw [← List.getLast?_append_of_ne_nil start hne, he, quoted, Text.enclose, String.toList_ofList,
      ← List.append_assoc]
    exact List.getLast?_concat
  exact absurd (h.mem (List.mem_of_getLast? hlast)) (by decide)

/-- A text that ends both in the literal of a name and in the quoted name. -/
theorem canonical_of_suffixes {name : String} {t : List Char} (hl : (literal name).toList <:+ t)
    (hq : (quoted name).toList <:+ t) : ¬ MatchesNumber name.toList ∧ canonical name = name := by
  have hn : ¬ MatchesNumber name.toList := by
    intro hn
    rw [(literal_denotes name).1 hn] at hl
    exact hn.not_quoted_suffix hl name hq
  refine ⟨hn, ?_⟩
  by_cases hg : ∃ inner, HoldsGuid name.toList inner
  · obtain ⟨inner, hg⟩ := hg
    rw [literal_eq, if_neg (mt isNumber_iff.1 hn)] at hl
    exact eq_of_quoted_suffixes hg.lower hg hl hq
  · exact canonical_of_not_holdsGuid (not_exists.1 hg)

theorem endsInName_literal_iff (o : LayoutOptions) (front name : String) :
    EndsInName o name (front ++ namePart o (literal name)) ↔
      ¬ MatchesNumber name.toList ∧ canonical name = name := by
  constructor
  · rintro ⟨front', token, he, ht⟩
    apply canonical_of_suffixes (toList_suffix_namePart o front (literal name))
    rw [he, ← quotedText?_eq_some_iff.1 ht]
    exact toList_suffix_namePart o front' token
  · rintro ⟨hn, hc⟩
    refine ⟨front, literal name, rfl, ?_⟩
    rw [literal_eq, if_neg (mt isNumber_iff.1 hn), hc, quotedText?_quoted]

/-- The text of a column where columns stand, one level deep. -/
def columnText (d : Dialect) (o : LayoutOptions) (ambient : String) (c : Column) : Except Fault String :=
  ((Formatter.column d ambient c).run o 1).1

theorem columnText_eq_render (d : Dialect) (o : LayoutOptions) (ambient : String) (c : Column) :
    columnText d o ambient c = .ok ((columnLayout d ambient c).render o) :=
  congrArg Prod.fst (Formatter.gives_column d ambient c)

theorem render_columnLayout_eq (d : Dialect) (o : LayoutOptions) (ambient : String) {c : Column}
    (h : c.hasName = true) :
    (columnLayout d ambient c).render o =
      (columnLayout d ambient { c with name := "" }).render o ++ namePart o (literal c.name) := by
  rw [← String.toList_inj, columnLayout_eq_unnamed d ambient c, if_pos h]
  simp [namePart, Piece.render, Piece.chars]

/-- After a column stands its name, without quotes if it is a number and otherwise in quotes and in canonical
form, so that the quoted name is there exactly if it is no number and in canonical form already. -/
theorem columnText_named (d : Dialect) (o : LayoutOptions) (ambient : String) (c : Column)
    (h : c.hasName = true) :
    ∃ bare text, columnText d o ambient { c with name := "" } = .ok bare ∧ columnText d o ambient c = .ok text ∧
      (∃ token, text = bare ++ namePart o token ∧ (MatchesNumber c.name.toList → token = c.name) ∧
        (¬ MatchesNumber c.name.toList → quotedText? token = some (canonical c.name))) ∧
      (EndsInName o c.name text ↔ ¬ MatchesNumber c.name.toList ∧ canonical c.name = c.name) := by
  refine ⟨_, _, columnText_eq_render .., columnText_eq_render .., ?_⟩
  rw [render_columnLayout_eq d o ambient h]
  refine ⟨⟨literal c.name, rfl, (literal_denotes c.name).1, fun hn => ?_⟩, endsInName_literal_iff o _ c.name⟩
  rw [literal_eq, if_neg (mt isNumber_iff.1 hn), quotedText?_quoted]

def guidNamed : Column := { name := "{6F9619FF-8B86-D011-B42D-00C04FC964FF}", expression := "accountid" }

theorem columnText_named_guid :
    guidNamed.hasName = true ∧
      columnText .postgres {} "a" guidNamed = .ok "a.\"accountid\" as '6f9619ff-8b86-d011-b42d-00c04fc964ff'" ∧
      ∃ bare text, columnText .postgres {} "a" { guidNamed with name := "" } = .ok bare ∧
        columnText .postgres {} "a" guidNamed = .ok text ∧
        (∃ token, text = bare ++ namePart {} token ∧
          (MatchesNumber guidNamed.name.toList → token = guidNamed.name) ∧
          (¬ MatchesNumber guidNamed.name.toList → quotedText? token = some (canonical guidNamed.name))) ∧
        (EndsInName {} guidNamed.name text ↔
          ¬ MatchesNumber guidNamed.name.toList ∧ canonical guidNamed.name = guidNamed.name) :=
  ⟨by decide, by decide, columnText_named .postgres {} "a" guidNamed (by decide)⟩

def yearTotal : Column := { name := "2024", expression := "total", aggregate := some "sum" }

theorem yearTotal_not_endsInName :
    columnText .sqlServer {} "" yearTotal = .ok "sum([total]) as 2024" ∧
      ¬ EndsInName {} "2024" "sum([total]) as 2024" := by
  have htext : "sum([total]) as 2024" = "sum([total])" ++ namePart {} (literal "2024") := by decide
  refine ⟨by decide, fun h => ?_⟩
  rw [htext] at h
  exact ((endsInName_literal_iff {} "sum([total])" "2024").1 h).1 (isNumber_iff.1 (by decide))

end FetchQuery.Sql
