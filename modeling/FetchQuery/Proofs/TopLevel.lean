import FetchQuery.Proofs.Phrase

namespace FetchQuery.Sql

open Reading (isCalm isSettled)
open Statement (Connective)

def separator (space : Char) (k : Connective) : List Char := space :: (k.keyword.toList ++ [space])

/-- The connective whose separator the text starts with. -/
def separator? (space : Char) (cs : List Char) : Option Connective :=
  [.and, .or].find? fun k => (separator space k).isPrefixOf cs

def Scan.isTop (s : Scan) : Bool := s.reading.isSettled && s.depth == 0

/-- The text up to the first separator at the top level, and then each separator's connective with the
text after it. The first `skip` characters belong to a separator that was met before. -/
def splitTop (d : Dialect) (space : Char) (skip : Nat) (s : Scan) :
    List Char → List Char × List (Connective × List Char)
  | [] => ([], [])
  | c :: cs =>
    match skip with
    | skip + 1 => splitTop d space skip (s.step d endsStatement c) cs
    | 0 =>
      match if s.isTop then separator? space (c :: cs) else none with
      | some k =>
        let r := splitTop d space (k.keyword.length + 1) (s.step d endsStatement c) cs
        ([], (k, r.1) :: r.2)
      | none =>
        let r := splitTop d space 0 (s.step d endsStatement c) cs
        (c :: r.1, r.2)

variable {d : Dialect} {space : Char}

theorem separator?_eq_some {cs : List Char} {k : Connective} (h : separator? space cs = some k) :
    separator space k <+: cs := by
  have hp := List.find?_some h
  exact List.isPrefixOf_iff_prefix.1 hp

theorem separator?_append (space : Char) (k : Connective) (cs : List Char) :
    separator? space (separator space k ++ cs) = some k := by
  cases k <;> simp [separator?, separator, Connective.keyword]

theorem splitTop_skip (s : Scan) (cs rest : List Char) :
    splitTop d space cs.length s (cs ++ rest) = splitTop d space 0 (s.run d endsStatement cs) rest := by
  induction cs generalizing s with
  | nil => rfl
  | cons c cs ih => exact ih (s.step d endsStatement c)

theorem splitTop_keep {s : Scan} {c : Char} {cs : List Char}
    (h : s.isTop = true → separator? space (c :: cs) = none) :
    splitTop d space 0 s (c :: cs) =
      (c :: (splitTop d space 0 (s.step d endsStatement c) cs).1,
        (splitTop d space 0 (s.step d endsStatement c) cs).2) := by
  have hn : (if s.isTop then separator? space (c :: cs) else none) = none := by
    split
    next ht => exact h ht
    next => rfl
  rw [splitTop, hn]

theorem isBlank_eq_false_of_step {r r' : Reading} {b : Nat} {c : Char} (hr : r.isSettled = true)
    (h : Scan.step d endsWord ⟨r, 0, false⟩ c = ⟨r', b, false⟩) : Text.isBlank c = false := by
  have hf := isFill_eq_false_of_step hr h
  rw [isFill, Bool.or_eq_false_iff] at hf
  exact hf.1

theorem splitTop_word (hspace : Text.isBlank space = true) {r r' : Reading} {a b : Nat} {w : List Char}
    (h : Scan.run d endsWord ⟨r, a, false⟩ w = ⟨r', b, false⟩) (rest : List Char) :
    splitTop d space 0 ⟨r, a, false⟩ (w ++ rest) =
      (w ++ (splitTop d space 0 ⟨r', b, false⟩ rest).1, (splitTop d space 0 ⟨r', b, false⟩ rest).2) := by
  induction w generalizing r a with
  | nil =>
    obtain ⟨rfl, rfl, _⟩ := Scan.mk.inj h
    rfl
  | cons c w ih =>
    obtain ⟨r₁, a₁, hs, hr⟩ := Scan.step_of_run h
    -- a separator starts with a blank, which at the top level would have ended the word
    have hk : (Scan.mk r a false).isTop = true → separator? space (c :: (w ++ rest)) = none := by
      intro ht
      simp only [Scan.isTop, Bool.and_eq_true, beq_iff_eq] at ht
      obtain ⟨hset, rfl⟩ := ht
      have hc := isBlank_eq_false_of_step hset hs
      apply Option.eq_none_iff_forall_ne_some.2
      intro k hk
      have hcs : space = c := (List.cons_prefix_cons.1 (separator?_eq_some hk)).1
      rw [← hcs, hspace] at hc
      cases hc
    have hs' : Scan.step d endsStatement ⟨r, a, false⟩ c = ⟨r₁, a₁, false⟩ :=
      Scan.step_deeper (endsWord_of_endsStatement 0) hs
    rw [List.cons_append, splitTop_keep hk, hs', ih hr]
    rfl

theorem isBlank_keyword (k : Connective) {c : Char} (hc : c ∈ k.keyword.toList) : Text.isBlank c = false := by
  have h : k.keyword.toList.all (!Text.isBlank ·) = true := by cases k <;> decide
  simpa using List.all_eq_true.1 h c hc

theorem isConnective_keyword (k : Connective) : isConnective k.keyword.toList = true := by
  cases k <;> decide

theorem separator?_word (hspace : Text.isBlank space = true) {w rest : List Char} (hw : Word d w)
    (hrest : ∀ c, rest.head? = some c → Text.isBlank c = true) (c : Char) :
    separator? space (c :: (w ++ rest)) = none := by
  apply Option.eq_none_iff_forall_ne_some.2
  intro k hk
  obtain ⟨t, ht⟩ := (List.cons_prefix_cons.1 (separator?_eq_some hk)).2
  have hne : w ≠ k.keyword.toList := by
    rintro rfl
    have hp := hw.plain
    rw [isConnective_keyword] at hp
    cases hp
  rw [List.append_assoc] at ht
  rcases List.append_eq_append_iff.1 ht with ⟨v, rfl, hv⟩ | ⟨v, hv, rfl⟩
  · -- a word that goes on after the connective would hold the blank that follows it
    cases v with
    | nil => exact hne (List.append_nil _)
    | cons x v =>
      obtain ⟨rfl, _⟩ := List.cons.inj hv
      obtain ⟨r, _, hr⟩ := hw.carries (.outside ' ') rfl
      have hb : Carries d endsWord isSettled isCalm 0 0 k.keyword.toList :=
        Carries.bare (p := Char.isAlpha) (by decide) (by cases k <;> decide) (by cases k <;> decide)
      obtain ⟨r₁, hr₁, hk⟩ := hb (.outside ' ') rfl
      rw [Scan.run_append, hk] at hr
      obtain ⟨_, _, hs, _⟩ := Scan.step_of_run hr
      have hx := isBlank_eq_false_of_step (Reading.isSettled_of_isCalm hr₁) hs
      rw [hspace] at hx
      cases hx
  · -- a word that ends within the connective would be followed by one of its letters
    cases v with
    | nil => exact hne ((List.append_nil w).symm.trans hv.symm)
    | cons x v =>
      have hx := isBlank_keyword k (c := x) (by rw [hv]; simp)
      rw [hrest x rfl] at hx
      cases hx

/-- Phrases are kept whole, before another separator or at the end. -/
theorem splitTop_phrase (hspace : Text.isBlank space = true) {p : List Char} (hp : Phrase d p) {r : Reading}
    (hr : r.isCalm = true) : ∃ r', isSettled r' = true ∧ ∀ rest : List Char,
      (∀ c, rest.head? = some c → Text.isBlank c = true) →
      splitTop d space 0 ⟨r, 0, false⟩ (p ++ rest) =
        (p ++ (splitTop d space 0 ⟨r', 0, false⟩ rest).1, (splitTop d space 0 ⟨r', 0, false⟩ rest).2) := by
  induction hp with
  | word hw =>
    obtain ⟨r', hr', h⟩ := hw.carries r hr
    exact ⟨r', hr', fun rest _ => splitTop_word hspace h rest⟩
  | @spaced cs w c _ hc hw ih =>
    obtain ⟨r₁, hr₁, hcs⟩ := ih
    have hplain : isPlain c = true := isPlain_of_class (by decide) hc
    have hs : Scan.step d endsStatement ⟨r₁, 0, false⟩ c = ⟨.outside c, 0, false⟩ := by
      rw [Scan.step_plain hr₁ hplain, endsStatement_eq_false 0 hplain]
    obtain ⟨r', hr', h⟩ := hw.carries (.outside c) (isCalm_of_isPlain hplain)
    refine ⟨r', hr', fun rest hrest => ?_⟩
    have hk := separator?_word hspace hw hrest c
    rw [List.append_assoc, hcs _ (by simpa using hc), List.cons_append, splitTop_keep fun _ => hk, hs,
      splitTop_word hspace h]
    simp

theorem carries_separator (hspace : Text.isBlank space = true) (k : Connective) :
    Carries d endsStatement isSettled isCalm 0 0 (separator space k) := by
  have hs : isPlain space = true := isPlain_of_class (by decide) hspace
  have hk : k.keyword.toList.all isPlain = true := by cases k <;> decide
  apply Carries.of_isPlain (List.cons_ne_nil _ _)
  simp [hs, hk]

theorem splitTop_separator (hspace : Text.isBlank space = true) (k : Connective) {r : Reading}
    (hr : r.isSettled = true) : ∃ r', isCalm r' = true ∧ ∀ rest : List Char,
      splitTop d space 0 ⟨r, 0, false⟩ (separator space k ++ rest) =
        ([], (k, (splitTop d space 0 ⟨r', 0, false⟩ rest).1) :: (splitTop d space 0 ⟨r', 0, false⟩ rest).2) := by
  obtain ⟨r', hr', h⟩ := carries_separator (d := d) hspace k r hr
  refine ⟨r', hr', fun rest => ?_⟩
  have ht : (Scan.mk r 0 false).isTop = true := by simp [Scan.isTop, hr]
  have hk := separator?_append space k rest
  have hl : k.keyword.length + 1 = (k.keyword.toList ++ [space]).length := by cases k <;> rfl
  rw [separator, Scan.run_cons] at h
  rw [separator, List.cons_append] at hk ⊢
  rw [splitTop, if_pos ht, hk]
  simp only [hl, splitTop_skip, h]

/-- A text of phrases with one connective between neighbours falls apart into them. -/
theorem splitTop_intercalate (hspace : Text.isBlank space = true) (k : Connective) {p : List Char}
    {ps : List (List Char)} (h : ∀ q ∈ p :: ps, Phrase d q) {r : Reading} (hr : r.isCalm = true) :
    splitTop d space 0 ⟨r, 0, false⟩ ((separator space k).intercalate (p :: ps)) =
      (p, ps.map fun q => (k, q)) := by
  induction ps generalizing p r with
  | nil =>
    obtain ⟨r', _, hp⟩ := splitTop_phrase hspace (h p (by simp)) hr
    have hn := hp [] nofun
    rw [List.append_nil] at hn
    rw [List.intercalate_singleton, hn]
    simp [splitTop]
  | cons q ps ih =>
    obtain ⟨r₁, hr₁, hp⟩ := splitTop_phrase hspace (h p (by simp)) hr
    obtain ⟨r₂, hr₂, hs⟩ := splitTop_separator hspace k hr₁
    have hq := ih (fun x hx => h x (List.mem_cons_of_mem p hx)) hr₂
    rw [List.intercalate_cons_cons, List.append_assoc, hp _ (by simpa [separator] using hspace), hs, hq]
    simp

end FetchQuery.Sql
