import FetchQuery.Proofs.ColumnText

namespace FetchQuery.Text

theorem undoubled?_doubled (close : Char) (cs rest : List Char) (h : rest.head? ≠ some close) :
    undoubled? close (doubled close cs ++ close :: rest) = some (cs, rest) := by
  induction cs with
  | nil =>
    cases rest with
    | nil => simp [doubled, undoubled?]
    | cons c rest =>
      have hc : c ≠ close := by simpa using h
      simp [doubled, undoubled?, hc]
  | cons c cs ih =>
    by_cases hc : c = close
    · simp [doubled, undoubled?, hc, ih]
    · rw [doubled, if_neg hc, List.cons_append, undoubled?.eq_def]
      simp [hc, ih]

theorem split_eq_singleton {sep : Char} {cs : List Char} (h : sep ∉ cs) : split sep cs = [cs] := by
  induction cs with
  | nil => rfl
  | cons c cs ih =>
    rw [List.mem_cons, not_or] at h
    rw [split, if_neg (Ne.symm h.1), ih h.2]

theorem split_append {sep : Char} {cs : List Char} (h : sep ∉ cs) (rest : List Char) :
    split sep (cs ++ sep :: rest) = cs :: split sep rest := by
  induction cs with
  | nil => simp [split]
  | cons c cs ih =>
    rw [List.mem_cons, not_or] at h
    rw [List.cons_append, split, if_neg (Ne.symm h.1), ih h.2]

theorem split_intercalate {sep : Char} {pieces : List (List Char)} (hn : pieces ≠ [])
    (h : ∀ p ∈ pieces, sep ∉ p) : split sep ([sep].intercalate pieces) = pieces := by
  match pieces with
  | [] => exact absurd rfl hn
  | [p] =>
    rw [List.intercalate_singleton]
    exact split_eq_singleton (h p List.mem_cons_self)
  | p :: q :: pieces =>
    rw [List.forall_mem_cons] at h
    rw [List.intercalate_cons_cons, List.append_assoc, List.singleton_append, split_append h.1,
      split_intercalate (List.cons_ne_nil q pieces) h.2]

theorem mem_intercalate {sep c : Char} {pieces : List (List Char)} (h : c ∈ [sep].intercalate pieces) :
    c = sep ∨ ∃ p ∈ pieces, c ∈ p := by
  match pieces with
  | [] => cases h
  | [p] =>
    rw [List.intercalate_singleton] at h
    exact .inr ⟨p, List.mem_cons_self, h⟩
  | p :: q :: pieces =>
    rw [List.intercalate_cons_cons, List.mem_append, List.mem_append, List.mem_singleton] at h
    rcases h with (h | h) | h
    · exact .inr ⟨p, List.mem_cons_self, h⟩
    · exact .inl h
    · rcases mem_intercalate h with h | ⟨r, hr, h⟩
      · exact .inl h
      · exact .inr ⟨r, List.mem_cons_of_mem p hr, h⟩

end FetchQuery.Text

namespace FetchQuery.Sql

/-- The text that stands in a pair of single quotes, with the doubled ones inside read as one. -/
def quotedText? (token : String) : Option String :=
  match token.toList with
  | '\x27' :: rest =>
    match Text.undoubled? '\x27' rest with
    | some (text, []) => some (String.ofList text)
    | _ => none
  | _ => none

theorem quotedText?_quoted (s : String) : quotedText? (quoted s) = some s := by
  have h := Text.undoubled?_doubled '\x27' s.toList [] (by simp)
  simp [quotedText?, quoted, Text.enclose, h]

def IsDigits (cs : List Char) : Prop := cs ≠ [] ∧ ∀ c ∈ cs, Text.isDecimalDigit c = true

def IsFraction (cs : List Char) : Prop := cs = [] ∨ ∃ digits, cs = '.' :: digits ∧ IsDigits digits

/-- An optional sign, digits, and an optional fraction. -/
def MatchesNumber (cs : List Char) : Prop :=
  ∃ sign whole fraction, cs = sign ++ (whole ++ fraction) ∧ sign ∈ [[], ['+'], ['-']] ∧ IsDigits whole ∧
    IsFraction fraction

theorem IsDigits.not_mem {cs : List Char} (h : IsDigits cs) {c : Char}
    (hc : Text.isDecimalDigit c = false) : c ∉ cs := by
  intro hm
  rw [h.2 c hm] at hc
  cases hc

theorem IsDigits.head {cs rest : List Char} (h : IsDigits cs) {c : Char} {ds : List Char}
    (he : cs ++ rest = c :: ds) : Text.isDecimalDigit c = true := by
  obtain ⟨d, digits, rfl⟩ := List.exists_cons_of_ne_nil h.1
  obtain ⟨rfl, _⟩ := List.cons.inj he
  exact h.2 d List.mem_cons_self

theorem isUnsignedNumber_iff {cs : List Char} :
    isUnsignedNumber cs = true ↔
      ∃ whole fraction, cs = whole ++ fraction ∧ IsDigits whole ∧ IsFraction fraction := by
  have hpoint : Text.isDecimalDigit '.' = false := by decide
  constructor
  · intro h
    have hs := Text.intercalate_split '.' cs
    unfold isUnsignedNumber at h
    split at h
    next whole he =>
      rw [he, List.intercalate_singleton] at hs
      simp only [Bool.and_eq_true, Bool.not_eq_true', List.isEmpty_eq_false_iff, List.all_eq_true] at h
      exact ⟨whole, [], by rw [List.append_nil, hs], h, .inl rfl⟩
    next whole digits he =>
      rw [he] at hs
      simp only [Bool.and_eq_true, Bool.not_eq_true', List.isEmpty_eq_false_iff, List.all_eq_true] at h
      obtain ⟨⟨⟨hw, hwd⟩, hf⟩, hfd⟩ := h
      refine ⟨whole, '.' :: digits, ?_, ⟨hw, hwd⟩, .inr ⟨digits, rfl, hf, hfd⟩⟩
      simpa using hs.symm
    next => cases h
  · rintro ⟨whole, fraction, rfl, hw, rfl | ⟨digits, rfl, hd⟩⟩
    · rw [List.append_nil, isUnsignedNumber, Text.split_eq_singleton (hw.not_mem hpoint)]
      simpa [List.isEmpty_eq_false_iff, IsDigits] using hw
    · rw [isUnsignedNumber, Text.split_append (hw.not_mem hpoint),
        Text.split_eq_singleton (hd.not_mem hpoint)]
      simpa [List.isEmpty_eq_false_iff, and_assoc, IsDigits] using And.intro hw hd

theorem isNumber_iff {cs : List Char} : isNumber cs = true ↔ MatchesNumber cs := by
  constructor
  · intro h
    unfold isNumber at h
    split at h
    next cs =>
      obtain ⟨whole, fraction, rfl, hw, hf⟩ := isUnsignedNumber_iff.1 h
      exact ⟨['+'], whole, fraction, rfl, by simp, hw, hf⟩
    next cs =>
      obtain ⟨whole, fraction, rfl, hw, hf⟩ := isUnsignedNumber_iff.1 h
      exact ⟨['-'], whole, fraction, rfl, by simp, hw, hf⟩
    next =>
      obtain ⟨whole, fraction, rfl, hw, hf⟩ := isUnsignedNumber_iff.1 h
      exact ⟨[], whole, fraction, rfl, by simp, hw, hf⟩
  · rintro ⟨sign, whole, fraction, rfl, hs, hw, hf⟩
    have hu : isUnsignedNumber (whole ++ fraction) = true :=
      isUnsignedNumber_iff.2 ⟨whole, fraction, rfl, hw, hf⟩
    simp only [List.mem_cons, List.not_mem_nil, or_false] at hs
    rcases hs with rfl | rfl | rfl
    · rw [List.nil_append]
      unfold isNumber
      split
      next cs he => exact absurd (hw.head he) (by decide)
      next cs he => exact absurd (hw.head he) (by decide)
      next => exact hu
    · exact hu
    · exact hu

theorem MatchesNumber.mem {cs : List Char} (h : MatchesNumber cs) {c : Char} (hc : c ∈ cs) :
    c ∈ ['+', '-', '.'] ∨ Text.isDecimalDigit c = true := by
  obtain ⟨sign, whole, fraction, rfl, hs, hw, hf⟩ := h
  rcases List.mem_append.1 hc with hc | hc
  · simp only [List.mem_cons, List.not_mem_nil, or_false] at hs
    rcases hs with rfl | rfl | rfl
    · cases hc
    · obtain rfl := List.mem_singleton.1 hc
      exact .inl (by decide)
    · obtain rfl := List.mem_singleton.1 hc
      exact .inl (by decide)
  · rcases List.mem_append.1 hc with hc | hc
    · exact .inr (hw.2 c hc)
    · rcases hf with rfl | ⟨digits, rfl, hd⟩
      · cases hc
      · rcases List.mem_cons.1 hc with rfl | hc
        · exact .inl (by decide)
        · exact .inr (hd.2 c hc)

/-- Groups of 8, 4, 4, 4 and 12 hexadecimal digits with hyphens between them. -/
def IsGuid (cs : List Char) : Prop :=
  ∃ groups : List (List Char), groups.map List.length = [8, 4, 4, 4, 12] ∧
    (∀ g ∈ groups, ∀ c ∈ g, Text.isHexDigit c = true) ∧ cs = ['-'].intercalate groups

def HoldsGuid (cs inner : List Char) : Prop :=
  IsGuid inner ∧ (cs = inner ∨ cs = '{' :: (inner ++ ['}']))

theorem IsGuid.mem {cs : List Char} (h : IsGuid cs) {c : Char} (hc : c ∈ cs) :
    c = '-' ∨ Text.isHexDigit c = true := by
  obtain ⟨groups, _, hg, rfl⟩ := h
  rcases Text.mem_intercalate hc with hc | ⟨g, hm, hc⟩
  · exact .inl hc
  · exact .inr (hg g hm c hc)

theorem HoldsGuid.mem {cs inner : List Char} (h : HoldsGuid cs inner) {c : Char} (hc : c ∈ cs) :
    c ∈ ['{', '}', '-'] ∨ Text.isHexDigit c = true := by
  have hinner : c ∈ inner → c ∈ ['{', '}', '-'] ∨ Text.isHexDigit c = true := by
    intro hc
    rcases h.1.mem hc with rfl | hx
    · exact .inl (by decide)
    · exact .inr hx
  rcases h.2 with rfl | rfl
  · exact hinner hc
  · rcases List.mem_cons.1 hc with rfl | hc
    · exact .inl (by decide)
    · rcases List.mem_append.1 hc with hc | hc
      · exact hinner hc
      · obtain rfl := List.mem_singleton.1 hc
        exact .inl (by decide)

theorem isGuid_iff {cs : List Char} :
    IsGuid cs ↔ (Text.split '-' cs).map List.length = [8, 4, 4, 4, 12] ∧
      (Text.split '-' cs).all (·.all Text.isHexDigit) = true := by
  constructor
  · rintro ⟨groups, hl, hg, rfl⟩
    have hn : groups ≠ [] := by
      rintro rfl
      cases hl
    have hm : ∀ g ∈ groups, '-' ∉ g := fun g hg' hc => absurd (hg g hg' '-' hc) (by decide)
    rw [Text.split_intercalate hn hm]
    simpa [hl] using hg
  · rintro ⟨hl, hg⟩
    refine ⟨_, hl, ?_, (Text.intercalate_split '-' cs).symm⟩
    simpa using hg

theorem eq_withoutBraces (cs : List Char) :
    cs = withoutBraces cs ∨ cs = '{' :: (withoutBraces cs ++ ['}']) := by
  unfold withoutBraces
  split
  next rest =>
    split
    next h =>
      obtain ⟨inner, rfl⟩ := List.getLast?_eq_some_iff.1 h
      right
      rw [List.dropLast_concat]
    next => exact .inl rfl
  next => exact .inl rfl

theorem withoutBraces_of_holdsGuid {cs inner : List Char} (h : HoldsGuid cs inner) :
    withoutBraces cs = inner := by
  obtain ⟨hg, rfl | rfl⟩ := h
  · unfold withoutBraces
    split
    next rest =>
      have hb := hg.mem (c := '{') List.mem_cons_self
      exact absurd hb (by decide)
    next => rfl
  · simp [withoutBraces]

theorem guid?_eq_some_iff {cs g : List Char} :
    guid? cs = some g ↔ ∃ inner, HoldsGuid cs inner ∧ g = inner.map Char.toLower := by
  unfold guid?
  simp only [← isGuid_iff, Option.ite_none_right_eq_some, Option.some.injEq]
  constructor
  · rintro ⟨hg, rfl⟩
    exact ⟨withoutBraces cs, ⟨hg, eq_withoutBraces cs⟩, rfl⟩
  · rintro ⟨inner, h, rfl⟩
    rw [withoutBraces_of_holdsGuid h]
    exact ⟨h.1, rfl⟩

/-- The token is the value itself if that is a number, and otherwise a text in quotes: the canonical form
of a GUID, or else the value. -/
def Denotes (value token : String) : Prop :=
  (MatchesNumber value.toList → token = value) ∧
    (¬ MatchesNumber value.toList → ∃ text, quotedText? token = some text ∧
      (∀ inner, HoldsGuid value.toList inner → text = String.ofList (inner.map Char.toLower)) ∧
      ((∀ inner, ¬ HoldsGuid value.toList inner) → text = value))

theorem literal_denotes (value : String) : Denotes value (literal value) := by
  constructor
  · intro h
    rw [literal, if_pos (isNumber_iff.2 h)]
  · intro h
    rw [literal, if_neg (mt isNumber_iff.1 h)]
    cases hg : guid? value.toList with
    | some g =>
      obtain ⟨inner, hi, rfl⟩ := guid?_eq_some_iff.1 hg
      refine ⟨_, quotedText?_quoted _, ?_, fun hn => absurd hi (hn inner)⟩
      intro inner' hi'
      rw [← withoutBraces_of_holdsGuid hi, ← withoutBraces_of_holdsGuid hi']
    | none =>
      refine ⟨_, quotedText?_quoted value, fun inner hi => ?_, fun _ => rfl⟩
      rw [guid?_eq_some_iff.2 ⟨inner, hi, rfl⟩] at hg
      cases hg

/-- A percent sign makes a text neither a number nor a GUID. -/
theorem literal_of_percent {value : String} (h : '%' ∈ value.toList) :
    literal value = quoted value := by
  have hn : ¬ MatchesNumber value.toList := by
    intro hn
    exact absurd (hn.mem h) (by decide)
  have hg : guid? value.toList = none := by
    apply Option.eq_none_iff_forall_ne_some.2
    intro g hg
    obtain ⟨inner, hi, _⟩ := guid?_eq_some_iff.1 hg
    exact absurd (hi.mem h) (by decide)
  rw [literal, if_neg (mt isNumber_iff.1 hn), hg]

end FetchQuery.Sql
