import FetchQuery.Proofs.LiteralText
import Mathlib.Data.List.Forall2

namespace FetchQuery.Sql

/-- The characters that may stand at each place of groups of hexadecimal digits with hyphens between. -/
def groupPlaces (lengths : List Nat) : List (Char → Bool) :=
  [(· == '-')].intercalate (lengths.map (List.replicate · Text.isHexDigit))

def isGuidShaped (cs : List Char) : Bool :=
  List.all₂ (fun c place => place c) cs (groupPlaces [8, 4, 4, 4, 12])

def lowered (cs : List Char) : String := String.ofList (cs.map Char.toLower)

/-- A GUID in lower case and without the braces around it, and any other value as it is. -/
def canonical (value : String) : String :=
  let cs := value.toList
  let inner := cs.tail.dropLast
  if isGuidShaped cs then lowered cs
  else if cs = '{' :: (inner ++ ['}']) ∧ isGuidShaped inner then lowered inner
  else value

/-- What a reader of SQL takes a literal for: the text between quotes, or all of it where it does not
start with one. -/
def literalValue? (token : String) : Option String :=
  if token.toList.head? = some '\x27' then quotedText? token else some token

theorem forall₂_append_iff {α β : Type} {R : α → β → Prop} {l : List α} {m n : List β} :
    List.Forall₂ R l (m ++ n) ↔ ∃ a b, l = a ++ b ∧ List.Forall₂ R a m ∧ List.Forall₂ R b n := by
  constructor
  · intro h
    exact ⟨l.take m.length, l.drop m.length, (List.take_append_drop _ _).symm,
      List.forall₂_take_append l m n h, List.forall₂_drop_append l m n h⟩
  · rintro ⟨a, b, rfl, ha, hb⟩
    exact List.rel_append ha hb

theorem forall₂_replicate_iff {cs : List Char} {n : Nat} {p : Char → Bool} :
    List.Forall₂ (fun c (place : Char → Bool) => place c = true) cs (List.replicate n p) ↔
      cs.length = n ∧ ∀ c ∈ cs, p c = true := by
  induction n generalizing cs with
  | zero => simp +contextual
  | succ n ih =>
    cases cs with
    | nil => simp [List.replicate_succ]
    | cons c cs =>
      rw [List.replicate_succ, List.forall₂_cons, ih, List.length_cons, Nat.add_right_cancel_iff,
        List.forall_mem_cons, and_left_comm]

theorem groupPlaces_cons_cons (n m : Nat) (lengths : List Nat) :
    groupPlaces (n :: m :: lengths) =
      List.replicate n Text.isHexDigit ++ (· == '-') :: groupPlaces (m :: lengths) := by
  simp [groupPlaces, List.intercalate_cons_cons]

theorem forall₂_groupPlaces_iff {cs : List Char} {lengths : List Nat} :
    List.Forall₂ (fun c (place : Char → Bool) => place c = true) cs (groupPlaces lengths) ↔
      ∃ groups : List (List Char), groups.map List.length = lengths ∧
        (∀ g ∈ groups, ∀ c ∈ g, Text.isHexDigit c = true) ∧ cs = ['-'].intercalate groups := by
  match lengths with
  | [] => simp +contextual [groupPlaces]
  | [n] =>
    rw [groupPlaces, List.map_singleton, List.intercalate_singleton, forall₂_replicate_iff]
    constructor
    · rintro ⟨hl, hg⟩
      exact ⟨[cs], by simp [hl], by simpa using hg, by simp⟩
    · rintro ⟨groups, hl, hg, rfl⟩
      obtain ⟨g, rfl, hn⟩ := List.map_eq_singleton_iff.1 hl
      rw [List.intercalate_singleton]
      exact ⟨hn, hg g List.mem_cons_self⟩
  | n :: m :: lengths =>
    rw [groupPlaces_cons_cons, forall₂_append_iff]
    constructor
    · rintro ⟨g, _, rfl, hg, hr⟩
      obtain ⟨hl, hg⟩ := forall₂_replicate_iff.1 hg
      obtain ⟨c, rest, hc, hrest, rfl⟩ := List.forall₂_cons_right_iff.1 hr
      obtain rfl := beq_iff_eq.1 hc
      obtain ⟨groups, hls, hgs, rfl⟩ := forall₂_groupPlaces_iff.1 hrest
      obtain ⟨h, groups, rfl⟩ := List.exists_cons_of_ne_nil (l := groups) (by rintro rfl; cases hls)
      refine ⟨g :: h :: groups, by simp_all, List.forall_mem_cons.2 ⟨hg, hgs⟩, ?_⟩
      simp [List.intercalate_cons_cons]
    · rintro ⟨groups, hl, hg, rfl⟩
      obtain ⟨g, groups, rfl, hgl, hl⟩ := List.map_eq_cons_iff.1 hl
      obtain ⟨h, groups, rfl, _, _⟩ := List.map_eq_cons_iff.1 hl
      rw [List.forall_mem_cons] at hg
      refine ⟨g, '-' :: ['-'].intercalate (h :: groups), by simp [List.intercalate_cons_cons],
        forall₂_replicate_iff.2 ⟨hgl, hg.1⟩, .cons (by simp) ?_⟩
      exact forall₂_groupPlaces_iff.2 ⟨h :: groups, hl, hg.2, rfl⟩

theorem isGuidShaped_iff {cs : List Char} : isGuidShaped cs = true ↔ IsGuid cs := by
  rw [isGuidShaped, List.all₂_eq_true]
  exact forall₂_groupPlaces_iff

theorem canonical_of_holdsGuid {value : String} {inner : List Char} (h : HoldsGuid value.toList inner) :
    canonical value = lowered inner := by
  obtain ⟨hg, he | he⟩ := h
  · simp [canonical, he, isGuidShaped_iff.2 hg]
  · -- a brace is no part of a GUID, so only the text between the braces is one
    have hn : isGuidShaped value.toList = false := by
      rw [Bool.eq_false_iff, ne_eq, isGuidShaped_iff]
      intro hv
      have hb := hv.mem (c := '{') (by rw [he]; exact List.mem_cons_self)
      exact absurd hb (by decide)
    rw [he] at hn
    simp [canonical, hn, he, isGuidShaped_iff.2 hg]

theorem canonical_of_not_holdsGuid {value : String} (h : ∀ inner, ¬ HoldsGuid value.toList inner) :
    canonical value = value := by
  simp only [canonical]
  split
  next hg => exact absurd ⟨isGuidShaped_iff.1 hg, .inl rfl⟩ (h _)
  next =>
    split
    next hg => exact absurd ⟨isGuidShaped_iff.1 hg.2, .inr hg.1⟩ (h _)
    next => rfl

theorem isHexDigit_toLower {c : Char} (h : Text.isHexDigit c = true) :
    Text.isHexDigit c.toLower = true ∧ c.toLower.toLower = c.toLower := by
  have hall : ∀ n < 128, Text.isHexDigit (Char.ofNat n) = true →
      Text.isHexDigit (Char.ofNat n).toLower = true ∧
        (Char.ofNat n).toLower.toLower = (Char.ofNat n).toLower := by decide
  have hc : c.toNat < 128 := by
    by_contra hc
    have hle : ∀ d : Char, d.toNat < 128 → ¬ c ≤ d := by
      intro d hd hcd
      exact hc (Nat.lt_of_le_of_lt hcd hd)
    have h9 := hle '9' (by decide)
    have hf := hle 'f' (by decide)
    have hF := hle 'F' (by decide)
    simp [Text.isHexDigit, Text.hexValue?, h9, hf, hF] at h
  have hlower := hall c.toNat hc
  rw [Char.ofNat_toNat] at hlower
  exact hlower h

theorem IsGuid.lower {cs : List Char} (h : IsGuid cs) : IsGuid (cs.map Char.toLower) := by
  obtain ⟨groups, hl, hg, rfl⟩ := h
  refine ⟨groups.map (List.map Char.toLower), ?_, ?_, ?_⟩
  · rw [List.map_map, ← hl]
    exact List.map_congr_left fun g _ => List.length_map ..
  · intro g hm c hc
    obtain ⟨g, hm', rfl⟩ := List.mem_map.1 hm
    obtain ⟨c, hc', rfl⟩ := List.mem_map.1 hc
    exact (isHexDigit_toLower (hg g hm' c hc')).1
  · simp only [List.map_eq_flatMap, Text.flatMap_intercalate]
    rfl

theorem IsGuid.lower_lower {cs : List Char} (h : IsGuid cs) :
    (cs.map Char.toLower).map Char.toLower = cs.map Char.toLower := by
  rw [List.map_map]
  apply List.map_congr_left
  intro c hc
  rcases h.mem hc with rfl | hx
  · rfl
  · exact (isHexDigit_toLower hx).2

theorem MatchesNumber.hyphen_not_mem_tail {cs : List Char} (h : MatchesNumber cs) : '-' ∉ cs.tail := by
  obtain ⟨sign, whole, fraction, rfl, hs, hw, hf⟩ := h
  have hhyphen : Text.isDecimalDigit '-' = false := by decide
  have hrest : '-' ∉ whole ++ fraction := by
    intro hm
    rcases List.mem_append.1 hm with hm | hm
    · exact hw.not_mem hhyphen hm
    · rcases hf with rfl | ⟨digits, rfl, hd⟩
      · cases hm
      · rcases List.mem_cons.1 hm with hm | hm
        · exact absurd hm (by decide)
        · exact hd.not_mem hhyphen hm
  simp only [List.mem_cons, List.not_mem_nil, or_false] at hs
  rcases hs with rfl | rfl | rfl
  · exact fun hm => hrest (List.mem_of_mem_tail hm)
  · exact hrest
  · exact hrest

theorem IsGuid.hyphen_mem_tail {cs : List Char} (h : IsGuid cs) : '-' ∈ cs.tail := by
  obtain ⟨groups, hl, _, rfl⟩ := h
  obtain ⟨g, groups, rfl, hg, hl⟩ := List.map_eq_cons_iff.1 hl
  obtain ⟨h, groups, rfl, _, _⟩ := List.map_eq_cons_iff.1 hl
  obtain ⟨c, g, rfl⟩ := List.exists_cons_of_length_eq_add_one hg
  simp [List.intercalate_cons_cons]

theorem HoldsGuid.not_matchesNumber {cs inner : List Char} (h : HoldsGuid cs inner) :
    ¬ MatchesNumber cs := by
  intro hn
  have hm := h.1.hyphen_mem_tail
  apply hn.hyphen_not_mem_tail
  obtain ⟨_, rfl | rfl⟩ := h
  · exact hm
  · exact List.mem_append_left _ (List.mem_of_mem_tail hm)

theorem HoldsGuid.lower {value : String} {inner : List Char} (h : HoldsGuid value.toList inner) :
    HoldsGuid (canonical value).toList (inner.map Char.toLower) := by
  rw [canonical_of_holdsGuid h, lowered, String.toList_ofList]
  exact ⟨h.1.lower, .inl rfl⟩

theorem canonical_canonical (value : String) : canonical (canonical value) = canonical value := by
  by_cases h : ∃ inner, HoldsGuid value.toList inner
  · obtain ⟨inner, h⟩ := h
    rw [canonical_of_holdsGuid h.lower, canonical_of_holdsGuid h, lowered, lowered, h.1.lower_lower]
  · have hc := canonical_of_not_holdsGuid (not_exists.1 h)
    rw [hc, hc]

theorem isNumber_canonical (value : String) :
    isNumber (canonical value).toList = isNumber value.toList := by
  by_cases h : ∃ inner, HoldsGuid value.toList inner
  · obtain ⟨inner, h⟩ := h
    have hv := mt isNumber_iff.1 h.not_matchesNumber
    have hc := mt isNumber_iff.1 h.lower.not_matchesNumber
    rw [Bool.eq_false_iff.2 hv, Bool.eq_false_iff.2 hc]
  · rw [canonical_of_not_holdsGuid (not_exists.1 h)]

theorem literal_eq (value : String) :
    literal value = if isNumber value.toList then canonical value else quoted (canonical value) := by
  by_cases h : ∃ inner, HoldsGuid value.toList inner
  · obtain ⟨inner, h⟩ := h
    have hn := mt isNumber_iff.1 h.not_matchesNumber
    rw [literal, if_neg hn, if_neg hn, guid?_eq_some_iff.2 ⟨inner, h, rfl⟩, canonical_of_holdsGuid h,
      lowered]
  · have hg : guid? value.toList = none := by
      apply Option.eq_none_iff_forall_ne_some.2
      intro g hg
      obtain ⟨inner, hi, _⟩ := guid?_eq_some_iff.1 hg
      exact h ⟨inner, hi⟩
    rw [literal, hg, canonical_of_not_holdsGuid (not_exists.1 h)]

theorem head?_quoted (s : String) : (quoted s).toList.head? = some '\x27' := by
  simp [quoted, Text.enclose]

theorem MatchesNumber.head?_ne {cs : List Char} (h : MatchesNumber cs) : cs.head? ≠ some '\x27' := by
  intro he
  exact absurd (h.mem (List.mem_of_head? he)) (by decide)

theorem literalValue?_literal (value : String) :
    literalValue? (literal value) = some (canonical value) := by
  rw [literal_eq]
  split
  next h =>
    rw [← isNumber_canonical] at h
    rw [literalValue?, if_neg (isNumber_iff.1 h).head?_ne]
  next => rw [literalValue?, if_pos (head?_quoted _), quotedText?_quoted]

theorem literal_canonical_eq (value : String) : literal (canonical value) = literal value := by
  rw [literal_eq, literal_eq value, isNumber_canonical, canonical_canonical]

/-- Literals are the same for values of one canonical form only, and that form can be read off them. -/
theorem literal_canonical (v w : String) :
    (literal v = literal w ↔ canonical v = canonical w) ∧ literal (canonical v) = literal v ∧
      literalValue? (literal v) = some (canonical v) := by
  refine ⟨⟨fun h => ?_, fun h => ?_⟩, literal_canonical_eq v, literalValue?_literal v⟩
  · apply Option.some.inj
    rw [← literalValue?_literal v, ← literalValue?_literal w, h]
  · rw [← literal_canonical_eq v, ← literal_canonical_eq w, h]

example : literal "{6F9619FF-8B86-D011-B42D-00C04FC964FF}" = "'6f9619ff-8b86-d011-b42d-00c04fc964ff'" := by
  decide

def IsAsciiDigits (cs : List Char) : Prop := cs ≠ [] ∧ ∀ c ∈ cs, Text.isAsciiDigit c = true

/-- A number that SQL can read: an optional sign, digits from `0` to `9`, and an optional fraction. -/
def IsSqlNumber (cs : List Char) : Prop :=
  ∃ sign whole fraction, cs = sign ++ (whole ++ fraction) ∧ sign ∈ [[], ['+'], ['-']] ∧ IsAsciiDigits whole ∧
    (fraction = [] ∨ ∃ digits, fraction = '.' :: digits ∧ IsAsciiDigits digits)

theorem IsSqlNumber.isAsciiDigit {cs : List Char} (h : IsSqlNumber cs) {c : Char} (hc : c ∈ cs)
    (hd : Text.isDecimalDigit c = true) : Text.isAsciiDigit c = true := by
  obtain ⟨sign, whole, fraction, rfl, hs, hw, hf⟩ := h
  rcases List.mem_append.1 hc with hc | hc
  · simp only [List.mem_cons, List.not_mem_nil, or_false] at hs
    rcases hs with rfl | rfl | rfl
    · cases hc
    · obtain rfl := List.mem_singleton.1 hc
      exact absurd hd (by decide)
    · obtain rfl := List.mem_singleton.1 hc
      exact absurd hd (by decide)
  · rcases List.mem_append.1 hc with hc | hc
    · exact hw.2 c hc
    · rcases hf with rfl | ⟨digits, rfl, hf⟩
      · cases hc
      · rcases List.mem_cons.1 hc with rfl | hc
        · exact absurd hd (by decide)
        · exact hf.2 c hc

theorem MatchesNumber.isSqlNumber_iff {cs : List Char} (h : MatchesNumber cs) :
    IsSqlNumber cs ↔ ∀ c ∈ cs, Text.isDecimalDigit c = true → Text.isAsciiDigit c = true := by
  refine ⟨fun hn c hc => hn.isAsciiDigit hc, fun ha => ?_⟩
  obtain ⟨sign, whole, fraction, rfl, hs, hw, hf⟩ := h
  have hdigits : ∀ digits, (∀ c ∈ digits, c ∈ sign ++ (whole ++ fraction)) → IsDigits digits →
      IsAsciiDigits digits :=
    fun digits hm hd => ⟨hd.1, fun c hc => ha c (hm c hc) (hd.2 c hc)⟩
  refine ⟨sign, whole, fraction, rfl, hs, hdigits whole (by simp +contextual) hw, ?_⟩
  rcases hf with rfl | ⟨digits, rfl, hf⟩
  · exact .inl rfl
  · exact .inr ⟨digits, rfl, hdigits digits (by simp +contextual) hf⟩

/-- Numbers and nothing else stand without quotes. Such a literal is a number of SQL exactly if no digit
of another script is in it. -/
theorem literal_unquoted (v : String) :
    (MatchesNumber v.toList → literal v = v ∧ (literal v).toList.head? ≠ some '\x27') ∧
      (¬ MatchesNumber v.toList → ∃ text, literal v = quoted text) ∧
      (((literal v).toList.head? ≠ some '\x27' → IsSqlNumber (literal v).toList) ↔
        (MatchesNumber v.toList →
          ∀ c ∈ v.toList, Text.isDecimalDigit c = true → Text.isAsciiDigit c = true)) := by
  by_cases h : MatchesNumber v.toList
  · have he := (literal_denotes v).1 h
    simp only [he, h, h.head?_ne, h.isSqlNumber_iff, ne_eq, not_false_eq_true, not_true_eq_false,
      and_self, forall_const, false_implies]
  · have he := literal_eq v
    rw [if_neg (mt isNumber_iff.1 h)] at he
    refine ⟨fun hn => absurd hn h, fun _ => ⟨_, he⟩, fun _ hn => absurd hn h, fun _ hq => ?_⟩
    rw [he] at hq
    exact absurd (head?_quoted _) hq

theorem literal_arabicThree :
    (literal "٣").toList.head? ≠ some '\x27' ∧ ¬ IsSqlNumber (literal "٣").toList := by
  have he : literal "٣" = "٣" := by decide
  rw [he]
  refine ⟨by decide, fun h => ?_⟩
  have hc := h.isAsciiDigit (c := '٣') (by decide) (by decide)
  exact absurd hc (by decide)

end FetchQuery.Sql
