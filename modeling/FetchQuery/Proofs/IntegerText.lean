import FetchQuery.Sql.Condition
import Mathlib.Data.List.Induction
import Mathlib.Data.List.TakeWhile
import Mathlib.Data.Nat.Digits.Defs

namespace FetchQuery.Text

section Stop

variable {p : Char → Bool} {cs rest : List Char} (hc : ∀ c ∈ cs, p c = true)
  (hr : ∀ c, rest.head? = some c → p c = false)

include hc hr

theorem takeWhile_append_stop : (cs ++ rest).takeWhile p = cs := by
  rw [List.takeWhile_append_of_pos hc]
  cases rest with
  | nil => simp
  | cons c rest => simp [hr c rfl]

theorem dropWhile_append_stop : (cs ++ rest).dropWhile p = rest := by
  rw [List.dropWhile_append_of_pos hc]
  cases rest with
  | nil => rfl
  | cons c rest => simp [hr c rfl]

end Stop

theorem dropBlanks_append {before cs after : List Char} (hb : ∀ c ∈ before ++ after, isBlank c = true)
    (hh : ∀ c, cs.head? = some c → isBlank c = false)
    (hl : ∀ c, cs.getLast? = some c → isBlank c = false) : dropBlanks (before ++ cs ++ after) = cs := by
  have hbefore : ∀ c ∈ before, isBlank c = true := fun c h => hb c (List.mem_append_left _ h)
  have hafter : ∀ c ∈ after, isBlank c = true := fun c h => hb c (List.mem_append_right _ h)
  cases cs with
  | nil =>
    have hall : (before ++ [] ++ after).dropWhile isBlank = [] := by
      rw [List.append_nil, ← List.append_nil (before ++ after)]
      exact dropWhile_append_stop hb (by simp)
    rw [dropBlanks, hall]
    rfl
  | cons c cs =>
    have hstart : ∀ d, (c :: cs ++ after).head? = some d → isBlank d = false := hh
    have hend : (after.reverse ++ (c :: cs).reverse).dropWhile isBlank = (c :: cs).reverse := by
      apply dropWhile_append_stop
      · simpa using hafter
      · simpa only [List.head?_reverse] using hl
    rw [dropBlanks, List.append_assoc, dropWhile_append_stop hbefore hstart, dropBlanksEnd, List.reverse_append,
      hend, List.reverse_reverse]

theorem exists_blanks_dropBlanks (cs : List Char) :
    ∃ before after, cs = before ++ dropBlanks cs ++ after ∧ ∀ c ∈ before ++ after, isBlank c = true := by
  have hstart := List.takeWhile_append_dropWhile (p := isBlank) (l := cs)
  have hend := List.takeWhile_append_dropWhile (p := isBlank) (l := (cs.dropWhile isBlank).reverse)
  refine ⟨cs.takeWhile isBlank, ((cs.dropWhile isBlank).reverse.takeWhile isBlank).reverse, ?_, ?_⟩
  · rw [dropBlanks, dropBlanksEnd, List.append_assoc, ← List.reverse_append, hend, List.reverse_reverse, hstart]
  · intro c hc
    cases List.mem_append.1 hc with
    | inl hc => exact List.mem_takeWhile_imp hc
    | inr hc => exact List.mem_takeWhile_imp (List.mem_reverse.1 hc)

theorem isAsciiDigit_iff {c : Char} : isAsciiDigit c = true ↔ 48 ≤ c.toNat ∧ c.toNat ≤ 57 := by
  rw [isAsciiDigit, Bool.and_eq_true, decide_eq_true_eq, decide_eq_true_eq]
  exact Iff.rfl

theorem isAsciiDigit_of_mem_toDigits {n : Nat} {c : Char} (h : c ∈ Nat.toDigits 10 n) :
    isAsciiDigit c = true := by
  have hd := Nat.isDigit_of_mem_toDigits (by decide) (by decide) h
  simpa [Char.isDigit, isAsciiDigit, Char.le_def] using hd

theorem natOfDigits_toDigits (n : Nat) : natOfDigits (Nat.toDigits 10 n) = n :=
  Nat.ofDigitChars_ten_toDigits

/-- One or more digits, and their value in base ten. -/
def WritesNat (cs : List Char) (n : Nat) : Prop :=
  cs ≠ [] ∧ (∀ c ∈ cs, isAsciiDigit c = true) ∧ n = Nat.ofDigits 10 (cs.map digitValue).reverse

def WritesInt (cs : List Char) (n : Int) : Prop :=
  ∃ sign digits k, cs = sign ++ digits ∧ WritesNat digits k ∧
    ((sign = [] ∨ sign = ['+']) ∧ n = k ∨ sign = ['-'] ∧ n = -k)

/-- An integer of 64 bits with sign, between blanks. -/
def WritesInt64 (s : String) (n : Int) : Prop :=
  ∃ before cs after, s.toList = before ++ cs ++ after ∧ (∀ c ∈ before ++ after, isBlank c = true) ∧
    WritesInt cs n ∧ -2 ^ 63 ≤ n ∧ n < 2 ^ 63

theorem natOfDigits_eq_ofDigits (cs : List Char) :
    natOfDigits cs = Nat.ofDigits 10 (cs.map digitValue).reverse := by
  induction cs using List.reverseRecOn with
  | nil => rfl
  | append_singleton cs c ih =>
    rw [natOfDigits, List.foldl_append, ← natOfDigits, ih, List.map_append, List.reverse_append]
    simp [Nat.ofDigits_cons, Nat.add_comm]

theorem readNat?_eq_some_iff {cs : List Char} {n : Nat} : readNat? cs = some n ↔ WritesNat cs n := by
  rw [readNat?, Option.ite_none_right_eq_some, natOfDigits_eq_ofDigits, WritesNat, Option.some.injEq, @eq_comm _ n]
  simp only [Bool.and_eq_true, Bool.not_eq_true', List.isEmpty_eq_false_iff, List.all_eq_true, and_assoc, ne_eq]

theorem WritesNat.isAsciiDigit_of_cons {c : Char} {cs : List Char} {n : Nat} (h : WritesNat (c :: cs) n) :
    isAsciiDigit c = true :=
  h.2.1 c List.mem_cons_self

theorem readInt?_eq_some_iff {cs : List Char} {n : Int} : readInt? cs = some n ↔ WritesInt cs n := by
  constructor
  · intro h
    unfold readInt? at h
    split at h
    next digits =>
      obtain ⟨k, hk, rfl⟩ := Option.map_eq_some_iff.1 h
      exact ⟨['+'], digits, k, rfl, readNat?_eq_some_iff.1 hk, .inl ⟨.inr rfl, rfl⟩⟩
    next digits =>
      obtain ⟨k, hk, rfl⟩ := Option.map_eq_some_iff.1 h
      exact ⟨['-'], digits, k, rfl, readNat?_eq_some_iff.1 hk, .inr ⟨rfl, rfl⟩⟩
    next =>
      obtain ⟨k, hk, rfl⟩ := Option.map_eq_some_iff.1 h
      exact ⟨[], cs, k, rfl, readNat?_eq_some_iff.1 hk, .inl ⟨.inl rfl, rfl⟩⟩
  · rintro ⟨sign, digits, k, rfl, hk, ⟨rfl | rfl, rfl⟩ | ⟨rfl, rfl⟩⟩
    · rw [List.nil_append]
      unfold readInt?
      -- digits start with no sign
      split
      next => exact absurd hk.isAsciiDigit_of_cons (by decide)
      next => exact absurd hk.isAsciiDigit_of_cons (by decide)
      next => exact Option.map_eq_some_iff.2 ⟨k, readNat?_eq_some_iff.2 hk, rfl⟩
    · exact Option.map_eq_some_iff.2 ⟨k, readNat?_eq_some_iff.2 hk, rfl⟩
    · exact Option.map_eq_some_iff.2 ⟨k, readNat?_eq_some_iff.2 hk, rfl⟩

theorem readInt64?_eq_some_iff {cs : List Char} {n : Int} :
    readInt64? cs = some n ↔ WritesInt cs n ∧ -2 ^ 63 ≤ n ∧ n < 2 ^ 63 := by
  rw [readInt64?, Option.filter_eq_some_iff, readInt?_eq_some_iff, Bool.and_eq_true, decide_eq_true_eq,
    decide_eq_true_eq, minInt64, maxInt64]
  apply and_congr_right
  intro _
  omega

theorem WritesInt.mem {cs : List Char} {n : Int} (h : WritesInt cs n) {c : Char} (hc : c ∈ cs) :
    c = '+' ∨ c = '-' ∨ isAsciiDigit c = true := by
  obtain ⟨sign, digits, k, rfl, hk, hs⟩ := h
  cases List.mem_append.1 hc with
  | inl hc =>
    obtain (⟨rfl | rfl, _⟩ | ⟨rfl, _⟩) := hs
    · cases hc
    · exact .inl (List.mem_singleton.1 hc)
    · exact .inr (.inl (List.mem_singleton.1 hc))
  | inr hc => exact .inr (.inr (hk.2.1 c hc))

theorem WritesInt.ne_nil {cs : List Char} {n : Int} (h : WritesInt cs n) : cs ≠ [] := by
  obtain ⟨sign, digits, k, rfl, hk, _⟩ := h
  exact List.append_ne_nil_of_right_ne_nil sign hk.1

theorem WritesInt.isBlank_eq_false {cs : List Char} {n : Int} (h : WritesInt cs n) {c : Char} (hc : c ∈ cs) :
    isBlank c = false := by
  obtain rfl | rfl | hd := h.mem hc
  · decide
  · decide
  · have hrange := isAsciiDigit_iff.1 hd
    rw [isBlank]
    simp
    omega

theorem readInt64?_dropBlanks_eq_some_iff {s : String} {n : Int} :
    readInt64? (dropBlanks s.toList) = some n ↔ WritesInt64 s n := by
  rw [readInt64?_eq_some_iff]
  constructor
  · intro h
    obtain ⟨before, after, he, hb⟩ := exists_blanks_dropBlanks s.toList
    exact ⟨before, dropBlanks s.toList, after, he, hb, h⟩
  · rintro ⟨before, cs, after, he, hb, h⟩
    have hcs : dropBlanks s.toList = cs := by
      rw [he]
      apply dropBlanks_append hb
      · exact fun c hc => h.1.isBlank_eq_false (List.mem_of_head? hc)
      · exact fun c hc => h.1.isBlank_eq_false (List.mem_of_getLast? hc)
    rwa [hcs]

instance (s : String) : Decidable (∃ n, WritesInt64 s n) :=
  decidable_of_iff ((readInt64? (dropBlanks s.toList)).isSome = true)
    (by simp only [Option.isSome_iff_exists, readInt64?_dropBlanks_eq_some_iff])

theorem writesNat_toDigits (n : Nat) : WritesNat (Nat.toDigits 10 n) n :=
  ⟨Nat.toDigits_ne_nil, fun _ => isAsciiDigit_of_mem_toDigits,
    by rw [← natOfDigits_eq_ofDigits, natOfDigits_toDigits]⟩

theorem writesInt_toString (n : Int) : WritesInt (toString n).toList n := by
  cases n with
  | ofNat k =>
    exact ⟨[], (toString k).toList, k, rfl, Nat.toList_repr ▸ writesNat_toDigits k, .inl ⟨.inl rfl, rfl⟩⟩
  | negSucc k =>
    refine ⟨['-'], (toString (k + 1)).toList, k + 1, String.toList_append, ?_, .inr ⟨rfl, rfl⟩⟩
    exact Nat.toList_repr ▸ writesNat_toDigits (k + 1)

end FetchQuery.Text

namespace FetchQuery.Operator

theorem count_eq_ok_iff {op : Operator} {v : String} {n : Int} :
    op.count v = .ok n ↔ Text.WritesInt64 v n := by
  rw [← Text.readInt64?_dropBlanks_eq_some_iff, count]
  cases Text.readInt64? (Text.dropBlanks v.toList) <;> simp

theorem count_eq_error_iff {op : Operator} {v : String} :
    op.count v = .error (.notAnInteger op.id v) ↔ ¬ ∃ n, Text.WritesInt64 v n := by
  simp only [← Text.readInt64?_dropBlanks_eq_some_iff, count]
  cases Text.readInt64? (Text.dropBlanks v.toList) <;> simp

end FetchQuery.Operator
