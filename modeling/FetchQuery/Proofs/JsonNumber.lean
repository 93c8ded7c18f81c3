import FetchQuery.Json.Token
import FetchQuery.Json.Writer
import FetchQuery.Proofs.IntegerText
import Mathlib.Control.Basic
import Mathlib.Data.List.TakeWhile
import Mathlib.Data.Option.Basic

namespace FetchQuery.Json.Number

/-- A number whose text is read as that number. -/
structure IsLegible (n : Number) : Prop where
  leads : n.chars.head?.any (fun c => c == '-' || Text.isAsciiDigit c) = true
  holds : n.chars.all Token.isNumberChar = true
  reads : Token.ofNumber? n.chars.reverse = some (.number (some n))

theorem head?_toDigits {n : Nat} (h : 0 < n) : (Nat.toDigits 10 n).head? ≠ some '0' := by
  induction n using Nat.strongRecOn with
  | ind n ih =>
    by_cases hn : n < 10
    · rw [Nat.toDigits_of_lt_base hn]
      have hall : ∀ k < 10, 0 < k → [Nat.digitChar k].head? ≠ some '0' := by decide
      exact hall n hn h
    · have hhead := ih (n / 10) (by omega) (by omega)
      obtain ⟨c, cs, hc⟩ := List.exists_cons_of_ne_nil (Nat.toDigits_ne_nil (n := n / 10) (b := 10))
      rw [hc] at hhead
      rw [Nat.toDigits_of_base_le (by decide) (by omega), hc]
      exact hhead

theorem isWhole_toDigits (n : Nat) : isWhole (Nat.toDigits 10 n) = true := by
  by_cases hn : n = 0
  · rw [hn]
    rfl
  · have hhead := head?_toDigits (Nat.pos_of_ne_zero hn)
    have hall : (Nat.toDigits 10 n).all Text.isAsciiDigit = true :=
      List.all_eq_true.2 fun c => Text.isAsciiDigit_of_mem_toDigits
    obtain ⟨c, cs, hc⟩ := List.exists_cons_of_ne_nil (Nat.toDigits_ne_nil (n := n) (b := 10))
    rw [hc] at hhead hall ⊢
    have hc : c ≠ '0' := fun h => hhead (by rw [h, List.head?_cons])
    simp [isWhole, hc, hall]

theorem le_foldl_digits (cs : List Char) (v : Nat) :
    v ≤ cs.foldl (fun n c => 10 * n + Text.digitValue c) v := by
  induction cs generalizing v with
  | nil => exact Nat.le_refl v
  | cons c cs ih =>
    have hrest := ih (10 * v + Text.digitValue c)
    rw [List.foldl_cons]
    omega

theorem foldl_addWhole (cs : List Char) (v : Nat)
    (h : cs.foldl (fun n c => 10 * n + Text.digitValue c) v < UInt64.size) :
    cs.foldl Significand.addWhole ⟨v, 0, false⟩ =
      ⟨cs.foldl (fun n c => 10 * n + Text.digitValue c) v, 0, false⟩ := by
  induction cs generalizing v with
  | nil => rfl
  | cons c cs ih =>
    rw [List.foldl_cons] at h
    have hfits : 10 * v + Text.digitValue c < UInt64.size := Nat.lt_of_le_of_lt (le_foldl_digits cs _) h
    rw [List.foldl_cons, List.foldl_cons, ← ih _ h]
    simp [Significand.addWhole, Significand.fits, hfits]

theorem head?_toDigits_eq_minus (n : Nat) : ((Nat.toDigits 10 n).head? == some '-') = false := by
  rw [beq_eq_false_iff_ne]
  intro h
  have hd := Text.isAsciiDigit_of_mem_toDigits (List.mem_of_head? h)
  exact absurd hd (by decide)

theorem ofLiteral?_toDigits (n : Nat) :
    Parts.ofLiteral? (Nat.toDigits 10 n) = some ⟨false, Nat.toDigits 10 n, none, none⟩ := by
  have htake : (Nat.toDigits 10 n).takeWhile Text.isAsciiDigit = Nat.toDigits 10 n :=
    List.takeWhile_eq_self_iff.2 fun c => Text.isAsciiDigit_of_mem_toDigits
  have hdrop : (Nat.toDigits 10 n).dropWhile Text.isAsciiDigit = [] :=
    List.dropWhile_eq_nil_iff.2 fun c => Text.isAsciiDigit_of_mem_toDigits
  simp [Parts.ofLiteral?, head?_toDigits_eq_minus, htake, hdrop, isWhole_toDigits, exponent?, guard_true]

/-- A number of at most 53 bits is a double, and it is below the limit. -/
theorem productOverflows_of_lt {n : Nat} (h : n < Nat.pow 2 53) :
    Text.Double.productOverflows n 0 = false := by
  have hlimit : Nat.pow 2 53 ≤ Text.Double.limit := by decide +kernel
  have hround : Text.Double.rounded n = n := by rw [Text.Double.rounded, if_pos h]
  have hone : Text.Double.rounded (Nat.pow 10 (Int.toNat 0)) = 1 := by decide
  have hbelow :
      ¬ Text.Double.limit ≤ Text.Double.rounded n * Text.Double.rounded (Nat.pow 10 (Int.toNat 0)) := by
    rw [hround, hone]
    omega
  rw [Text.Double.productOverflows, decide_eq_false hbelow, Bool.and_false, Bool.or_false]
  exact Bool.and_false _

theorem overflows_toDigits {n : Nat} (h : n < Nat.pow 2 53) :
    Parts.overflows ⟨false, Nat.toDigits 10 n, none, none⟩ = false := by
  have hsize : Nat.pow 2 53 ≤ UInt64.size := by decide
  have hvalue := Text.natOfDigits_toDigits n
  have hwhole := foldl_addWhole (Nat.toDigits 10 n) 0 (by rw [← Text.natOfDigits, hvalue]; omega)
  rw [← Text.natOfDigits, hvalue] at hwhole
  have hparts : Significand.ofParts ⟨false, Nat.toDigits 10 n, none, none⟩ = ⟨n, 0, false⟩ := by
    simp [Significand.ofParts, hwhole]
  simp [Parts.overflows, hparts, productOverflows_of_lt h]

theorem isLegible_of_lt {n : Nat} (h : n < Nat.pow 2 53) : (integer n).IsLegible := by
  have hchars : (integer n).chars = Nat.toDigits 10 n := Nat.toList_repr
  have hdigit : ∀ c ∈ Nat.toDigits 10 n, Text.isAsciiDigit c = true := fun c => Text.isAsciiDigit_of_mem_toDigits
  refine ⟨?_, ?_, ?_⟩
  · obtain ⟨c, cs, hc⟩ := List.exists_cons_of_ne_nil (Nat.toDigits_ne_nil (n := n) (b := 10))
    rw [hchars, hc, List.head?_cons, Option.any_some, hdigit c (by rw [hc]; exact List.mem_cons_self), Bool.or_true]
  · rw [hchars, List.all_eq_true]
    intro c hc
    simp [Token.isNumberChar, hdigit c hc]
  · simp [Token.ofNumber?, hchars, ofLiteral?_toDigits, overflows_toDigits h, Parts.number, Text.natOfDigits_toDigits]

theorem isLegible_uint32 (n : UInt32) : (integer n.toNat).IsLegible :=
  isLegible_of_lt (Nat.lt_trans n.toNat_lt (by decide))

end FetchQuery.Json.Number
