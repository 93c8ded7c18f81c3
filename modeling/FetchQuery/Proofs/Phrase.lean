import FetchQuery.Proofs.Scan
import FetchQuery.Statement.Basic
import FetchQuery.Text.Split

namespace FetchQuery.Text

theorem split_ne_nil (sep : Char) (cs : List Char) : split sep cs ≠ [] := by
  cases cs with
  | nil => exact List.cons_ne_nil _ _
  | cons c cs =>
    rw [split]
    split
    · exact List.cons_ne_nil _ _
    · split <;> exact List.cons_ne_nil _ _

theorem intercalate_split (sep : Char) (cs : List Char) : [sep].intercalate (split sep cs) = cs := by
  induction cs with
  | nil => rfl
  | cons c cs ih =>
    obtain ⟨piece, pieces, hp⟩ := List.exists_cons_of_ne_nil (split_ne_nil sep cs)
    rw [hp] at ih
    by_cases hc : c = sep
    · simp [split, hc, hp, ih]
    · cases pieces with
      | nil => simpa [split, hc, hp] using ih
      | cons _ _ => simpa [split, hc, hp] using ih

theorem flatMap_intercalate {α β : Type} (f : α → List β) (glue : List α) (parts : List (List α)) :
    (glue.intercalate parts).flatMap f = (glue.flatMap f).intercalate (parts.map (List.flatMap f)) := by
  induction parts with
  | nil => rfl
  | cons p parts ih =>
    cases parts with
    | nil => simp
    | cons q parts =>
      rw [List.map_cons] at ih
      rw [List.intercalate_cons_cons, List.map_cons, List.map_cons, List.intercalate_cons_cons,
        List.flatMap_append, List.flatMap_append, ih]

end FetchQuery.Text

namespace FetchQuery.Sql

open Reading (isCalm isSettled)

def endsStatement (_ : Nat) (c : Char) : Bool := c == ';'

/-- The characters that stand between words. -/
def isFill (c : Char) : Bool := Text.isBlank c || c == ','

/-- They end a word as a semicolon does, unless they stand in parentheses. -/
def endsWord (depth : Nat) (c : Char) : Bool := c == ';' || (depth == 0 && isFill c)

theorem endsWord_of_endsStatement (k n : Nat) (c : Char) (h : endsStatement (n + k) c = true) :
    endsWord n c = true := by
  simp only [endsStatement, beq_iff_eq] at h
  simp [endsWord, h]

theorem endsWord_inside (n : Nat) (c : Char) (h : endsWord (n + 1) c = true) :
    endsStatement n c = true := by
  simpa [endsWord, endsStatement] using h

/-- Quotes and parentheses that open in the text close in it. -/
def Closed (d : Dialect) (cs : List Char) : Prop := Carries d endsStatement isCalm isSettled 0 0 cs

def isConnective (cs : List Char) : Bool :=
  cs == Statement.Connective.and.keyword.toList || cs == Statement.Connective.or.keyword.toList

theorem isConnective_eq_false {c : Char} {cs : List Char} (hc : c ∉ "andor".toList) (hm : c ∈ cs) :
    isConnective cs = false := by
  have ha : Statement.Connective.and.keyword.toList.all ("andor".toList.contains ·) = true := by decide
  have ho : Statement.Connective.or.keyword.toList.all ("andor".toList.contains ·) = true := by decide
  simp only [List.all_eq_true, List.contains_iff_mem] at ha ho
  simp only [isConnective, Bool.or_eq_false_iff, beq_eq_false_iff_ne]
  constructor <;> rintro rfl
  · exact hc (ha c hm)
  · exact hc (ho c hm)

structure Word (d : Dialect) (cs : List Char) : Prop where
  carries : Carries d endsWord isCalm isSettled 0 0 cs
  nonempty : cs ≠ []
  plain : isConnective cs = false

/-- Whether a fixed text is a word, found by reading it once. -/
def isWord (d : Dialect) (cs : List Char) : Bool :=
  reads d endsWord isSettled 0 0 cs && !isConnective cs

inductive Phrase (d : Dialect) : List Char → Prop
  | word {cs : List Char} (h : Word d cs) : Phrase d cs
  | spaced {cs ds : List Char} {c : Char} (h : Phrase d cs) (hc : Text.isBlank c = true)
      (h' : Word d ds) : Phrase d (cs ++ c :: ds)

def blanks : List Nat :=
  [0x9, 0xA, 0xB, 0xC, 0xD, 0x20, 0x85, 0xA0, 0x1680, 0x2000, 0x2001, 0x2002, 0x2003, 0x2004, 0x2005,
    0x2006, 0x2007, 0x2008, 0x2009, 0x200A, 0x2028, 0x2029, 0x202F, 0x205F, 0x3000]

theorem mem_blanks {c : Char} (h : Text.isBlank c = true) : c.toNat ∈ blanks := by
  simp only [Text.isBlank, Bool.or_eq_true, Bool.and_eq_true, decide_eq_true_eq, beq_iff_eq] at h
  simp only [blanks, List.mem_cons, List.not_mem_nil, or_false]
  omega

/-- No character of the class is a mark or stands between words. -/
def isBare (p : Char → Bool) : Bool :=
  !marks.any p && (!blanks.any fun n => p (Char.ofNat n)) && !p ','

section

variable {p : Char → Bool} {c : Char}

theorem isPlain_of_isBare (hp : isBare p = true) (hc : p c = true) : isPlain c = true := by
  simp only [isBare, Bool.and_eq_true, Bool.not_eq_true'] at hp
  exact isPlain_of_class hp.1.1 hc

theorem isFill_eq_false_of_isBare (hp : isBare p = true) (hc : p c = true) : isFill c = false := by
  simp only [isBare, Bool.and_eq_true, Bool.not_eq_true', List.any_eq_false] at hp
  obtain ⟨⟨_, hblanks⟩, hcomma⟩ := hp
  apply Bool.eq_false_iff.2
  intro hf
  rw [isFill, Bool.or_eq_true, beq_iff_eq] at hf
  rcases hf with hb | rfl
  · apply hblanks c.toNat (mem_blanks hb)
    rwa [Char.ofNat_toNat]
  · rw [hc] at hcomma
    cases hcomma

theorem endsStatement_eq_false (n : Nat) (h : isPlain c = true) : endsStatement n c = false := by
  simp only [endsStatement, beq_eq_false_iff_ne]
  rintro rfl
  cases h

theorem endsWord_eq_false (n : Nat) (h : isPlain c = true) (hf : isFill c = false) :
    endsWord n c = false := by
  have hs := endsStatement_eq_false n h
  simp only [endsStatement] at hs
  simp [endsWord, hs, hf]

theorem isPlain_and_not_endsWord (hp : isBare p = true) (hc : p c = true) :
    isPlain c = true ∧ endsWord 0 c = false := by
  have h := isPlain_of_isBare hp hc
  exact ⟨h, endsWord_eq_false 0 h (isFill_eq_false_of_isBare hp hc)⟩

end

variable {d : Dialect} {cs ds : List Char} {c : Char}

theorem isFill_eq_false_of_step {r r' : Reading} {b : Nat} (hr : r.isSettled = true)
    (h : Scan.step d endsWord ⟨r, 0, false⟩ c = ⟨r', b, false⟩) : isFill c = false := by
  apply Bool.eq_false_iff.2
  intro hf
  rw [Scan.step_plain hr (isPlain_of_class (by decide) hf)] at h
  have hw : endsWord 0 c = false := (Scan.mk.inj h).2.2
  simp [endsWord, hf] at hw

namespace Carries

theorem closed (h : Carries d endsWord isCalm isSettled 0 0 cs) : Closed d cs :=
  h.deeper (endsWord_of_endsStatement 0)

theorem of_isPlain (hn : cs ≠ []) (h : cs.all isPlain = true) :
    Carries d endsStatement isSettled isCalm 0 0 cs := by
  apply plain hn
  intro c hm
  have hp : isPlain c = true := List.all_eq_true.1 h c hm
  exact ⟨hp, endsStatement_eq_false 0 hp⟩

theorem bare {p : Char → Bool} (hp : isBare p = true) (hn : cs ≠ []) (hc : cs.all p = true) :
    Carries d endsWord isSettled isCalm 0 0 cs := by
  apply plain hn
  intro c hm
  exact isPlain_and_not_endsWord hp (List.all_eq_true.1 hc c hm)

theorem bare_or_nil {p : Char → Bool} (hp : isBare p = true) (hc : cs.all p = true) :
    Carries d endsWord isSettled isSettled 0 0 cs := by
  by_cases hn : cs = []
  · rw [hn]
    exact nil fun r hr => hr
  · exact (bare hp hn hc).toSettled

end Carries

namespace Closed

theorem glued {glue : List Char} (hg : Carries d endsStatement isSettled isCalm 0 0 glue)
    (h : Closed d cs) (h' : Closed d ds) : Closed d (cs ++ (glue ++ ds)) :=
  Carries.append h (Carries.append hg h')

theorem intercalate {glue : List Char} (hg : Carries d endsStatement isSettled isCalm 0 0 glue)
    {parts : List (List Char)} (h : ∀ p ∈ parts, Closed d p) : Closed d (glue.intercalate parts) :=
  Carries.intercalate hg h

theorem spaced (h : Closed d cs) (hc : Text.isBlank c = true) (h' : Closed d ds) :
    Closed d (cs ++ c :: ds) := by
  have hp : isPlain c = true := isPlain_of_class (by decide) hc
  have hb : Carries d endsStatement isSettled isCalm 0 0 [c] :=
    Carries.of_isPlain (List.cons_ne_nil c []) (by simp [hp])
  exact h.glued hb h'

end Closed

namespace Word

theorem of_mem (h : Carries d endsWord isCalm isSettled 0 0 cs) (hc : c ∉ "andor".toList)
    (hm : c ∈ cs) : Word d cs :=
  ⟨h, List.ne_nil_of_mem hm, isConnective_eq_false hc hm⟩

/-- What follows a word without a blank belongs to it. -/
theorem extend (h : Word d cs) (h' : Carries d endsWord isSettled isSettled 0 0 ds)
    (hc : c ∉ "andor".toList) (hm : c ∈ ds) : Word d (cs ++ ds) :=
  of_mem (h.carries.append h') hc (List.mem_append_right cs hm)

theorem closed (h : Word d cs) : Closed d cs := h.carries.closed

theorem fixed (h : isWord d cs = true) : Word d cs := by
  rw [isWord, Bool.and_eq_true, Bool.not_eq_true'] at h
  refine ⟨Carries.fixed h.1, ?_, h.2⟩
  rintro rfl
  cases h.1

/-- A call with its argument: the fixed texts around it open and close the parentheses. -/
theorem call (start close : List Char)
    (hs : (start.contains '(' && reads d endsWord isCalm 0 1 start) = true)
    (hc : (close.head?.any isLeading && reads d endsWord isSettled 1 0 close) = true) (h : Closed d cs) :
    Word d (start ++ (cs ++ close)) := by
  rw [Bool.and_eq_true, List.contains_iff_mem] at hs
  have hi : Carries d endsWord isCalm isSettled 1 1 cs := Carries.deeper endsWord_inside h
  refine of_mem ?_ (by decide) (List.mem_append_left _ hs.1)
  exact (Carries.fixed hs.2).append (hi.append (Carries.fixed_leading hc))

end Word

namespace Phrase

theorem closed (h : Phrase d cs) : Closed d cs := by
  induction h with
  | word h => exact h.closed
  | spaced _ hc h' ih => exact ih.spaced hc h'.closed

theorem nonempty (h : Phrase d cs) : cs ≠ [] := by
  cases h with
  | word h => exact h.nonempty
  | spaced _ _ _ => simp

theorem append (h : Phrase d cs) (hc : Text.isBlank c = true) (h' : Phrase d ds) :
    Phrase d (cs ++ c :: ds) := by
  induction h' with
  | word h' => exact h.spaced hc h'
  | spaced _ hc' h' ih =>
    rw [← List.cons_append, ← List.append_assoc]
    exact ih.spaced hc' h'

theorem extend (h : Phrase d cs) (h' : Carries d endsWord isSettled isSettled 0 0 ds)
    (hc : c ∉ "andor".toList) (hm : c ∈ ds) : Phrase d (cs ++ ds) := by
  cases h with
  | word h => exact .word (h.extend h' hc hm)
  | spaced h hb hw =>
    rw [List.append_assoc, List.cons_append]
    exact .spaced h hb (hw.extend h' hc hm)

theorem intercalate {words : List (List Char)} (hn : words ≠ []) (hc : Text.isBlank c = true)
    (h : ∀ w ∈ words, Word d w) : Phrase d ([c].intercalate words) := by
  match words with
  | [] => exact absurd rfl hn
  | [w] =>
    rw [List.intercalate_singleton]
    exact .word (h w (by simp))
  | w :: x :: words =>
    have hr : Phrase d ([c].intercalate (x :: words)) :=
      intercalate (List.cons_ne_nil x words) hc fun y hy => h y (List.mem_cons_of_mem w hy)
    rw [List.intercalate_cons_cons, List.append_assoc]
    exact (Phrase.word (h w (by simp))).append hc hr

theorem fixed (h : (Text.split ' ' cs).all (isWord d) = true) : Phrase d cs := by
  rw [← Text.intercalate_split ' ' cs]
  apply intercalate (Text.split_ne_nil ' ' cs) (by decide)
  exact fun w hw => Word.fixed (List.all_eq_true.1 h w hw)

end Phrase

end FetchQuery.Sql
