import FetchQuery.Proofs.Phrase
import FetchQuery.Proofs.StatementLayout

namespace FetchQuery.Statement

/-- The texts of a column that stand in a statement without quotes. -/
def Column.unquoted (c : Column) : List String := c.qualifier :: c.aggregate.toList

end FetchQuery.Statement

namespace FetchQuery.Text

theorem doubled_eq_self {close : Char} {cs : List Char} (h : close ∉ cs) : doubled close cs = cs := by
  induction cs with
  | nil => rfl
  | cons c cs ih =>
    rw [List.mem_cons, not_or] at h
    rw [doubled, if_neg (Ne.symm h.1), ih h.2]

end FetchQuery.Text

namespace FetchQuery.Sql

open Reading (isCalm isSettled)
open Statement (Column)

namespace Layout

def chars (o : LayoutOptions) (l : Layout) : List Char := l.flatMap (Piece.chars o)

variable {o : LayoutOptions}

@[simp] theorem chars_append (l m : Layout) : chars o (l ++ m) = chars o l ++ chars o m :=
  List.flatMap_append

@[simp] theorem chars_nil : chars o [] = [] := rfl

@[simp] theorem chars_cons (p : Piece) (l : Layout) : chars o (p :: l) = p.chars o ++ chars o l := rfl

@[simp] theorem chars_ofText (s : String) : chars o (ofText s) = s.toList := List.append_nil _

theorem toList_render (l : Layout) : (render o l).toList = chars o l := String.toList_ofList

end Layout

/-- Letters, digits and underscores; beyond ASCII, every character that is no blank. -/
def isIdentifierChar (c : Char) : Bool :=
  c.isAlphanum || c == '_' || (0x7F < c.toNat && !Text.isBlank c)

/-- An empty text stands for a name that is not set. -/
def isIdentifier (s : String) : Bool := s.toList.all isIdentifierChar

def isNumeral (c : Char) : Bool := Text.isDecimalDigit c || c == '.' || c == '+'

theorem isBare_isIdentifierChar : isBare isIdentifierChar = true := by decide

theorem isBare_isNumeral : isBare isNumeral = true := by decide

theorem isNumeral_of_isUnsignedNumber {cs : List Char} (h : isUnsignedNumber cs = true) :
    cs ≠ [] ∧ cs.all isNumeral = true := by
  have hall : ∀ ds : List Char, ds.all Text.isDecimalDigit = true → ds.all isNumeral = true := by
    intro ds hd
    rw [List.all_eq_true] at hd ⊢
    intro c hc
    simp [isNumeral, hd c hc]
  have hs := Text.intercalate_split '.' cs
  unfold isUnsignedNumber at h
  split at h
  next whole he =>
    rw [he, List.intercalate_singleton] at hs
    subst hs
    rw [Bool.and_eq_true, Bool.not_eq_true', List.isEmpty_eq_false_iff] at h
    exact ⟨h.1, hall whole h.2⟩
  next whole fraction he =>
    simp only [Bool.and_eq_true, Bool.not_eq_true', List.isEmpty_eq_false_iff] at h
    obtain ⟨⟨⟨hw, hwd⟩, _⟩, hfd⟩ := h
    rw [he] at hs
    rw [← hs]
    constructor
    · simp [hw]
    · simp [hall whole hwd, hall fraction hfd, isNumeral]
  next => cases h

theorem digits_of_int (n : Int) : ∃ ds : List Char, ds ≠ [] ∧ ds.all Char.isDigit = true ∧
    ((toString n).toList = ds ∨ (toString n).toList = '-' :: ds) := by
  have hd : ∀ k : Nat, (Nat.toDigits 10 k).all Char.isDigit = true := by
    intro k
    rw [List.all_eq_true]
    exact fun c hc => Nat.isDigit_of_mem_toDigits (by decide) (by decide) hc
  cases n with
  | ofNat k => exact ⟨Nat.toDigits 10 k, Nat.toDigits_ne_nil, hd k, .inl Nat.toList_repr⟩
  | negSucc k =>
    refine ⟨Nat.toDigits 10 (k + 1), Nat.toDigits_ne_nil, hd (k + 1), .inr ?_⟩
    rw [← Nat.toList_repr]
    exact String.toList_append

variable {d : Dialect} {o : LayoutOptions}

namespace Word

theorem number {p : Char → Bool} (hp : isBare p = true) (ha : "andor".toList.any p = false)
    {cs : List Char} (hn : cs ≠ []) (hc : cs.all p = true) : Word d cs ∧ Word d ('-' :: cs) := by
  have hb : ∀ c ∈ cs, isPlain c = true ∧ endsWord 0 c = false :=
    fun c hm => isPlain_and_not_endsWord hp (List.all_eq_true.1 hc c hm)
  obtain ⟨c, hm⟩ := List.exists_mem_of_ne_nil cs hn
  have hna : c ∉ "andor".toList :=
    fun h => List.any_eq_false.1 ha c h (List.all_eq_true.1 hc c hm)
  constructor
  · exact of_mem (Carries.plain hn hb).ofSettled.toSettled hna hm
  · exact of_mem (Carries.minus rfl hn hb).toSettled hna (List.mem_cons_of_mem _ hm)

theorem ofInt (n : Int) : Word d (toString n).toList := by
  obtain ⟨ds, hn, hd, he | he⟩ := digits_of_int n <;> rw [he]
  · exact (number (by decide) (by decide) hn hd).1
  · exact (number (by decide) (by decide) hn hd).2

theorem ofQuoted (s : String) : Word d (quoted s).toList := by
  apply of_mem (Carries.enclosed s (by cases d <;> rfl) rfl) (c := '\x27') (by decide)
  simp [Text.enclose]

theorem ofLiteral (value : String) : Word d (literal value).toList := by
  have hn : isNumber value.toList = true → Word d value.toList := by
    generalize value.toList = cs
    intro h
    unfold isNumber at h
    split at h
    next cs =>
      obtain ⟨_, hc⟩ := isNumeral_of_isUnsignedNumber h
      exact (number isBare_isNumeral (by decide) (List.cons_ne_nil '+' cs) (by simp [hc, isNumeral])).1
    next cs =>
      obtain ⟨hne, hc⟩ := isNumeral_of_isUnsignedNumber h
      exact (number isBare_isNumeral (by decide) hne hc).2
    next =>
      obtain ⟨hne, hc⟩ := isNumeral_of_isUnsignedNumber h
      exact (number isBare_isNumeral (by decide) hne hc).1
  unfold literal
  split
  next h => exact hn h
  next =>
    split
    · exact ofQuoted _
    · exact ofQuoted value

theorem ofQuote (n : String) : Word d (d.quote n).toList := by
  cases d with
  | sqlServer =>
    apply of_mem (Carries.enclosed n rfl rfl) (c := '[') (by decide)
    simp [Text.enclose]
  | postgres =>
    apply of_mem (Carries.enclosed n rfl rfl) (c := '"') (by decide)
    simp [Text.enclose]

theorem star : Word d ['*'] :=
  of_mem (Carries.fixed (by cases d <;> rfl)) (by decide : '*' ∉ "andor".toList) (by simp)

theorem dotted {q s : String} (hq : isIdentifier q = true) (h : Word d s.toList) :
    Word d (q ++ "." ++ s).toList := by
  have hc : (q.toList ++ ['.']).all (fun c => isIdentifierChar c || c == '.') = true := by
    simp only [isIdentifier, List.all_eq_true] at hq
    simp +contextual [hq]
  have hb : Carries d endsWord isSettled isCalm 0 0 (q.toList ++ ['.']) :=
    Carries.bare (by decide) (by simp) hc
  rw [String.toList_append, String.toList_append]
  exact of_mem (hb.ofSettled.append h.carries) (by decide : '.' ∉ "andor".toList) (by simp)

theorem qualified {q s : String} (hq : isIdentifier q = true) (h : Word d s.toList) :
    Word d (qualified q s).toList := by
  unfold Sql.qualified
  split
  · exact h
  · exact dotted hq h

theorem group {cs : List Char} (h : Closed d cs) : Word d ('(' :: (cs ++ [')'])) :=
  of_mem (Carries.group endsWord_inside h).ofSettled.toSettled (by decide : '(' ∉ "andor".toList) (by simp)

theorem aggregatedLayout {a : String} (ha : isIdentifier a = true) {l : Layout} (h : Closed d (l.chars o)) :
    Word d ((aggregatedLayout a l).chars o) := by
  have hf : isIdentifier (aggregateFunction a) = true := by
    unfold aggregateFunction
    split
    · decide
    · exact ha
  have hb : Carries d endsWord isSettled isSettled 0 0 (aggregateFunction a).toList :=
    Carries.bare_or_nil isBare_isIdentifierChar hf
  have hg := (Carries.group endsWord_inside h).toSettled
  apply of_mem (c := '(') _ (by decide) (by simp [Sql.aggregatedLayout])
  simpa [Sql.aggregatedLayout] using hb.ofSettled.append hg

end Word

theorem Word.reference {ambient : String} (ha : isIdentifier ambient = true) {c : Column}
    (hc : isIdentifier c.qualifier = true) :
    Word d (Sql.qualified (if c.hasQualifier then c.qualifier else ambient)
      (if c.isWildcard then c.expression else d.quote c.expression)).toList := by
  have hqualifier : isIdentifier (if c.hasQualifier then c.qualifier else ambient) = true := by
    split
    · exact hc
    · exact ha
  apply Word.qualified hqualifier
  split
  next h =>
    rw [Column.isWildcard, beq_iff_eq] at h
    rw [h]
    exact Word.star
  next => exact Word.ofQuote c.expression

theorem columnLayout_eq_unnamed (d : Dialect) (ambient : String) (c : Column) :
    columnLayout d ambient c = columnLayout d ambient { c with name := "" } ++
      if c.hasName then [.space, .text "as", .space, .text (literal c.name)] else [] :=
  (congrArg (· ++ _) (List.append_nil _)).symm

theorem Phrase.argument (ho : Text.isBlank o.spaceChar = true) {s : String} (hs : Word d s.toList)
    (distinct : Bool) :
    Phrase d (Layout.chars o ((if distinct then [.text "distinct", .space] else []) ++ Layout.ofText s)) := by
  split
  · have hd : Word d "distinct".toList := Word.fixed (by cases d <;> decide)
    simpa [Piece.chars] using (Phrase.word hd).append ho (.word hs)
  · simpa using Phrase.word hs

theorem columnLayout_phrase (ho : Text.isBlank o.spaceChar = true) {ambient : String}
    (ha : isIdentifier ambient = true) {c : Column} (hc : c.unquoted.all isIdentifier = true) :
    Phrase d ((columnLayout d ambient c).chars o) := by
  simp only [Column.unquoted, List.all_cons, Bool.and_eq_true] at hc
  obtain ⟨hq, hf⟩ := hc
  have hbase := Phrase.argument ho (Word.reference (d := d) ha hq) c.distinct
  simp only [columnLayout, Layout.chars_append]
  generalize (if c.distinct then _ else _) ++ Layout.ofText _ = base at hbase ⊢
  have hnamed : ∀ value : Layout, Phrase d (value.chars o) → Phrase d (value.chars o ++ Layout.chars o
      (if c.hasName then [.space, .text "as", .space, .text (literal c.name)] else [])) := by
    intro value hv
    split
    · have has : Word d "as".toList := Word.fixed (by cases d <;> decide)
      simpa [Piece.chars] using (hv.append ho (.word has)).append ho (.word (Word.ofLiteral c.name))
    · simpa using hv
  cases hfn : c.function? with
  | none => exact hnamed base hbase
  | some a =>
    obtain ⟨he, _⟩ := Option.filter_eq_some_iff.1 hfn
    rw [he, Option.toList_some, List.all_cons, Bool.and_eq_true] at hf
    exact hnamed (aggregatedLayout a base) (.word (Word.aggregatedLayout hf.1 hbase.closed))

end FetchQuery.Sql
