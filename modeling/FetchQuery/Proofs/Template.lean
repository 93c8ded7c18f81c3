import FetchQuery.Proofs.LayoutOutcome

namespace FetchQuery

namespace Text

def unblanked (cs : List Char) : List Char := cs.filter (! isBlank ·)

theorem unblanked_append (cs ds : List Char) : unblanked (cs ++ ds) = unblanked cs ++ unblanked ds :=
  List.filter_append ..

theorem unblanked_eq_nil {cs : List Char} (h : ∀ c ∈ cs, isBlank c = true) : unblanked cs = [] := by
  simpa [unblanked] using h

theorem exists_eq_dropBlanksEnd_append (cs : List Char) : ∃ blanks, cs = dropBlanksEnd cs ++ blanks ∧
    (∀ c ∈ blanks, isBlank c = true) ∧ ∀ c ∈ (dropBlanksEnd cs).getLast?, isBlank c = false := by
  refine ⟨(cs.reverse.takeWhile isBlank).reverse, ?_, ?_, ?_⟩
  · rw [dropBlanksEnd, ← List.reverse_append, List.takeWhile_append_dropWhile, List.reverse_reverse]
  · intro c hc
    exact List.all_eq_true.1 List.all_takeWhile c (List.mem_reverse.1 hc)
  · intro c hc
    have hh := List.head?_dropWhile_not isBlank cs.reverse
    rw [dropBlanksEnd, List.getLast?_reverse, Option.mem_def] at hc
    rwa [hc] at hh

theorem unblanked_dropBlanksEnd (cs : List Char) : unblanked (dropBlanksEnd cs) = unblanked cs := by
  obtain ⟨blanks, hc, hb, _⟩ := exists_eq_dropBlanksEnd_append cs
  calc unblanked (dropBlanksEnd cs)
      = unblanked (dropBlanksEnd cs) ++ unblanked blanks := by rw [unblanked_eq_nil hb, List.append_nil]
    _ = unblanked (dropBlanksEnd cs ++ blanks) := (unblanked_append ..).symm
    _ = unblanked cs := by rw [← hc]

end Text

namespace Sql

open Statement (Select)
open Fallible

/-- How the options fill a slot. -/
inductive Fills (o : LayoutOptions) : Piece → List Char → Prop
  | text (s : String) : Fills o (.text s) s.toList
  | space : Fills o .space [o.spaceChar]
  | compactBreak (level : Nat) (h : o.pretty = false) : Fills o (.lineBreak level) [o.spaceChar]
  | prettyBreak (level : Nat) (h : o.pretty = true) :
      Fills o (.lineBreak level) ('\n' :: List.replicate (level * o.tabLength) o.spaceChar)
  | compactSeparator (h : o.pretty = false) : Fills o .columnSeparator o.comma.toList
  | prettySeparator (h : o.pretty = true) (bare blanks lineBreak : List Char)
      (comma : o.comma.toList = bare ++ blanks) (blank : ∀ c ∈ blanks, Text.isBlank c = true)
      (last : ∀ c ∈ bare.getLast?, Text.isBlank c = false) (next : Fills o (.lineBreak 1) lineBreak) :
      Fills o .columnSeparator (bare ++ lineBreak)
  | comma : Fills o .comma o.comma.toList

theorem fills_breakChars (o : LayoutOptions) (level : Nat) :
    Fills o (.lineBreak level) (Piece.breakChars o level) := by
  unfold Piece.breakChars
  split
  next h => exact .prettyBreak level h
  next h => exact .compactBreak level (by simpa using h)

theorem fills_columnSeparatorChars (o : LayoutOptions) :
    Fills o .columnSeparator (Piece.columnSeparatorChars o) := by
  unfold Piece.columnSeparatorChars
  split
  next h =>
    obtain ⟨blanks, hc, hb, hl⟩ := Text.exists_eq_dropBlanksEnd_append o.comma.toList
    exact .prettySeparator h _ blanks _ hc hb hl (fills_breakChars o 1)
  next h => exact .compactSeparator (by simpa using h)

theorem fills_chars (o : LayoutOptions) (p : Piece) : Fills o p (p.chars o) := by
  cases p with
  | text s => exact .text s
  | space => exact .space
  | lineBreak level => exact fills_breakChars o level
  | columnSeparator => exact fills_columnSeparatorChars o
  | comma => exact .comma

theorem unblanked_breakChars {o : LayoutOptions} (ho : Text.isBlank o.spaceChar = true) (level : Nat) :
    Text.unblanked (Piece.breakChars o level) = [] := by
  apply Text.unblanked_eq_nil
  intro c hc
  unfold Piece.breakChars at hc
  split at hc
  · rcases List.mem_cons.1 hc with rfl | hc
    · decide
    · rwa [List.eq_of_mem_replicate hc]
  · rwa [List.mem_singleton.1 hc]

theorem unblanked_columnSeparatorChars {o : LayoutOptions} (ho : Text.isBlank o.spaceChar = true) :
    Text.unblanked (Piece.columnSeparatorChars o) = Text.unblanked o.comma.toList := by
  unfold Piece.columnSeparatorChars
  split
  · rw [Text.unblanked_append, Text.unblanked_dropBlanksEnd, unblanked_breakChars ho, List.append_nil]
  · rfl

/-- Apart from blanks, the options decide no more than the comma. -/
theorem unblanked_chars {o o' : LayoutOptions} (ho : Text.isBlank o.spaceChar = true)
    (ho' : Text.isBlank o'.spaceChar = true)
    (hc : Text.unblanked o.comma.toList = Text.unblanked o'.comma.toList) (p : Piece) :
    Text.unblanked (p.chars o) = Text.unblanked (p.chars o') := by
  cases p with
  | text s => rfl
  | space => simp [Piece.chars, Text.unblanked, ho, ho']
  | lineBreak level => rw [Piece.chars, Piece.chars, unblanked_breakChars ho, unblanked_breakChars ho']
  | columnSeparator =>
    rw [Piece.chars, Piece.chars, unblanked_columnSeparatorChars ho, unblanked_columnSeparatorChars ho', hc]
  | comma => exact hc

theorem unblanked_render {o o' : LayoutOptions} (ho : Text.isBlank o.spaceChar = true)
    (ho' : Text.isBlank o'.spaceChar = true)
    (hc : Text.unblanked o.comma.toList = Text.unblanked o'.comma.toList) (l : Layout) :
    Text.unblanked (l.render o).toList = Text.unblanked (l.render o').toList := by
  rw [Layout.toList_render, Layout.toList_render, Layout.chars, Layout.chars, Text.unblanked, Text.unblanked,
    List.filter_flatMap, List.filter_flatMap]
  apply List.flatMap_congr
  exact fun p _ => unblanked_chars ho ho' hc p

theorem level_le_of_mem_listBreaks {α : Type} {items : List α} {level : Nat}
    (h : .lineBreak level ∈ listBreaks items) : level ≤ 2 := by
  unfold listBreaks at h
  split at h
  · cases h
  · simp only [List.mem_cons, Piece.lineBreak.injEq, List.mem_map, reduceCtorEq, and_false, exists_false,
      or_false] at h
    omega

theorem level_le_of_mem_selectBreaks {d : Dialect} {s : Select} {level : Nat}
    (h : .lineBreak level ∈ selectBreaks d s) : level ≤ 2 := by
  simp only [selectBreaks, List.mem_append] at h
  obtain (((((h | h) | h) | h) | h) | h) | h := h
  · simp only [List.mem_cons, Piece.lineBreak.injEq, List.mem_map, reduceCtorEq, and_false, exists_false,
      or_false] at h
    omega
  · simp only [List.mem_cons, Piece.lineBreak.injEq, List.not_mem_nil, or_false, or_self] at h
    omega
  · simp only [List.mem_flatMap, List.mem_cons, Piece.lineBreak.injEq, List.not_mem_nil, or_false] at h
    omega
  · grind
  · exact level_le_of_mem_listBreaks h
  · exact level_le_of_mem_listBreaks h
  · grind

/-- The formatter comes back to the level it starts from, with or without a fault, and one template serves all
options: its line breaks and separators are those of the statement's clauses, no line is indented by more than
two levels, and where the fill character is a blank, texts under different options differ in blanks only. A
fault is the same under all options. -/
theorem selectText_template (d : Dialect) (s : Select) :
    (∀ o, (Formatter.select d s).run o 0 = (selectText d o s, 0)) ∧
    ((∃ fault, ∀ o, selectText d o s = .error fault) ∨
    ∃ template : Layout,
      (∀ o, ∃ chunks, List.Forall₂ (Fills o) template chunks ∧
        selectText d o s = .ok (String.ofList chunks.flatten)) ∧
      template.breaks = selectBreaks d s ∧ (∀ level, .lineBreak level ∈ template → level ≤ 2) ∧
      ∀ o o' t t', Text.isBlank o.spaceChar = true → Text.isBlank o'.spaceChar = true →
        Text.unblanked o.comma.toList = Text.unblanked o'.comma.toList →
        selectText d o s = .ok t → selectText d o' s = .ok t' →
        Text.unblanked t.toList = Text.unblanked t'.toList) := by
  refine ⟨fun o => ?_, ?_⟩
  · rw [selectText_eq_render]
    exact Formatter.gives_select d s
  cases hl : selectLayout d s with
  | error fault => exact .inl ⟨fault, fun o => by rw [selectText_eq_render, hl]; rfl⟩
  | ok template =>
    have hb := (selectLayout_yields d s).of_eq_ok hl
    have ht (o : LayoutOptions) : selectText d o s = .ok (template.render o) := by rw [selectText_eq_render, hl]; rfl
    refine .inr ⟨template, ?_, hb, ?_, ?_⟩
    · intro o
      refine ⟨template.map (Piece.chars o), ?_, ?_⟩
      · rw [List.forall₂_map_right_iff, List.forall₂_same]
        exact fun p _ => fills_chars o p
      · rw [ht, Layout.render, List.flatMap_def]
    · intro level hm
      have hm' : .lineBreak level ∈ template.breaks := List.mem_filter.2 ⟨hm, rfl⟩
      rw [hb] at hm'
      exact level_le_of_mem_selectBreaks hm'
    · intro o o' t t' ho ho' hc h h'
      rw [ht, Except.ok.injEq] at h h'
      rw [← h, ← h']
      exact unblanked_render ho ho' hc template

def layered : Select where
  source := ⟨"account", ""⟩
  distinct := true
  top := some 20
  columns := [{ expression := "name", name := "the name" }, { expression := "*", qualifier := "c" }]
  filter := some ⟨.and, [⟨{ expression := "name" }, "in", .multiple ["a b", "7"]⟩],
    [⟨.or, [⟨{ expression := "age", qualifier := "c" }, "null", .multiple []⟩],
      [⟨.and, [⟨{ expression := "age", qualifier := "c" }, "gt", .single "40"⟩], []⟩]⟩]⟩
  joins := [⟨.left, ⟨"account", ""⟩, ⟨"contact", "c"⟩, [⟨"id", "parent"⟩]⟩,
    ⟨.inner, ⟨"contact", "c"⟩, ⟨"task", ""⟩, [⟨"id", "owner"⟩]⟩]
  orderBy := [⟨.ascending, ⟨"name", ""⟩⟩, ⟨.descending, ⟨"age", "c"⟩⟩]
  groupBy := [⟨"name", ""⟩]

theorem selectText_template_layered :
    ∃ pretty compact,
      selectText .postgres { tabLength := 2, spaceChar := '\t', comma := " ,\t" } layered = .ok pretty ∧
      selectText .postgres { pretty := false, comma := "," } layered = .ok compact ∧ pretty ≠ compact ∧
      Text.unblanked pretty.toList = Text.unblanked compact.toList := by
  obtain ⟨_, ⟨fault, h⟩ | ⟨template, _, _, _, h⟩⟩ := selectText_template .postgres layered
  · cases h {}
  · refine ⟨_, _, rfl, rfl, by decide +kernel, ?_⟩
    exact h { tabLength := 2, spaceChar := '\t', comma := " ,\t" } { pretty := false, comma := "," } _ _
      (by decide) (by decide) (by decide) rfl rfl

end Sql

end FetchQuery
