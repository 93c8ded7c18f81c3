import FetchQuery.Proofs.ConditionText
import FetchQuery.Proofs.Contents
import FetchQuery.Proofs.IntegerText
import FetchQuery.Proofs.LiteralText

namespace FetchQuery.Text

theorem not_mem_of_mem_split {sep : Char} {cs piece : List Char} (h : piece ∈ split sep cs) : sep ∉ piece := by
  induction cs generalizing piece with
  | nil =>
    obtain rfl := List.mem_singleton.1 h
    exact List.not_mem_nil
  | cons c cs ih =>
    obtain ⟨first, pieces, hs⟩ := List.exists_cons_of_ne_nil (split_ne_nil sep cs)
    rw [hs] at ih
    by_cases hc : c = sep
    · rw [split, if_pos hc, hs] at h
      rcases List.mem_cons.1 h with rfl | h
      · exact List.not_mem_nil
      · exact ih h
    · rw [split, if_neg hc, hs] at h
      rcases List.mem_cons.1 h with rfl | h
      · rw [List.mem_cons, not_or]
        exact ⟨Ne.symm hc, ih List.mem_cons_self⟩
      · exact ih (List.mem_cons_of_mem _ h)

theorem getLast?_dropBlanks {cs : List Char} {c : Char} (h : (dropBlanks cs).getLast? = some c) :
    isBlank c = false := by
  have hstop := List.head?_dropWhile_not isBlank (cs.dropWhile isBlank).reverse
  rw [dropBlanks, dropBlanksEnd, List.getLast?_reverse] at h
  rwa [h] at hstop

theorem head?_dropBlanks {cs : List Char} {c : Char} (h : (dropBlanks cs).head? = some c) :
    isBlank c = false := by
  have hstop := List.head?_dropWhile_not isBlank cs
  have hstart : dropBlanks cs <+: cs.dropWhile isBlank := by
    rw [dropBlanks, dropBlanksEnd, ← List.reverse_suffix, List.reverse_reverse]
    exact List.dropWhile_suffix isBlank
  obtain ⟨rest, hrest⟩ := hstart
  rw [← hrest, List.head?_append, h] at hstop
  exact hstop

theorem dropBlanks_eq_nil {cs : List Char} (h : ∀ c ∈ cs, isBlank c = true) : dropBlanks cs = [] := by
  have hnil : dropBlanks (cs ++ [] ++ []) = [] := dropBlanks_append (by simpa using h) nofun nofun
  simpa using hnil

end FetchQuery.Text

namespace FetchQuery.Document

open Statement (KeyPair)

/-- A name that can stand in a list of columns. -/
structure IsColumn (column : String) : Prop where
  nonempty : column ≠ ""
  comma : ',' ∉ column.toList
  start : ∀ c, column.toList.head? = some c → Text.isBlank c = false
  finish : ∀ c, column.toList.getLast? = some c → Text.isBlank c = false

def IsPadding (s : String) : Prop := ∀ c ∈ s.toList, Text.isBlank c = true

/-- The pieces of a list of columns. Each column stands in a piece of its own, and the others are blank. -/
inductive Pieces : List String → List String → Prop
  | nil : Pieces [] []
  | blank {piece : String} {pieces columns : List String} (hp : IsPadding piece) (h : Pieces pieces columns) :
      Pieces (piece :: pieces) columns
  | column {before after : String} {pieces columns : List String} (column : String) (hb : IsPadding before)
      (ha : IsPadding after) (h : Pieces pieces columns) :
      Pieces ((before ++ column ++ after) :: pieces) (column :: columns)

/-- The text is a comma-separated list of these columns, whatever its spacing. -/
structure Lists (text : String) (columns : List String) : Prop where
  isColumn : ∀ c ∈ columns, IsColumn c
  isJoin : ∃ pieces, Pieces pieces columns ∧ text = Text.join "," pieces

theorem IsPadding.comma {s : String} (h : IsPadding s) : ',' ∉ s.toList := by
  intro hc
  exact absurd (h _ hc) (by decide)

def columnsOf (pieces : List (List Char)) : List String :=
  ((pieces.map Text.dropBlanks).filter (! ·.isEmpty)).map String.ofList

theorem columnsOf_cons (piece : List Char) (pieces : List (List Char)) :
    columnsOf (piece :: pieces) =
      if Text.dropBlanks piece = [] then columnsOf pieces
      else String.ofList (Text.dropBlanks piece) :: columnsOf pieces := by
  by_cases h : Text.dropBlanks piece = [] <;> simp [columnsOf, h]

namespace Pieces

variable {pieces columns : List String}

theorem comma (h : Pieces pieces columns) (hc : ∀ c ∈ columns, IsColumn c) :
    ∀ p ∈ pieces.map String.toList, ',' ∉ p := by
  induction h with
  | nil => exact nofun
  | blank hp h ih =>
    rw [List.map_cons, List.forall_mem_cons]
    exact ⟨hp.comma, ih hc⟩
  | column c hb ha h ih =>
    rw [List.forall_mem_cons] at hc
    rw [List.map_cons, List.forall_mem_cons]
    refine ⟨?_, ih hc.2⟩
    simp only [String.toList_append, List.mem_append, not_or]
    exact ⟨⟨hb.comma, hc.1.comma⟩, ha.comma⟩

theorem columnsOf_eq (h : Pieces pieces columns) (hc : ∀ c ∈ columns, IsColumn c) :
    columnsOf (pieces.map String.toList) = columns := by
  induction h with
  | nil => rfl
  | blank hp h ih => rw [List.map_cons, columnsOf_cons, if_pos (Text.dropBlanks_eq_nil hp), ih hc]
  | @column before after pieces columns c hb ha h ih =>
    rw [List.forall_mem_cons] at hc
    have hblanks : ∀ d ∈ before.toList ++ after.toList, Text.isBlank d = true :=
      List.forall_mem_append.2 ⟨hb, ha⟩
    have hdrop : Text.dropBlanks (before ++ c ++ after).toList = c.toList := by
      rw [String.toList_append, String.toList_append]
      exact Text.dropBlanks_append hblanks hc.1.start hc.1.finish
    have hne : c.toList ≠ [] := by
      rw [ne_eq, String.toList_eq_nil_iff]
      exact hc.1.nonempty
    rw [List.map_cons, columnsOf_cons, hdrop, if_neg hne, String.ofList_toList, ih hc.2]

theorem of_columnsOf (pieces : List String) : Pieces pieces (columnsOf (pieces.map String.toList)) := by
  induction pieces with
  | nil => exact nil
  | cons piece pieces ih =>
    obtain ⟨before, after, hp, hb⟩ := Text.exists_blanks_dropBlanks piece.toList
    rw [List.forall_mem_append] at hb
    rw [List.map_cons, columnsOf_cons]
    by_cases hn : Text.dropBlanks piece.toList = []
    · rw [if_pos hn]
      refine blank ?_ ih
      rw [hn, List.append_nil] at hp
      rw [IsPadding, hp, List.forall_mem_append]
      exact hb
    · have hpiece : piece = String.ofList before ++ String.ofList (Text.dropBlanks piece.toList) ++
          String.ofList after := by
        rw [← String.ofList_append, ← String.ofList_append, ← hp, String.ofList_toList]
      rw [if_neg hn]
      nth_rewrite 1 [hpiece]
      apply column
      · simpa [IsPadding] using hb.1
      · simpa [IsPadding] using hb.2
      · exact ih

end Pieces

theorem keyColumns_eq_columnsOf (text : String) :
    keyColumns text = columnsOf (Text.split ',' text.toList) := rfl

theorem isColumn_of_mem_keyColumns {text c : String} (h : c ∈ keyColumns text) : IsColumn c := by
  simp only [keyColumns, List.mem_map, List.mem_filter] at h
  obtain ⟨cs, ⟨⟨piece, hpiece, rfl⟩, hn⟩, rfl⟩ := h
  have hsub : ∀ c ∈ Text.dropBlanks piece, c ∈ piece := by
    obtain ⟨before, after, hp, _⟩ := Text.exists_blanks_dropBlanks piece
    intro c hc
    rw [hp]
    exact List.mem_append_left _ (List.mem_append_right _ hc)
  refine ⟨?_, ?_, ?_, ?_⟩
  · simpa using hn
  · rw [String.toList_ofList]
    exact fun hc => Text.not_mem_of_mem_split hpiece (hsub _ hc)
  · rw [String.toList_ofList]
    exact fun c => Text.head?_dropBlanks
  · rw [String.toList_ofList]
    exact fun c => Text.getLast?_dropBlanks

/-- A text lists the columns that are read from it, and no others. -/
theorem lists_iff {text : String} {columns : List String} : Lists text columns ↔ keyColumns text = columns := by
  constructor
  · rintro ⟨hc, pieces, hp, rfl⟩
    have hchars : (Text.join "," pieces).toList = [','].intercalate (pieces.map String.toList) :=
      Text.toList_join "," pieces
    cases pieces with
    | nil =>
      cases hp
      rfl
    | cons piece rest =>
      rw [keyColumns_eq_columnsOf, hchars, Text.split_intercalate (by simp) (hp.comma hc), hp.columnsOf_eq hc]
  · rintro rfl
    have hid : String.toList ∘ String.ofList = id := funext fun _ => String.toList_ofList
    refine ⟨fun c => isColumn_of_mem_keyColumns, (Text.split ',' text.toList).map String.ofList, ?_, ?_⟩
    · have hp := Pieces.of_columnsOf ((Text.split ',' text.toList).map String.ofList)
      rwa [List.map_map, hid, List.map_id] at hp
    · apply String.toList_inj.1
      rw [Text.toList_join, List.map_map, hid, List.map_id]
      exact (Text.intercalate_split ',' text.toList).symm

def listed (text : String) : { columns : List String // Lists text columns } := ⟨keyColumns text, lists_iff.2 rfl⟩

/-- Columns are paired by their places in the two lists, however these are spaced, and a fault tells how many
columns each of them holds. Only proper columns are ever paired. -/
theorem Link.keyPairs_listed (l : Link) :
    (∀ toKeys fromKeys, Lists l.toColumns toKeys → Lists l.fromColumns fromKeys →
      l.keyPairs =
        if fromKeys.length = toKeys.length ∧ 0 < toKeys.length then .ok (List.zipWith KeyPair.mk toKeys fromKeys)
        else .error (.unpairedKeys l.name fromKeys.length toKeys.length)) ∧
    ∀ keys, l.keyPairs = .ok keys → ∀ k ∈ keys, IsColumn k.source ∧ IsColumn k.target := by
  constructor
  · intro toKeys fromKeys ht hf
    rw [keyPairs_eq, lists_iff.1 ht, lists_iff.1 hf]
  · intro keys hk k hm
    obtain ⟨hs, ht, _⟩ := keyPairs_eq_ok hk
    have hsource : k.source ∈ keyColumns l.toColumns := hs ▸ List.mem_map_of_mem hm
    have htarget : k.target ∈ keyColumns l.fromColumns := ht ▸ List.mem_map_of_mem hm
    exact ⟨isColumn_of_mem_keyColumns hsource, isColumn_of_mem_keyColumns htarget⟩

def spacedLink : Link where
  name := "contact"
  fromColumns := ",a1\u3000, , a2"
  toColumns := " b1 ,,\u00a0b2,\t"

theorem Link.keyPairs_listed_spacedLink :
    (Lists spacedLink.toColumns ["b1", "b2"] ∧ Lists spacedLink.fromColumns ["a1", "a2"]) ∧
      spacedLink.keyPairs = .ok [⟨"b1", "a1"⟩, ⟨"b2", "a2"⟩] ∧ (IsColumn "b2" ∧ IsColumn "a2") ∧
      { spacedLink with toColumns := ", b1" }.keyPairs = .error (.unpairedKeys "contact" 2 1) := by
  have ht : Lists spacedLink.toColumns ["b1", "b2"] := lists_iff.2 (by decide +kernel)
  have hf : Lists spacedLink.fromColumns ["a1", "a2"] := lists_iff.2 (by decide +kernel)
  have hone : Lists ", b1" ["b1"] := lists_iff.2 (by decide +kernel)
  have hpairs := spacedLink.keyPairs_listed.1 _ _ ht hf
  have hcolumns := spacedLink.keyPairs_listed.2 _ hpairs ⟨"b2", "a2"⟩ (by decide)
  have hfault := (keyPairs_listed { spacedLink with toColumns := ", b1" }).1 _ _ hone hf
  exact ⟨⟨ht, hf⟩, hpairs, hcolumns, hfault⟩

end FetchQuery.Document
