import FetchQuery.Proofs.ConditionText
import FetchQuery.Proofs.FilterTree
import FetchQuery.Proofs.TopLevel

namespace FetchQuery.Sql

open Reading (isCalm isSettled)
open Layout (ofText)
open Statement (Connective Condition Filter)
open Fallible

/-- The text of a condition where filters stand, one level deep. -/
def conditionText (d : Dialect) (o : LayoutOptions) (ambient : String) (c : Condition) : Except Fault String :=
  ((Formatter.condition d ambient c).run o 1).1

def filterText (d : Dialect) (o : LayoutOptions) (ambient : String) (f : Filter) : Except Fault String :=
  ((Formatter.filter d ambient f).run o 1).1

theorem conditionText_eq_render (d : Dialect) (o : LayoutOptions) (ambient : String) :
    conditionText d o ambient = fun c => (conditionLayout d ambient c).map (Layout.render o) :=
  funext fun c => congrArg Prod.fst (Formatter.gives_condition d ambient c)

theorem filterText_eq_render (d : Dialect) (o : LayoutOptions) (ambient : String) :
    filterText d o ambient = fun f => (filterLayout d ambient f).map (Layout.render o) :=
  funext fun f => congrArg Prod.fst (Formatter.gives_filter d ambient f)

theorem Layout.chars_join (o : LayoutOptions) (glue : Layout) (parts : List Layout) :
    (Layout.join glue parts).chars o = (glue.chars o).intercalate (parts.map (Layout.chars o)) := by
  match parts with
  | [] => rfl
  | [p] => simp [Layout.join]
  | p :: q :: parts =>
    have ih := Layout.chars_join o glue (q :: parts)
    simp only [Layout.join, List.map_cons] at ih ⊢
    rw [List.intercalate_cons_cons, Layout.chars_append, Layout.chars_append, ih,
      List.intercalate_cons_cons]

variable {d : Dialect} {o : LayoutOptions} {ambient : String}

theorem subfilterLayouts_eq_mapM (fs : List Filter) :
    subfilterLayouts d ambient fs = (fs.filter Filter.isSpecified).mapM (filterLayout d ambient) := by
  induction fs with
  | nil => rfl
  | cons f fs ih =>
    by_cases hf : f.isSpecified = true
    · rw [subfilterLayouts, if_pos hf, List.filter_cons_of_pos hf, List.mapM_cons, ih]
    · rw [subfilterLayouts, if_neg hf, List.filter_cons_of_neg hf, ih]

theorem filterLayout_eq_ok {f : Filter} {l : Layout} (h : filterLayout d ambient f = .ok l) :
    ∃ own nested, f.conditions.mapM (conditionLayout d ambient) = .ok own ∧
      (f.subfilters.filter Filter.isSpecified).mapM (filterLayout d ambient) = .ok nested ∧
      l = ofText "(" ++ Layout.join [.space, .text f.connective.keyword, .space] (own ++ nested) ++
        ofText ")" := by
  match f with
  | ⟨connective, conditions, subfilters⟩ =>
    rw [filterLayout] at h
    obtain ⟨own, hown, h⟩ := bind_eq_ok.1 h
    obtain ⟨nested, hnested, h⟩ := bind_eq_ok.1 h
    rw [subfilterLayouts_eq_mapM] at hnested
    exact ⟨own, nested, hown, hnested, (pure_eq_ok.1 h).symm⟩

theorem parts_phrase (ho : Text.isBlank o.spaceChar = true) (ha : isIdentifier ambient = true) {f : Filter}
    (hc : ∀ c ∈ f.allConditions, c.column.unquoted.all isIdentifier = true)
    (hw : ∀ g ∈ f.subfilters, ∀ l, filterLayout d ambient g = .ok l → Word d (l.chars o))
    {own nested : List Layout} (hown : f.conditions.mapM (conditionLayout d ambient) = .ok own)
    (hnested : (f.subfilters.filter Filter.isSpecified).mapM (filterLayout d ambient) = .ok nested) :
    ∀ p ∈ own ++ nested, Phrase d (p.chars o) := by
  intro p hp
  rcases List.mem_append.1 hp with hp | hp
  · obtain ⟨c, hm, he⟩ := exists_of_mem_mapM hown hp
    have hc' := hc c (by rw [Filter.allConditions_eq]; exact List.mem_append_left _ hm)
    exact conditionLayout_phrase ho ha hc' he
  · obtain ⟨g, hm, he⟩ := exists_of_mem_mapM hnested hp
    exact .word (hw g (List.mem_of_mem_filter hm) p he)

theorem chars_filter (k : Connective) (parts : List Layout) :
    Layout.chars o (ofText "(" ++ Layout.join [.space, .text k.keyword, .space] parts ++ ofText ")") =
      '(' :: ((separator o.spaceChar k).intercalate (parts.map (Layout.chars o)) ++ [')']) := by
  simp [Layout.chars_join, separator, Piece.chars]

theorem filterLayout_word (ho : Text.isBlank o.spaceChar = true) (ha : isIdentifier ambient = true)
    (f : Filter) (hc : ∀ c ∈ f.allConditions, c.column.unquoted.all isIdentifier = true) (l : Layout)
    (h : filterLayout d ambient f = .ok l) : Word d (l.chars o) := by
  induction f using Filter.nested_induction generalizing l with
  | step f ih =>
    obtain ⟨own, nested, hown, hnested, rfl⟩ := filterLayout_eq_ok h
    have hsub : ∀ g ∈ f.subfilters, ∀ l, filterLayout d ambient g = .ok l → Word d (l.chars o) := by
      intro g hg l hl
      exact ih g hg (fun c hm => hc c (Filter.mem_allConditions_of_mem hg hm)) l hl
    have hp := parts_phrase ho ha hc hsub hown hnested
    rw [chars_filter]
    apply Word.group
    apply Closed.intercalate (carries_separator ho f.connective)
    intro q hq
    obtain ⟨p, hm, rfl⟩ := List.mem_map.1 hq
    exact (hp p hm).closed

/-- The text of a filter is a pair of parentheses around the texts of its conditions and then of its
specified nested filters, which are what splitting at the top level gives, with the filter's own
connective at each cut. None of them is empty, and the nested ones decompose in turn. -/
inductive Decomposes (d : Dialect) (o : LayoutOptions) (ambient : String) : Filter → String → Prop
  | intro (f : Filter) (body first : String) (rest own nested : List String)
      (conditions : f.conditions.mapM (conditionText d o ambient) = .ok own)
      (subfilters : (f.subfilters.filter Filter.isSpecified).mapM (filterText d o ambient) = .ok nested)
      (parts : own ++ nested = first :: rest)
      (split : splitTop d o.spaceChar 0 {} body.toList =
        (first.toList, rest.map fun part => (f.connective, part.toList)))
      (nonempty : "" ∉ own ++ nested)
      (inside : ∀ p ∈ (f.subfilters.filter Filter.isSpecified).zip nested, Decomposes d o ambient p.1 p.2) :
      Decomposes d o ambient f ("(" ++ body ++ ")")

theorem parts_ne_nil {f : Filter} (hs : f.isSpecified = true) {own nested : List Layout}
    (hown : f.conditions.mapM (conditionLayout d ambient) = .ok own)
    (hnested : (f.subfilters.filter Filter.isSpecified).mapM (filterLayout d ambient) = .ok nested) :
    own ++ nested ≠ [] := by
  intro he
  obtain ⟨rfl, rfl⟩ := List.append_eq_nil_iff.1 he
  have hc : f.conditions = [] := List.forall₂_nil_right_iff.1 (mapM_eq_ok.1 hown)
  have hf : f.subfilters.filter Filter.isSpecified = [] :=
    List.forall₂_nil_right_iff.1 (mapM_eq_ok.1 hnested)
  apply Filter.isSpecified_iff.1 hs
  rw [Filter.allConditions_eq, ← Filter.flatMap_filter_isSpecified, hc, hf]
  rfl

/-- One level of the tree: parts that are phrases are found again in the text of the filter. -/
theorem decomposes_of_parts (hspace : Text.isBlank o.spaceChar = true) {f : Filter} {own nested : List Layout}
    (hown : f.conditions.mapM (conditionLayout d ambient) = .ok own)
    (hnested : (f.subfilters.filter Filter.isSpecified).mapM (filterLayout d ambient) = .ok nested)
    (hne : own ++ nested ≠ []) (hparts : ∀ p ∈ own ++ nested, Phrase d (p.chars o))
    (hinside : ∀ g ∈ f.subfilters, g.isSpecified = true → ∀ t, filterText d o ambient g = .ok t →
      Decomposes d o ambient g t) :
    Decomposes d o ambient f (Layout.render o (ofText "(" ++
      Layout.join [.space, .text f.connective.keyword, .space] (own ++ nested) ++ ofText ")")) := by
  obtain ⟨first, rest, hfirst⟩ := List.exists_cons_of_ne_nil hne
  have htext : Layout.render o (ofText "(" ++
      Layout.join [.space, .text f.connective.keyword, .space] (own ++ nested) ++ ofText ")") =
      "(" ++ String.ofList ((separator o.spaceChar f.connective).intercalate
        ((first :: rest).map (Layout.chars o))) ++ ")" := by
    rw [← String.toList_inj, Layout.toList_render, chars_filter, hfirst]
    simp
  have hownText : f.conditions.mapM (conditionText d o ambient) = .ok (own.map (Layout.render o)) := by
    rw [conditionText_eq_render]
    exact mapM_map_eq_ok hown (Layout.render o)
  have hnestedText : (f.subfilters.filter Filter.isSpecified).mapM (filterText d o ambient) =
      .ok (nested.map (Layout.render o)) := by
    rw [filterText_eq_render]
    exact mapM_map_eq_ok hnested (Layout.render o)
  rw [htext]
  refine .intro f _ (first.render o) (rest.map (Layout.render o)) _ _ hownText hnestedText ?_ ?_ ?_ ?_
  · rw [← List.map_append, hfirst, List.map_cons]
  · have hphrases : ∀ q ∈ (first :: rest).map (Layout.chars o), Phrase d q := by
      intro q hq
      obtain ⟨p, hm, rfl⟩ := List.mem_map.1 hq
      exact hparts p (by rwa [hfirst])
    rw [List.map_cons] at hphrases ⊢
    rw [String.toList_ofList, splitTop_intercalate hspace f.connective hphrases rfl]
    simp [Layout.toList_render]
  · intro he
    rw [← List.map_append] at he
    obtain ⟨p, hm, hp⟩ := List.mem_map.1 he
    apply (hparts p hm).nonempty
    rw [← Layout.toList_render, hp]
    rfl
  · intro p hp
    have ht := (List.forall₂_iff_zip.1 (mapM_eq_ok.1 hnestedText)).2 hp
    obtain ⟨hg, hgs⟩ := List.mem_filter.1 (List.of_mem_zip hp).1
    exact hinside p.1 hg hgs p.2 ht

theorem filterText_decomposes (d : Dialect) (o : LayoutOptions) (ambient : String) (f : Filter) (t : String)
    (hspace : Text.isBlank o.spaceChar = true) (hambient : isIdentifier ambient = true)
    (hspecified : f.isSpecified = true)
    (hconditions : ∀ c ∈ f.allConditions, c.column.unquoted.all isIdentifier = true)
    (h : filterText d o ambient f = .ok t) : Decomposes d o ambient f t := by
  induction f using Filter.nested_induction generalizing t with
  | step f ih =>
    rw [filterText_eq_render] at h
    obtain ⟨l, hl, rfl⟩ := map_eq_ok.1 h
    obtain ⟨own, nested, hown, hnested, rfl⟩ := filterLayout_eq_ok hl
    have hsub : ∀ g ∈ f.subfilters, ∀ c ∈ g.allConditions, c.column.unquoted.all isIdentifier = true :=
      fun g hg c hm => hconditions c (Filter.mem_allConditions_of_mem hg hm)
    have hparts := parts_phrase hspace hambient hconditions
      (fun g hg => filterLayout_word hspace hambient g (hsub g hg)) hown hnested
    apply decomposes_of_parts hspace hown hnested (parts_ne_nil hspecified hown hnested) hparts
    exact fun g hg hgs t ht => ih g hg t hgs (hsub g hg) ht

def namesOrDates : Filter where
  connective := .or
  conditions := [
    ⟨{ expression := "name", qualifier := "a" }, "eq", .single "x' and (y"⟩,
    ⟨{ expression := "] or [" }, "between", .multiple ["1", "-2.5"]⟩]
  subfilters := [
    ⟨.and, [], [⟨.or, [], []⟩]⟩,
    ⟨.and, [⟨{ expression := "createdon", aggregate := some "max" }, "last-x-days", .single " 7 "⟩,
      ⟨{ expression := "owner" }, "null", .multiple []⟩], []⟩]

theorem filterText_decomposes_namesOrDates :
    Text.isBlank LayoutOptions.compact.spaceChar = true ∧ isIdentifier "t" = true ∧
    namesOrDates.isSpecified = true ∧
    (∀ c ∈ namesOrDates.allConditions, c.column.unquoted.all isIdentifier = true) ∧
    Decomposes .sqlServer .compact "t" namesOrDates
      ("(a.[name] = 'x'' and (y' or (t.[]] or [] >= 1 and t.[]] or [] <= -2.5) or " ++
        "((DATEDIFF(day, max(t.[createdon]), GETDATE()) <= 0 and " ++
        "DATEDIFF(day, max(t.[createdon]), GETDATE()) > -7) and t.[owner] is null))") := by
  have hspace : Text.isBlank LayoutOptions.compact.spaceChar = true := by decide
  have hambient : isIdentifier "t" = true := by decide
  have hconditions : ∀ c ∈ namesOrDates.allConditions, c.column.unquoted.all isIdentifier = true := by decide
  refine ⟨hspace, hambient, rfl, hconditions, ?_⟩
  exact filterText_decomposes .sqlServer .compact "t" namesOrDates _ hspace hambient rfl hconditions
    (by decide +kernel)

end FetchQuery.Sql
