import FetchQuery.Proofs.Place

namespace FetchQuery.Statement.Filter

mutual

/-- All conditions of a filter, its own before those of the filters nested in it. -/
def allConditions : Filter → List Condition
  | ⟨_, conditions, subfilters⟩ => conditions ++ allConditionsOf subfilters

def allConditionsOf : List Filter → List Condition
  | [] => []
  | f :: fs => f.allConditions ++ allConditionsOf fs

end

theorem allConditionsOf_eq_flatMap (fs : List Filter) :
    allConditionsOf fs = fs.flatMap allConditions := by
  induction fs with
  | nil => rfl
  | cons f fs ih => rw [allConditionsOf, ih, List.flatMap_cons]

theorem allConditions_eq (f : Filter) :
    f.allConditions = f.conditions ++ f.subfilters.flatMap allConditions := by
  match f with
  | ⟨connective, conditions, subfilters⟩ => rw [allConditions, allConditionsOf_eq_flatMap]

theorem mem_allConditions_of_mem {f g : Filter} (hg : g ∈ f.subfilters) {c : Condition}
    (hc : c ∈ g.allConditions) : c ∈ f.allConditions := by
  rw [allConditions_eq]
  exact List.mem_append_right _ (List.mem_flatMap.2 ⟨g, hg, hc⟩)

mutual

/-- What holds of a filter once it holds of those nested in it holds of every filter. -/
theorem nested_induction {P : Filter → Prop} (step : ∀ f, (∀ g ∈ f.subfilters, P g) → P f) (f : Filter) :
    P f := by
  match f with
  | ⟨connective, conditions, subfilters⟩ => exact step _ (nested_induction_all step subfilters)

theorem nested_induction_all {P : Filter → Prop} (step : ∀ f, (∀ g ∈ f.subfilters, P g) → P f)
    (fs : List Filter) : ∀ g ∈ fs, P g := by
  match fs with
  | [] => exact nofun
  | f :: fs =>
    rw [List.forall_mem_cons]
    exact ⟨nested_induction step f, nested_induction_all step fs⟩

end

mutual

theorem isSpecified_eq (f : Filter) : f.isSpecified = !f.allConditions.isEmpty := by
  match f with
  | ⟨connective, conditions, subfilters⟩ =>
    rw [isSpecified, allConditions, anySpecified_eq subfilters]
    cases conditions <;> rfl

theorem anySpecified_eq (fs : List Filter) : anySpecified fs = !(allConditionsOf fs).isEmpty := by
  match fs with
  | [] => rfl
  | f :: fs =>
    rw [anySpecified, allConditionsOf, isSpecified_eq f, anySpecified_eq fs]
    cases f.allConditions <;> rfl

end

theorem isSpecified_iff {f : Filter} : f.isSpecified = true ↔ f.allConditions ≠ [] := by
  simp [isSpecified_eq]

theorem allConditions_combine (fs : List Filter) :
    (combine fs).toList.flatMap allConditions = fs.flatMap allConditions := by
  match fs with
  | [] => rfl
  | [f] => rfl
  | f :: g :: fs =>
    simp [combine, allConditions, allConditionsOf_eq_flatMap]

theorem isSpecified_combine {fs : List Filter} {f : Filter} (h : combine fs = some f) :
    f.isSpecified = fs.any isSpecified := by
  have hc : f.allConditions = fs.flatMap allConditions := by
    simpa [h] using allConditions_combine fs
  rw [Bool.eq_iff_iff, isSpecified_iff, hc, List.any_eq_true]
  simp [isSpecified_iff, List.flatMap_eq_nil_iff]

theorem combine_eq_none {fs : List Filter} : combine fs = none ↔ fs = [] := by
  match fs with
  | [] => exact ⟨fun _ => rfl, fun _ => rfl⟩
  | [f] => exact ⟨nofun, nofun⟩
  | f :: g :: fs => exact ⟨nofun, nofun⟩

theorem flatMap_filter_isSpecified (fs : List Filter) :
    (fs.filter isSpecified).flatMap allConditions = fs.flatMap allConditions := by
  induction fs with
  | nil => rfl
  | cons f fs ih =>
    by_cases hf : f.isSpecified = true
    · rw [List.filter_cons_of_pos hf, List.flatMap_cons, List.flatMap_cons, ih]
    · have he : f.allConditions = [] := by simpa [isSpecified_eq] using hf
      rw [List.filter_cons_of_neg hf, List.flatMap_cons, he, List.nil_append, ih]

end FetchQuery.Statement.Filter

namespace FetchQuery.Document.Filter

mutual

def allConditions : Filter → List Condition
  | ⟨_, conditions, subfilters⟩ => conditions ++ allConditionsOf subfilters

def allConditionsOf : List Filter → List Condition
  | [] => []
  | f :: fs => f.allConditions ++ allConditionsOf fs

end

theorem allConditionsOf_eq_flatMap (fs : List Filter) :
    allConditionsOf fs = fs.flatMap allConditions := by
  induction fs with
  | nil => rfl
  | cons f fs ih => rw [allConditionsOf, ih, List.flatMap_cons]

/-- A document's filter is specified when a condition occurs in it at any depth. -/
def isSpecified (f : Filter) : Bool := !f.allConditions.isEmpty

mutual

theorem allConditions_placed (qualifier : String) (f : Filter) :
    (f.placed qualifier).allConditions = f.allConditions.map (·.placed qualifier) := by
  match f with
  | ⟨connective, conditions, subfilters⟩ =>
    rw [placed, Statement.Filter.allConditions, allConditions, allConditions_placedAll qualifier subfilters,
      List.map_append]

theorem allConditions_placedAll (qualifier : String) (fs : List Filter) :
    Statement.Filter.allConditionsOf (placedAll qualifier fs) =
      (allConditionsOf fs).map (·.placed qualifier) := by
  match fs with
  | [] => rfl
  | f :: fs =>
    rw [placedAll, Statement.Filter.allConditionsOf, allConditionsOf, allConditions_placed qualifier f,
      allConditions_placedAll qualifier fs, List.map_append]

end

theorem isSpecified_placed (qualifier : String) (f : Filter) :
    (f.placed qualifier).isSpecified = f.isSpecified := by
  rw [Statement.Filter.isSpecified_eq, allConditions_placed, isSpecified, List.isEmpty_map]

end FetchQuery.Document.Filter

namespace FetchQuery.Document

open Statement (Clause Select)

theorem Place.filterMap_filter {p : Place} {part : List Clause} (h : p.clauses = .ok part) :
    part.filterMap Clause.filter? = (p.scope.filter? p.qualifier).toList := by
  obtain ⟨joins, _, rfl⟩ := Place.eq_of_clauses h
  have hc := Scope.filterMap_columnClauses_eq_nil Clause.filter? p.qualifier p.scope
    (fun _ => rfl) (fun _ => rfl)
  simp [Scope.placed, hc, Function.comp_def, Clause.filter?]

theorem select_filter {d : Document} {o : StatementOptions} {e : Entity} {s : Select}
    (h : d.select o e = .ok s) :
    s.filter = Statement.Filter.combine
      (((e.places o).flatMap fun p => (p.scope.filter? p.qualifier).toList).filter
        Statement.Filter.isSpecified) := by
  obtain ⟨parts, hp, rfl⟩ := select_eq_ok.1 h
  have hf := Place.filterMap_flatten Clause.filter? (fun p => (p.scope.filter? p.qualifier).toList)
    (hp.imp fun _ _ => Place.filterMap_filter)
  have hh : d.headClauses.filterMap Clause.filter? = [] := by
    simp [headClauses, Clause.filter?]
  rw [Select.ofClauses_eq]
  simp only [Statement.specifiedFilters, List.filterMap_append, hh, hf, List.nil_append]

theorem isSpecified_of_select {d : Document} {o : StatementOptions} {e : Entity} {s : Select}
    (h : d.select o e = .ok s) {f : Statement.Filter} (hf : s.filter = some f) :
    f.isSpecified = true := by
  rw [select_filter h] at hf
  rw [Statement.Filter.isSpecified_combine hf, List.any_eq_true]
  obtain ⟨g, hg⟩ := List.exists_mem_of_ne_nil _ fun he => by
    rw [Statement.Filter.combine_eq_none.2 he] at hf
    cases hf
  exact ⟨g, hg, (List.mem_filter.1 hg).2⟩

def Place.conditions (p : Place) : List Statement.Condition :=
  (p.scope.filters.flatMap Filter.allConditions).map (·.placed p.qualifier)

theorem Place.allConditions_filter (p : Place) :
    (p.scope.filter? p.qualifier).toList.flatMap Statement.Filter.allConditions = p.conditions := by
  rw [Scope.filter?, Statement.Filter.allConditions_combine, Place.conditions, List.flatMap_map,
    List.map_flatMap]
  simp only [Filter.allConditions_placed]

/-- No condition of the document is lost, doubled or moved. -/
theorem allConditions_select {d : Document} {o : StatementOptions} {e : Entity} {s : Select}
    (h : d.select o e = .ok s) :
    s.filter.toList.flatMap Statement.Filter.allConditions = (e.places o).flatMap Place.conditions := by
  rw [select_filter h, Statement.Filter.allConditions_combine,
    Statement.Filter.flatMap_filter_isSpecified, List.flatMap_assoc]
  simp only [Place.allConditions_filter]

end FetchQuery.Document
