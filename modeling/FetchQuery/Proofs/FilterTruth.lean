import FetchQuery.Proofs.FilterTree

namespace FetchQuery

/-- What a condition asks of a row: an operator and its operands, of a column of the table known as
`qualifier`. -/
structure Test where
  qualifier : String
  column : String
  operator : String
  operands : List String
  deriving DecidableEq

namespace Statement

def Condition.test (c : Condition) : Test :=
  ⟨c.column.qualifier, c.column.expression, c.operator, c.operands.toList⟩

def Connective.truth : Connective → List Bool → Bool
  | and, values => values.all id
  | or, values => values.any id

namespace Filter

mutual

/-- A filter connects its conditions and those of its nested filters that are specified. -/
def truth (v : Test → Bool) : Filter → Bool
  | ⟨connective, conditions, subfilters⟩ =>
    connective.truth (conditions.map (fun c => v c.test) ++ truths v subfilters)

def truths (v : Test → Bool) : List Filter → List Bool
  | [] => []
  | f :: fs => if f.isSpecified then f.truth v :: truths v fs else truths v fs

end

theorem truths_eq_map (v : Test → Bool) (fs : List Filter) :
    truths v fs = (fs.filter isSpecified).map (truth v) := by
  induction fs with
  | nil => rfl
  | cons f fs ih => by_cases hf : f.isSpecified = true <;> simp [truths, ih, hf]

theorem truth_combine (v : Test → Bool) {fs : List Filter} {f : Filter} (h : combine fs = some f)
    (hf : f.isSpecified = true) : f.truth v = (fs.filter isSpecified).all (truth v) := by
  match fs with
  | [] => cases h
  | [g] =>
    cases h
    simp [hf]
  | g :: g' :: gs =>
    cases h
    rw [truth, truths_eq_map, Connective.truth]
    simp

end Filter

end Statement

namespace Document

/-- The test of a condition in the scope of the table known as `qualifier`: it asks of its own alias
first, of its entity next and of that table last. -/
def Condition.test (qualifier : String) (c : Condition) : Test where
  qualifier := firstSet [c.tableAlias.getD "", c.entityName.getD "", qualifier]
  column := c.column
  operator := c.operator
  operands := if c.values = [] then [c.value.getD ""] else c.values

theorem Condition.test_placed (qualifier : String) (c : Condition) :
    (c.placed qualifier).test = c.test qualifier := by
  by_cases hv : c.values = [] <;>
    simp [Condition.placed, Statement.Condition.test, Condition.test, Statement.Operands.toList, hv]

namespace Filter

mutual

def truth (v : Test → Bool) (qualifier : String) : Filter → Bool
  | ⟨connective, conditions, subfilters⟩ =>
    connective.truth (conditions.map (fun c => v (c.test qualifier)) ++ truths v qualifier subfilters)

def truths (v : Test → Bool) (qualifier : String) : List Filter → List Bool
  | [] => []
  | f :: fs =>
    if f.isSpecified then f.truth v qualifier :: truths v qualifier fs else truths v qualifier fs

end

mutual

theorem truth_placed (v : Test → Bool) (qualifier : String) (f : Filter) :
    (f.placed qualifier).truth v = f.truth v qualifier := by
  match f with
  | ⟨connective, conditions, subfilters⟩ =>
    rw [placed, Statement.Filter.truth, truth, truths_placedAll v qualifier subfilters, List.map_map]
    simp only [Function.comp_def, Condition.test_placed]

theorem truths_placedAll (v : Test → Bool) (qualifier : String) (fs : List Filter) :
    Statement.Filter.truths v (placedAll qualifier fs) = truths v qualifier fs := by
  match fs with
  | [] => rfl
  | f :: fs =>
    rw [placedAll, Statement.Filter.truths, truths, isSpecified_placed, truth_placed v qualifier f,
      truths_placedAll v qualifier fs]

end

end Filter

namespace Scope

def truth (v : Test → Bool) (qualifier : String) (s : Scope) : Bool :=
  (s.filters.filter Filter.isSpecified).all (Filter.truth v qualifier)

theorem filter_isSpecified_placed (qualifier : String) (fs : List Filter) :
    (fs.map (Filter.placed qualifier)).filter Statement.Filter.isSpecified =
      (fs.filter Filter.isSpecified).map (Filter.placed qualifier) := by
  rw [List.filter_map]
  simp only [Function.comp_def, Filter.isSpecified_placed]

theorem truth_filter? (v : Test → Bool) (qualifier : String) (s : Scope) :
    ((s.filter? qualifier).toList.filter Statement.Filter.isSpecified).all (Statement.Filter.truth v) =
      s.truth v qualifier := by
  have hs : ((s.filters.map (Filter.placed qualifier)).filter Statement.Filter.isSpecified).all
      (Statement.Filter.truth v) = s.truth v qualifier := by
    rw [filter_isSpecified_placed, List.all_map, truth]
    simp only [Function.comp_def, Filter.truth_placed]
  rw [← hs]
  cases hc : s.filter? qualifier with
  | none =>
    rw [Statement.Filter.combine_eq_none.1 hc]
    rfl
  | some f =>
    by_cases hf : f.isSpecified = true
    · rw [← Statement.Filter.truth_combine v hc hf]
      simp [hf]
    · have hn : (s.filters.map (Filter.placed qualifier)).filter Statement.Filter.isSpecified = [] := by
        rw [Statement.Filter.isSpecified_combine hc, List.any_eq_true] at hf
        exact List.filter_eq_nil_iff.2 fun g hg hg' => hf ⟨g, hg, hg'⟩
      rw [hn]
      simp [hf]

end Scope

/-- The filter of a statement keeps the meaning of its document: it is missing exactly when no scope
has a condition, and otherwise it is the conjunction of the specified filters of all scopes. -/
theorem select_filter_truth (d : Document) (o : StatementOptions) (e : Entity) (s : Statement.Select)
    (h : d.select o e = .ok s) :
    (s.filter = none ↔ ∀ p ∈ e.places o, ∀ f ∈ p.scope.filters, f.allConditions = []) ∧
      ∀ f, s.filter = some f → ∀ v : Test → Bool,
        f.truth v = (e.places o).all fun p =>
          (p.scope.filters.filter Filter.isSpecified).all (Filter.truth v p.qualifier) := by
  constructor
  · have hc := allConditions_select h
    constructor
    · intro hn p hp f hf
      rw [hn, Option.toList_none, List.flatMap_nil, eq_comm, List.flatMap_eq_nil_iff] at hc
      have hp' := List.map_eq_nil_iff.1 (hc p hp)
      exact List.flatMap_eq_nil_iff.1 hp' f hf
    · intro ha
      have hp : (e.places o).flatMap Place.conditions = [] := by
        rw [List.flatMap_eq_nil_iff]
        intro p hp
        rw [Place.conditions, List.map_eq_nil_iff, List.flatMap_eq_nil_iff]
        exact ha p hp
      cases hs : s.filter with
      | none => rfl
      | some f =>
        -- a filter that is there has a condition, and this would be one of the document's
        have hf := Statement.Filter.isSpecified_iff.1 (isSpecified_of_select h hs)
        rw [hp, hs] at hc
        simp [hf] at hc
  · intro f hf v
    have hc := select_filter h ▸ hf
    rw [Statement.Filter.truth_combine v hc (isSpecified_of_select h hf), List.filter_filter]
    simp only [Bool.and_self]
    rw [List.filter_flatMap, List.all_flatMap]
    simp only [Scope.truth_filter?, Scope.truth]

def accountsWithContacts : Entity where
  name := "account"
  scope :=
    { filters :=
        [⟨.or, [{ column := "name", operator := "eq", value := some "a" },
            { column := "name", operator := "null", tableAlias := some "", entityName := some "parent" }],
            [⟨.and, [], [{}]⟩]⟩,
          {}] }
  links :=
    [{ name := "contact"
       aliasName := some "c"
       fromColumns := "parentid"
       toColumns := "accountid"
       scope :=
         { filters :=
             [{}, { conditions := [{ column := "statecode", operator := "in", values := ["0", "1"] }] }] }
       links :=
         [{ name := "task", fromColumns := "contactid", toColumns := "id", scope := { filters := [{}] } }] }]

theorem select_filter_truth_accounts : ∃ s f,
    ({} : Document).select {} accountsWithContacts = .ok s ∧ s.filter = some f ∧
      ∀ v : Test → Bool, f.truth v =
        ((v ⟨"", "name", "eq", ["a"]⟩ || v ⟨"parent", "name", "null", [""]⟩) &&
          v ⟨"c", "statecode", "in", ["0", "1"]⟩) := by
  refine ⟨_, _, rfl, rfl, fun v => ?_⟩
  rw [(select_filter_truth {} {} accountsWithContacts _ rfl).2 _ rfl v]
  simp [accountsWithContacts, Entity.places, Link.placesOfAll, Link.places, Place.scope,
    Place.qualifier, Place.table, Link.table, firstSet, Filter.isSpecified, Filter.allConditions,
    Filter.allConditionsOf, Filter.truth, Filter.truths, Statement.Connective.truth, Condition.test]

end Document

end FetchQuery
