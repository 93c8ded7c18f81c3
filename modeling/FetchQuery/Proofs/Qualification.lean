import FetchQuery.Proofs.FilterTree
import FetchQuery.Proofs.JoinOrder
import FetchQuery.Proofs.StatementLayout
import FetchQuery.Settings.Basic

namespace FetchQuery

namespace Statement

/-- The name with an alias; without one of its own it is known under that of its surroundings. -/
def AliasedName.within (ambient : String) (n : AliasedName) : AliasedName :=
  if n.hasAlias then n else { n with aliasName := ambient }

def Column.within (ambient : String) (c : Column) : Column :=
  if c.hasQualifier then c else { c with qualifier := ambient }

def Condition.within (ambient : String) (c : Condition) : Condition :=
  { c with column := c.column.within ambient }

def Order.within (ambient : String) (o : Order) : Order :=
  { o with column := o.column.within ambient }

def Join.exposed (j : Join) : Join := { j with source := j.source.within j.source.name }

namespace Filter

mutual

def within (ambient : String) : Filter → Filter
  | ⟨connective, conditions, subfilters⟩ =>
    ⟨connective, conditions.map (Condition.within ambient), withinAll ambient subfilters⟩

def withinAll (ambient : String) : List Filter → List Filter
  | [] => []
  | f :: fs => within ambient f :: withinAll ambient fs

end

variable (ambient : String)

theorem withinAll_eq_map (fs : List Filter) : withinAll ambient fs = fs.map (within ambient) := by
  induction fs with
  | nil => rfl
  | cons f fs ih => rw [withinAll, ih, List.map_cons]

theorem within_mk (connective : Connective) (conditions : List Condition) (subfilters : List Filter) :
    within ambient ⟨connective, conditions, subfilters⟩ =
      ⟨connective, conditions.map (Condition.within ambient), subfilters.map (within ambient)⟩ := by
  rw [within, withinAll_eq_map]

theorem allConditions_within (f : Filter) :
    (f.within ambient).allConditions = f.allConditions.map (Condition.within ambient) := by
  induction f using nested_induction with
  | step f ih =>
    obtain ⟨connective, conditions, subfilters⟩ := f
    rw [within_mk, allConditions_eq, allConditions_eq, List.map_append, List.map_flatMap, List.flatMap_map]
    exact congrArg _ (List.flatMap_congr ih)

theorem isSpecified_within (f : Filter) : (f.within ambient).isSpecified = f.isSpecified := by
  rw [isSpecified_eq, isSpecified_eq, allConditions_within, List.isEmpty_map]

theorem combine_within (fs : List Filter) :
    combine (fs.map (within ambient)) = (combine fs).map (within ambient) := by
  match fs with
  | [] => rfl
  | [f] => rfl
  | f :: g :: fs =>
    simp only [combine, List.map_cons, Option.map_some, within_mk, List.map_nil]

end Filter

def Clause.within (ambient : String) : Clause → Clause
  | .column c => .column (c.within ambient)
  | .join j => .join j.exposed
  | .filter f => .filter (f.within ambient)
  | .orderBy o => .orderBy (o.within ambient)
  | .groupBy n => .groupBy (n.within ambient)
  | c => c

/-- The statement with all qualifiers written out. -/
def Select.qualified (s : Select) : Select :=
  { s with
    source := s.source.within s.source.name
    columns := s.columns.map (Column.within s.source.exposed)
    filter := s.filter.map (Filter.within s.source.exposed)
    joins := s.joins.map Join.exposed
    orderBy := s.orderBy.map (Order.within s.source.exposed)
    groupBy := s.groupBy.map (AliasedName.within s.source.exposed) }

theorem AliasedName.within_getD (ambient : String) (own : Option String) (n : AliasedName) :
    ({ n with aliasName := own.getD ambient } : AliasedName).within ambient =
      ({ n with aliasName := own.getD "" } : AliasedName).within ambient := by
  cases own with
  | some own => rfl
  | none =>
    by_cases h : ambient = ""
    · rw [h]
    · simp [within, hasAlias, h]

theorem Column.within_getD (ambient : String) (own : Option String) (c : Column) :
    ({ c with qualifier := own.getD ambient } : Column).within ambient =
      ({ c with qualifier := own.getD "" } : Column).within ambient := by
  cases own with
  | some own => rfl
  | none =>
    by_cases h : ambient = ""
    · rw [h]
    · simp [within, hasQualifier, h]

theorem AliasedName.name_within (ambient : String) (n : AliasedName) : (n.within ambient).name = n.name := by
  unfold within
  split <;> rfl

theorem AliasedName.exposed_within (n : AliasedName) : (n.within n.name).exposed = n.exposed := by
  unfold within
  by_cases h : n.hasAlias = true
  · rw [if_pos h]
  · rw [if_neg h, exposed, exposed, if_neg h]
    split <;> rfl

theorem normalizeJoins_exposed (joins : List Join) :
    normalizeJoins (joins.map Join.exposed) = (normalizeJoins joins).map Join.exposed := by
  unfold normalizeJoins
  refine (List.map_mergeSort fun a _ b _ => ?_).symm
  rfl

theorem filterMap_within {β : Type} (ambient : String) (kind : Clause → Option β) (g : β → β)
    (h : ∀ c : Clause, kind (c.within ambient) = (kind c).map g) (clauses : List Clause) :
    (clauses.map (Clause.within ambient)).filterMap kind = (clauses.filterMap kind).map g := by
  rw [List.filterMap_map, List.map_filterMap]
  exact List.filterMap_congr fun c _ => h c

theorem specifiedFilters_within (ambient : String) (clauses : List Clause) :
    specifiedFilters (clauses.map (Clause.within ambient)) =
      (specifiedFilters clauses).map (Filter.within ambient) := by
  have hspecified : Filter.isSpecified ∘ Filter.within ambient = Filter.isSpecified :=
    funext (Filter.isSpecified_within ambient)
  rw [specifiedFilters, specifiedFilters,
    filterMap_within ambient Clause.filter? (Filter.within ambient) (by rintro ⟨⟩ <;> rfl),
    List.filter_map, hspecified]

theorem Select.qualified_ofClauses (normalize : Bool) (source : AliasedName) (clauses : List Clause) :
    (Select.ofClauses normalize source clauses).qualified =
      Select.ofClauses normalize (source.within source.name)
        (clauses.map (Clause.within source.exposed)) := by
  have hdistinct := filterMap_within source.exposed Clause.distinct? id (by rintro ⟨⟩ <;> rfl) clauses
  have htop := filterMap_within source.exposed Clause.top? id (by rintro ⟨⟩ <;> rfl) clauses
  have hcolumns := filterMap_within source.exposed Clause.column? (Column.within source.exposed)
    (by rintro ⟨⟩ <;> rfl) clauses
  have hjoins := filterMap_within source.exposed Clause.join? Join.exposed (by rintro ⟨⟩ <;> rfl) clauses
  have horders := filterMap_within source.exposed Clause.orderBy? (Order.within source.exposed)
    (by rintro ⟨⟩ <;> rfl) clauses
  have hgroups := filterMap_within source.exposed Clause.groupBy? (AliasedName.within source.exposed)
    (by rintro ⟨⟩ <;> rfl) clauses
  rw [List.map_id] at hdistinct htop
  rw [ofClauses_eq, ofClauses_eq, hdistinct, htop, hcolumns, hjoins, horders, hgroups,
    specifiedFilters_within, Filter.combine_within, normalizeJoins_exposed]
  cases normalize <;> rfl

end Statement

namespace Sql

open Statement

section

variable (d : Dialect) (ambient : String)

theorem columnLayout_within (c : Column) :
    columnLayout d ambient (c.within ambient) = columnLayout d ambient c := by
  unfold Column.within
  by_cases h : c.hasQualifier = true
  · rw [if_pos h]
  · have hq : c.qualifier = "" := by simpa [Column.hasQualifier] using h
    simp [columnLayout, Column.hasQualifier, Column.isWildcard, Column.function?, Column.hasName, hq]

theorem nameLayout_within (n : AliasedName) :
    nameLayout d ambient (n.within ambient) = nameLayout d ambient n := by
  unfold AliasedName.within
  by_cases h : n.hasAlias = true
  · rw [if_pos h]
  · have ha : n.aliasName = "" := by simpa [AliasedName.hasAlias] using h
    simp [nameLayout, AliasedName.hasAlias, ha]

theorem joinLayout_exposed (j : Join) : joinLayout d j.exposed = joinLayout d j := by
  simp only [joinLayout, Join.exposed, AliasedName.exposed_within]

theorem conditionLayout_within (c : Condition) :
    conditionLayout d ambient (c.within ambient) = conditionLayout d ambient c := by
  simp only [conditionLayout, Condition.within, columnLayout_within]

mutual

theorem filterLayout_within (f : Filter) :
    filterLayout d ambient (f.within ambient) = filterLayout d ambient f := by
  match f with
  | ⟨connective, conditions, subfilters⟩ =>
    have hconditions : (conditions.map (Condition.within ambient)).mapM (conditionLayout d ambient) =
        conditions.mapM (conditionLayout d ambient) := by
      rw [List.mapM_map]
      exact congrArg (conditions.mapM ·) (funext (conditionLayout_within d ambient))
    rw [Filter.within, filterLayout, filterLayout, hconditions, subfilterLayouts_within subfilters]

theorem subfilterLayouts_within (fs : List Filter) :
    subfilterLayouts d ambient (Filter.withinAll ambient fs) = subfilterLayouts d ambient fs := by
  match fs with
  | [] => rfl
  | f :: fs =>
    rw [Filter.withinAll, subfilterLayouts, subfilterLayouts, filterLayout_within f,
      subfilterLayouts_within fs, Filter.isSpecified_within]

end

end

section

variable (d : Dialect) {s : Select}

theorem ambientName_eq (h : s.hasJoins = true) : ambientName s = s.source.exposed :=
  if_pos h

theorem ambientName_qualified (h : s.hasJoins = true) : ambientName s.qualified = s.source.exposed := by
  have hjoins : s.qualified.hasJoins = true := by
    rw [← h, Select.hasJoins, Select.hasJoins, Select.qualified, List.isEmpty_map]
  rw [ambientName_eq hjoins]
  exact s.source.exposed_within

theorem columnsLayout_qualified (h : s.hasJoins = true) :
    columnsLayout d s.qualified = columnsLayout d s := by
  have hcolumns : columnLayout d s.source.exposed ∘ Column.within s.source.exposed =
      columnLayout d s.source.exposed := funext (columnLayout_within d s.source.exposed)
  rw [columnsLayout, columnsLayout, ambientName_qualified h, ambientName_eq h, Select.qualified]
  cases hc : s.columns.isEmpty <;> simp [hc, hcolumns]

theorem fromLayout_qualified (h : s.hasJoins = true) : fromLayout d s.qualified = fromLayout d s := by
  have hjoins : joinLayout d ∘ Join.exposed = joinLayout d := funext (joinLayout_exposed d)
  rw [fromLayout, fromLayout, ambientName_qualified h, ambientName_eq h]
  simp [Select.qualified, Select.hasJoins, hjoins, AliasedName.name_within]

theorem whereLayout_qualified (h : s.hasJoins = true) : whereLayout d s.qualified = whereLayout d s := by
  rw [whereLayout, whereLayout, Select.specifiedFilter?, Select.specifiedFilter?, ambientName_qualified h,
    ambientName_eq h, Select.qualified]
  cases s.filter with
  | none => rfl
  | some f =>
    cases hf : f.isSpecified <;>
      simp [Option.filter, hf, Filter.isSpecified_within, filterLayout_within]

theorem orderLayout_qualified (h : s.hasJoins = true) : orderLayout d s.qualified = orderLayout d s := by
  rw [orderLayout, orderLayout, ambientName_qualified h, ambientName_eq h]
  simp [Select.qualified, Select.hasOrderBy, Function.comp_def, Order.within, nameLayout_within]

theorem groupLayout_qualified (h : s.hasJoins = true) : groupLayout d s.qualified = groupLayout d s := by
  rw [groupLayout, groupLayout, ambientName_qualified h, ambientName_eq h]
  simp [Select.qualified, Select.hasGroupBy, Function.comp_def, nameLayout_within]

/-- Among joins every qualifier is written anyway. -/
theorem selectLayout_qualified (h : s.hasJoins = true) :
    selectLayout d s.qualified = selectLayout d s := by
  rw [selectLayout, selectLayout, whereLayout_qualified d h, columnsLayout_qualified d h,
    fromLayout_qualified d h, orderLayout_qualified d h, groupLayout_qualified d h]
  rfl

end

end Sql

namespace Document

open Fallible
open Statement (AliasedName Clause Select Join normalizeJoins)

section

variable (root : String)

theorem Attribute.clauses_within (a : Attribute) :
    (a.clauses root).map (Clause.within root) = (a.clauses "").map (Clause.within root) := by
  have hcolumn : (a.column root).within root = (a.column "").within root :=
    (a.column "").within_getD root none
  have hgroup : AliasedName.within root ⟨a.name, root⟩ = AliasedName.within root ⟨a.name, ""⟩ :=
    AliasedName.within_getD root none ⟨a.name, ""⟩
  unfold clauses
  split <;> simp only [List.map_cons, List.map_nil, Clause.within, hcolumn, hgroup]

theorem Condition.resolve_within (c : Condition) :
    (c.resolve root).map (Statement.Condition.within root) =
      (c.resolve "").map (Statement.Condition.within root) := by
  have hcolumn := Statement.Column.within_getD root (firstNonEmpty? [c.tableAlias, c.entityName])
    { expression := c.column }
  have hcondition := congrArg (Statement.Condition.mk · c.operator c.operands) hcolumn
  unfold resolve
  cases Operator.ofId? c.operator with
  | none => exact congrArg Except.ok hcondition
  | some op => exact map_bind_congr_right fun _ => congrArg Except.ok hcondition

mutual

theorem Filter.resolve_within (f : Filter) :
    (f.resolve root).map (Statement.Filter.within root) =
      (f.resolve "").map (Statement.Filter.within root) := by
  match f with
  | ⟨connective, conditions, subfilters⟩ =>
    rw [Filter.resolve, Filter.resolve]
    have hconditions := map_mapM_congr fun c (_ : c ∈ conditions) => Condition.resolve_within root c
    refine map_bind_congr_of_map hconditions fun cs cs' hcs => ?_
    refine map_bind_congr_of_map (resolveAll_within subfilters) fun fs fs' hfs => congrArg Except.ok ?_
    rw [Statement.Filter.within_mk, Statement.Filter.within_mk, hcs, hfs]

theorem Filter.resolveAll_within (fs : List Filter) :
    (resolveAll root fs).map (List.map (Statement.Filter.within root)) =
      (resolveAll "" fs).map (List.map (Statement.Filter.within root)) := by
  match fs with
  | [] => rfl
  | f :: fs =>
    rw [resolveAll, resolveAll]
    refine map_bind_congr_of_map (Filter.resolve_within f) fun g g' hg => ?_
    refine map_bind_congr_of_map (resolveAll_within fs) fun gs gs' hgs => congrArg Except.ok ?_
    rw [List.map_cons, List.map_cons, hg, hgs]

end

theorem Filter.resolveCombined_within (fs : List Filter) :
    (resolveCombined root fs).map (Option.map (Statement.Filter.within root)) =
      (resolveCombined "" fs).map (Option.map (Statement.Filter.within root)) := by
  have hcombine : Option.map (Statement.Filter.within root) ∘ Statement.Filter.combine =
      Statement.Filter.combine ∘ List.map (Statement.Filter.within root) :=
    funext fun fs => (Statement.Filter.combine_within root fs).symm
  rw [resolveCombined, resolveCombined, map_map, map_map, hcombine, ← map_map, ← map_map,
    resolveAll_within]

theorem Order.resolve_within (o : Order) :
    (o.resolve root).within root = (o.resolve "").within root :=
  congrArg (Statement.Order.mk _) (AliasedName.within_getD root _ ⟨o.column, ""⟩)

theorem Scope.columnClauses_within (s : Scope) :
    (s.columnClauses root).map (Clause.within root) = (s.columnClauses "").map (Clause.within root) := by
  unfold columnClauses
  split
  · exact congrArg (fun c => [Clause.column c]) (Statement.Column.within_getD root none { expression := "*" })
  · rw [List.map_flatMap, List.map_flatMap]
    exact List.flatMap_congr fun a _ => a.clauses_within root

theorem Scope.clauses_within (s : Scope) :
    (s.clauses root).map (List.map (Clause.within root)) =
      (s.clauses "").map (List.map (Clause.within root)) := by
  have hfilter (f : Option Statement.Filter) : (f.toList.map Clause.filter).map (Clause.within root) =
      (f.map (Statement.Filter.within root)).toList.map Clause.filter := by
    cases f <;> rfl
  unfold clauses
  refine map_bind_congr_of_map (Filter.resolveCombined_within root s.filters) fun f f' hf => ?_
  refine congrArg Except.ok ?_
  simp only [List.map_append, hfilter, hf, columnClauses_within, List.map_map, Function.comp_def,
    Clause.within, Order.resolve_within]

end

namespace Link

variable {source source' : AliasedName} (h : source.within source.name = source'.within source'.name)
include h

theorem join_exposed (l : Link) : (l.join source).map Join.exposed = (l.join source').map Join.exposed := by
  unfold join
  refine map_bind_congr_right fun kind => map_bind_congr_right fun keys => congrArg Except.ok ?_
  simp only [Join.exposed, h]

theorem clauses_within (ambient : String) (l : Link) :
    (l.clauses source).map (List.map (Clause.within ambient)) =
      (l.clauses source').map (List.map (Clause.within ambient)) := by
  obtain ⟨name, aliasName, linkType, fromColumns, toColumns, scope, links⟩ := l
  rw [clauses, clauses]
  refine map_bind_congr_of_map (join_exposed h _) fun j j' hj => ?_
  refine map_bind_congr_right fun own => map_bind_congr_right fun nested => congrArg Except.ok ?_
  simp only [List.cons_append, List.map_cons, Clause.within, hj]

theorem clausesOfAll_within (ambient : String) (ls : List Link) :
    (clausesOfAll source ls).map (List.map (Clause.within ambient)) =
      (clausesOfAll source' ls).map (List.map (Clause.within ambient)) := by
  induction ls with
  | nil => rfl
  | cons l ls ih =>
    rw [clausesOfAll, clausesOfAll]
    refine map_bind_congr_of_map (clauses_within h ambient l) fun cs cs' hcs => ?_
    refine map_bind_congr_of_map ih fun rest rest' hrest => congrArg Except.ok ?_
    rw [List.map_append, List.map_append, hcs, hrest]

end Link

-- A link may have neither name nor alias, and then its columns lack a qualifier in both runs. So neither run
-- is the other with its qualifiers written out; they only agree once both have them.
theorem Entity.clauses_within (e : Entity) :
    (e.clauses ⟨e.name, e.name⟩).map (List.map (Clause.within e.name)) =
      (e.clauses ⟨e.name, ""⟩).map (List.map (Clause.within e.name)) := by
  have hsource := (⟨e.name, ""⟩ : AliasedName).within_getD e.name none
  unfold clauses
  refine map_bind_congr_of_map (e.scope.clauses_within e.name) fun own own' hown => ?_
  refine map_bind_congr_of_map (Link.clausesOfAll_within hsource e.name e.links) fun rest rest' hrest => ?_
  refine congrArg Except.ok ?_
  rw [List.map_append, List.map_append, hown, hrest]

theorem select_qualified (d : Document) (e : Entity) (normalize : Bool) :
    (d.select ⟨true, normalize⟩ e).map Select.qualified =
      (d.select ⟨false, normalize⟩ e).map Select.qualified := by
  have hsource := (⟨e.name, ""⟩ : AliasedName).within_getD e.name none
  unfold select
  refine map_bind_congr_of_map e.clauses_within fun cs cs' hcs => congrArg Except.ok ?_
  rw [Select.qualified_ofClauses, Select.qualified_ofClauses, Entity.exposed_source, Entity.exposed_source,
    List.map_append, List.map_append, hcs]
  exact congrArg (Select.ofClauses normalize · _) hsource

theorem hasJoins_select {d : Document} {o : StatementOptions} {e : Entity} {s : Select}
    (hs : d.select o e = .ok s) (h : e.links ≠ []) : s.hasJoins = true := by
  obtain ⟨-, joins, hj, hjoins⟩ := joins_select hs
  obtain ⟨l, ls, hl⟩ := List.exists_cons_of_ne_nil h
  have hmem : .linked (e.source o) l ∈ e.places o := by
    rw [Entity.places_eq, hl, List.flatMap_cons, Link.places_eq]
    simp
  obtain ⟨j, hjm, -⟩ := (exists_of_forall₂ hj).1 _ (Entity.mem_links_iff.2 hmem)
  have hne : joins ≠ [] := List.ne_nil_of_mem hjm
  have hnormal : normalizeJoins joins ≠ [] := by
    rw [← List.length_pos_iff, normalizeJoins, List.length_mergeSort]
    exact List.length_pos_iff.2 hne
  rw [Select.hasJoins, hjoins]
  split <;> simp [hne, hnormal]

/-- Once there are links, an alias on the root cannot be seen. -/
theorem sql_aliasRoot (d : Document) (e : Entity) (h : e.links ≠ []) (normalize : Bool)
    (dialect : Sql.Dialect) (layout : Sql.LayoutOptions) :
    d.sql ⟨dialect, ⟨true, normalize⟩, layout⟩ e = d.sql ⟨dialect, ⟨false, normalize⟩, layout⟩ e := by
  simp only [Document.sql]
  refine bind_congr_of_map (d.select_qualified e normalize) fun s s' hs hs' hq => ?_
  have hlayout := Sql.selectLayout_qualified dialect (hasJoins_select hs h)
  rw [hq, Sql.selectLayout_qualified dialect (hasJoins_select hs' h)] at hlayout
  rw [Sql.selectText_eq_render, Sql.selectText_eq_render, hlayout]

def activeAccounts : Entity where
  name := "account"
  scope :=
    { attributes := [{ name := "name", groupBy := some true }]
      filters :=
        [{ conditions :=
            [{ column := "state", operator := "eq", value := some "0" },
             { column := "city", operator := "eq", value := some "Oslo", tableAlias := some "c" }] }]
      orders := [{ column := "name" }] }
  links := [{ name := "contact", aliasName := some "c", fromColumns := "parentid", toColumns := "accountid" }]

theorem sql_aliasRoot_accounts : activeAccounts.links ≠ [] ∧
    (∃ s s', ({} : Document).select ⟨true, false⟩ activeAccounts = .ok s ∧
      ({} : Document).select ⟨false, false⟩ activeAccounts = .ok s' ∧ s.columns ≠ s'.columns) ∧
    ∀ normalize dialect layout,
      ({} : Document).sql ⟨dialect, ⟨true, normalize⟩, layout⟩ activeAccounts =
        ({} : Document).sql ⟨dialect, ⟨false, normalize⟩, layout⟩ activeAccounts := by
  refine ⟨nofun, ⟨_, _, rfl, rfl, by decide⟩, fun normalize dialect layout => ?_⟩
  exact sql_aliasRoot {} activeAccounts nofun normalize dialect layout

-- Without links the alias can be seen.
example : ({} : Document).sql { statement := ⟨true, false⟩ } { activeAccounts with links := [] } ≠
    ({} : Document).sql { statement := ⟨false, false⟩ } { activeAccounts with links := [] } := by
  decide +kernel

end Document

end FetchQuery
