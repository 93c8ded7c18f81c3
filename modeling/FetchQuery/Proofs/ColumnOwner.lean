import FetchQuery.Proofs.ConditionColumn
import FetchQuery.Proofs.FilterText
import FetchQuery.Proofs.LayoutOutcome
import FetchQuery.Proofs.Qualification
import FetchQuery.Proofs.TableNames
import Mathlib.Data.List.Perm.Basic

namespace FetchQuery

namespace Fallible

variable {α β γ : Type}

theorem exists_between {R : α → γ → Prop} {S : γ → β → Prop} {as : List α} {bs : List β}
    (h : List.Forall₂ (fun a b => ∃ c, R a c ∧ S c b) as bs) :
    ∃ cs, List.Forall₂ R as cs ∧ List.Forall₂ S cs bs := by
  induction h with
  | nil => exact ⟨[], .nil, .nil⟩
  | cons hab _ ih =>
    obtain ⟨c, hr, hs⟩ := hab
    obtain ⟨cs, hrs, hss⟩ := ih
    exact ⟨c :: cs, .cons hr hrs, .cons hs hss⟩

end Fallible

namespace Sql

open Layout (ofText)
open Statement (Column Condition Connective Filter Select)
open Fallible

/-- A column behind what shows its table; `*` stands for all columns. -/
def reference (d : Dialect) (lead column : String) : String :=
  lead ++ if column = "*" then "*" else d.quote column

theorem append_eq_reference (d : Dialect) (lead column : String) :
    lead ++ (if column == "*" then column else d.quote column) = reference d lead column := by
  by_cases h : column = "*" <;> simp [reference, h]

def listClause (keyword : String) (items : List Layout) : Layout :=
  if items = [] then [] else [.lineBreak 0, .text keyword, .lineBreak 1] ++ Layout.join [.comma] items

/-- The conditions in their order, in parentheses with one connective between them; the last ones may stand in groups
of their own. -/
inductive Grouped : List Layout → Layout → Prop
  | intro (connective : Connective) (own : List Layout) {groups : List (List Layout)} {nested : List Layout}
      (inside : List.Forall₂ Grouped groups nested) :
      Grouped (own ++ groups.flatten)
        (ofText "(" ++ Layout.join [.space, .text connective.keyword, .space] (own ++ nested) ++ ofText ")")

def IsWhereClause (conditions : List Layout) (l : Layout) : Prop :=
  if conditions = [] then l = []
  else ∃ group, Grouped conditions group ∧ l = [.lineBreak 0, .text "where", .lineBreak 1] ++ group

section

variable {d : Dialect} {ambient : String}

theorem filterLayout_grouped {f : Filter} {l : Layout} (h : filterLayout d ambient f = .ok l) :
    ∃ conditions, List.Forall₂ (fun c r => conditionLayout d ambient c = .ok r) f.allConditions conditions ∧
      Grouped conditions l := by
  induction f using Filter.nested_induction generalizing l with
  | step f ih =>
    obtain ⟨own, nested, hown, hnested, rfl⟩ := filterLayout_eq_ok h
    -- filters that are passed over have no conditions, so nothing is missing from the groups
    have hsub : ∀ g ∈ f.subfilters.filter Filter.isSpecified, g ∈ f.subfilters := fun g => List.mem_of_mem_filter
    have hboth := (List.forall₂_and_left _ _).2 ⟨hsub, mapM_eq_ok.1 hnested⟩
    have hgrouped : List.Forall₂ (fun g l => ∃ conditions,
        List.Forall₂ (fun c r => conditionLayout d ambient c = .ok r) (Filter.allConditions g) conditions ∧
          Grouped conditions l) (f.subfilters.filter Filter.isSpecified) nested :=
      hboth.imp fun g _ hg => ih g hg.1 hg.2
    obtain ⟨groups, hgroups, hinside⟩ := exists_between hgrouped
    refine ⟨own ++ groups.flatten, ?_, .intro f.connective own hinside⟩
    rw [Filter.allConditions_eq, ← Filter.flatMap_filter_isSpecified, List.flatMap_def]
    exact List.rel_append (mapM_eq_ok.1 hown) (List.rel_flatten (List.forall₂_map_left_iff.2 hgroups))

theorem whereLayout_isWhereClause {s : Select} {l : Layout} (h : whereLayout d s = .ok l) :
    ∃ conditions, List.Forall₂ (fun c r => conditionLayout d (ambientName s) c = .ok r) s.conditions conditions ∧
      IsWhereClause conditions l := by
  unfold whereLayout Select.specifiedFilter? at h
  unfold Select.conditions
  cases hs : s.filter with
  | none =>
    rw [hs] at h
    exact ⟨[], .nil, (pure_eq_ok.1 h).symm⟩
  | some f =>
    rw [hs] at h
    rw [Option.toList_some, List.flatMap_singleton]
    cases hf : f.isSpecified with
    | true =>
      rw [Option.filter_some_pos hf] at h
      obtain ⟨group, hg, h⟩ := bind_eq_ok.1 h
      obtain ⟨conditions, hc, hgroup⟩ := filterLayout_grouped hg
      refine ⟨conditions, hc, ?_⟩
      have hne : conditions ≠ [] := by
        rintro rfl
        exact Filter.isSpecified_iff.1 hf (List.forall₂_nil_right_iff.1 hc)
      rw [IsWhereClause, if_neg hne]
      exact ⟨group, hgroup, (pure_eq_ok.1 h).symm⟩
    | false =>
      have he : f.allConditions = [] := by simpa [Filter.isSpecified_eq] using hf
      rw [Option.filter_some_neg hf] at h
      exact ⟨[], he ▸ .nil, (pure_eq_ok.1 h).symm⟩

theorem orderLayout_eq (s : Select) : orderLayout d s = listClause "order by" (s.orderBy.map fun o =>
    nameLayout d (ambientName s) o.column ++ [.space, .text o.direction.keyword]) := by
  unfold orderLayout listClause Select.hasOrderBy
  cases s.orderBy <;> rfl

theorem groupLayout_eq (s : Select) :
    groupLayout d s = listClause "group by" (s.groupBy.map (nameLayout d (ambientName s))) := by
  unfold groupLayout listClause Select.hasGroupBy
  cases s.groupBy <;> rfl

end

end Sql

namespace Document

open Fallible
open Sql (Dialect Layout reference listClause IsWhereClause)
open Sql.Layout (ofText)
open Statement (AliasedName Join JoinKind Select)

theorem lists_select {d : Document} {o : StatementOptions} {e : Entity} {s : Select} (h : d.select o e = .ok s) :
    s.columns = (e.places o).flatMap Place.columns ∧ s.groupBy = (e.places o).flatMap Place.groups ∧
      s.orderBy = (e.places o).flatMap Place.orders := by
  obtain ⟨parts, hp, rfl⟩ := select_eq_ok.1 h
  have hcolumns := Place.filterMap_flatten _ _ (hp.imp fun _ _ => Place.filterMap_column)
  have hgroups := Place.filterMap_flatten _ _ (hp.imp fun _ _ => Place.filterMap_group)
  have horders := Place.filterMap_flatten _ _ (hp.imp fun _ _ => Place.filterMap_order)
  rw [Select.ofClauses_eq]
  refine ⟨?_, ?_, ?_⟩
  · simp [hcolumns, headClauses, List.filterMap_cons, Function.comp_def, Statement.Clause.column?]
  · simp [hgroups, headClauses, List.filterMap_cons, Function.comp_def, Statement.Clause.groupBy?]
  · simp [horders, headClauses, List.filterMap_cons, Function.comp_def, Statement.Clause.orderBy?]

theorem exists_perm_links_select {d : Document} {o : StatementOptions} {e : Entity} {s : Select}
    (h : d.select o e = .ok s) : ∃ links, links.Perm ((e.places o).filterMap Place.link?) ∧
      List.Forall₂ (fun l j => Link.IsJoin l.1 l.2 j) links s.joins := by
  obtain ⟨joins, hperm, hj⟩ := perm_joins_select h
  -- instead of the joins, the links can be put into the order of the statement
  have hcomp : Relation.Comp (List.Forall₂ fun l j => Link.IsJoin l.1 l.2 j) List.Perm
      ((e.places o).filterMap Place.link?) s.joins := ⟨joins, hj, hperm.symm⟩
  rw [List.forall₂_comp_perm_eq_perm_comp_forall₂] at hcomp
  obtain ⟨links, hlinks, hforall⟩ := hcomp
  exact ⟨links, hlinks.symm, hforall⟩

theorem hasJoins_select_iff {d : Document} {o : StatementOptions} {e : Entity} {s : Select}
    (h : d.select o e = .ok s) : s.hasJoins = true ↔ e.links ≠ [] := by
  refine ⟨fun hj hl => ?_, hasJoins_select h⟩
  obtain ⟨links, hperm, hjoins⟩ := exists_perm_links_select h
  have hnone : (e.places o).filterMap Place.link? = [] := by
    rw [Entity.places_eq, hl]
    rfl
  rw [hnone, List.perm_nil] at hperm
  subst hperm
  simp [Select.hasJoins, List.forall₂_nil_left_iff.1 hjoins] at hj

/-- What stands before a column that may name a table itself. -/
def leadFor (names : List String) (lead : String) : String :=
  if firstSet names = "" then lead else firstSet names ++ "."

theorem firstSet_append_singleton (names : List String) (last : String) :
    firstSet (names ++ [last]) = if firstSet names = "" then last else firstSet names := by
  induction names with
  | nil => by_cases h : last = "" <;> simp [firstSet, h]
  | cons name names ih => by_cases h : name = "" <;> simp_all [firstSet]

namespace Entity

/-- What stands before the columns of a place. Among links it is the name under which the table of the place has been
brought in; an entity without links is only named when it has an alias. -/
def lead (o : StatementOptions) (e : Entity) (p : Place) : String :=
  if e.links ≠ [] then p.table.exposed ++ "."
  else if o.aliasRoot then e.name ++ "."
  else ""

def ambient (o : StatementOptions) (e : Entity) : String :=
  if e.links ≠ [] then e.name else (e.source o).aliasName

end Entity

theorem ambientName_select {d : Document} {o : StatementOptions} {e : Entity} {s : Select}
    (h : d.select o e = .ok s) : Sql.ambientName s = e.ambient o := by
  rw [Sql.ambientName, (joins_select h).1, Entity.ambient, Entity.exposed_source]
  simp only [hasJoins_select_iff h]

section

variable {o : StatementOptions} {e : Entity} {p : Place}

theorem Link.eq_linked_of_mem_places {source : AliasedName} {l : Link} (h : p ∈ l.places source) :
    ∃ around m, p = .linked around m := by
  induction l using Link.nested_induction generalizing source with
  | step l ih =>
    rw [Link.places_eq] at h
    rcases List.mem_cons.1 h with h | h
    · exact ⟨_, _, h⟩
    · obtain ⟨m, hm, h⟩ := List.mem_flatMap.1 h
      exact ih m hm h

theorem Entity.mem_places_cases (h : p ∈ e.places o) : p = .root (e.source o) e.scope ∨
    ∃ source l, p = .linked source l ∧ e.links ≠ [] ∧ l.name ∈ e.names := by
  have hp := h
  rw [Entity.places_eq, List.mem_cons] at h
  refine h.imp_right fun h => ?_
  obtain ⟨m, hm, h⟩ := List.mem_flatMap.1 h
  obtain ⟨source, l, rfl⟩ := Link.eq_linked_of_mem_places h
  have hl : l ∈ e.allLinks := by
    rw [← Entity.map_link_places o]
    exact List.mem_map.2 ⟨_, Entity.mem_links_iff.2 hp, rfl⟩
  exact ⟨source, l, rfl, List.ne_nil_of_mem hm, List.mem_cons_of_mem _ (List.mem_map_of_mem hl)⟩

theorem Link.aliasName_table_ne {l : Link} (h : l.name ≠ "") : l.table.aliasName ≠ "" := by
  by_cases ha : l.aliasName.getD "" = "" <;> simp [Link.table, firstSet, ha, h]

theorem Entity.ambient_eq_source (o : StatementOptions) (e : Entity) :
    (if (e.source o).aliasName != "" then (e.source o).aliasName else e.ambient o) = e.ambient o := by
  cases ho : o.aliasRoot <;> simp [Entity.source, Entity.ambient, ho]

theorem qualified_ambient (o : StatementOptions) (hname : e.name ≠ "") (column : String) :
    Sql.qualified (e.ambient o) column = e.lead o (.root (e.source o) e.scope) ++ column := by
  rw [Entity.lead, Place.table, Entity.exposed_source]
  by_cases hl : e.links = []
  · cases ho : o.aliasRoot <;> simp [Entity.ambient, Entity.source, Sql.qualified, hl, ho, hname]
  · simp [Entity.ambient, Sql.qualified, hl, hname]

/-- The alias of a place, completed where it is missing, is what the place's columns should stand behind. -/
theorem qualified_owner (hn : "" ∉ e.names) (hp : p ∈ e.places o) (column : String) :
    Sql.qualified (if p.qualifier != "" then p.qualifier else e.ambient o) column = e.lead o p ++ column := by
  have hname : e.name ≠ "" := fun he => hn (he ▸ List.mem_cons_self)
  rcases Entity.mem_places_cases hp with rfl | ⟨source, l, rfl, hl, hm⟩
  · rw [Place.qualifier, Place.table, Entity.ambient_eq_source]
    exact qualified_ambient o hname column
  · have ha : l.table.aliasName ≠ "" := Link.aliasName_table_ne fun he => hn (he ▸ hm)
    simp [Place.qualifier, Place.table, Entity.lead, AliasedName.exposed, AliasedName.hasAlias, Sql.qualified, hl, ha]

theorem qualified_named (hn : "" ∉ e.names) (hp : p ∈ e.places o) (names : List String) (column : String) :
    Sql.qualified (if firstSet (names ++ [p.qualifier]) != "" then firstSet (names ++ [p.qualifier]) else e.ambient o)
      column = leadFor names (e.lead o p) ++ column := by
  rw [firstSet_append_singleton, leadFor]
  by_cases h : firstSet names = ""
  · simp only [if_pos h]
    exact qualified_owner hn hp column
  · simp [h, Sql.qualified]

end

def Attribute.projection (a : Attribute) (column : String) : Layout :=
  let base := (if a.distinct = some true then [.text "distinct", .space] else []) ++ ofText column
  let value := if a.aggregate.getD "" = "" then base else Sql.aggregatedLayout (a.aggregate.getD "") base
  value ++ if a.aliasName.getD "" = "" then []
    else [.space, .text "as", .space, .text (Sql.literal (a.aliasName.getD ""))]

/-- The condition on its column, which stands behind `lead` unless the condition names another table. The parts
between which the column stands are the same for every column. -/
def Condition.IsWritten (d : Dialect) (lead : String) (c : Condition) (l : Layout) : Prop :=
  ∃ parts, parts.length = Operator.mentionsOf c.operator + 1 ∧
    (∀ lhs, d.condition lhs c.operator c.operands.toList = .ok (Layout.join lhs parts)) ∧
    l = Layout.join
      (ofText (reference d (leadFor [c.tableAlias.getD "", c.entityName.getD ""] lead) c.column)) parts

/-- The join of a link to the table `source`: both tables go by the names under which they have been brought in. -/
def Link.IsWritten (d : Dialect) (source : AliasedName) (link : Link) (l : Layout) : Prop :=
  ∃ kind, joinKind (link.linkType.getD "inner") = .ok kind ∧
    keyColumns link.toColumns ≠ [] ∧
    (keyColumns link.toColumns).length = (keyColumns link.fromColumns).length ∧
    l = [.text (Sql.joinKeyword kind), .space, .text "join", .space, .text (d.quote link.name), .space,
      .text link.table.exposed, .space, .text "on", .lineBreak 2, .text "("] ++
      Layout.join [.space, .text "and", .space] (List.zipWith (fun outer own =>
        ofText (source.exposed ++ "." ++ d.quote outer ++ " = " ++ link.table.exposed ++ "." ++ d.quote own))
        (keyColumns link.toColumns) (keyColumns link.fromColumns)) ++ ofText ")"

namespace Place

def projections (d : Dialect) (lead : String) (p : Place) : List Layout :=
  if p.scope.allAttributes then [ofText (lead ++ "*")]
  else p.scope.attributes.map fun a => a.projection (reference d lead a.name)

def groupings (d : Dialect) (lead : String) (p : Place) : List Layout :=
  if p.scope.allAttributes then []
  else (p.scope.attributes.filter (·.groupBy = some true)).map fun a => ofText (lead ++ d.quote a.name)

def orderings (d : Dialect) (lead : String) (p : Place) : List Layout :=
  p.scope.orders.map fun o =>
    ofText (leadFor [o.tableAlias.getD ""] lead ++ d.quote o.column) ++
      [.space, .text (if o.descending then "desc" else "asc")]

end Place

section

variable {o : StatementOptions} {e : Entity} {p : Place} (d : Dialect)

theorem columnLayout_attribute (hn : "" ∉ e.names) (hp : p ∈ e.places o) (a : Attribute) :
    Sql.columnLayout d (e.ambient o) (a.column p.qualifier) = a.projection (reference d (e.lead o p) a.name) := by
  have hr : Sql.qualified
      (if (a.column p.qualifier).hasQualifier then (a.column p.qualifier).qualifier else e.ambient o)
      (if (a.column p.qualifier).isWildcard then (a.column p.qualifier).expression
        else d.quote (a.column p.qualifier).expression) = reference d (e.lead o p) a.name :=
    (qualified_owner hn hp _).trans (Sql.append_eq_reference d _ a.name)
  have hdistinct : (a.column p.qualifier).distinct = true ↔ a.distinct = some true := by
    cases h : a.distinct <;> simp [Attribute.column, h]
  have hfunction : (a.column p.qualifier).function? =
      if a.aggregate.getD "" = "" then none else some (a.aggregate.getD "") := by
    cases h : a.aggregate with
    | none => simp [Attribute.column, Statement.Column.function?, h]
    | some f => by_cases hf : f = "" <;> simp [Attribute.column, Statement.Column.function?, h, hf]
  have hname : (a.column p.qualifier).hasName = true ↔ ¬ a.aliasName.getD "" = "" := by
    simp [Attribute.column, Statement.Column.hasName]
  simp only [Sql.columnLayout, hr, Attribute.projection, hdistinct, hfunction, hname, ite_not]
  by_cases hf : a.aggregate.getD "" = ""
  · simp only [if_pos hf]
    rfl
  · simp only [if_neg hf]
    rfl

theorem map_columnLayout (hn : "" ∉ e.names) (hp : p ∈ e.places o) :
    p.columns.map (Sql.columnLayout d (e.ambient o)) = p.projections d (e.lead o p) := by
  unfold Place.columns Place.projections
  split
  · exact congrArg (fun r => [ofText r]) (qualified_owner hn hp "*")
  · rw [List.map_map]
    exact List.map_congr_left fun a _ => columnLayout_attribute d hn hp a

theorem map_nameLayout (hn : "" ∉ e.names) (hp : p ∈ e.places o) :
    p.groups.map (Sql.nameLayout d (e.ambient o)) = p.groupings d (e.lead o p) := by
  unfold Place.groups Place.groupings
  split
  · rfl
  · rw [List.map_map]
    exact List.map_congr_left fun a _ => congrArg ofText (qualified_owner hn hp _)

theorem map_orders (hn : "" ∉ e.names) (hp : p ∈ e.places o) :
    (p.orders.map fun r => Sql.nameLayout d (e.ambient o) r.column ++ [.space, .text r.direction.keyword]) =
      p.orderings d (e.lead o p) := by
  unfold Place.orders Place.orderings
  rw [List.map_map]
  refine List.map_congr_left fun r _ => congrArg₂ (· ++ ·) ?_ ?_
  · exact congrArg ofText (qualified_named hn hp [r.tableAlias.getD ""] _)
  · cases hr : r.descending <;> simp [hr, Statement.Direction.keyword]

theorem isWritten_of_conditionLayout {d : Dialect} (hn : "" ∉ e.names) (hp : p ∈ e.places o) {c : Condition}
    {l : Layout} (h : Sql.conditionLayout d (e.ambient o) (c.placed p.qualifier) = .ok l) :
    c.IsWritten d (e.lead o p) l := by
  have hcolumn : Sql.columnLayout d (e.ambient o) (c.placed p.qualifier).column =
      ofText (reference d (leadFor [c.tableAlias.getD "", c.entityName.getD ""] (e.lead o p)) c.column) :=
    congrArg ofText ((qualified_named hn hp [c.tableAlias.getD "", c.entityName.getD ""] _).trans
      (Sql.append_eq_reference d _ c.column))
  have hoperands : (c.placed p.qualifier).operands = c.operands := by
    simp [Condition.operands, Condition.placed, List.isEmpty_iff]
  rw [Sql.conditionLayout, hcolumn, hoperands] at h
  obtain ⟨fault, he⟩ | ⟨parts, hlength, hparts⟩ := d.condition_surrounds c.operator c.operands.toList
  · cases h.symm.trans (he _)
  · exact ⟨parts, hlength, hparts, Except.ok.inj (h.symm.trans (hparts _))⟩

theorem isWritten_joinLayout {source : AliasedName} {link : Link} {j : Join} (h : link.IsJoin source j) :
    link.IsWritten d source (Sql.joinLayout d j) := by
  refine ⟨j.kind, h.kind, ?_, ?_, ?_⟩
  · rw [← h.sourceKeys]
    exact fun hk => h.keyed (List.map_eq_nil_iff.1 hk)
  · rw [← h.sourceKeys, ← h.targetKeys, List.length_map, List.length_map]
  · rw [← h.sourceKeys, ← h.targetKeys, Sql.joinLayout, h.source, h.target, List.zipWith_map,
      List.zipWith_self]
    rfl

end

namespace Entity

def projections (d : Dialect) (o : StatementOptions) (e : Entity) : List Layout :=
  let columns := (e.places o).flatMap fun p => p.projections d (e.lead o p)
  if columns = [] then [ofText (e.lead o (.root (e.source o) e.scope) ++ "*")] else columns

def groupings (d : Dialect) (o : StatementOptions) (e : Entity) : List Layout :=
  (e.places o).flatMap fun p => p.groupings d (e.lead o p)

def orderings (d : Dialect) (o : StatementOptions) (e : Entity) : List Layout :=
  (e.places o).flatMap fun p => p.orderings d (e.lead o p)

/-- The conditions of the document in reading order, each with the place where it stands. -/
def conditions (o : StatementOptions) (e : Entity) : List (Place × Condition) :=
  (e.places o).flatMap fun p => (p.scope.filters.flatMap Filter.allConditions).map fun c => (p, c)

/-- The entity's own table, with the name by which it goes among links, and then the joins of the links in some
order. -/
def IsFromClause (d : Dialect) (o : StatementOptions) (e : Entity) (l : Layout) : Prop :=
  ∃ links joins, links.Perm ((e.places o).filterMap Place.link?) ∧
    List.Forall₂ (fun p j => Link.IsWritten d p.1 p.2 j) links joins ∧
    l = [.lineBreak 0, .text "from", .lineBreak 0, .text (d.quote e.name)] ++
      if e.links = [] then []
      else [.space, .text "as", .space, .text (e.source o).exposed, .lineBreak 1] ++
        Layout.join [.lineBreak 1] joins

theorem mem_places_of_mem_conditions {o : StatementOptions} {e : Entity} {p : Place × Condition}
    (h : p ∈ e.conditions o) : p.1 ∈ e.places o := by
  obtain ⟨q, hq, h⟩ := List.mem_flatMap.1 h
  obtain ⟨c, _, rfl⟩ := List.mem_map.1 h
  exact hq

end Entity

section

variable {d : Document} {o : StatementOptions} {e : Entity} {s : Select} (hn : "" ∉ e.names)
  (h : d.select o e = .ok s) (dialect : Dialect)
include h

theorem conditions_select : s.conditions = (e.conditions o).map fun p => p.2.placed p.1.qualifier := by
  rw [Select.conditions, allConditions_select h, Entity.conditions, List.map_flatMap]
  refine List.flatMap_congr fun p _ => ?_
  rw [Place.conditions, List.map_map]
  rfl

theorem fromLayout_select : e.IsFromClause dialect o (Sql.fromLayout dialect s) := by
  obtain ⟨links, hperm, hjoins⟩ := exists_perm_links_select h
  refine ⟨links, s.joins.map (Sql.joinLayout dialect), hperm, ?_, ?_⟩
  · exact List.forall₂_map_right_iff.2 (hjoins.imp fun _ _ => isWritten_joinLayout dialect)
  · have hsource := (joins_select h).1
    rw [Sql.fromLayout]
    by_cases hl : e.links = []
    · rw [if_neg fun hj => (hasJoins_select_iff h).1 hj hl, if_pos hl, hsource]
      rfl
    · have hj := (hasJoins_select_iff h).2 hl
      rw [if_pos hj, if_neg hl, Sql.ambientName_eq hj, hsource]
      rfl

include hn

theorem columnsLayout_select : Sql.columnsLayout dialect s =
    [.lineBreak 1] ++ Layout.join [.columnSeparator] (e.projections dialect o) := by
  have hcolumns : s.columns.map (Sql.columnLayout dialect (e.ambient o)) =
      (e.places o).flatMap fun p => p.projections dialect (e.lead o p) := by
    rw [(lists_select h).1, List.map_flatMap]
    exact List.flatMap_congr fun p hp => map_columnLayout dialect hn hp
  rw [Sql.columnsLayout, ambientName_select h, Entity.projections, ← hcolumns]
  cases s.columns with
  | nil =>
    have hname : e.name ≠ "" := fun he => hn (he ▸ List.mem_cons_self)
    have hroot := qualified_ambient o hname "*"
    exact congrArg (fun r => [.lineBreak 1] ++ Layout.join [.columnSeparator] [ofText r]) hroot
  | cons c columns => rfl

theorem groupLayout_select :
    Sql.groupLayout dialect s = listClause "group by" (e.groupings dialect o) := by
  rw [Sql.groupLayout_eq, ambientName_select h, (lists_select h).2.1, List.map_flatMap]
  exact congrArg _ (List.flatMap_congr fun p hp => map_nameLayout dialect hn hp)

theorem orderLayout_select :
    Sql.orderLayout dialect s = listClause "order by" (e.orderings dialect o) := by
  rw [Sql.orderLayout_eq, ambientName_select h, (lists_select h).2.2, List.map_flatMap]
  exact congrArg _ (List.flatMap_congr fun p hp => map_orders dialect hn hp)

theorem whereLayout_select {l : Layout} (hl : Sql.whereLayout dialect s = .ok l) : ∃ conditions,
    List.Forall₂ (fun p r => p.2.IsWritten dialect (e.lead o p.1) r) (e.conditions o) conditions ∧
      IsWhereClause conditions l := by
  obtain ⟨conditions, hc, hw⟩ := Sql.whereLayout_isWhereClause hl
  rw [conditions_select h, ambientName_select h, List.forall₂_map_left_iff] at hc
  have hplaced := (List.forall₂_and_left _ _).2 ⟨fun _ => Entity.mem_places_of_mem_conditions, hc⟩
  exact ⟨conditions, hplaced.imp fun p r hp => isWritten_of_conditionLayout hn hp.1 hp.2, hw⟩

end

/-- Every column of a statement stands behind the name of the table it belongs to, and that name is the one under which
the statement has brought in the table. -/
theorem sql_columns_owned (d : Document) (dialect : Dialect) (o : StatementOptions) (layout : Sql.LayoutOptions)
    (e : Entity) (t : String) (hn : "" ∉ e.names) (h : d.sql ⟨dialect, o, layout⟩ e = .ok t) :
    ∃ s tables conditions filter, d.select o e = .ok s ∧ e.IsFromClause dialect o tables ∧
      List.Forall₂ (fun p r => p.2.IsWritten dialect (e.lead o p.1) r) (e.conditions o) conditions ∧
      IsWhereClause conditions filter ∧
      t = Layout.render layout (Sql.headLayout dialect s ++
        ([.lineBreak 1] ++ Layout.join [.columnSeparator] (e.projections dialect o)) ++ tables ++ filter ++
        listClause "order by" (e.orderings dialect o) ++ listClause "group by" (e.groupings dialect o) ++
        Sql.tailLayout dialect s) := by
  obtain ⟨s, hs, h⟩ := bind_eq_ok.1 h
  obtain ⟨l, hl, rfl⟩ := Sql.selectText_eq_ok.1 h
  obtain ⟨filter, hf, hl⟩ := bind_eq_ok.1 hl
  obtain ⟨conditions, hc, hw⟩ := whereLayout_select hn hs dialect hf
  refine ⟨s, _, conditions, filter, hs, fromLayout_select hs dialect, hc, hw, ?_⟩
  rw [← pure_eq_ok.1 hl, columnsLayout_select hn hs, orderLayout_select hn hs, groupLayout_select hn hs]

def tasksByAccount : Entity where
  name := "account"
  scope := { orders := [{ column := "name" }] }
  links :=
    [{ name := "contact"
       aliasName := some "c"
       fromColumns := "parent"
       toColumns := "id"
       scope :=
         { filters := [{ conditions := [{ column := "city", operator := "null", entityName := some "account" }] }] }
       links :=
         [{ name := "task"
            linkType := some "outer"
            fromColumns := "owner"
            toColumns := "id"
            scope := { attributes := [{ name := "due", groupBy := some true }] } }] }]

theorem sql_columns_owned_tasks : "" ∉ tasksByAccount.names ∧ ∃ t,
    t = "select task.[due] from [account] as account inner join [contact] c on (account.[id] = c.[parent]) " ++
      "left outer join [task] task on (c.[id] = task.[owner]) where (account.[city] is null) " ++
      "order by account.[name] asc group by task.[due]" ∧
    ({} : Document).sql ⟨.sqlServer, {}, .compact⟩ tasksByAccount = .ok t ∧
    ∃ s tables conditions filter, ({} : Document).select {} tasksByAccount = .ok s ∧
      tasksByAccount.IsFromClause .sqlServer {} tables ∧
      List.Forall₂ (fun p r => p.2.IsWritten .sqlServer (tasksByAccount.lead {} p.1) r)
        (tasksByAccount.conditions {}) conditions ∧
      IsWhereClause conditions filter ∧
      t = Layout.render .compact (Sql.headLayout .sqlServer s ++
        ([.lineBreak 1] ++ Layout.join [.columnSeparator] (tasksByAccount.projections .sqlServer {})) ++ tables ++
        filter ++ listClause "order by" (tasksByAccount.orderings .sqlServer {}) ++
        listClause "group by" (tasksByAccount.groupings .sqlServer {}) ++ Sql.tailLayout .sqlServer s) := by
  have hn : "" ∉ tasksByAccount.names := by decide
  refine ⟨hn, _, rfl, ?ht, sql_columns_owned {} .sqlServer {} .compact tasksByAccount _ hn ?ht⟩
  decide +kernel

-- Without links the names of the tables do not show.
example : ({} : Document).sql ⟨.sqlServer, {}, .compact⟩
    { tasksByAccount with scope := { allAttributes := true }, links := [] } = .ok "select * from [account]" := by
  decide +kernel

end Document

end FetchQuery
