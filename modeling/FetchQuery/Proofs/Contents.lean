import FetchQuery.Proofs.FilterTree

namespace FetchQuery.Document

open Statement (AliasedName Column Clause Join Select)

namespace Place

/-- The columns that a place projects; all of them are one wildcard. -/
def columns (p : Place) : List Column :=
  if p.scope.allAttributes then [{ expression := "*", qualifier := p.qualifier }]
  else p.scope.attributes.map fun a =>
    { name := a.aliasName.getD ""
      qualifier := p.qualifier
      expression := a.name
      aggregate := a.aggregate
      distinct := a.distinct.getD false }

/-- The columns by which a place groups; a wildcard is not grouped. -/
def groups (p : Place) : List AliasedName :=
  if p.scope.allAttributes then []
  else (p.scope.attributes.filter (·.groupBy = some true)).map fun a => ⟨a.name, p.qualifier⟩

def orders (p : Place) : List Statement.Order :=
  p.scope.orders.map fun o =>
    { direction := if o.descending then .descending else .ascending
      column := ⟨o.column, firstSet [o.tableAlias.getD "", p.qualifier]⟩ }

end Place

/-- `j` joins the table of the link to the table `source`, on the keys that the link lists. -/
structure Link.IsJoin (source : AliasedName) (l : Link) (j : Join) : Prop where
  kind : joinKind (l.linkType.getD "inner") = .ok j.kind
  source : j.source = source
  target : j.target = l.table
  sourceKeys : j.keys.map (·.source) = keyColumns l.toColumns
  targetKeys : j.keys.map (·.target) = keyColumns l.fromColumns
  keyed : j.keys ≠ []

namespace Link

theorem keyPairs_eq_ok {l : Link} {keys : List Statement.KeyPair} (h : l.keyPairs = .ok keys) :
    keys.map (·.source) = keyColumns l.toColumns ∧ keys.map (·.target) = keyColumns l.fromColumns ∧
      keys ≠ [] := by
  rw [keyPairs_eq] at h
  split at h
  next hk =>
    obtain rfl := Except.ok.inj h
    have hn : keyColumns l.toColumns ≠ [] := List.length_pos_iff.1 hk.2
    rw [← List.map_uncurry_zip_eq_zipWith, List.map_map, List.map_map]
    refine ⟨List.map_fst_zip (Nat.le_of_eq hk.1.symm), List.map_snd_zip (Nat.le_of_eq hk.1), ?_⟩
    rw [ne_eq, List.map_eq_nil_iff, ← List.length_eq_zero_iff, List.length_zip, hk.1, Nat.min_self,
      List.length_eq_zero_iff]
    exact hn
  next => cases h

theorem isJoin_of_join {source : AliasedName} {l : Link} {j : Join} (h : l.join source = .ok j) :
    l.IsJoin source j := by
  obtain ⟨kind, hk, h⟩ := Fallible.bind_eq_ok.1 h
  obtain ⟨keys, hp, h⟩ := Fallible.bind_eq_ok.1 h
  obtain rfl := Fallible.pure_eq_ok.1 h
  obtain ⟨hs, ht, hn⟩ := keyPairs_eq_ok hp
  exact ⟨hk, rfl, l.target_eq_table, hs, ht, hn⟩

end Link

theorem Attribute.filterMap_clauses_group (a : Attribute) (qualifier : String) :
    (a.clauses qualifier).filterMap Clause.groupBy? =
      if a.groupBy = some true then [⟨a.name, qualifier⟩] else [] := by
  unfold Attribute.clauses
  split <;> rfl

namespace Scope

theorem filterMap_columnClauses_column (qualifier : String) (s : Scope) :
    (s.columnClauses qualifier).filterMap Clause.column? =
      if s.allAttributes then [Column.wildcard qualifier] else s.attributes.map (·.column qualifier) := by
  unfold columnClauses
  split
  · rfl
  · rw [List.filterMap_flatMap, List.map_eq_flatMap]
    congr
    funext a
    unfold Attribute.clauses
    split <;> rfl

theorem filterMap_columnClauses_group (qualifier : String) (s : Scope) :
    (s.columnClauses qualifier).filterMap Clause.groupBy? =
      if s.allAttributes then []
      else (s.attributes.filter (·.groupBy = some true)).map fun a => ⟨a.name, qualifier⟩ := by
  unfold columnClauses
  split
  · rfl
  · rw [List.filterMap_flatMap]
    induction s.attributes with
    | nil => rfl
    | cons a attributes ih =>
      rw [List.flatMap_cons, ih, Attribute.filterMap_clauses_group]
      by_cases ha : a.groupBy = some true <;> simp [ha]

end Scope

namespace Place

theorem filterMap_column {p : Place} {part : List Clause} (h : p.clauses = .ok part) :
    part.filterMap Clause.column? = p.columns := by
  obtain ⟨joins, _, rfl⟩ := eq_of_clauses h
  simp [Scope.placed, Scope.filterMap_columnClauses_column, Function.comp_def, Clause.column?, columns,
    Column.wildcard, Attribute.column]

theorem filterMap_group {p : Place} {part : List Clause} (h : p.clauses = .ok part) :
    part.filterMap Clause.groupBy? = p.groups := by
  obtain ⟨joins, _, rfl⟩ := eq_of_clauses h
  simp [Scope.placed, Scope.filterMap_columnClauses_group, Function.comp_def, Clause.groupBy?, groups]

theorem filterMap_order {p : Place} {part : List Clause} (h : p.clauses = .ok part) :
    part.filterMap Clause.orderBy? = p.orders := by
  obtain ⟨joins, _, rfl⟩ := eq_of_clauses h
  have hc := Scope.filterMap_columnClauses_eq_nil Clause.orderBy? p.qualifier p.scope
    (fun _ => rfl) (fun _ => rfl)
  have ho : p.scope.orders.map (Order.resolve p.qualifier) = p.orders := by
    simp [orders, Order.resolve, firstNonEmpty?_getD]
  simp [Scope.placed, hc, Function.comp_def, Clause.orderBy?, ← ho]

theorem filterMap_join {p : Place} {part : List Clause} (h : p.clauses = .ok part) :
    p.joins = .ok (part.filterMap Clause.join?) := by
  obtain ⟨joins, hj, rfl⟩ := eq_of_clauses h
  have hc := Scope.filterMap_columnClauses_eq_nil Clause.join? p.qualifier p.scope
    (fun _ => rfl) (fun _ => rfl)
  simp [Scope.placed, hc, Function.comp_def, Clause.join?, hj]

theorem filterMap_flatten_eq_nil {β : Type} (kind : Clause → Option β)
    {places : List Place} {parts : List (List Clause)}
    (h : List.Forall₂ (fun p part => Place.clauses p = .ok part) places parts)
    (hj : ∀ j, kind (.join j) = none) (hc : ∀ c, kind (.column c) = none)
    (hg : ∀ n, kind (.groupBy n) = none) (hf : ∀ f, kind (.filter f) = none)
    (ho : ∀ o, kind (.orderBy o) = none) : parts.flatten.filterMap kind = [] := by
  have hn : List.Forall₂ (fun _ part => part.filterMap kind = []) places parts := by
    refine h.imp fun p part hp => ?_
    obtain ⟨joins, _, rfl⟩ := eq_of_clauses hp
    simp [Scope.placed, Scope.filterMap_columnClauses_eq_nil kind p.qualifier p.scope hc hg, hj, hf, ho]
  rw [filterMap_flatten kind (fun _ => []) hn, List.flatMap_eq_nil_iff]
  exact fun _ _ => rfl

theorem forall₂_isJoin {places : List Place} {parts : List (List Clause)}
    (h : List.Forall₂ (fun p part => Place.clauses p = .ok part) places parts) :
    List.Forall₂ (fun l j => Link.IsJoin l.1 l.2 j) (places.filterMap link?)
      (parts.flatten.filterMap Clause.join?) := by
  induction h with
  | nil => exact .nil
  | @cons p part places parts hp _ ih =>
    have hj := filterMap_join hp
    rw [List.flatten_cons, List.filterMap_append]
    cases p with
    | root table scope =>
      rw [← Fallible.pure_eq_ok.1 hj]
      exact ih
    | linked source link =>
      obtain ⟨j, hl, hj⟩ := Fallible.bind_eq_ok.1 hj
      rw [← Fallible.pure_eq_ok.1 hj]
      exact .cons (Link.isJoin_of_join hl) ih

end Place

/-- A statement holds what its document holds, place by place: nothing is lost, doubled or moved, and
everything stands under the alias of its own place unless it names another. -/
theorem select_contents (d : Document) (o : StatementOptions) (e : Entity) (s : Select)
    (hn : o.normalizeJoins = false) (h : d.select o e = .ok s) :
    s.source = ⟨e.name, if o.aliasRoot then e.name else ""⟩ ∧
      s.distinct = d.distinct.getD false ∧ s.top = d.top ∧
      s.columns = (e.places o).flatMap Place.columns ∧
      s.groupBy = (e.places o).flatMap Place.groups ∧
      s.orderBy = (e.places o).flatMap Place.orders ∧
      List.Forall₂ (fun l j => Link.IsJoin l.1 l.2 j) ((e.places o).filterMap Place.link?) s.joins ∧
      s.filter.toList.flatMap Statement.Filter.allConditions =
        (e.places o).flatMap Place.conditions := by
  have hc := allConditions_select h
  obtain ⟨parts, hp, rfl⟩ := select_eq_ok.1 h
  have hcolumns := Place.filterMap_flatten _ _ (hp.imp fun _ _ => Place.filterMap_column)
  have hgroups := Place.filterMap_flatten _ _ (hp.imp fun _ _ => Place.filterMap_group)
  have horders := Place.filterMap_flatten _ _ (hp.imp fun _ _ => Place.filterMap_order)
  have hdistinct := Place.filterMap_flatten_eq_nil Clause.distinct? hp
    (fun _ => rfl) (fun _ => rfl) (fun _ => rfl) (fun _ => rfl) (fun _ => rfl)
  have htop := Place.filterMap_flatten_eq_nil Clause.top? hp
    (fun _ => rfl) (fun _ => rfl) (fun _ => rfl) (fun _ => rfl) (fun _ => rfl)
  have hjoins := Place.forall₂_isJoin hp
  rw [Select.ofClauses_eq] at hc ⊢
  refine ⟨rfl, ?_, ?_, ?_, ?_, ?_, ?_, hc⟩
  · simp [hdistinct, headClauses, Function.comp_def, Clause.distinct?]
  · cases ht : d.top <;>
      simp [htop, ht, headClauses, List.filterMap_cons, Clause.top?]
  · simp [hcolumns, headClauses, List.filterMap_cons, Function.comp_def, Clause.column?]
  · simp [hgroups, headClauses, List.filterMap_cons, Function.comp_def, Clause.groupBy?]
  · simp [horders, headClauses, List.filterMap_cons, Function.comp_def, Clause.orderBy?]
  · simpa [hn, headClauses, List.filterMap_cons, Function.comp_def, Clause.join?] using hjoins

def accountsByRegion : Entity where
  name := "account"
  scope :=
    { attributes := [{ name := "region", groupBy := some true }]
      orders := [{ column := "region", descending := true }] }
  links :=
    [{ name := "contact"
       aliasName := some "c"
       fromColumns := "parentid"
       toColumns := "accountid"
       scope :=
         { allAttributes := true
           attributes := [{ name := "name", groupBy := some true }]
           orders := [{ column := "name", tableAlias := some "other" }] }
       links :=
         [{ name := "task"
            linkType := some "outer"
            fromColumns := "owner, kind"
            toColumns := "id,,kind"
            scope := { attributes := [{ name := "subject" }] } }] },
     { name := "lead", fromColumns := "accountid", toColumns := "accountid" }]

theorem select_contents_accounts : ∃ s, ({} : Document).select {} accountsByRegion = .ok s ∧
    s.columns.map (fun c => (c.qualifier, c.expression)) =
      [("", "region"), ("c", "*"), ("task", "subject")] ∧
    s.groupBy = [⟨"region", ""⟩] ∧
    s.orderBy.map (·.column) = [⟨"region", ""⟩, ⟨"name", "other"⟩] ∧ s.joins.length = 3 := by
  refine ⟨_, rfl, ?_⟩
  obtain ⟨_, _, _, hc, hg, ho, hj, _⟩ := select_contents {} {} accountsByRegion _ rfl rfl
  rw [hc, hg, ho, ← hj.length_eq]
  exact ⟨rfl, rfl, rfl, rfl⟩

end FetchQuery.Document
