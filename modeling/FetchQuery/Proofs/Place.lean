import FetchQuery.Document.Statement
import FetchQuery.Proofs.Draft
import FetchQuery.Proofs.Fallible

namespace FetchQuery.Document

open Statement (AliasedName Column Clause Join JoinKind KeyPair Select)

/-- The first of the texts that is not empty; empty when all of them are. -/
def firstSet (texts : List String) : String := (texts.find? (· ≠ "")).getD ""

theorem firstNonEmpty?_getD (texts : List (Option String)) (last : String) :
    (firstNonEmpty? texts).getD last = firstSet (texts.map (·.getD "") ++ [last]) := by
  induction texts with
  | nil => by_cases h : last = "" <;> simp [firstNonEmpty?, firstSet, h]
  | cons t texts ih =>
    cases t with
    | none => simpa [firstNonEmpty?, firstSet] using ih
    | some s =>
      by_cases h : s = ""
      · simpa [firstNonEmpty?, firstSet, h] using ih
      · simp [firstNonEmpty?, firstSet, h]

/-- A condition as a statement has it, in the scope of the table known as `qualifier`. -/
def Condition.placed (qualifier : String) (c : Condition) : Statement.Condition where
  column :=
    { expression := c.column
      qualifier := firstSet [c.tableAlias.getD "", c.entityName.getD "", qualifier] }
  operator := c.operator
  operands := if c.values = [] then .single (c.value.getD "") else .multiple c.values

theorem Condition.eq_placed (qualifier : String) (c : Condition) (r : Statement.Condition)
    (h : c.resolve qualifier = .ok r) : r = c.placed qualifier := by
  have hq : (firstNonEmpty? [c.tableAlias, c.entityName]).getD qualifier =
      firstSet [c.tableAlias.getD "", c.entityName.getD "", qualifier] :=
    firstNonEmpty?_getD [c.tableAlias, c.entityName] qualifier
  have ho : c.operands = if c.values = [] then .single (c.value.getD "") else .multiple c.values := by
    simp [Condition.operands, List.isEmpty_iff]
  rw [Condition.placed, ← ho, ← hq]
  unfold Condition.resolve at h
  split at h
  · obtain ⟨_, _, h⟩ := Fallible.bind_eq_ok.1 h
    exact (Fallible.pure_eq_ok.1 h).symm
  · exact (Fallible.pure_eq_ok.1 h).symm

namespace Filter

mutual

def placed (qualifier : String) : Filter → Statement.Filter
  | ⟨connective, conditions, subfilters⟩ =>
    ⟨connective, conditions.map (·.placed qualifier), placedAll qualifier subfilters⟩

def placedAll (qualifier : String) : List Filter → List Statement.Filter
  | [] => []
  | f :: fs => placed qualifier f :: placedAll qualifier fs

end

mutual

theorem eq_placed (qualifier : String) (f : Filter) (g : Statement.Filter)
    (h : f.resolve qualifier = .ok g) : g = f.placed qualifier := by
  match f with
  | ⟨connective, conditions, subfilters⟩ =>
    rw [resolve] at h
    obtain ⟨cs, hc, h⟩ := Fallible.bind_eq_ok.1 h
    obtain ⟨gs, hg, h⟩ := Fallible.bind_eq_ok.1 h
    rw [← Fallible.pure_eq_ok.1 h, placed, Fallible.eq_map_of_mapM (Condition.eq_placed qualifier) hc,
      eq_placedAll qualifier subfilters gs hg]

theorem eq_placedAll (qualifier : String) (fs : List Filter) (gs : List Statement.Filter)
    (h : resolveAll qualifier fs = .ok gs) : gs = placedAll qualifier fs := by
  match fs with
  | [] =>
    rw [resolveAll] at h
    exact (Fallible.pure_eq_ok.1 h).symm
  | f :: fs =>
    rw [resolveAll] at h
    obtain ⟨g, hg, h⟩ := Fallible.bind_eq_ok.1 h
    obtain ⟨gs, hgs, h⟩ := Fallible.bind_eq_ok.1 h
    rw [← Fallible.pure_eq_ok.1 h, placedAll, eq_placed qualifier f g hg, eq_placedAll qualifier fs gs hgs]

end

end Filter

theorem Filter.placedAll_eq_map (qualifier : String) (fs : List Filter) :
    placedAll qualifier fs = fs.map (placed qualifier) := by
  induction fs with
  | nil => rfl
  | cons f fs ih => rw [placedAll, ih, List.map_cons]

namespace Scope

def filter? (qualifier : String) (s : Scope) : Option Statement.Filter :=
  Statement.Filter.combine (s.filters.map (Filter.placed qualifier))

theorem filterMap_columnClauses_eq_nil {β : Type} (kind : Clause → Option β) (qualifier : String)
    (s : Scope) (hc : ∀ c, kind (.column c) = none) (hg : ∀ n, kind (.groupBy n) = none) :
    (s.columnClauses qualifier).filterMap kind = [] := by
  unfold columnClauses
  split
  · simp [hc]
  · rw [List.filterMap_flatMap, List.flatMap_eq_nil_iff]
    intro a _
    unfold Attribute.clauses
    split <;> simp [hc, hg]

def placed (qualifier : String) (s : Scope) : List Clause :=
  s.columnClauses qualifier ++ (s.filter? qualifier).toList.map .filter ++
    s.orders.map fun o => .orderBy (o.resolve qualifier)

theorem eq_placed (qualifier : String) (s : Scope) (clauses : List Clause)
    (h : s.clauses qualifier = .ok clauses) : clauses = s.placed qualifier := by
  unfold Scope.clauses at h
  obtain ⟨f, hf, h⟩ := Fallible.bind_eq_ok.1 h
  obtain ⟨gs, hg, rfl⟩ := Fallible.map_eq_ok.1 hf
  rw [← Fallible.pure_eq_ok.1 h, Filter.eq_placedAll qualifier s.filters gs hg, Filter.placedAll_eq_map]
  rfl

end Scope

def Link.table (l : Link) : AliasedName := ⟨l.name, firstSet [l.aliasName.getD "", l.name]⟩

theorem Link.target_eq_table (l : Link) : l.target = l.table := by
  rw [Link.target, firstNonEmpty?_getD]
  rfl

theorem Link.keyPairs_eq (l : Link) :
    l.keyPairs =
      if (keyColumns l.fromColumns).length = (keyColumns l.toColumns).length ∧
          0 < (keyColumns l.toColumns).length then
        .ok (List.zipWith KeyPair.mk (keyColumns l.toColumns) (keyColumns l.fromColumns))
      else
        .error (.unpairedKeys l.name (keyColumns l.fromColumns).length (keyColumns l.toColumns).length) := by
  by_cases h : (keyColumns l.fromColumns).length = (keyColumns l.toColumns).length ∧
      0 < (keyColumns l.toColumns).length
  · rw [if_pos h, keyPairs, if_neg]
    rw [Bool.or_eq_true, List.isEmpty_iff_length_eq_zero, bne_iff_ne]
    omega
  · rw [if_neg h, keyPairs, if_pos]
    rw [Bool.or_eq_true, List.isEmpty_iff_length_eq_zero, bne_iff_ne]
    omega

/-- Where a scope stands: in the root entity, or in a link that is joined to the table `source`. -/
inductive Place where
  | root (table : AliasedName) (scope : Scope)
  | linked (source : AliasedName) (link : Link)

namespace Place

def table : Place → AliasedName
  | root table _ => table
  | linked _ link => link.table

def scope : Place → Scope
  | root _ scope => scope
  | linked _ link => link.scope

def qualifier (p : Place) : String := p.table.aliasName

def link? : Place → Option (AliasedName × Link)
  | root _ _ => none
  | linked source link => some (source, link)

def joins : Place → Except Fault (List Join)
  | root _ _ => return []
  | linked source link => return [← link.join source]

def clauses (p : Place) : Except Fault (List Clause) := do
  let joins ← p.joins
  let own ← p.scope.clauses p.qualifier
  return joins.map .join ++ own

end Place

namespace Link

mutual

def places (source : AliasedName) : Link → List Place
  | link@⟨_, _, _, _, _, _, links⟩ => .linked source link :: placesOfAll link.table links

def placesOfAll (source : AliasedName) : List Link → List Place
  | [] => []
  | l :: ls => places source l ++ placesOfAll source ls

end

mutual

theorem clauses_eq_places (source : AliasedName) (l : Link) :
    l.clauses source = List.flatten <$> (l.places source).mapM Place.clauses := by
  match l with
  | ⟨name, aliasName, linkType, fromColumns, toColumns, scope, links⟩ =>
    rw [clauses, places, target_eq_table, clausesOfAll_eq_places _ links]
    simp [Place.clauses, Place.joins, Place.scope, Place.qualifier, Place.table]

theorem clausesOfAll_eq_places (source : AliasedName) (ls : List Link) :
    clausesOfAll source ls = List.flatten <$> (placesOfAll source ls).mapM Place.clauses := by
  match ls with
  | [] => rfl
  | l :: ls =>
    rw [clausesOfAll, placesOfAll, clauses_eq_places source l, clausesOfAll_eq_places source ls]
    simp

end

end Link

def Entity.places (o : StatementOptions) (e : Entity) : List Place :=
  let table : AliasedName := ⟨e.name, if o.aliasRoot then e.name else ""⟩
  .root table e.scope :: Link.placesOfAll table e.links

theorem Entity.clauses_eq_places (o : StatementOptions) (e : Entity) :
    e.clauses (e.source o) = List.flatten <$> (e.places o).mapM Place.clauses := by
  rw [Entity.clauses, Link.clausesOfAll_eq_places, Entity.places]
  simp [Place.clauses, Place.joins, Place.scope, Place.qualifier, Place.table, Entity.source]

/-- A statement succeeds exactly when all places of its entity do, and is made of their clauses. -/
theorem select_eq_ok {d : Document} {o : StatementOptions} {e : Entity} {s : Select} :
    d.select o e = .ok s ↔ ∃ parts,
      List.Forall₂ (fun p part => Place.clauses p = .ok part) (e.places o) parts ∧
        s = Select.ofClauses o.normalizeJoins (e.source o) (d.headClauses ++ parts.flatten) := by
  rw [Document.select, Entity.clauses_eq_places]
  constructor
  · intro h
    obtain ⟨clauses, hc, h⟩ := Fallible.bind_eq_ok.1 h
    obtain ⟨parts, hp, rfl⟩ := Fallible.map_eq_ok.1 hc
    exact ⟨parts, Fallible.mapM_eq_ok.1 hp, (Fallible.pure_eq_ok.1 h).symm⟩
  · rintro ⟨parts, hp, rfl⟩
    rw [Fallible.mapM_eq_ok.2 hp]
    rfl

namespace Place

theorem eq_of_clauses {p : Place} {part : List Clause} (h : p.clauses = .ok part) :
    ∃ joins, p.joins = .ok joins ∧ part = joins.map .join ++ p.scope.placed p.qualifier := by
  obtain ⟨joins, hj, h⟩ := Fallible.bind_eq_ok.1 h
  obtain ⟨own, ho, h⟩ := Fallible.bind_eq_ok.1 h
  rw [← Scope.eq_placed _ _ _ ho]
  exact ⟨joins, hj, (Fallible.pure_eq_ok.1 h).symm⟩

/-- What the places add to one kind of clause stands in the statement in their order. -/
theorem filterMap_flatten {β : Type} (kind : Clause → Option β) (own : Place → List β)
    {places : List Place} {parts : List (List Clause)}
    (h : List.Forall₂ (fun p part => part.filterMap kind = own p) places parts) :
    parts.flatten.filterMap kind = places.flatMap own := by
  induction h with
  | nil => rfl
  | cons hp _ ih => rw [List.flatten_cons, List.filterMap_append, hp, ih, List.flatMap_cons]

end Place

end FetchQuery.Document
