import FetchQuery.Proofs.FilterTree
import FetchQuery.Proofs.JsonNumber
import FetchQuery.Proofs.JsonReading
import FetchQuery.Proofs.JsonRecord
import FetchQuery.Statement.Json

namespace FetchQuery.Statement

open Json

namespace AliasedName

def fields (n : AliasedName) : List Field :=
  [("name", some (.string n.name)), ("alias", some (.string n.aliasName))]

theorem toJson_eq (n : AliasedName) : n.toJson = .object (membersOf n.fields) := rfl

theorem ofJson?_toJson (n : AliasedName) : ofJson? n.toJson = some n := by
  have hkeys : n.fields.map Prod.fst = ["name", "alias"] := rfl
  rw [toJson_eq, ofJson?, fields_membersOf hkeys (by decide)]
  rfl

theorem numbers_toJson (n : AliasedName) : n.toJson.numbers = [] := rfl

end AliasedName

namespace Column

def fields (c : Column) : List Field :=
  [("name", some (.string c.name)), ("alias", some (.string c.qualifier)),
    ("expression", some (.string c.expression)), ("aggregate", c.aggregate.map .string),
    ("distinct", some (.bool c.distinct))]

theorem toJson_eq (c : Column) : c.toJson = .object (membersOf c.fields) := by
  cases h : c.aggregate <;> simp [toJson, fields, membersOf, h]

theorem ofJson?_toJson (c : Column) : ofJson? c.toJson = some c := by
  have hkeys : c.fields.map Prod.fst = ["name", "alias", "expression", "aggregate", "distinct"] := rfl
  rw [toJson_eq, ofJson?, fields_membersOf hkeys (by decide)]
  simp [fields, required, defaulted, string?, bool?]

theorem numbers_toJson (c : Column) : c.toJson.numbers = [] := by
  rw [toJson_eq, numbers_membersOf]
  simp [fields]

end Column

namespace Operands

theorem ofJson?_toJson (o : Operands) : ofJson? o.toJson = some o := by
  cases o with
  | single value => rfl
  | multiple values =>
    have hvalues : list? string? (.array (values.map .string)) = some values := list?_map fun _ _ => rfl
    simp [toJson, ofJson?, hvalues]

theorem numbers_toJson (o : Operands) : o.toJson.numbers = [] := by
  cases o with
  | single value => rfl
  | multiple values =>
    have hfields : (multiple values).toJson =
        .object (membersOf [("Multi", some (.array (values.map .string)))]) := rfl
    rw [hfields, numbers_membersOf, List.flatMap_singleton]
    exact numbersOfValue_array fun _ _ => rfl

end Operands

namespace Condition

def fields (c : Condition) : List Field :=
  [("lhs", some c.column.toJson), ("operator", some (.string c.operator)), ("rhs", some c.operands.toJson)]

theorem toJson_eq (c : Condition) : c.toJson = .object (membersOf c.fields) := rfl

theorem ofJson?_toJson (c : Condition) : ofJson? c.toJson = some c := by
  have hkeys : c.fields.map Prod.fst = ["lhs", "operator", "rhs"] := rfl
  rw [toJson_eq, ofJson?, fields_membersOf hkeys (by decide)]
  simp [fields, required, string?, c.column.ofJson?_toJson, c.operands.ofJson?_toJson]

theorem numbers_toJson (c : Condition) : c.toJson.numbers = [] := by
  rw [toJson_eq, numbers_membersOf]
  simp [fields, numbersOfValue_some, numbers, c.column.numbers_toJson, c.operands.numbers_toJson]

end Condition

namespace Connective

theorem ofJson?_toJson (c : Connective) : ofJson? c.toJson = some c := by
  cases c <;> rfl

theorem numbers_toJson (c : Connective) : c.toJson.numbers = [] := by
  cases c <;> rfl

end Connective

namespace Filter

theorem eta (f : Filter) : ⟨f.connective, f.conditions, f.subfilters⟩ = f := by
  cases f
  rfl

def fields (f : Filter) : List Field :=
  [("kind", some f.connective.toJson), ("conditions", some (.array (f.conditions.map Condition.toJson))),
    ("subfilters", some (.array (f.subfilters.map toJson)))]

theorem toJsons_eq_map (fs : List Filter) : toJsons fs = fs.map toJson := by
  induction fs with
  | nil => rfl
  | cons f fs ih => rw [toJsons, ih, List.map_cons]

theorem toJson_eq (f : Filter) : f.toJson = .object (membersOf f.fields) := by
  obtain ⟨connective, conditions, subfilters⟩ := f
  simp [toJson, toJsons_eq_map, fields, membersOf]

theorem nesting_toJson_lt {f g : Filter} (h : g ∈ f.subfilters) : g.toJson.nesting < f.toJson.nesting := by
  have hfield : ("subfilters", some (.array (f.subfilters.map toJson))) ∈ f.fields := by simp [fields]
  rw [toJson_eq f]
  exact nesting_lt_membersOf hfield (List.mem_map_of_mem h)

theorem read?_toJson (f : Filter) {depth : Nat} (h : f.toJson.nesting ≤ depth) :
    read? depth f.toJson = some f := by
  induction f using nested_induction generalizing depth with
  | step f ih =>
    cases depth with
    | zero =>
      rw [toJson_eq, nesting] at h
      omega
    | succ depth =>
      have hkeys : f.fields.map Prod.fst = ["kind", "conditions", "subfilters"] := rfl
      have hconditions : list? Condition.ofJson? (.array (f.conditions.map Condition.toJson)) =
          some f.conditions := list?_map fun c _ => c.ofJson?_toJson
      have hsubfilters : list? (read? depth) (.array (f.subfilters.map toJson)) = some f.subfilters :=
        list?_map fun g hg => ih g hg (by have hlt := nesting_toJson_lt hg; omega)
      rw [toJson_eq, read?, fields_membersOf hkeys (by decide)]
      simp [fields, required, f.connective.ofJson?_toJson, hconditions, hsubfilters, eta]

theorem ofJson?_toJson (f : Filter) : ofJson? f.toJson = some f :=
  f.read?_toJson (Nat.le_refl _)

theorem numbers_toJson (f : Filter) : f.toJson.numbers = [] := by
  induction f using nested_induction with
  | step f ih =>
    have hconditions := numbersOfValue_array fun c (_ : c ∈ f.conditions) => c.numbers_toJson
    have hsubfilters := numbersOfValue_array ih
    have hconnective : numbersOfValue (some f.connective.toJson) = [] := by
      rw [numbersOfValue_some, f.connective.numbers_toJson]
    rw [toJson_eq, numbers_membersOf]
    simp [fields, hconnective, hconditions, hsubfilters]

end Filter

namespace JoinKind

theorem ofJson?_toJson (k : JoinKind) : ofJson? k.toJson = some k := by
  cases k <;> rfl

theorem numbers_toJson (k : JoinKind) : k.toJson.numbers = [] := by
  cases k <;> rfl

end JoinKind

namespace KeyPair

def fields (k : KeyPair) : List Field :=
  [("lhs", some (.string k.source)), ("rhs", some (.string k.target))]

theorem toJson_eq (k : KeyPair) : k.toJson = .object (membersOf k.fields) := rfl

theorem ofJson?_toJson (k : KeyPair) : ofJson? k.toJson = some k := by
  have hkeys : k.fields.map Prod.fst = ["lhs", "rhs"] := rfl
  rw [toJson_eq, ofJson?, fields_membersOf hkeys (by decide)]
  rfl

theorem numbers_toJson (k : KeyPair) : k.toJson.numbers = [] := rfl

end KeyPair

namespace Join

def fields (j : Join) : List Field :=
  [("kind", some j.kind.toJson), ("source", some j.source.toJson), ("target", some j.target.toJson),
    ("conditions", some (.array (j.keys.map KeyPair.toJson)))]

theorem toJson_eq (j : Join) : j.toJson = .object (membersOf j.fields) := rfl

theorem ofJson?_toJson (j : Join) : ofJson? j.toJson = some j := by
  have hkeys : j.fields.map Prod.fst = ["kind", "source", "target", "conditions"] := rfl
  have hpairs : list? KeyPair.ofJson? (.array (j.keys.map KeyPair.toJson)) = some j.keys :=
    list?_map fun k _ => k.ofJson?_toJson
  rw [toJson_eq, ofJson?, fields_membersOf hkeys (by decide)]
  simp [fields, required, JoinKind.ofJson?_toJson, AliasedName.ofJson?_toJson, hpairs]

theorem numbers_toJson (j : Join) : j.toJson.numbers = [] := by
  have hpairs := numbersOfValue_array fun k (_ : k ∈ j.keys) => k.numbers_toJson
  rw [numbersOfValue_some] at hpairs
  rw [toJson_eq, numbers_membersOf]
  simp [fields, numbersOfValue_some, JoinKind.numbers_toJson, AliasedName.numbers_toJson, hpairs]

end Join

namespace Direction

theorem ofJson?_toJson (d : Direction) : ofJson? d.toJson = some d := by
  cases d <;> rfl

theorem numbers_toJson (d : Direction) : d.toJson.numbers = [] := by
  cases d <;> rfl

end Direction

namespace Order

def fields (o : Order) : List Field :=
  [("direction", some o.direction.toJson), ("column", some o.column.toJson)]

theorem toJson_eq (o : Order) : o.toJson = .object (membersOf o.fields) := rfl

theorem ofJson?_toJson (o : Order) : ofJson? o.toJson = some o := by
  have hkeys : o.fields.map Prod.fst = ["direction", "column"] := rfl
  rw [toJson_eq, ofJson?, fields_membersOf hkeys (by decide)]
  simp [fields, required, Direction.ofJson?_toJson, AliasedName.ofJson?_toJson]

theorem numbers_toJson (o : Order) : o.toJson.numbers = [] := by
  rw [toJson_eq, numbers_membersOf]
  simp [fields, numbersOfValue_some, Direction.numbers_toJson, AliasedName.numbers_toJson]

end Order

namespace Select

section

variable {α : Type} {f : Json → Option α} {g : α → Json}

/-- A value is told from one that is not there unless it is written as null itself. -/
theorem optional_orNull (hf : ∀ a, f (g a) = some a) (hg : ∀ a, g a ≠ .null) (o : Option α) :
    Json.optional f (some (orNull g o)) = some o := by
  cases o with
  | none => rfl
  | some a =>
    rw [orNull, Json.optional, hf, Option.map_some]
    exact hg a

theorem numbersOfValue_orNull (g : α → Json) (o : Option α) :
    numbersOfValue (some (orNull g o)) = o.toList.flatMap fun a => (g a).numbers := by
  rw [numbersOfValue_some]
  cases o <;> simp [orNull, numbers]

end

def fields (s : Select) : List Field :=
  [("source", some s.source.toJson), ("distinct", some (.bool s.distinct)),
    ("top", some (orNull (fun n => natural n.toNat) s.top)),
    ("attributes", some (.array (s.columns.map Column.toJson))),
    ("where_", some (orNull Filter.toJson s.filter)), ("joins", some (.array (s.joins.map Join.toJson))),
    ("order_by", some (.array (s.orderBy.map Order.toJson))),
    ("group_by", some (.array (s.groupBy.map AliasedName.toJson)))]

theorem toJson_eq (s : Select) : s.toJson = .object (membersOf s.fields) := rfl

theorem ofJson?_toJson (s : Select) : ofJson? s.toJson = some s := by
  have hkeys : s.fields.map Prod.fst =
    ["source", "distinct", "top", "attributes", "where_", "joins", "order_by", "group_by"] := rfl
  have htop : optional uint32? (some (orNull (fun n => natural n.toNat) s.top)) = some s.top :=
    optional_orNull (f := uint32?) uint32?_natural (by nofun) s.top
  have hcolumns : list? Column.ofJson? (.array (s.columns.map Column.toJson)) = some s.columns :=
    list?_map fun c _ => c.ofJson?_toJson
  have hfilter : optional Filter.ofJson? (some (orNull Filter.toJson s.filter)) = some s.filter :=
    optional_orNull Filter.ofJson?_toJson (fun f => by rw [Filter.toJson_eq]; nofun) s.filter
  have hjoins : list? Join.ofJson? (.array (s.joins.map Join.toJson)) = some s.joins :=
    list?_map fun j _ => j.ofJson?_toJson
  have horderBy : list? Order.ofJson? (.array (s.orderBy.map Order.toJson)) = some s.orderBy :=
    list?_map fun o _ => o.ofJson?_toJson
  have hgroupBy : list? AliasedName.ofJson? (.array (s.groupBy.map AliasedName.toJson)) = some s.groupBy :=
    list?_map fun n _ => n.ofJson?_toJson
  rw [toJson_eq, ofJson?, fields_membersOf hkeys (by decide)]
  simp [fields, required, bool?, AliasedName.ofJson?_toJson, htop, hcolumns, hfilter, hjoins, horderBy, hgroupBy]

theorem numbers_toJson (s : Select) :
    s.toJson.numbers = s.top.toList.map fun n => Number.integer n.toNat := by
  have hcolumns := numbersOfValue_array fun c (_ : c ∈ s.columns) => c.numbers_toJson
  have hjoins := numbersOfValue_array fun j (_ : j ∈ s.joins) => j.numbers_toJson
  have horderBy := numbersOfValue_array fun o (_ : o ∈ s.orderBy) => o.numbers_toJson
  have hgroupBy := numbersOfValue_array fun n (_ : n ∈ s.groupBy) => n.numbers_toJson
  have hsource : numbersOfValue (some s.source.toJson) = [] := rfl
  have hfilter : numbersOfValue (some (orNull Filter.toJson s.filter)) = [] := by
    simp [numbersOfValue_orNull, Filter.numbers_toJson]
  have htop : numbersOfValue (some (orNull (fun n : UInt32 => natural n.toNat) s.top)) =
      s.top.toList.map fun n => Number.integer n.toNat := by
    rw [numbersOfValue_orNull, List.map_eq_flatMap]
    rfl
  rw [toJson_eq, numbers_membersOf]
  simp only [fields, List.flatMap_cons, List.flatMap_nil, numbersOfValue_bool, hsource, htop, hcolumns, hfilter,
    hjoins, horderBy, hgroupBy, List.nil_append, List.append_nil]

theorem isLegible_of_mem_numbers {s : Select} {n : Number} (h : n ∈ s.toJson.numbers) : n.IsLegible := by
  rw [numbers_toJson] at h
  obtain ⟨top, _, rfl⟩ := List.mem_map.1 h
  exact Number.isLegible_uint32 top

/-- A statement is read from what it is written as exactly as it is, and from the text of that as long as it
nests less than the reader's limit. -/
theorem read_written (s : Select) :
    ofJson? s.toJson = some s ∧
      (s.toJson.nesting < 128 → (parse s.toJson.text).bind ofJson? = some s) := by
  refine ⟨s.ofJson?_toJson, fun h => ?_⟩
  have hn : s.toJson.nesting ≤ maxNesting := Nat.le_of_lt_succ h
  have hk : Keeps (fun _ => false) s.toJson := fun _ _ => rfl
  rw [parse, parseIgnoring_text _ _ (fun _ => isLegible_of_mem_numbers) hn hk, Option.bind_some]
  exact s.ofJson?_toJson

def regionFilter : Filter where
  connective := .or
  conditions := [⟨{ expression := "region", qualifier := "c" }, "in", .multiple []⟩]
  subfilters := [⟨.and, [⟨{ expression := "name", aggregate := some "" }, "eq", .single "\"\\\n"⟩,
    ⟨{ expression := "code" }, "in", .multiple ["😀\x00"]⟩], [⟨.or, [], []⟩]⟩]

def salesByRegion : Select where
  source := ⟨"sale", ""⟩
  distinct := true
  top := some 4294967295
  columns := [{ name := "total", expression := "amount", aggregate := some "sum", distinct := true },
    .wildcard "c"]
  filter := some regionFilter
  joins := [⟨.outer, ⟨"sale", ""⟩, ⟨"customer", "c"⟩, [⟨"customerid", "id"⟩, ⟨"kind", "kind"⟩]⟩]
  orderBy := [⟨.descending, ⟨"total", ""⟩⟩]
  groupBy := [⟨"region", "c"⟩]

theorem read_written_salesByRegion :
    salesByRegion.toJson.nesting < 128 ∧ ofJson? salesByRegion.toJson = some salesByRegion ∧
      (parse salesByRegion.toJson.text).bind ofJson? = some salesByRegion :=
  ⟨by decide, (read_written salesByRegion).1, (read_written salesByRegion).2 (by decide)⟩

end Select

end FetchQuery.Statement
