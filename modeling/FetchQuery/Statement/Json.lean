import FetchQuery.Json.Record
import FetchQuery.Statement.Basic

namespace FetchQuery.Statement

open Json

/-- The name of an alternative: a text, or an object with that name alone over null. -/
def alternative? : Json → Option String
  | .string name => some name
  | .object [(name, .null)] => some name
  | _ => none

namespace AliasedName

def toJson (n : AliasedName) : Json := .object [("name", .string n.name), ("alias", .string n.aliasName)]

def ofJson? (j : Json) : Option AliasedName := do
  let [name, aliasName] ← j.fields ["name", "alias"] | none
  return ⟨← required string? name, ← required string? aliasName⟩

end AliasedName

namespace Column

def toJson (c : Column) : Json :=
  .object ([("name", .string c.name), ("alias", .string c.qualifier),
    ("expression", .string c.expression)] ++
    (c.aggregate.toList.map fun a => ("aggregate", .string a)) ++
    [("distinct", .bool c.distinct)])

def ofJson? (j : Json) : Option Column := do
  let [name, qualifier, expression, aggregate, distinct] ←
    j.fields ["name", "alias", "expression", "aggregate", "distinct"] | none
  return {
    name := ← required string? name
    qualifier := ← required string? qualifier
    expression := ← required string? expression
    aggregate := ← optional string? aggregate
    distinct := ← defaulted false bool? distinct }

end Column

namespace Operands

def toJson : Operands → Json
  | single value => .object [("Single", .string value)]
  | multiple values => .object [("Multi", .array (values.map .string))]

def ofJson? : Json → Option Operands
  | .object [("Single", value)] => value.string?.map single
  | .object [("Multi", values)] => (values.list? string?).map multiple
  | _ => none

end Operands

namespace Condition

def toJson (c : Condition) : Json :=
  .object [("lhs", c.column.toJson), ("operator", .string c.operator), ("rhs", c.operands.toJson)]

def ofJson? (j : Json) : Option Condition := do
  let [column, operator, operands] ← j.fields ["lhs", "operator", "rhs"] | none
  return {
    column := ← required Column.ofJson? column
    operator := ← required string? operator
    operands := ← required Operands.ofJson? operands }

end Condition

namespace Connective

def toJson : Connective → Json
  | and => .string "And"
  | or => .string "Or"

def ofJson? (j : Json) : Option Connective :=
  match alternative? j with
  | some "And" => some and
  | some "Or" => some or
  | _ => none

end Connective

namespace Filter

mutual

def toJson : Filter → Json
  | ⟨connective, conditions, subfilters⟩ =>
    .object [("kind", connective.toJson), ("conditions", .array (conditions.map Condition.toJson)),
      ("subfilters", .array (toJsons subfilters))]

def toJsons : List Filter → List Json
  | [] => []
  | f :: fs => toJson f :: toJsons fs

end

def read? : Nat → Json → Option Filter
  | 0, _ => none
  | depth + 1, j => do
    let [connective, conditions, subfilters] ← j.fields ["kind", "conditions", "subfilters"] | none
    return {
      connective := ← required Connective.ofJson? connective
      conditions := ← required (list? Condition.ofJson?) conditions
      subfilters := ← required (list? (read? depth)) subfilters }

def ofJson? (j : Json) : Option Filter := read? j.nesting j

end Filter

namespace JoinKind

def toJson : JoinKind → Json
  | inner => .string "Inner"
  | left => .string "Left"
  | right => .string "Right"
  | outer => .string "Outer"

def ofJson? (j : Json) : Option JoinKind :=
  match alternative? j with
  | some "Inner" => some inner
  | some "Left" => some left
  | some "Right" => some right
  | some "Outer" => some outer
  | _ => none

end JoinKind

namespace KeyPair

def toJson (k : KeyPair) : Json := .object [("lhs", .string k.source), ("rhs", .string k.target)]

def ofJson? (j : Json) : Option KeyPair := do
  let [source, target] ← j.fields ["lhs", "rhs"] | none
  return ⟨← required string? source, ← required string? target⟩

end KeyPair

namespace Join

def toJson (j : Join) : Json :=
  .object [("kind", j.kind.toJson), ("source", j.source.toJson), ("target", j.target.toJson),
    ("conditions", .array (j.keys.map KeyPair.toJson))]

def ofJson? (j : Json) : Option Join := do
  let [kind, source, target, keys] ← j.fields ["kind", "source", "target", "conditions"] | none
  return {
    kind := ← required JoinKind.ofJson? kind
    source := ← required AliasedName.ofJson? source
    target := ← required AliasedName.ofJson? target
    keys := ← required (list? KeyPair.ofJson?) keys }

end Join

namespace Direction

def toJson : Direction → Json
  | ascending => .string "Asc"
  | descending => .string "Desc"

def ofJson? (j : Json) : Option Direction :=
  match alternative? j with
  | some "Asc" => some ascending
  | some "Desc" => some descending
  | _ => none

end Direction

namespace Order

def toJson (o : Order) : Json :=
  .object [("direction", o.direction.toJson), ("column", o.column.toJson)]

def ofJson? (j : Json) : Option Order := do
  let [direction, column] ← j.fields ["direction", "column"] | none
  return ⟨← required Direction.ofJson? direction, ← required AliasedName.ofJson? column⟩

end Order

namespace Select

def orNull {α : Type} (f : α → Json) : Option α → Json
  | none => .null
  | some a => f a

def toJson (s : Select) : Json :=
  .object [("source", s.source.toJson), ("distinct", .bool s.distinct),
    ("top", orNull (fun n => natural n.toNat) s.top),
    ("attributes", .array (s.columns.map Column.toJson)),
    ("where_", orNull Filter.toJson s.filter),
    ("joins", .array (s.joins.map Join.toJson)),
    ("order_by", .array (s.orderBy.map Order.toJson)),
    ("group_by", .array (s.groupBy.map AliasedName.toJson))]

def ofJson? (j : Json) : Option Select := do
  let [source, distinct, top, columns, filter, joins, orderBy, groupBy] ←
    j.fields ["source", "distinct", "top", "attributes", "where_", "joins", "order_by",
      "group_by"] | none
  return {
    source := ← required AliasedName.ofJson? source
    distinct := ← required bool? distinct
    top := ← optional uint32? top
    columns := ← required (list? Column.ofJson?) columns
    filter := ← optional Filter.ofJson? filter
    joins := ← required (list? Join.ofJson?) joins
    orderBy := ← required (list? Order.ofJson?) orderBy
    groupBy := ← required (list? AliasedName.ofJson?) groupBy }

end Select

end FetchQuery.Statement
