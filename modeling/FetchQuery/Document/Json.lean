import FetchQuery.Document.Basic
import FetchQuery.Json.Reader
import FetchQuery.Json.Record
import FetchQuery.Json.Writer

namespace FetchQuery.Document

open Json

def given {α : Type} (key : String) (f : α → Json) : Option α → List (String × Json)
  | none => []
  | some a => [(key, f a)]

namespace Attribute

def toJson (a : Attribute) : Json :=
  .object ([("name", .string a.name)] ++ given "alias" .string a.aliasName ++
    given "aggregate" .string a.aggregate ++ given "groupby" .bool a.groupBy ++
    given "distinct" .bool a.distinct)

def ofJson? (j : Json) : Option Attribute := do
  let [name, aliasName, aggregate, groupBy, distinct] ←
    j.fields ["name", "alias", "aggregate", "groupby", "distinct"] | none
  return {
    name := ← required string? name
    aliasName := ← optional string? aliasName
    aggregate := ← optional string? aggregate
    groupBy := ← optional bool? groupBy
    distinct := ← optional bool? distinct }

end Attribute

namespace Condition

def toJson (c : Condition) : Json :=
  .object ([("attribute", .string c.column), ("operator", .string c.operator)] ++
    given "entityname" .string c.entityName ++ given "alias" .string c.tableAlias ++
    given "value" .string c.value ++
    if c.values.isEmpty then [] else [("values", .array (c.values.map .string))])

def ofJson? (j : Json) : Option Condition := do
  let [column, operator, entityName, tableAlias, value, values] ←
    j.fields ["attribute", "operator", "entityname", "alias", "value", "values"] | none
  return {
    column := ← required string? column
    operator := ← required string? operator
    entityName := ← optional string? entityName
    tableAlias := ← optional string? tableAlias
    value := ← optional string? value
    values := ← defaulted [] (list? string?) values }

end Condition

def connectiveOfName? : String → Option Statement.Connective
  | "and" => some .and
  | "or" => some .or
  | _ => none

/-- A connective is its name, or an object with that name alone over nothing. -/
def connective? : Json → Option Statement.Connective
  | .string name => connectiveOfName? name
  | .object [(name, .null)] => connectiveOfName? name
  | .object [(name, .object [])] => connectiveOfName? name
  | _ => none

namespace Filter

mutual

def toJson : Filter → Json
  | ⟨connective, conditions, subfilters⟩ =>
    .object [("type", .string connective.keyword),
      ("condition", .array (conditions.map Condition.toJson)),
      ("filter", .array (toJsons subfilters))]

def toJsons : List Filter → List Json
  | [] => []
  | f :: fs => toJson f :: toJsons fs

end

/-- Reads a filter with at most `depth` levels of filters in it. -/
def read? : Nat → Json → Option Filter
  | 0, _ => none
  | depth + 1, j => do
    let [connective, conditions, subfilters] ← j.fields ["type", "condition", "filter"] | none
    return {
      connective := ← defaulted .and connective? connective
      conditions := ← defaulted [] (list? Condition.ofJson?) conditions
      subfilters := ← defaulted [] (list? (read? depth)) subfilters }

def ofJson? (j : Json) : Option Filter := read? j.nesting j

end Filter

namespace Order

def toJson (o : Order) : Json :=
  .object ([("attribute", .string o.column)] ++ given "alias" .string o.tableAlias ++
    [("descending", .bool o.descending)])

def ofJson? (j : Json) : Option Order := do
  let [column, tableAlias, descending] ← j.fields ["attribute", "alias", "descending"] | none
  return {
    column := ← required string? column
    tableAlias := ← optional string? tableAlias
    descending := ← defaulted false bool? descending }

end Order

namespace Scope

def members (s : Scope) : List (String × Json) :=
  [("all-attributes", .bool s.allAttributes),
    ("attribute", .array (s.attributes.map Attribute.toJson)),
    ("filter", .array (s.filters.map Filter.toJson)),
    ("order", .array (s.orders.map Order.toJson))]

def ofJson? (j : Json) : Option Scope := do
  let [allAttributes, attributes, filters, orders] ←
    j.namedFields ["all-attributes", "attribute", "filter", "order"] | none
  return {
    allAttributes := ← defaulted false bool? allAttributes
    attributes := ← defaulted [] (list? Attribute.ofJson?) attributes
    filters := ← defaulted [] (list? Filter.ofJson?) filters
    orders := ← defaulted [] (list? Order.ofJson?) orders }

end Scope

namespace Link

mutual

def toJson : Link → Json
  | ⟨name, aliasName, linkType, fromColumns, toColumns, scope, links⟩ =>
    .object ([("name", .string name)] ++ given "alias" .string aliasName ++
      given "link-type" .string linkType ++
      [("from", .string fromColumns), ("to", .string toColumns)] ++ scope.members ++
      [("link-entity", .array (toJsons links))])

def toJsons : List Link → List Json
  | [] => []
  | l :: ls => toJson l :: toJsons ls

end

def read? : Nat → Json → Option Link
  | 0, _ => none
  | depth + 1, j => do
    let [name, aliasName, linkType, fromColumns, toColumns, links] ←
      j.namedFields ["name", "alias", "link-type", "from", "to", "link-entity"] | none
    return {
      name := ← required string? name
      aliasName := ← optional string? aliasName
      linkType := ← optional string? linkType
      fromColumns := ← defaulted "" string? fromColumns
      toColumns := ← defaulted "" string? toColumns
      scope := ← Scope.ofJson? j
      links := ← defaulted [] (list? (read? depth)) links }

def ofJson? (j : Json) : Option Link := read? j.nesting j

end Link

namespace Entity

def toJson (e : Entity) : Json :=
  .object ([("name", .string e.name)] ++ e.scope.members ++
    [("link-entity", .array (e.links.map Link.toJson))])

def ofJson? (j : Json) : Option Entity := do
  let [name, links] ← j.namedFields ["name", "link-entity"] | none
  return {
    name := ← required string? name
    scope := ← Scope.ofJson? j
    links := ← defaulted [] (list? Link.ofJson?) links }

end Entity

def fieldNames : List String := ["distinct", "top", "entity"]

def toJson (d : Document) : Json :=
  .object (given "distinct" .bool d.distinct ++ given "top" (fun n => natural n.toNat) d.top ++
    [("entity", .array (d.entities.map Entity.toJson))])

def ofJson? (j : Json) : Option Document := do
  let [distinct, top, entities] ← j.fields fieldNames | none
  return {
    distinct := ← optional bool? distinct
    top := ← optional uint32? top
    entities := ← defaulted [] (list? Entity.ofJson?) entities }

/-- Reads a document. Keys of the root that belong to no field are passed over. -/
def parse (s : String) : Option Document :=
  (Json.parseIgnoring (fun key => !fieldNames.contains key) s).bind ofJson?

end FetchQuery.Document
