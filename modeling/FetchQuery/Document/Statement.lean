import FetchQuery.Document.Basic
import FetchQuery.Operator.Lexicon
import FetchQuery.Statement.Draft
import FetchQuery.Text.Blank

namespace FetchQuery.Document

open Statement (AliasedName Column Clause Join JoinKind KeyPair Select)

structure StatementOptions where
  /-- Whether the root entity gets its own name as alias. -/
  aliasRoot : Bool := false
  normalizeJoins : Bool := false
  deriving Repr, DecidableEq

def firstNonEmpty? : List (Option String) → Option String
  | [] => none
  | none :: rest => firstNonEmpty? rest
  | some s :: rest => if s = "" then firstNonEmpty? rest else some s

namespace Attribute

def column (a : Attribute) (qualifier : String) : Column where
  name := a.aliasName.getD ""
  qualifier := qualifier
  expression := a.name
  aggregate := a.aggregate
  distinct := a.distinct.getD false

def clauses (a : Attribute) (qualifier : String) : List Clause :=
  .column (a.column qualifier) :: if a.groupBy = some true then [.groupBy ⟨a.name, qualifier⟩] else []

end Attribute

namespace Condition

def operands (c : Condition) : Statement.Operands :=
  if c.values.isEmpty then .single (c.value.getD "") else .multiple c.values

/-- The condition in the scope of an entity. An operator outside the lexicon is left for later. -/
def resolve (qualifier : String) (c : Condition) : Except Fault Statement.Condition := do
  if let some op := Operator.ofId? c.operator then
    op.checkOperands c.operands.toList.length
  return {
    column := { expression := c.column, qualifier := (firstNonEmpty? [c.tableAlias, c.entityName]).getD qualifier }
    operator := c.operator
    operands := c.operands }

end Condition

namespace Filter

mutual

def resolve (qualifier : String) : Filter → Except Fault Statement.Filter
  | ⟨connective, conditions, subfilters⟩ => do
    let conditions ← conditions.mapM (Condition.resolve qualifier)
    let subfilters ← resolveAll qualifier subfilters
    return ⟨connective, conditions, subfilters⟩

def resolveAll (qualifier : String) : List Filter → Except Fault (List Statement.Filter)
  | [] => return []
  | f :: fs => do
    let first ← resolve qualifier f
    let rest ← resolveAll qualifier fs
    return first :: rest

end

def resolveCombined (qualifier : String) (filters : List Filter) : Except Fault (Option Statement.Filter) :=
  (resolveAll qualifier filters).map Statement.Filter.combine

end Filter

def Order.resolve (qualifier : String) (o : Order) : Statement.Order where
  direction := if o.descending then .descending else .ascending
  column := ⟨o.column, (firstNonEmpty? [o.tableAlias]).getD qualifier⟩

namespace Scope

def columnClauses (s : Scope) (qualifier : String) : List Clause :=
  if s.allAttributes then [.column (Column.wildcard qualifier)]
  else s.attributes.flatMap (·.clauses qualifier)

def clauses (s : Scope) (qualifier : String) : Except Fault (List Clause) := do
  let filter ← Filter.resolveCombined qualifier s.filters
  return s.columnClauses qualifier ++ filter.toList.map .filter ++
    s.orders.map fun o => .orderBy (o.resolve qualifier)

end Scope

/-- The columns of a comma-separated list, without the blanks around them; blank pieces count for
nothing. -/
def keyColumns (columns : String) : List String :=
  (((Text.split ',' columns.toList).map Text.dropBlanks).filter (! ·.isEmpty)).map String.ofList

def joinKind : String → Except Fault JoinKind
  | "inner" => .ok .inner
  | "left" | "left-outer" | "outer" => .ok .left
  | "right" | "right-outer" => .ok .right
  | "full-outer" => .ok .outer
  | other => .error (.unknownLinkType other)

namespace Link

/-- The joined table, under its alias or else under its own name. -/
def target (l : Link) : AliasedName := ⟨l.name, (firstNonEmpty? [l.aliasName]).getD l.name⟩

def keyPairs (l : Link) : Except Fault (List KeyPair) :=
  let toKeys := keyColumns l.toColumns
  let fromKeys := keyColumns l.fromColumns
  if toKeys.isEmpty || toKeys.length != fromKeys.length then
    .error (.unpairedKeys l.name fromKeys.length toKeys.length)
  else .ok (List.zipWith KeyPair.mk toKeys fromKeys)

/-- The join of this entity to the table `source`. A link without a type is an inner join. -/
def join (source : AliasedName) (l : Link) : Except Fault Join := do
  let kind ← joinKind (l.linkType.getD "inner")
  let keys ← l.keyPairs
  return ⟨kind, source, l.target, keys⟩

mutual

def clauses (source : AliasedName) : Link → Except Fault (List Clause)
  | link@⟨_, _, _, _, _, scope, links⟩ => do
    let join ← link.join source
    let own ← scope.clauses link.target.aliasName
    let nested ← clausesOfAll link.target links
    return .join join :: own ++ nested

def clausesOfAll (source : AliasedName) : List Link → Except Fault (List Clause)
  | [] => return []
  | l :: ls => do
    let first ← clauses source l
    let rest ← clausesOfAll source ls
    return first ++ rest

end

end Link

namespace Entity

def source (o : StatementOptions) (e : Entity) : AliasedName :=
  ⟨e.name, if o.aliasRoot then e.name else ""⟩

def clauses (source : AliasedName) (e : Entity) : Except Fault (List Clause) := do
  let own ← e.scope.clauses source.aliasName
  let linked ← Link.clausesOfAll source e.links
  return own ++ linked

end Entity

def headClauses (d : Document) : List Clause :=
  .distinct (d.distinct.getD false) :: d.top.toList.map .top

def select (d : Document) (o : StatementOptions) (e : Entity) : Except Fault Select := do
  let clauses ← e.clauses (e.source o)
  return Select.ofClauses o.normalizeJoins (e.source o) (d.headClauses ++ clauses)

/-- The statements of the root entities; a fault in one does not touch the others. -/
def selects (d : Document) (o : StatementOptions) : List (Except Fault Select) :=
  d.entities.map (d.select o)

end FetchQuery.Document
