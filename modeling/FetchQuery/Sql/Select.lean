import FetchQuery.Sql.Condition
import FetchQuery.Sql.Formatter

namespace FetchQuery.Sql

open Statement

def qualified (qualifier : String) (column : String) : String :=
  if qualifier = "" then column else qualifier ++ "." ++ column

/-- Columns of the source are qualified by its name once joins bring in other tables. -/
def ambientName (s : Select) : String :=
  if s.hasJoins then s.source.exposed else s.source.aliasName

namespace Formatter

/-- A column. One without a qualifier of its own belongs to the table exposed as `ambient`. -/
def column (d : Dialect) (ambient : String) (c : Column) : Formatter String := do
  let sp ← space
  let qualifier := if c.hasQualifier then c.qualifier else ambient
  let reference := qualified qualifier (if c.isWildcard then c.expression else d.quote c.expression)
  let base := if c.distinct then "distinct" ++ sp ++ reference else reference
  let value := match c.function? with
    | some aggregate => aggregated aggregate base
    | none => base
  return if c.hasName then value ++ sp ++ "as" ++ sp ++ literal c.name else value

def name (d : Dialect) (ambient : String) (n : AliasedName) : String :=
  qualified (if n.hasAlias then n.aliasName else ambient) (d.quote n.name)

def join (d : Dialect) (j : Join) : Formatter String := do
  let sp ← space
  let equality (k : KeyPair) : String :=
    j.source.exposed ++ "." ++ d.quote k.source ++ " = " ++ j.target.exposed ++ "." ++ d.quote k.target
  let keys := Text.join (sp ++ "and" ++ sp) (j.keys.map equality)
  nested do
    return joinKeyword j.kind ++ sp ++ "join" ++ sp ++ d.quote j.target.name ++ sp ++
      j.target.exposed ++ sp ++ "on" ++ (← lineBreak) ++ "(" ++ keys ++ ")"

def condition (d : Dialect) (ambient : String) (c : Condition) : Formatter String := do
  let lhs ← column d ambient c.column
  let written ← d.condition (Layout.ofText lhs) c.operator c.operands.toList
  return written.render (← read)

mutual

def filter (d : Dialect) (ambient : String) : Filter → Formatter String
  | ⟨connective, conditions, subfilters⟩ => do
    let own ← conditions.mapM (condition d ambient)
    let inner ← specified d ambient subfilters
    let sp ← space
    return "(" ++ Text.join (sp ++ connective.keyword ++ sp) (own ++ inner) ++ ")"

/-- Filters without conditions are passed over. -/
def specified (d : Dialect) (ambient : String) : List Filter → Formatter (List String)
  | [] => return []
  | f :: fs => do
    if f.isSpecified then
      let first ← filter d ambient f
      let rest ← specified d ambient fs
      return first :: rest
    else specified d ambient fs

end

def head (d : Dialect) (s : Select) : Formatter String := do
  let sp ← space
  let distinct := if s.distinct then sp ++ "distinct" else ""
  let top := match s.top, d.rowLimit with
    | some rows, .top => sp ++ "top" ++ sp ++ toString rows.toNat
    | _, _ => ""
  return "select" ++ distinct ++ top

/-- Nothing projected stands for every column of the source. -/
def columns (d : Dialect) (s : Select) : Formatter String := nested do
  let projected := if s.columns.isEmpty then [Column.wildcard ""] else s.columns
  let texts ← projected.mapM (column d (ambientName s))
  return (← lineBreak) ++ Text.join (← columnSeparator) texts

def joins (d : Dialect) (s : Select) : Formatter String := nested do
  let texts ← s.joins.mapM (join d)
  return (← lineBreak) ++ Text.join (← lineBreak) texts

def tables (d : Dialect) (s : Select) : Formatter String := do
  let sp ← space
  let source := (← lineBreak) ++ "from" ++ (← lineBreak) ++ d.quote s.source.name
  if s.hasJoins then
    return source ++ sp ++ "as" ++ sp ++ ambientName s ++ (← joins d s)
  else return source

def clause (keyword : String) (body : Formatter String) : Formatter String := do
  let title := (← lineBreak) ++ keyword
  nested do return title ++ (← lineBreak) ++ (← body)

def restriction (d : Dialect) (s : Select) : Formatter String :=
  match s.specifiedFilter? with
  | some f => clause "where" (filter d (ambientName s) f)
  | none => return ""

def ordering (d : Dialect) (s : Select) : Formatter String :=
  if s.hasOrderBy then
    clause "order by" do
      let sp ← space
      let item (r : Order) : String := name d (ambientName s) r.column ++ sp ++ r.direction.keyword
      return Text.join (← read).comma (s.orderBy.map item)
  else return ""

def grouping (d : Dialect) (s : Select) : Formatter String :=
  if s.hasGroupBy then
    clause "group by" do
      return Text.join (← read).comma (s.groupBy.map (name d (ambientName s)))
  else return ""

def limit (d : Dialect) (s : Select) : Formatter String := do
  match s.top, d.rowLimit with
  | some rows, .limit => return (← lineBreak) ++ "limit" ++ (← space) ++ toString rows.toNat
  | _, _ => return ""

def select (d : Dialect) (s : Select) : Formatter String := do
  return (← head d s) ++ (← columns d s) ++ (← tables d s) ++ (← restriction d s) ++
    (← ordering d s) ++ (← grouping d s) ++ (← limit d s)

end Formatter

def selectText (d : Dialect) (o : LayoutOptions) (s : Select) : Except Fault String :=
  ((Formatter.select d s).run o 0).1

end FetchQuery.Sql
