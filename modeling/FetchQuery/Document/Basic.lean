import FetchQuery.Statement.Basic

namespace FetchQuery.Document

structure Attribute where
  name : String
  aliasName : Option String := none
  aggregate : Option String := none
  groupBy : Option Bool := none
  distinct : Option Bool := none
  deriving Repr, DecidableEq

structure Condition where
  column : String
  operator : String
  entityName : Option String := none
  tableAlias : Option String := none
  value : Option String := none
  values : List String := []
  deriving Repr, DecidableEq

structure Filter where
  connective : Statement.Connective := .and
  conditions : List Condition := []
  subfilters : List Filter := []
  deriving Repr, BEq, Inhabited

structure Order where
  column : String
  tableAlias : Option String := none
  descending : Bool := false
  deriving Repr, DecidableEq

structure Scope where
  allAttributes : Bool := false
  attributes : List Attribute := []
  filters : List Filter := []
  orders : List Order := []
  deriving Repr, BEq, Inhabited

/-- An entity joined to the one it stands in. The columns are comma-separated lists: `fromColumns` of
this entity, `toColumns` of the one around it. -/
structure Link where
  name : String
  aliasName : Option String := none
  linkType : Option String := none
  fromColumns : String := ""
  toColumns : String := ""
  scope : Scope := {}
  links : List Link := []
  deriving Repr, BEq, Inhabited

structure Entity where
  name : String
  scope : Scope := {}
  links : List Link := []
  deriving Repr, BEq, Inhabited

end FetchQuery.Document

namespace FetchQuery

/-- A query document. Each root entity is a statement of its own. -/
structure Document where
  distinct : Option Bool := none
  top : Option UInt32 := none
  entities : List Document.Entity := []
  deriving Repr, BEq, Inhabited

end FetchQuery
