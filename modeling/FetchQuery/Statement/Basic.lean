namespace FetchQuery.Statement

/-- A table or a column with an alias; the alias is empty when there is none. -/
structure AliasedName where
  name : String
  aliasName : String
  deriving Repr, DecidableEq, Inhabited

namespace AliasedName

def hasName (n : AliasedName) : Bool := n.name != ""
def hasAlias (n : AliasedName) : Bool := n.aliasName != ""

/-- The name under which the rest of the statement knows a table. -/
def exposed (n : AliasedName) : String := if n.hasAlias then n.aliasName else n.name

end AliasedName

/-- A column of a table, or `*` for all of them. Its `name` is the one that it gets in the result and
its `qualifier` the alias of its table; both are empty when unset. -/
structure Column where
  name : String := ""
  qualifier : String := ""
  expression : String
  aggregate : Option String := none
  distinct : Bool := false
  deriving Repr, DecidableEq

namespace Column

def wildcard (qualifier : String) : Column := { expression := "*", qualifier }

def hasName (c : Column) : Bool := c.name != ""
def hasQualifier (c : Column) : Bool := c.qualifier != ""
def isWildcard (c : Column) : Bool := c.expression == "*"

/-- The aggregate function around the column; an empty one counts as none. -/
def function? (c : Column) : Option String := c.aggregate.filter (· != "")

def isAggregate (c : Column) : Bool := c.function?.isSome

end Column

inductive Operands where
  | single (value : String)
  | multiple (values : List String)
  deriving Repr, DecidableEq

def Operands.toList : Operands → List String
  | single value => [value]
  | multiple values => values

structure Condition where
  column : Column
  operator : String
  operands : Operands
  deriving Repr, DecidableEq

inductive Connective where
  | and | or
  deriving Repr, DecidableEq, Inhabited

def Connective.keyword : Connective → String
  | and => "and"
  | or => "or"

structure Filter where
  connective : Connective
  conditions : List Condition
  subfilters : List Filter
  deriving Repr, BEq, Inhabited

namespace Filter

def hasConditions (f : Filter) : Bool := !f.conditions.isEmpty

def ofConnective (connective : Connective) : Filter := ⟨connective, [], []⟩

def addCondition (f : Filter) (c : Condition) : Filter :=
  { f with conditions := f.conditions ++ [c] }

def addSubfilter (f g : Filter) : Filter := { f with subfilters := f.subfilters ++ [g] }

mutual

/-- A filter is specified when a condition stands somewhere in it. -/
def isSpecified : Filter → Bool
  | ⟨_, conditions, subfilters⟩ => !conditions.isEmpty || anySpecified subfilters

def anySpecified : List Filter → Bool
  | [] => false
  | f :: fs => f.isSpecified || anySpecified fs

end

def combine : List Filter → Option Filter
  | [] => none
  | [f] => some f
  | fs => some ⟨.and, [], fs⟩

end Filter

inductive JoinKind where
  | inner | left | right | outer
  deriving Repr, DecidableEq

def JoinKind.rank : JoinKind → Nat
  | inner => 0
  | left => 1
  | right => 2
  | outer => 3

/-- A column of the joined-to table and the column of the joined table that must equal it. -/
structure KeyPair where
  source : String
  target : String
  deriving Repr, DecidableEq

structure Join where
  kind : JoinKind
  source : AliasedName
  target : AliasedName
  keys : List KeyPair
  deriving Repr, DecidableEq

/-- The joins by rank of their kind; joins of one kind keep their order. -/
def normalizeJoins (joins : List Join) : List Join :=
  joins.mergeSort fun a b => a.kind.rank ≤ b.kind.rank

inductive Direction where
  | ascending | descending
  deriving Repr, DecidableEq

def Direction.keyword : Direction → String
  | ascending => "asc"
  | descending => "desc"

structure Order where
  direction : Direction
  column : AliasedName
  deriving Repr, DecidableEq

structure Select where
  source : AliasedName
  distinct : Bool
  top : Option UInt32
  columns : List Column
  filter : Option Filter
  joins : List Join
  orderBy : List Order
  groupBy : List AliasedName
  deriving Repr, BEq

namespace Select

def hasAlias (s : Select) : Bool := s.source.hasAlias
def hasJoins (s : Select) : Bool := !s.joins.isEmpty
def hasOrderBy (s : Select) : Bool := !s.orderBy.isEmpty
def hasGroupBy (s : Select) : Bool := !s.groupBy.isEmpty

def specifiedFilter? (s : Select) : Option Filter := s.filter.filter Filter.isSpecified

end Select

end FetchQuery.Statement
