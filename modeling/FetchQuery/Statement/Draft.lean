import FetchQuery.Statement.Basic

namespace FetchQuery.Statement

inductive Clause where
  | distinct (value : Bool)
  | top (rows : UInt32)
  | column (column : Column)
  | join (join : Join)
  | filter (filter : Filter)
  | orderBy (order : Order)
  | groupBy (column : AliasedName)

structure Draft where
  source : AliasedName
  distinct : Bool := false
  top : Option UInt32 := none
  columns : List Column := []
  joins : List Join := []
  filters : List Filter := []
  orderBy : List Order := []
  groupBy : List AliasedName := []

namespace Draft

/-- A filter without conditions leaves the draft as it is. -/
def add (d : Draft) : Clause → Draft
  | .distinct value => { d with distinct := value }
  | .top rows => { d with top := some rows }
  | .column column => { d with columns := d.columns ++ [column] }
  | .join join => { d with joins := d.joins ++ [join] }
  | .filter filter => if filter.isSpecified then { d with filters := d.filters ++ [filter] } else d
  | .orderBy order => { d with orderBy := d.orderBy ++ [order] }
  | .groupBy column => { d with groupBy := d.groupBy ++ [column] }

def select (normalize : Bool) (d : Draft) : Select where
  source := d.source
  distinct := d.distinct
  top := d.top
  columns := d.columns
  filter := Filter.combine d.filters
  joins := if normalize then normalizeJoins d.joins else d.joins
  orderBy := d.orderBy
  groupBy := d.groupBy

end Draft

def Select.ofClauses (normalize : Bool) (source : AliasedName) (clauses : List Clause) : Select :=
  (clauses.foldl Draft.add { source }).select normalize

end FetchQuery.Statement
