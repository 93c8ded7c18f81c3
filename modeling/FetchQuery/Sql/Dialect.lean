import FetchQuery.Statement.Basic
import FetchQuery.Text.Enclosed

namespace FetchQuery.Sql

inductive Dialect where
  | sqlServer | postgres
  deriving Repr, DecidableEq, Inhabited

/-- Where a dialect puts the number of rows: after `select`, or at the end of the statement. -/
inductive RowLimit where
  | top | limit
  deriving Repr, DecidableEq

namespace Dialect

def name : Dialect → String
  | sqlServer => "sqlserver"
  | postgres => "postgres"

def ofName? : String → Option Dialect
  | "sqlserver" => some sqlServer
  | "postgres" => some postgres
  | _ => none

def quote : Dialect → String → String
  | sqlServer, n => Text.enclose '[' ']' n
  | postgres, n => Text.enclose '"' '"' n

def rowLimit : Dialect → RowLimit
  | sqlServer => .top
  | postgres => .limit

end Dialect

def joinKeyword : Statement.JoinKind → String
  | .inner => "inner"
  | .left => "left outer"
  | .right => "right outer"
  | .outer => "full outer"

def aggregateFunction (aggregate : String) : String :=
  if aggregate = "countcolumn" then "count" else aggregate

def aggregated (aggregate value : String) : String := aggregateFunction aggregate ++ "(" ++ value ++ ")"

end FetchQuery.Sql
