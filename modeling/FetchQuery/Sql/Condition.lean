import FetchQuery.Operator.Lexicon
import FetchQuery.Sql.Dialect
import FetchQuery.Sql.Layout
import FetchQuery.Sql.Literal
import FetchQuery.Text.Blank

namespace FetchQuery

namespace Operator

def single (op : Operator) : List String → Except Fault String
  | [value] => .ok value
  | operands => .error (.operandCount op.id .one operands.length)

def pair (op : Operator) : List String → Except Fault (String × String)
  | [low, high] => .ok (low, high)
  | operands => .error (.operandCount op.id .two operands.length)

/-- The number of units in an operand, read without the blanks around it. -/
def count (op : Operator) (operand : String) : Except Fault Int :=
  match Text.readInt64? (Text.dropBlanks operand.toList) with
  | some n => .ok n
  | none => .error (.notAnInteger op.id operand)

def singleCount (op : Operator) (operands : List String) : Except Fault Int := do
  op.count (← op.single operands)

end Operator

namespace Sql

open Layout (ofText)

namespace SqlServer

def partsToNow (part : DatePart) (lhs : Layout) : Layout :=
  ofText ("DATEDIFF(" ++ part.keyword ++ ", ") ++ lhs ++ ofText ", GETDATE())"

def sameDay (lhs : Layout) (day : String) : Layout :=
  ofText "CONVERT(DATE, " ++ lhs ++ ofText (") = CONVERT(DATE, " ++ day ++ ")")

/-- More than `-count` and at most no parts up to now. -/
def aheadWindow (part : DatePart) (count : Int) (lhs : Layout) : Layout :=
  ofText "(" ++ partsToNow part lhs ++ ofText " <= 0 and " ++ partsToNow part lhs ++
    ofText (" > " ++ toString (Text.negateInt64 count) ++ ")")

def behindWindow (part : DatePart) (count : Int) (lhs : Layout) : Layout :=
  ofText "(" ++ partsToNow part lhs ++ ofText " >= 0 and " ++ partsToNow part lhs ++
    ofText (" < " ++ toString count ++ ")")

def compareDay (comparison : String) (date : String) (lhs : Layout) : Layout :=
  ofText "DATEDIFF(day, " ++ lhs ++ ofText (", " ++ literal date ++ ") " ++ comparison ++ " 0")

def dateCondition (lhs : Layout) (op : Operator) (operands : List String) :
    Except Fault Layout :=
  match op with
  | .today => .ok (sameDay lhs "GETDATE()")
  | .tomorrow => .ok (sameDay lhs "DATEADD(day, 1, GETDATE())")
  | .yesterday => .ok (sameDay lhs "DATEADD(day, -1, GETDATE())")
  | .on => return compareDay "=" (← op.single operands) lhs
  | .onOrBefore => return compareDay "<=" (← op.single operands) lhs
  | .onOrAfter => return compareDay ">=" (← op.single operands) lhs
  | .calendar part offset => .ok (partsToNow part lhs ++ ofText (" = " ++ toString offset))
  | .lastSevenDays => .ok (aheadWindow .day 7 lhs)
  | .nextSevenDays => .ok (behindWindow .day 7 lhs)
  | .lastX part => return aheadWindow part (← op.singleCount operands) lhs
  | .nextX part => return behindWindow part (← op.singleCount operands) lhs
  | .olderThanX part =>
    return partsToNow part lhs ++ ofText (" < " ++ toString (← op.singleCount operands))
  | _ => .error (.unknownOperator op.id)

end SqlServer

namespace Postgres

def units (count : Int) (part : DatePart) : String :=
  toString count ++ " * interval '1 " ++ part.keyword ++ "'"

def aheadWindow (lhs : Layout) (span : String) : Layout :=
  ofText "(" ++ lhs ++ ofText " >= now() and " ++ lhs ++ ofText (" < now() + " ++ span ++ ")")

def behindWindow (lhs : Layout) (span : String) : Layout :=
  ofText "(" ++ lhs ++ ofText " <= now() and " ++ lhs ++ ofText (" > now() - " ++ span ++ ")")

def compareDay (comparison : String) (date : String) (lhs : Layout) : Layout :=
  ofText (literal date ++ "::date - ") ++ lhs ++ ofText ("::date " ++ comparison ++ " 0")

def currentPart (part : DatePart) (offset : Int) : String :=
  "date_trunc('" ++ part.keyword ++ "', now())" ++
    if offset = 0 then "" else " - interval '" ++ toString offset ++ " " ++ part.keyword ++ "'"

def dateCondition (lhs : Layout) (op : Operator) (operands : List String) :
    Except Fault Layout :=
  match op with
  | .today => .ok (lhs ++ ofText "::date = current_date")
  | .tomorrow => .ok (lhs ++ ofText "::date = current_date + 1")
  | .yesterday => .ok (lhs ++ ofText "::date = current_date - 1")
  | .on => return compareDay "=" (← op.single operands) lhs
  | .onOrBefore => return compareDay "<=" (← op.single operands) lhs
  | .onOrAfter => return compareDay ">=" (← op.single operands) lhs
  | .calendar part offset =>
    .ok (ofText ("date_trunc('" ++ part.keyword ++ "', ") ++ lhs ++
      ofText (") = " ++ currentPart part offset))
  | .lastSevenDays => .ok (aheadWindow lhs "interval '7 day'")
  | .nextSevenDays => .ok (behindWindow lhs "interval '7 day'")
  | .lastX part => return aheadWindow lhs (units (← op.singleCount operands) part)
  | .nextX part => return behindWindow lhs (units (← op.singleCount operands) part)
  | .olderThanX part =>
    return lhs ++ ofText (" > now() - " ++ units (← op.singleCount operands) part)
  | _ => .error (.unknownOperator op.id)

end Postgres

namespace Dialect

/-- A condition on a date. Operand counts are the caller's to check where an operator ignores them. -/
def dateCondition : Dialect → Layout → Operator → List String → Except Fault Layout
  | sqlServer => SqlServer.dateCondition
  | postgres => Postgres.dateCondition

def currentUser (d : Dialect) (lhs : Layout) : Layout :=
  match d with
  | sqlServer =>
    lhs ++ ofText " in (select SystemUserId from SystemUserBase where DomainName = SUSER_SNAME())"
  | postgres =>
    lhs ++ ofText (" in (select " ++ d.quote "SystemUserId" ++ " from " ++ d.quote "SystemUserBase" ++
      " where " ++ d.quote "DomainName" ++ " = current_user)")

def operatorCondition (d : Dialect) (lhs : Layout) (op : Operator) (operands : List String) :
    Except Fault Layout :=
  let compared (sign : String) (value : String) : Layout := lhs ++ ofText (" " ++ sign ++ " " ++ literal value)
  match op with
  | .eq => return compared "=" (← op.single operands)
  | .ne | .neq =>
    return ofText "(" ++ compared "!=" (← op.single operands) ++ ofText " or " ++ lhs ++
      ofText " is null)"
  | .lt => return compared "<" (← op.single operands)
  | .le => return compared "<=" (← op.single operands)
  | .gt => return compared ">" (← op.single operands)
  | .ge => return compared ">=" (← op.single operands)
  | .like => return compared "like" (← op.single operands)
  | .notLike => return compared "not like" (← op.single operands)
  | .beginsWith => return compared "like" ((← op.single operands) ++ "%")
  | .notBeginWith => return compared "not like" ((← op.single operands) ++ "%")
  | .endsWith => return compared "like" ("%" ++ (← op.single operands))
  | .notEndWith => return compared "not like" ("%" ++ (← op.single operands))
  | .null => .ok (lhs ++ ofText " is null")
  | .notNull => .ok (lhs ++ ofText " is not null")
  | .isIn => .ok (lhs ++ ofText (" in (" ++ literalList operands ++ ")"))
  | .notIn => .ok (lhs ++ ofText (" not in (" ++ literalList operands ++ ")"))
  | .between => do
    let (low, high) ← op.pair operands
    return ofText "(" ++ compared ">=" low ++ ofText " and " ++ compared "<=" high ++ ofText ")"
  | .notBetween => do
    let (low, high) ← op.pair operands
    return ofText "(" ++ compared "<" low ++ ofText " or " ++ compared ">" high ++ ofText ")"
  | .eqUserId => .ok (d.currentUser lhs)
  | _ => d.dateCondition lhs op operands

/-- The condition with the operator of the given id, whose operands must fit its arity. -/
def condition (d : Dialect) (lhs : Layout) (id : String) (operands : List String) :
    Except Fault Layout := do
  let op ← Operator.ofId id
  op.checkOperands operands.length
  d.operatorCondition lhs op operands

end Dialect

end Sql

end FetchQuery
