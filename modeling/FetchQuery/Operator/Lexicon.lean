import FetchQuery.Fault
import FetchQuery.Text.Split

namespace FetchQuery

namespace DatePart

def ofPlural? : String → Option DatePart
  | "minutes" => some minute
  | "hours" => some hour
  | "days" => some day
  | "weeks" => some week
  | "months" => some month
  | "years" => some year
  | _ => none

end DatePart

namespace Operator

def all : List Operator :=
  [eq, ne, neq, lt, le, gt, ge, like, notLike, beginsWith, notBeginWith, endsWith, notEndWith,
    null, notNull, isIn, notIn, between, notBetween, today, tomorrow, yesterday,
    on, onOrBefore, onOrAfter] ++
  ([-1, 0, 1].map fun offset => DatePart.calendarParts.map fun part => calendar part offset).flatten ++
  [lastSevenDays, nextSevenDays] ++
  DatePart.windowParts.map lastX ++ DatePart.windowParts.map nextX ++
  DatePart.agingParts.map olderThanX ++
  [eqUserId]

def ofPlainId? : String → Option Operator
  | "eq" => some eq
  | "ne" => some ne
  | "neq" => some neq
  | "lt" => some lt
  | "le" => some le
  | "gt" => some gt
  | "ge" => some ge
  | "like" => some like
  | "not-like" => some notLike
  | "begins-with" => some beginsWith
  | "not-begin-with" => some notBeginWith
  | "ends-with" => some endsWith
  | "not-end-with" => some notEndWith
  | "null" => some null
  | "not-null" => some notNull
  | "in" => some isIn
  | "not-in" => some notIn
  | "between" => some between
  | "not-between" => some notBetween
  | "today" => some today
  | "tomorrow" => some tomorrow
  | "yesterday" => some yesterday
  | "on" => some on
  | "on-or-before" => some onOrBefore
  | "on-or-after" => some onOrAfter
  | "last-seven-days" => some lastSevenDays
  | "next-seven-days" => some nextSevenDays
  | "eq-userid" => some eqUserId
  | _ => none

def ofCalendarId? (id : String) : Option Operator :=
  let named (offset : Int) (keyword : String) : Option Operator :=
    (DatePart.calendarParts.find? fun part => part.keyword == keyword).map (calendar · offset)
  match Text.after? "last-" id, Text.after? "this-" id, Text.after? "next-" id with
  | some keyword, _, _ => named (-1) keyword
  | none, some keyword, _ => named 0 keyword
  | none, none, some keyword => named 1 keyword
  | none, none, none => none

/-- The ids with a date part in them. An `-x-` id counts units, so its part is in the plural. -/
def ofPartId? (id : String) : Option Operator :=
  let counted (parts : List DatePart) (plural : String) : Option DatePart :=
    (DatePart.ofPlural? plural).filter (parts.contains ·)
  match Text.after? "olderthan-x-" id, Text.after? "last-x-" id, Text.after? "next-x-" id with
  | some plural, _, _ => (counted DatePart.agingParts plural).map olderThanX
  | none, some plural, _ => (counted DatePart.windowParts plural).map lastX
  | none, none, some plural => (counted DatePart.windowParts plural).map nextX
  | none, none, none => ofCalendarId? id

def ofId? (id : String) : Option Operator :=
  (ofPlainId? id).or (ofPartId? id)

def ofId (id : String) : Except Fault Operator :=
  match ofId? id with
  | some op => .ok op
  | none => .error (.unknownOperator id)

def checkOperands (op : Operator) (given : Nat) : Except Fault Unit :=
  if op.arity.accepts given then .ok () else .error (.operandCount op.id op.arity given)

end Operator

end FetchQuery
