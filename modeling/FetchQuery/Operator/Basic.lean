namespace FetchQuery

inductive DatePart where
  | minute | hour | day | week | month | year
  deriving Repr, DecidableEq

namespace DatePart

def keyword : DatePart → String
  | minute => "minute"
  | hour => "hour"
  | day => "day"
  | week => "week"
  | month => "month"
  | year => "year"

def plural : DatePart → String
  | minute => "minutes"
  | hour => "hours"
  | day => "days"
  | week => "weeks"
  | month => "months"
  | year => "years"

def calendarParts : List DatePart := [week, month, year]

/-- The parts that measure a window which starts or ends now. -/
def windowParts : List DatePart := [hour, day, week, month, year]

def agingParts : List DatePart := [minute, hour, day, week, month, year]

end DatePart

/-- How many operands an operator takes; one that takes none ignores those it is given. -/
inductive Arity where
  | none | one | two | variadic
  deriving Repr, DecidableEq

namespace Arity

def phrase : Arity → String
  | none => "no"
  | one => "exactly 1"
  | two => "exactly 2"
  | variadic => "at least 1"

def accepts : Arity → Nat → Bool
  | none, _ => true
  | one, n => n == 1
  | two, n => n == 2
  | variadic, n => 1 ≤ n

end Arity

inductive Family where
  | equality | comparison | pattern | nullTest | set | range | relativeDate | absoluteDate
  | calendarWindow | rollingWindow | parameterizedWindow | aging | identity
  deriving Repr, DecidableEq

namespace Family

def title : Family → String
  | equality => "equality"
  | comparison => "comparison"
  | pattern => "pattern"
  | nullTest => "null test"
  | set => "set membership"
  | range => "range"
  | relativeDate => "relative date"
  | absoluteDate => "absolute date"
  | calendarWindow => "calendar window"
  | rollingWindow => "rolling window"
  | parameterizedWindow => "parameterized window"
  | aging => "aging"
  | identity => "identity"

def arity : Family → Arity
  | nullTest | relativeDate | calendarWindow | rollingWindow | identity => .none
  | set => .variadic
  | range => .two
  | equality | comparison | pattern | absoluteDate | parameterizedWindow | aging => .one

end Family

/-- A condition operator. The offset of a calendar operator counts parts from the column's value to
the current one: `-1` for the last, `0` for this and `1` for the next. -/
inductive Operator where
  | eq | ne | neq
  | lt | le | gt | ge
  | like | notLike | beginsWith | notBeginWith | endsWith | notEndWith
  | null | notNull
  | isIn | notIn
  | between | notBetween
  | today | tomorrow | yesterday
  | on | onOrBefore | onOrAfter
  | calendar (part : DatePart) (offset : Int)
  | lastSevenDays | nextSevenDays
  | lastX (part : DatePart) | nextX (part : DatePart) | olderThanX (part : DatePart)
  | eqUserId
  deriving Repr, DecidableEq

namespace Operator

def id : Operator → String
  | eq => "eq"
  | ne => "ne"
  | neq => "neq"
  | lt => "lt"
  | le => "le"
  | gt => "gt"
  | ge => "ge"
  | like => "like"
  | notLike => "not-like"
  | beginsWith => "begins-with"
  | notBeginWith => "not-begin-with"
  | endsWith => "ends-with"
  | notEndWith => "not-end-with"
  | null => "null"
  | notNull => "not-null"
  | isIn => "in"
  | notIn => "not-in"
  | between => "between"
  | notBetween => "not-between"
  | today => "today"
  | tomorrow => "tomorrow"
  | yesterday => "yesterday"
  | on => "on"
  | onOrBefore => "on-or-before"
  | onOrAfter => "on-or-after"
  | calendar part offset =>
    (if offset < 0 then "last-" else if offset = 0 then "this-" else "next-") ++ part.keyword
  | lastSevenDays => "last-seven-days"
  | nextSevenDays => "next-seven-days"
  | lastX part => "last-x-" ++ part.plural
  | nextX part => "next-x-" ++ part.plural
  | olderThanX part => "olderthan-x-" ++ part.plural
  | eqUserId => "eq-userid"

def family : Operator → Family
  | eq | ne | neq => .equality
  | lt | le | gt | ge => .comparison
  | like | notLike | beginsWith | notBeginWith | endsWith | notEndWith => .pattern
  | null | notNull => .nullTest
  | isIn | notIn => .set
  | between | notBetween => .range
  | today | tomorrow | yesterday => .relativeDate
  | on | onOrBefore | onOrAfter => .absoluteDate
  | calendar _ _ => .calendarWindow
  | lastSevenDays | nextSevenDays => .rollingWindow
  | lastX _ | nextX _ => .parameterizedWindow
  | olderThanX _ => .aging
  | eqUserId => .identity

def arity (op : Operator) : Arity := op.family.arity

end Operator

end FetchQuery
