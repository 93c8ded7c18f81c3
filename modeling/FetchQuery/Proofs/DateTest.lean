import FetchQuery.Proofs.Calendar
import FetchQuery.Proofs.ConditionFrame

namespace FetchQuery.Sql

open Calendar (index start shift dayLength)
open Layout (ofText)
open Fallible

/-- What an expression stands for: an instant, a calendar day, or a number. -/
inductive DateKind where
  | instant | day | number

inductive Span where
  | interval (count : Int) (part : DatePart)
  | units (count : Int) (part : DatePart)

namespace Span

def text : Span → String
  | interval count part => "interval '" ++ toString count ++ " " ++ part.keyword ++ "'"
  | units count part => Postgres.units count part

def after (t : Int) : Span → Int
  | interval count part | units count part => shift part count t

def before (t : Int) : Span → Int
  | interval count part | units count part => shift part (-count) t

end Span

inductive DateTerm : DateKind → Type
  | column : DateTerm .instant
  | clock (d : Dialect) : DateTerm .instant
  | literal (value : String) : DateTerm .instant
  | dateAdd (part : DatePart) (count : Int) (t : DateTerm .instant) : DateTerm .instant
  | dateTrunc (part : DatePart) (t : DateTerm .instant) : DateTerm .instant
  | plus (t : DateTerm .instant) (s : Span) : DateTerm .instant
  | minus (t : DateTerm .instant) (s : Span) : DateTerm .instant
  | date (d : Dialect) (t : DateTerm .instant) : DateTerm .day
  | currentDate : DateTerm .day
  | nextDay (t : DateTerm .day) : DateTerm .day
  | previousDay (t : DateTerm .day) : DateTerm .day
  | dateDiff (part : DatePart) (t u : DateTerm .instant) : DateTerm .number
  | daysBetween (t u : DateTerm .day) : DateTerm .number
  | number (n : Int) : DateTerm .number

/-- A row with the current instant, and the days that literals denote. -/
structure Row where
  column : Int
  now : Int
  date : String → Int

def call (function : String) (arguments : List String) : String :=
  function ++ "(" ++ Text.join ", " arguments ++ ")"

def binary (sign left right : String) : String := left ++ " " ++ sign ++ " " ++ right

def Dialect.clockText : Dialect → String
  | sqlServer => "GETDATE()"
  | postgres => "now()"

def Dialect.dateText (d : Dialect) (t : String) : String :=
  match d with
  | sqlServer => call "CONVERT" ["DATE", t]
  | postgres => t ++ "::date"

namespace DateTerm

@[simp]
def text (lhs : String) : {k : DateKind} → DateTerm k → String
  | _, column => lhs
  | _, clock d => d.clockText
  | _, literal value => Sql.literal value
  | _, dateAdd part count t => call "DATEADD" [part.keyword, toString count, t.text lhs]
  | _, dateTrunc part t => call "date_trunc" ["'" ++ part.keyword ++ "'", t.text lhs]
  | _, plus t s => binary "+" (t.text lhs) s.text
  | _, minus t s => binary "-" (t.text lhs) s.text
  | _, date d t => d.dateText (t.text lhs)
  | _, currentDate => "current_date"
  | _, nextDay t => binary "+" (t.text lhs) "1"
  | _, previousDay t => binary "-" (t.text lhs) "1"
  | _, dateDiff part t u => call "DATEDIFF" [part.keyword, t.text lhs, u.text lhs]
  | _, daysBetween t u => binary "-" (u.text lhs) (t.text lhs)
  | _, number n => toString n

/-- Differences count the parts from the one instant to the other, and weeks start on Sunday for them. A
truncated instant is the start of its part, and there weeks start on Monday. -/
@[simp]
def value (r : Row) : {k : DateKind} → DateTerm k → Int
  | _, column => r.column
  | _, clock _ => r.now
  | _, literal value => r.date value * dayLength
  | _, dateAdd part count t => shift part count (t.value r)
  | _, dateTrunc part t => start .monday part (index .monday part (t.value r))
  | _, plus t s => s.after (t.value r)
  | _, minus t s => s.before (t.value r)
  | _, date _ t => t.value r / dayLength
  | _, currentDate => r.now / dayLength
  | _, nextDay t => t.value r + 1
  | _, previousDay t => t.value r - 1
  | _, dateDiff part t u => index .sunday part (u.value r) - index .sunday part (t.value r)
  | _, daysBetween t u => u.value r - t.value r
  | _, number n => n

end DateTerm

inductive Comparison where
  | eq | lt | le | gt | ge

namespace Comparison

@[simp]
def sign : Comparison → String
  | eq => "="
  | lt => "<"
  | le => "<="
  | gt => ">"
  | ge => ">="

@[simp]
def Holds : Comparison → Int → Int → Prop
  | eq, a, b => a = b
  | lt, a, b => a < b
  | le, a, b => a ≤ b
  | gt, a, b => b < a
  | ge, a, b => b ≤ a

end Comparison

inductive DateTest where
  | compare {k : DateKind} (c : Comparison) (t u : DateTerm k)
  | both (a b : DateTest)

namespace DateTest

@[simp]
def text (lhs : String) : DateTest → String
  | compare c t u => binary c.sign (t.text lhs) (u.text lhs)
  | both a b => "(" ++ a.text lhs ++ " and " ++ b.text lhs ++ ")"

@[simp]
def Holds (r : Row) : DateTest → Prop
  | compare c t u => c.Holds (t.value r) (u.value r)
  | both a b => a.Holds r ∧ b.Holds r

instance (c : Comparison) (a b : Int) : Decidable (c.Holds a b) :=
  match c with
  | .eq => inferInstanceAs (Decidable (a = b))
  | .lt => inferInstanceAs (Decidable (a < b))
  | .le => inferInstanceAs (Decidable (a ≤ b))
  | .gt => inferInstanceAs (Decidable (b < a))
  | .ge => inferInstanceAs (Decidable (b ≤ a))

instance decidableHolds (r : Row) : (t : DateTest) → Decidable (t.Holds r)
  | compare c t u => inferInstanceAs (Decidable (c.Holds (t.value r) (u.value r)))
  | both a b =>
    have := decidableHolds r a
    have := decidableHolds r b
    inferInstanceAs (Decidable (a.Holds r ∧ b.Holds r))

end DateTest

theorem repr_zero : Int.repr 0 = "0" := rfl

namespace SqlServer

def now : DateTerm .instant := .clock .sqlServer

def toNow (part : DatePart) : DateTerm .number := .dateDiff part .column now

def sameDayTest (t : DateTerm .instant) : DateTest :=
  .compare .eq (.date .sqlServer .column) (.date .sqlServer t)

def dayTest (c : Comparison) (date : String) : DateTest :=
  .compare c (.dateDiff .day .column (.literal date)) (.number 0)

def aheadTest (part : DatePart) (count : Int) : DateTest :=
  .both (.compare .le (toNow part) (.number 0))
    (.compare .gt (toNow part) (.number (Text.negateInt64 count)))

def behindTest (part : DatePart) (count : Int) : DateTest :=
  .both (.compare .ge (toNow part) (.number 0)) (.compare .lt (toNow part) (.number count))

def dateTest (op : Operator) (operands : List String) : Except Fault DateTest :=
  match op with
  | .today => .ok (sameDayTest now)
  | .tomorrow => .ok (sameDayTest (.dateAdd .day 1 now))
  | .yesterday => .ok (sameDayTest (.dateAdd .day (-1) now))
  | .on => return dayTest .eq (← op.single operands)
  | .onOrBefore => return dayTest .le (← op.single operands)
  | .onOrAfter => return dayTest .ge (← op.single operands)
  | .calendar part offset => .ok (.compare .eq (toNow part) (.number offset))
  | .lastSevenDays => .ok (aheadTest .day 7)
  | .nextSevenDays => .ok (behindTest .day 7)
  | .lastX part => return aheadTest part (← op.singleCount operands)
  | .nextX part => return behindTest part (← op.singleCount operands)
  | .olderThanX part => return .compare .lt (toNow part) (.number (← op.singleCount operands))
  | _ => .error (.unknownOperator op.id)

section

variable (o : LayoutOptions) (column : Layout)

theorem render_partsToNow (part : DatePart) :
    (partsToNow part column).render o = (toNow part).text (column.render o) := by
  simp [← String.toList_inj, partsToNow, toNow, now, Dialect.clockText, call, Text.join]

theorem text_dayFromNow (n : Int) (lhs : String) :
    (DateTerm.dateAdd .day n now).text lhs = "DATEADD(day, " ++ toString n ++ ", GETDATE())" := by
  simp [← String.toList_inj, now, Dialect.clockText, DatePart.keyword, call, Text.join]

theorem render_sameDay (t : DateTerm .instant) :
    (sameDay column (t.text (column.render o))).render o = (sameDayTest t).text (column.render o) := by
  simp [← String.toList_inj, sameDay, sameDayTest, Dialect.dateText, call, Text.join, binary]

theorem render_compareDay (c : Comparison) (date : String) :
    (compareDay c.sign date column).render o = (dayTest c date).text (column.render o) := by
  simp [← String.toList_inj, compareDay, dayTest, DatePart.keyword, call, Text.join, binary, repr_zero]

theorem render_compareToNow (c : Comparison) (part : DatePart) (n : Int) :
    (partsToNow part column ++ ofText (" " ++ c.sign ++ " " ++ toString n)).render o =
      (DateTest.compare c (toNow part) (.number n)).text (column.render o) := by
  simp [← String.toList_inj, render_partsToNow, binary]

theorem render_aheadWindow (part : DatePart) (n : Int) :
    (aheadWindow part n column).render o = (aheadTest part n).text (column.render o) := by
  simp [← String.toList_inj, aheadWindow, aheadTest, render_partsToNow, binary, repr_zero]

theorem render_behindWindow (part : DatePart) (n : Int) :
    (behindWindow part n column).render o = (behindTest part n).text (column.render o) := by
  simp [← String.toList_inj, behindWindow, behindTest, render_partsToNow, binary, repr_zero]

theorem render_dateCondition (op : Operator) (operands : List String) :
    (dateCondition column op operands).map (Layout.render o) =
      (dateTest op operands).map (DateTest.text (column.render o)) := by
  cases op with
  | today => exact congrArg Except.ok (render_sameDay o column now)
  | tomorrow =>
    have h := render_sameDay o column (.dateAdd .day 1 now)
    rw [text_dayFromNow 1] at h
    exact congrArg Except.ok h
  | yesterday =>
    have h := render_sameDay o column (.dateAdd .day (-1) now)
    rw [text_dayFromNow (-1)] at h
    exact congrArg Except.ok h
  | on => exact map_bind_congr (render_compareDay o column .eq)
  | onOrBefore => exact map_bind_congr (render_compareDay o column .le)
  | onOrAfter => exact map_bind_congr (render_compareDay o column .ge)
  | calendar part offset => exact congrArg Except.ok (render_compareToNow o column .eq part offset)
  | lastSevenDays => exact congrArg Except.ok (render_aheadWindow o column .day 7)
  | nextSevenDays => exact congrArg Except.ok (render_behindWindow o column .day 7)
  | lastX part => exact map_bind_congr (render_aheadWindow o column part)
  | nextX part => exact map_bind_congr (render_behindWindow o column part)
  | olderThanX part => exact map_bind_congr (render_compareToNow o column .lt part)
  | _ => rfl

end

end SqlServer

namespace Postgres

def now : DateTerm .instant := .clock .postgres

def sameDayTest (t : DateTerm .day) : DateTest := .compare .eq (.date .postgres .column) t

def dayTest (c : Comparison) (date : String) : DateTest :=
  .compare c (.daysBetween (.date .postgres .column) (.date .postgres (.literal date))) (.number 0)

/-- The start of the part that is `offset` parts before the current one. -/
def currentStart (part : DatePart) (offset : Int) : DateTerm .instant :=
  if offset = 0 then .dateTrunc part now else .minus (.dateTrunc part now) (.interval offset part)

def aheadTest (span : Span) : DateTest :=
  .both (.compare .ge .column now) (.compare .lt .column (.plus now span))

def behindTest (span : Span) : DateTest :=
  .both (.compare .le .column now) (.compare .gt .column (.minus now span))

def dateTest (op : Operator) (operands : List String) : Except Fault DateTest :=
  match op with
  | .today => .ok (sameDayTest .currentDate)
  | .tomorrow => .ok (sameDayTest (.nextDay .currentDate))
  | .yesterday => .ok (sameDayTest (.previousDay .currentDate))
  | .on => return dayTest .eq (← op.single operands)
  | .onOrBefore => return dayTest .le (← op.single operands)
  | .onOrAfter => return dayTest .ge (← op.single operands)
  | .calendar part offset => .ok (.compare .eq (.dateTrunc part .column) (currentStart part offset))
  | .lastSevenDays => .ok (aheadTest (.interval 7 .day))
  | .nextSevenDays => .ok (behindTest (.interval 7 .day))
  | .lastX part => return aheadTest (.units (← op.singleCount operands) part)
  | .nextX part => return behindTest (.units (← op.singleCount operands) part)
  | .olderThanX part =>
    return .compare .gt .column (.minus now (.units (← op.singleCount operands) part))
  | _ => .error (.unknownOperator op.id)

section

variable (o : LayoutOptions) (column : Layout)

theorem render_compareDay (c : Comparison) (date : String) :
    (compareDay c.sign date column).render o = (dayTest c date).text (column.render o) := by
  simp [← String.toList_inj, compareDay, dayTest, Dialect.dateText, binary, repr_zero]

theorem text_currentStart (part : DatePart) (offset : Int) (lhs : String) :
    (currentStart part offset).text lhs = currentPart part offset := by
  unfold currentStart currentPart
  split <;> simp [← String.toList_inj, now, Dialect.clockText, Span.text, call, binary, Text.join]

theorem render_calendar (part : DatePart) (offset : Int) :
    (ofText ("date_trunc('" ++ part.keyword ++ "', ") ++ column ++
      ofText (") = " ++ currentPart part offset)).render o =
      (DateTest.compare .eq (.dateTrunc part .column) (currentStart part offset)).text
        (column.render o) := by
  simp [← String.toList_inj, text_currentStart, call, binary, Text.join]

theorem render_aheadWindow (span : Span) :
    (aheadWindow column span.text).render o = (aheadTest span).text (column.render o) := by
  simp [← String.toList_inj, aheadWindow, aheadTest, now, Dialect.clockText, binary]

theorem render_behindWindow (span : Span) :
    (behindWindow column span.text).render o = (behindTest span).text (column.render o) := by
  simp [← String.toList_inj, behindWindow, behindTest, now, Dialect.clockText, binary]

theorem render_olderThan (span : Span) :
    (column ++ ofText (" > now() - " ++ span.text)).render o =
      (DateTest.compare .gt .column (.minus now span)).text (column.render o) := by
  simp [← String.toList_inj, now, Dialect.clockText, binary]

theorem render_sameDay (t : DateTerm .day) :
    (column ++ ofText ("::date = " ++ t.text (column.render o))).render o =
      (sameDayTest t).text (column.render o) := by
  simp [← String.toList_inj, sameDayTest, Dialect.dateText, binary]

theorem render_dateCondition (op : Operator) (operands : List String) :
    (dateCondition column op operands).map (Layout.render o) =
      (dateTest op operands).map (DateTest.text (column.render o)) := by
  cases op with
  | today => exact congrArg Except.ok (render_sameDay o column .currentDate)
  | tomorrow => exact congrArg Except.ok (render_sameDay o column (.nextDay .currentDate))
  | yesterday => exact congrArg Except.ok (render_sameDay o column (.previousDay .currentDate))
  | on => exact map_bind_congr (render_compareDay o column .eq)
  | onOrBefore => exact map_bind_congr (render_compareDay o column .le)
  | onOrAfter => exact map_bind_congr (render_compareDay o column .ge)
  | calendar part offset => exact congrArg Except.ok (render_calendar o column part offset)
  | lastSevenDays => exact congrArg Except.ok (render_aheadWindow o column (.interval 7 .day))
  | nextSevenDays => exact congrArg Except.ok (render_behindWindow o column (.interval 7 .day))
  | lastX part => exact map_bind_congr fun n => render_aheadWindow o column (.units n part)
  | nextX part => exact map_bind_congr fun n => render_behindWindow o column (.units n part)
  | olderThanX part => exact map_bind_congr fun n => render_olderThan o column (.units n part)
  | _ => rfl

end

end Postgres

end FetchQuery.Sql
