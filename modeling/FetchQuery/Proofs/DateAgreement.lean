import FetchQuery.Proofs.DateTest

namespace FetchQuery.Sql

open Calendar
open Fallible

/-- A window ahead is counted in whole parts by the one dialect, which takes in what has passed of the
current part and leaves out what there is of the last one. -/
def AheadGap (part : DatePart) (count x now : Int) : Prop :=
  0 < count ∧ (index .sunday part x = index .sunday part now ∧ x < now ∨
    index .sunday part x = index .sunday part now + count ∧ x < shift part count now)

def BehindGap (part : DatePart) (count x now : Int) : Prop :=
  0 < count ∧ (index .sunday part x = index .sunday part now ∧ now < x ∨
    index .sunday part x = index .sunday part now - count ∧ shift part (-count) now < x)

def AgingGap (part : DatePart) (count x now : Int) : Prop :=
  index .sunday part x = index .sunday part now - count ∧ shift part (-count) now < x

def IsSunday (t : Int) : Prop := (t / dayLength + 3) % 7 = 0

def WeekGap (offset x now : Int) : Prop :=
  (IsSunday x ↔ ¬ IsSunday now) ∧ (index .sunday .week now - index .sunday .week x = offset ∨
    index .monday .week now - index .monday .week x = offset)

/-- The rows that one dialect selects and the other does not. -/
def Differs (op : Operator) (operands : List String) (x now : Int) : Prop :=
  match op with
  | .calendar part offset => part = .week ∧ WeekGap offset x now
  | .lastSevenDays => AheadGap .day 7 x now
  | .nextSevenDays => BehindGap .day 7 x now
  | .lastX part => ∃ n, op.singleCount operands = .ok n ∧ AheadGap part n x now
  | .nextX part => ∃ n, op.singleCount operands = .ok n ∧ BehindGap part n x now
  | .olderThanX part => ∃ n, op.singleCount operands = .ok n ∧ AgingGap part n x now
  | _ => False

section

variable (r : Row) (part : DatePart) (n : Int)

theorem index_compare (w : WeekStart) (t u : Int) :
    (t ≤ u → index w part t ≤ index w part u) ∧ (u ≤ t → index w part u ≤ index w part t) :=
  ⟨index_le, index_le⟩

theorem shift_eq_of_zero (t : Int) (h : n = 0) : shift part n t = t := by
  rw [h, shift_zero]

theorem aheadTest_iff (span : Span) (hs : ∀ t, span.after t = shift part n t) :
    ((SqlServer.aheadTest part n).Holds r ↔ (Postgres.aheadTest span).Holds r) ↔
      ¬ AheadGap part n r.column r.now := by
  have hnow := index_compare part .sunday r.column r.now
  have hend := index_compare part .sunday r.column (shift part n r.now)
  have hshift := index_shift .sunday part n r.now
  have hzero := shift_eq_of_zero part n r.now
  simp only [SqlServer.aheadTest, Postgres.aheadTest, SqlServer.toNow, SqlServer.now, Postgres.now,
    DateTest.Holds, DateTerm.value, Comparison.Holds, hs, AheadGap, Text.negateInt64, Text.maxInt64]
  omega

theorem behindTest_iff (span : Span) (hs : ∀ t, span.before t = shift part (-n) t) :
    ((SqlServer.behindTest part n).Holds r ↔ (Postgres.behindTest span).Holds r) ↔
      ¬ BehindGap part n r.column r.now := by
  have hnow := index_compare part .sunday r.column r.now
  have hend := index_compare part .sunday r.column (shift part (-n) r.now)
  have hshift := index_shift .sunday part (-n) r.now
  have hzero := shift_eq_of_zero part (-n) r.now
  simp only [SqlServer.behindTest, Postgres.behindTest, SqlServer.toNow, SqlServer.now, Postgres.now,
    DateTest.Holds, DateTerm.value, Comparison.Holds, hs, BehindGap]
  omega

theorem olderThan_iff :
    ((DateTest.compare .lt (SqlServer.toNow part) (.number n)).Holds r ↔
      (DateTest.compare .gt .column (.minus Postgres.now (.units n part))).Holds r) ↔
      ¬ AgingGap part n r.column r.now := by
  have hend := index_compare part .sunday r.column (shift part (-n) r.now)
  have hshift := index_shift .sunday part (-n) r.now
  simp only [SqlServer.toNow, SqlServer.now, Postgres.now, DateTest.Holds, DateTerm.value,
    Comparison.Holds, Span.before, AgingGap]
  omega

theorem value_currentStart :
    (Postgres.currentStart part n).value r = start .monday part (index .monday part r.now - n) := by
  unfold Postgres.currentStart
  split
  next h => simp [Postgres.now, h]
  next => simp only [DateTerm.value, Postgres.now, Span.before, shift_start, Int.sub_eq_add_neg]

theorem calendar_iff :
    ((DateTest.compare .eq (SqlServer.toNow part) (.number n)).Holds r ↔
      (DateTest.compare .eq (.dateTrunc part .column) (Postgres.currentStart part n)).Holds r) ↔
      ¬ (part = .week ∧ WeekGap n r.column r.now) := by
  -- the one dialect compares the numbers of parts and the other their starts, which determine them
  have hinj : ∀ i j, start .monday part i = start .monday part j ↔ i = j :=
    fun i j => (strictMono_start .monday part).injective.eq_iff
  simp only [SqlServer.toNow, SqlServer.now, DateTest.Holds, DateTerm.value, Comparison.Holds,
    value_currentStart, hinj]
  by_cases hp : part = .week
  · subst hp
    have hx := index_week r.column
    have hnow := index_week r.now
    simp only [WeekGap, IsSunday, true_and]
    split at hx <;> split at hnow <;> omega
  · have hindex : ∀ t, index .sunday part t = index .monday part t := by
      intro t
      cases part <;> first | rfl | exact absurd rfl hp
    simp only [hindex, hp, false_and, not_false_eq_true, iff_true]
    omega

theorem dayTest_iff (c : Comparison) (date : String) :
    (SqlServer.dayTest c date).Holds r ↔ (Postgres.dayTest c date).Holds r := by
  simp only [SqlServer.dayTest, Postgres.dayTest, DateTest.Holds, DateTerm.value, index]

theorem sameDay_iff (t : DateTerm .instant) (u : DateTerm .day)
    (h : index .sunday .day (t.value r) = u.value r) :
    (SqlServer.sameDayTest t).Holds r ↔ (Postgres.sameDayTest u).Holds r := by
  simp only [index] at h
  simp only [SqlServer.sameDayTest, Postgres.sameDayTest, DateTest.Holds, DateTerm.value, h]

end

theorem exists_of_binds {α : Type} {x : Except Fault α} {f g : α → DateTest} {t t' : DateTest}
    (h : (x >>= fun a => pure (f a)) = .ok t) (h' : (x >>= fun a => pure (g a)) = .ok t') :
    ∃ a, x = .ok a ∧ f a = t ∧ g a = t' := by
  obtain ⟨a, ha, hf⟩ := bind_eq_ok.1 h
  obtain ⟨b, hb, hg⟩ := bind_eq_ok.1 h'
  rw [ha] at hb
  obtain rfl := Except.ok.inj hb
  exact ⟨a, ha, pure_eq_ok.1 hf, pure_eq_ok.1 hg⟩

theorem dateTest_agrees_iff {op : Operator} {operands : List String} {t t' : DateTest}
    (h : SqlServer.dateTest op operands = .ok t) (h' : Postgres.dateTest op operands = .ok t')
    (r : Row) :
    (t.Holds r ↔ t'.Holds r) ↔ ¬ Differs op operands r.column r.now := by
  -- where the tests hold of the same rows, there is no gap to exclude
  have hall : (t.Holds r ↔ t'.Holds r) → ((t.Holds r ↔ t'.Holds r) ↔ ¬ False) :=
    fun ht => iff_of_true ht not_false
  cases op with
  | today =>
    obtain ⟨rfl, rfl⟩ := And.intro (Except.ok.inj h) (Except.ok.inj h')
    exact hall (sameDay_iff r SqlServer.now .currentDate rfl)
  | tomorrow =>
    obtain ⟨rfl, rfl⟩ := And.intro (Except.ok.inj h) (Except.ok.inj h')
    exact hall (sameDay_iff r (.dateAdd .day 1 SqlServer.now) (.nextDay .currentDate)
      (index_shift _ .day 1 r.now))
  | yesterday =>
    obtain ⟨rfl, rfl⟩ := And.intro (Except.ok.inj h) (Except.ok.inj h')
    exact hall (sameDay_iff r (.dateAdd .day (-1) SqlServer.now) (.previousDay .currentDate)
      (index_shift _ .day (-1) r.now))
  | on =>
    obtain ⟨date, _, rfl, rfl⟩ := exists_of_binds h h'
    exact hall (dayTest_iff r .eq date)
  | onOrBefore =>
    obtain ⟨date, _, rfl, rfl⟩ := exists_of_binds h h'
    exact hall (dayTest_iff r .le date)
  | onOrAfter =>
    obtain ⟨date, _, rfl, rfl⟩ := exists_of_binds h h'
    exact hall (dayTest_iff r .ge date)
  | calendar part offset =>
    obtain ⟨rfl, rfl⟩ := And.intro (Except.ok.inj h) (Except.ok.inj h')
    exact calendar_iff r part offset
  | lastSevenDays =>
    obtain ⟨rfl, rfl⟩ := And.intro (Except.ok.inj h) (Except.ok.inj h')
    exact aheadTest_iff r .day 7 (.interval 7 .day) fun _ => rfl
  | nextSevenDays =>
    obtain ⟨rfl, rfl⟩ := And.intro (Except.ok.inj h) (Except.ok.inj h')
    exact behindTest_iff r .day 7 (.interval 7 .day) fun _ => rfl
  | lastX part =>
    obtain ⟨n, hn, rfl, rfl⟩ := exists_of_binds h h'
    rw [aheadTest_iff r part n (.units n part) fun _ => rfl]
    simp [Differs, hn]
  | nextX part =>
    obtain ⟨n, hn, rfl, rfl⟩ := exists_of_binds h h'
    rw [behindTest_iff r part n (.units n part) fun _ => rfl]
    simp [Differs, hn]
  | olderThanX part =>
    obtain ⟨n, hn, rfl, rfl⟩ := exists_of_binds h h'
    rw [olderThan_iff r part n]
    simp [Differs, hn]
  | _ => cases h

theorem exists_test {column : Layout} {op : Operator} {operands : List String} {l : Layout}
    {d : Dialect} {test : Except Fault DateTest} (h : d.dateCondition column op operands = .ok l)
    (ht : ∀ o : LayoutOptions, (d.dateCondition column op operands).map (Layout.render o) =
      test.map (DateTest.text (column.render o))) :
    ∃ t, test = .ok t ∧ ∀ o : LayoutOptions, l.render o = t.text (column.render o) := by
  simp only [h, Except.map] at ht
  cases test with
  | error fault => cases ht {}
  | ok t => exact ⟨t, rfl, fun o => Except.ok.inj (ht o)⟩

/-- The conditions of the two dialects are the texts of tests that agree on a row exactly if it does
not lie in a gap. -/
theorem dateCondition_agrees_iff (column : Layout) (op : Operator) (operands : List String)
    (l l' : Layout)
    (h : Dialect.sqlServer.dateCondition column op operands = .ok l)
    (h' : Dialect.postgres.dateCondition column op operands = .ok l') :
    ∃ t t' : DateTest, SqlServer.dateTest op operands = .ok t ∧ Postgres.dateTest op operands = .ok t' ∧
      (∀ o : LayoutOptions, l.render o = t.text (column.render o)) ∧
      (∀ o : LayoutOptions, l'.render o = t'.text (column.render o)) ∧
      ∀ r : Row, (t.Holds r ↔ t'.Holds r) ↔ ¬ Differs op operands r.column r.now := by
  obtain ⟨t, ht, htext⟩ := exists_test h fun o => SqlServer.render_dateCondition o column op operands
  obtain ⟨t', ht', htext'⟩ := exists_test h' fun o => Postgres.render_dateCondition o column op operands
  exact ⟨t, t', ht, ht', htext, htext', dateTest_agrees_iff ht ht'⟩

theorem dateCondition_agrees_iff_months :
    ∃ l l' : Layout, Dialect.sqlServer.dateCondition (Layout.ofText "x") (.lastX .month) [" 2 "] = .ok l ∧
      Dialect.postgres.dateCondition (Layout.ofText "x") (.lastX .month) [" 2 "] = .ok l' ∧
      ∃ t t' : DateTest, SqlServer.dateTest (.lastX .month) [" 2 "] = .ok t ∧
        Postgres.dateTest (.lastX .month) [" 2 "] = .ok t' ∧
        (∀ o : LayoutOptions, l.render o = t.text ((Layout.ofText "x").render o)) ∧
        (∀ o : LayoutOptions, l'.render o = t'.text ((Layout.ofText "x").render o)) ∧
        ∀ r : Row, (t.Holds r ↔ t'.Holds r) ↔ ¬ Differs (.lastX .month) [" 2 "] r.column r.now :=
  ⟨_, _, rfl, rfl, dateCondition_agrees_iff (Layout.ofText "x") (.lastX .month) [" 2 "] _ _ rfl rfl⟩

def thisMorning : Row where
  column := 6 * hourLength
  now := 12 * hourLength
  date _ := 0

theorem lastSevenDays_disagree :
    ∃ t t' : DateTest, SqlServer.dateTest .lastSevenDays [] = .ok t ∧
      Postgres.dateTest .lastSevenDays [] = .ok t' ∧
      t.text "x" = "(DATEDIFF(day, x, GETDATE()) <= 0 and DATEDIFF(day, x, GETDATE()) > -7)" ∧
      t'.text "x" = "(x >= now() and x < now() + interval '7 day')" ∧
      t.Holds thisMorning ∧ ¬ t'.Holds thisMorning :=
  ⟨_, _, rfl, rfl, by decide, by decide, by decide, by decide⟩

end FetchQuery.Sql
