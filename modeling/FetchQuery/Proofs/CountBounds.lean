import FetchQuery.Proofs.DateTest
import FetchQuery.Proofs.IntegerText
import FetchQuery.Proofs.Lexicon

namespace FetchQuery.Sql

open Fallible
open Text (rest_append)

/-- Reads a value at the start of a text and gives it with what is left of the text. -/
abbrev Reader (β : Type) := List Char → Option (β × List Char)

inductive Stops : List Char → Prop
  | done : Stops []
  | closed : Stops [')']
  | next (rest : List Char) : Stops (" and ".toList ++ rest)

def Reads {β : Type} (bound : Reader β) (text : String) (b : β) : Prop :=
  ∀ rest, Stops rest → bound (text.toList ++ rest) = some (b, rest)

namespace Comparison

def all : List Comparison := [eq, lt, le, gt, ge]

def isSignChar (c : Char) : Bool := c == '<' || c == '=' || c == '>'

def read : Reader Comparison := fun cs =>
  (all.find? fun c => c.sign.toList == cs.takeWhile isSignChar).map (·, cs.dropWhile isSignChar)

theorem read_sign (c : Comparison) (rest : List Char) :
    read (c.sign.toList ++ ' ' :: rest) = some (c, ' ' :: rest) := by
  cases c <;> rfl

end Comparison

theorem getLast?_binary {sign left right : String} {d : Char} (h : right.toList.getLast? = some d) :
    (binary sign left right).toList.getLast? = some d := by
  rw [binary, String.toList_append, List.getLast?_append, h]
  rfl

section

variable {β : Type}

def comparison (operand : String) (bound : Reader β) : Reader (Comparison × β) := fun cs => do
  let cs ← Text.after?.rest (operand ++ " ").toList cs
  let (c, cs) ← Comparison.read cs
  let cs ← Text.after?.rest [' '] cs
  let (b, cs) ← bound cs
  return ((c, b), cs)

/-- The comparisons of the operand that a text consists of: two in a group, or a single one. -/
def conjuncts? (operand : String) (bound : Reader β) (text : String) : Option (List (Comparison × β)) :=
  -- the operand may start with a parenthesis too, but no bound ends in one
  if text.toList.getLast? = some ')' then do
    let cs ← Text.after?.rest ['('] text.toList
    let (first, cs) ← comparison operand bound cs
    let cs ← Text.after?.rest " and ".toList cs
    let (second, cs) ← comparison operand bound cs
    if cs = [')'] then some [first, second] else none
  else do
    let (only, cs) ← comparison operand bound text.toList
    if cs = [] then some [only] else none

variable {operand t t' : String} {bound : Reader β} {b b' : β}

theorem comparison_binary (c : Comparison) (h : Reads bound t b) {rest : List Char} (hr : Stops rest) :
    comparison operand bound ((binary c.sign operand t).toList ++ rest) = some ((c, b), rest) := by
  have hsplit : (binary c.sign operand t).toList ++ rest =
      (operand ++ " ").toList ++ (c.sign.toList ++ ' ' :: (t.toList ++ rest)) := by
    simp [binary]
  have hspace : Text.after?.rest [' '] (' ' :: (t.toList ++ rest)) = some (t.toList ++ rest) :=
    rest_append [' '] _
  rw [hsplit, comparison, rest_append]
  simp only [Option.bind_eq_bind, Option.bind_some, Comparison.read_sign, hspace, h rest hr]
  rfl

theorem conjuncts?_single (c : Comparison) (h : Reads bound t b)
    (ht : ∃ d, t.toList.getLast? = some d ∧ d ≠ ')') :
    conjuncts? operand bound (binary c.sign operand t) = some [(c, b)] := by
  obtain ⟨d, hd, hne⟩ := ht
  have hread : comparison operand bound (binary c.sign operand t).toList = some ((c, b), []) := by
    simpa using comparison_binary c h .done
  rw [conjuncts?, getLast?_binary hd, if_neg (by simpa using hne), hread]
  rfl

theorem conjuncts?_group (c c' : Comparison) (h : Reads bound t b) (h' : Reads bound t' b') :
    conjuncts? operand bound
      ("(" ++ binary c.sign operand t ++ " and " ++ binary c'.sign operand t' ++ ")") =
        some [(c, b), (c', b')] := by
  have hsplit : ("(" ++ binary c.sign operand t ++ " and " ++ binary c'.sign operand t' ++ ")").toList =
      ['('] ++ ((binary c.sign operand t).toList ++
        (" and ".toList ++ ((binary c'.sign operand t').toList ++ [')']))) := by
    simp
  have hlast : ("(" ++ binary c.sign operand t ++ " and " ++ binary c'.sign operand t' ++ ")").toList.getLast? =
      some ')' := by
    rw [String.toList_append]
    exact List.getLast?_concat
  rw [conjuncts?, if_pos hlast, hsplit, rest_append]
  simp only [Option.bind_eq_bind, Option.bind_some, comparison_binary c h (.next _), rest_append,
    comparison_binary c' h' .closed]
  rfl

end

def isNumberChar (c : Char) : Bool := c == '+' || c == '-' || Text.isAsciiDigit c

def number : Reader Int := fun cs =>
  (Text.readInt64? (cs.takeWhile isNumberChar)).map (·, cs.dropWhile isNumberChar)

theorem isNumberChar_of_mem_toString {n : Int} {c : Char} (hc : c ∈ (toString n).toList) :
    isNumberChar c = true := by
  obtain rfl | rfl | hd := (Text.writesInt_toString n).mem hc
  · rfl
  · rfl
  · rw [isNumberChar, hd, Bool.or_true]

theorem number_append {n : Int} (hn : -2 ^ 63 ≤ n ∧ n < 2 ^ 63) {rest : List Char}
    (hr : ∀ c, rest.head? = some c → isNumberChar c = false) :
    number ((toString n).toList ++ rest) = some (n, rest) := by
  have hc : ∀ c ∈ (toString n).toList, isNumberChar c = true := fun c => isNumberChar_of_mem_toString
  have hread := Text.readInt64?_eq_some_iff.2 ⟨Text.writesInt_toString n, hn⟩
  rw [number, Text.takeWhile_append_stop hc hr, Text.dropWhile_append_stop hc hr, hread]
  rfl

theorem reads_number {n : Int} (hn : -2 ^ 63 ≤ n ∧ n < 2 ^ 63) : Reads number (toString n) n := by
  intro rest hr
  apply number_append hn
  intro c hc
  cases hr with
  | done => cases hc
  | closed =>
    cases hc
    decide
  | next rest =>
    cases hc
    decide

theorem getLast?_toString (n : Int) : ∃ d, (toString n).toList.getLast? = some d ∧ d ≠ ')' := by
  have hne := (Text.writesInt_toString n).ne_nil
  refine ⟨_, List.getLast?_eq_some_getLast hne, ?_⟩
  intro hlast
  have hc := isNumberChar_of_mem_toString (List.getLast_mem hne)
  rw [hlast] at hc
  exact absurd hc (by decide)

/-- An instant as the distance from now. -/
inductive Moment where
  | now
  | after (count : Int) (part : DatePart)
  | before (count : Int) (part : DatePart)

namespace Moment

def part : Reader DatePart := fun cs =>
  (DatePart.agingParts.find? fun part => part.keyword.toList == cs.takeWhile Char.isAlpha).map
    (·, cs.dropWhile Char.isAlpha)

def units : Reader (Int × DatePart) := fun cs => do
  let (count, cs) ← number cs
  let cs ← Text.after?.rest " * interval '1 ".toList cs
  let (part, cs) ← part cs
  let cs ← Text.after?.rest ['\x27'] cs
  return ((count, part), cs)

def read : Reader Moment := fun cs => do
  let cs ← Text.after?.rest "now()".toList cs
  match Text.after?.rest " + ".toList cs, Text.after?.rest " - ".toList cs with
  | some cs, _ => (units cs).map fun u => (after u.1.1 u.1.2, u.2)
  | none, some cs => (units cs).map fun u => (before u.1.1 u.1.2, u.2)
  | none, none => some (now, cs)

theorem part_keyword (p : DatePart) (rest : List Char) :
    part (p.keyword.toList ++ '\x27' :: rest) = some (p, '\x27' :: rest) := by
  cases p <;> rfl

theorem units_append {n : Int} (hn : -2 ^ 63 ≤ n ∧ n < 2 ^ 63) (p : DatePart) (rest : List Char) :
    units ((Postgres.units n p).toList ++ rest) = some ((n, p), rest) := by
  have hsplit : (Postgres.units n p).toList ++ rest =
      (toString n).toList ++ (" * interval '1 ".toList ++ (p.keyword.toList ++ '\x27' :: rest)) := by
    simp [Postgres.units]
  have hquote : Text.after?.rest ['\x27'] ('\x27' :: rest) = some rest := rest_append ['\x27'] rest
  have hnumber : number ((toString n).toList ++
      (" * interval '1 ".toList ++ (p.keyword.toList ++ '\x27' :: rest))) =
        some (n, " * interval '1 ".toList ++ (p.keyword.toList ++ '\x27' :: rest)) := by
    apply number_append hn
    intro c hc
    cases hc
    decide
  rw [hsplit, units, hnumber]
  simp only [Option.bind_eq_bind, Option.bind_some, rest_append, part_keyword, hquote]
  rfl

theorem getLast?_units (n : Int) (p : DatePart) : (Postgres.units n p).toList.getLast? = some '\x27' := by
  rw [Postgres.units, String.toList_append]
  exact List.getLast?_concat

theorem reads_now : Reads read "now()" now := by
  intro rest hr
  rw [read, rest_append]
  cases hr <;> rfl

theorem reads_after {n : Int} (hn : -2 ^ 63 ≤ n ∧ n < 2 ^ 63) (p : DatePart) :
    Reads read (binary "+" "now()" (Postgres.units n p)) (after n p) := by
  intro rest _
  have hsplit : (binary "+" "now()" (Postgres.units n p)).toList ++ rest =
      "now()".toList ++ (" + ".toList ++ ((Postgres.units n p).toList ++ rest)) := by
    simp [binary]
  rw [hsplit, read, rest_append]
  simp only [Option.bind_eq_bind, Option.bind_some, rest_append, units_append hn]
  rfl

theorem reads_before {n : Int} (hn : -2 ^ 63 ≤ n ∧ n < 2 ^ 63) (p : DatePart) :
    Reads read (binary "-" "now()" (Postgres.units n p)) (before n p) := by
  intro rest _
  have hsplit : (binary "-" "now()" (Postgres.units n p)).toList ++ rest =
      "now()".toList ++ (" - ".toList ++ ((Postgres.units n p).toList ++ rest)) := by
    simp [binary]
  have hplus : Text.after?.rest " + ".toList (" - ".toList ++ ((Postgres.units n p).toList ++ rest)) = none := rfl
  rw [hsplit, read, rest_append]
  simp only [Option.bind_eq_bind, Option.bind_some, hplus, rest_append, units_append hn]
  rfl

end Moment

inductive Counting where
  | last | next | olderThan

namespace Counting

def operator (part : DatePart) : Counting → Operator
  | last => .lastX part
  | next => .nextX part
  | olderThan => .olderThanX part

/-- The differences that are asked for, in parts from the column's value to now. -/
def Admits (n d : Int) : Counting → Prop
  | last => -n < d ∧ d ≤ 0
  | next => 0 ≤ d ∧ d < n
  | olderThan => d < n

def moments (n : Int) (part : DatePart) : Counting → List (Comparison × Moment)
  | last => [(.ge, .now), (.lt, .after n part)]
  | next => [(.le, .now), (.gt, .before n part)]
  | olderThan => [(.gt, .before n part)]

def bounds (n : Int) : Counting → List (Comparison × Int)
  | last => [(.le, 0), (.gt, Text.negateInt64 n)]
  | next => [(.ge, 0), (.lt, n)]
  | olderThan => [(.lt, n)]

def test (part : DatePart) (n : Int) : Dialect → Counting → DateTest
  | .sqlServer, last => SqlServer.aheadTest part n
  | .sqlServer, next => SqlServer.behindTest part n
  | .sqlServer, olderThan => .compare .lt (SqlServer.toNow part) (.number n)
  | .postgres, last => Postgres.aheadTest (.units n part)
  | .postgres, next => Postgres.behindTest (.units n part)
  | .postgres, olderThan => .compare .gt .column (.minus Postgres.now (.units n part))

/-- The bound for `-2 ^ 63` is one too small, and no difference lies between. -/
theorem holds_bounds_iff (k : Counting) {n d : Int} (hd : -2 ^ 63 ≤ d ∧ d < 2 ^ 63) :
    (∀ b ∈ k.bounds n, b.1.Holds d b.2) ↔ k.Admits n d := by
  cases k with
  | last =>
    simp [bounds, Admits, Text.negateInt64, Text.maxInt64]
    omega
  | next => simp [bounds, Admits]
  | olderThan => simp [bounds, Admits]

section

variable {n : Int} (hn : -2 ^ 63 ≤ n ∧ n < 2 ^ 63) (part : DatePart) (lhs : String)

include hn

theorem negateInt64_range : -2 ^ 63 ≤ Text.negateInt64 n ∧ Text.negateInt64 n < 2 ^ 63 := by
  unfold Text.negateInt64 Text.maxInt64
  omega

theorem conjuncts?_sqlServer (k : Counting) :
    conjuncts? ((SqlServer.toNow part).text lhs) number ((k.test part n .sqlServer).text lhs) =
      some (k.bounds n) := by
  have hzero : Reads number (toString (0 : Int)) 0 := reads_number (by decide)
  cases k with
  | last => exact conjuncts?_group .le .gt hzero (reads_number (negateInt64_range hn))
  | next => exact conjuncts?_group .ge .lt hzero (reads_number hn)
  | olderThan => exact conjuncts?_single .lt (reads_number hn) (getLast?_toString n)

theorem conjuncts?_postgres (k : Counting) :
    conjuncts? lhs Moment.read ((k.test part n .postgres).text lhs) = some (k.moments n part) := by
  cases k with
  | last => exact conjuncts?_group .ge .lt Moment.reads_now (Moment.reads_after hn part)
  | next => exact conjuncts?_group .le .gt Moment.reads_now (Moment.reads_before hn part)
  | olderThan =>
    exact conjuncts?_single .gt (Moment.reads_before hn part)
      ⟨'\x27', getLast?_binary (Moment.getLast?_units n part), by decide⟩

end

/-- A counting condition has the text of its test, or the fault of its operand. -/
theorem render_condition {k : Counting} {part : DatePart} (hop : k.operator part ∈ Operator.all) (d : Dialect)
    (o : LayoutOptions) (lhs : Layout) (v : String) :
    (d.condition lhs (k.operator part).id [v]).map (Layout.render o) =
      ((k.operator part).count v).map fun n => (k.test part n d).text (lhs.render o) := by
  have hcond : d.condition lhs (k.operator part).id [v] = d.dateCondition lhs (k.operator part) [v] := by
    rw [Dialect.condition, Operator.ofId_eq_ok_iff.2 ⟨hop, rfl⟩]
    cases k <;> rfl
  rw [hcond]
  cases d with
  | sqlServer =>
    refine (SqlServer.render_dateCondition o lhs _ [v]).trans ?_
    cases k <;> exact map_bind_pure
  | postgres =>
    refine (Postgres.render_dateCondition o lhs _ [v]).trans ?_
    cases k <;> exact map_bind_pure

theorem condition_eq_error_iff {k : Counting} {part : DatePart} (hop : k.operator part ∈ Operator.all)
    (d : Dialect) (lhs : Layout) (v : String) (fault : Fault) :
    d.condition lhs (k.operator part).id [v] = .error fault ↔ (k.operator part).count v = .error fault :=
  eq_error_iff_of_map (render_condition hop d {} lhs v)

theorem exists_condition {k : Counting} {part : DatePart} (hop : k.operator part ∈ Operator.all)
    (d : Dialect) (o : LayoutOptions) (lhs : Layout) {v : String} {n : Int}
    (hv : (k.operator part).count v = .ok n) : ∃ l, d.condition lhs (k.operator part).id [v] = .ok l ∧
      l.render o = (k.test part n d).text (lhs.render o) := by
  apply map_eq_ok.1
  rw [render_condition hop, hv]
  rfl

end Counting

/-- Both dialects reject exactly the operands that are no integers of 64 bits. For the others, the numbers in the
one text bound the differences that are asked for, and the other text multiplies the interval of one part by
the operand. -/
theorem countCondition_exact (k : Counting) (part : DatePart) (hop : k.operator part ∈ Operator.all)
    (o : LayoutOptions) (lhs : Layout) (v : String) :
    (∀ d : Dialect, d.condition lhs (k.operator part).id [v] =
      .error (.notAnInteger (k.operator part).id v) ↔ ¬ ∃ n, Text.WritesInt64 v n) ∧
    ∀ n, Text.WritesInt64 v n →
      (∃ l bounds, Dialect.sqlServer.condition lhs (k.operator part).id [v] = .ok l ∧
        conjuncts? ((SqlServer.toNow part).text (lhs.render o)) number (l.render o) = some bounds ∧
        ∀ d : Int, -2 ^ 63 ≤ d ∧ d < 2 ^ 63 → ((∀ b ∈ bounds, b.1.Holds d b.2) ↔ k.Admits n d)) ∧
      ∃ l, Dialect.postgres.condition lhs (k.operator part).id [v] = .ok l ∧
        conjuncts? (lhs.render o) Moment.read (l.render o) = some (k.moments n part) := by
  refine ⟨fun d => (Counting.condition_eq_error_iff hop d lhs v _).trans Operator.count_eq_error_iff, ?_⟩
  intro n h
  have hv : (k.operator part).count v = .ok n := Operator.count_eq_ok_iff.2 h
  obtain ⟨_, _, _, _, _, _, hn⟩ := h
  obtain ⟨l, hl, hr⟩ := Counting.exists_condition hop .sqlServer o lhs hv
  obtain ⟨m, hm, hs⟩ := Counting.exists_condition hop .postgres o lhs hv
  refine ⟨⟨l, k.bounds n, hl, ?_, fun d => k.holds_bounds_iff⟩, m, hm, ?_⟩
  · rw [hr, Counting.conjuncts?_sqlServer hn]
  · rw [hs, Counting.conjuncts?_postgres hn]

theorem countCondition_exact_least :
    Text.WritesInt64 " -9223372036854775808 " (-2 ^ 63) ∧
    (Dialect.sqlServer.condition (Layout.ofText "[x]") "last-x-days" [" -9223372036854775808 "]).map
      (Layout.render {}) = .ok ("(DATEDIFF(day, [x], GETDATE()) <= 0 and " ++
        "DATEDIFF(day, [x], GETDATE()) > 9223372036854775807)") ∧
    ∃ l bounds, Dialect.sqlServer.condition (Layout.ofText "[x]") "last-x-days" [" -9223372036854775808 "] = .ok l ∧
      conjuncts? "DATEDIFF(day, [x], GETDATE())" number (l.render {}) = some bounds ∧
      ∀ d : Int, -2 ^ 63 ≤ d ∧ d < 2 ^ 63 → ((∀ b ∈ bounds, b.1.Holds d b.2) ↔ - -2 ^ 63 < d ∧ d ≤ 0) := by
  have h : Text.WritesInt64 " -9223372036854775808 " (-2 ^ 63) :=
    Text.readInt64?_dropBlanks_eq_some_iff.1 (by decide +kernel)
  exact ⟨h, by decide +kernel,
    ((countCondition_exact .last .day (by decide) {} (Layout.ofText "[x]") _).2 _ h).1⟩

end FetchQuery.Sql
