import FetchQuery.Proofs.FilterText
import FetchQuery.Proofs.IntegerText
import FetchQuery.Proofs.Lexicon

namespace FetchQuery

namespace Operator

def counts : Operator → Bool
  | lastX _ | nextX _ | olderThanX _ => true
  | _ => false

def arityFaults (op : Operator) (given : Nat) : List Fault :=
  if op.arity.accepts given then [] else [.operandCount op.id op.arity given]

/-- A fault for each operand that should be a number of units and is none. -/
def countFaults (op : Operator) (operands : List String) : List Fault :=
  if op.counts then
    (operands.filter fun v => ¬ ∃ n, Text.WritesInt64 v n).map (.notAnInteger op.id)
  else []

end Operator

namespace Statement

/-- What keeps a condition from being written, in the order in which it is looked for. -/
def Condition.faults (c : Condition) : List Fault :=
  match Operator.named? c.operator with
  | none => [.unknownOperator c.operator]
  | some op => op.arityFaults c.operands.toList.length ++ op.countFaults c.operands.toList

def Select.conditions (s : Select) : List Condition := s.filter.toList.flatMap Filter.allConditions

end Statement

namespace Operator

open Fallible

theorem checkOperands_yields (op : Operator) (given : Nat) :
    Yields (op.checkOperands given) (op.arityFaults given) fun _ => op.arity.accepts given = true := by
  unfold checkOperands arityFaults
  split
  next h => exact ⟨rfl, h⟩
  next => rfl

theorem singleCount_yields {op : Operator} (hc : op.counts = true) (operand : String) :
    Yields (op.singleCount [operand]) (op.countFaults [operand]) fun _ => True := by
  show Yields (op.count operand) _ _
  by_cases hn : ∃ n, Text.WritesInt64 operand n
  · have hnone : op.countFaults [operand] = [] := by simp [countFaults, hn]
    obtain ⟨n, hw⟩ := hn
    rw [count_eq_ok_iff.2 hw]
    exact ⟨hnone, trivial⟩
  · rw [count_eq_error_iff.2 hn]
    simp [Yields, countFaults, hc, hn]

end Operator

namespace Sql

open Layout (ofText)
open Statement (Select Condition Filter Join Column)
open Fallible

def Piece.isInline : Piece → Bool
  | text _ | space => true
  | lineBreak _ | columnSeparator | comma => false

namespace Layout

/-- The line breaks and separators of a layout, in order. -/
def breaks (l : Layout) : Layout := l.filter (! ·.isInline)

@[simp] theorem breaks_nil : breaks [] = [] := rfl

@[simp] theorem breaks_cons (p : Piece) (l : Layout) :
    breaks (p :: l) = if p.isInline then breaks l else p :: breaks l := by
  cases h : p.isInline <;> simp [breaks, h]

@[simp] theorem breaks_append (l m : Layout) : breaks (l ++ m) = breaks l ++ breaks m :=
  List.filter_append ..

@[simp] theorem breaks_ofText (s : String) : breaks (ofText s) = [] := rfl

theorem breaks_join (glue p : Layout) (parts : List Layout) :
    (join glue (p :: parts)).breaks = p.breaks ++ parts.flatMap fun q => glue.breaks ++ q.breaks := by
  induction parts generalizing p with
  | nil => simp [join]
  | cons q parts ih =>
    have hq := ih q
    simp only [join] at hq ⊢
    rw [List.intercalate_cons_cons, breaks_append, breaks_append, hq, List.flatMap_cons]
    simp only [List.append_assoc]

theorem breaks_list {α : Type} {separator : Piece} (hs : separator.isInline = false) {part : α → Layout}
    (h : ∀ a, (part a).breaks = []) (items : List α) :
    (join [separator] (items.map part)).breaks = items.tail.map fun _ => separator := by
  cases items with
  | nil => rfl
  | cons a items =>
    rw [List.map_cons, breaks_join, h, List.flatMap_map, List.tail_cons, List.map_eq_flatMap]
    simp [h, hs]

theorem breaks_join_eq_nil {glue : Layout} (hg : glue.breaks = []) {parts : List Layout}
    (h : ∀ q ∈ parts, q.breaks = []) : (join glue parts).breaks = [] := by
  cases parts with
  | nil => rfl
  | cons p parts =>
    rw [List.forall_mem_cons] at h
    rw [breaks_join, h.1, List.nil_append, List.flatMap_eq_nil_iff]
    intro q hq
    rw [hg, h.2 q hq]
    rfl

end Layout

section

variable {d : Dialect} {lhs : Layout}

/-- Operands that fit the arity leave only a wrong count to fail on, and the condition is written on the
line of its column. -/
theorem Dialect.operatorCondition_yields (hl : lhs.breaks = []) {op : Operator} {operands : List String}
    (ha : op.arity.accepts operands.length = true) :
    Yields (d.operatorCondition lhs op operands) (op.countFaults operands) fun l => l.breaks = [] := by
  cases op with
  | null | notNull | isIn | notIn => exact ⟨rfl, by simp [hl]⟩
  | eq | ne | neq | lt | le | gt | ge | like | notLike | beginsWith | notBeginWith | endsWith
  | notEndWith =>
    obtain ⟨v, rfl⟩ := List.length_eq_one_iff.1 (of_decide_eq_true ha)
    exact ⟨rfl, by simp [hl]⟩
  | between | notBetween =>
    obtain ⟨low, high, rfl⟩ := List.length_eq_two.1 (of_decide_eq_true ha)
    exact ⟨rfl, by simp [hl]⟩
  | eqUserId => exact ⟨rfl, by cases d <;> simp [currentUser, hl]⟩
  | today | tomorrow | yesterday | calendar | lastSevenDays | nextSevenDays =>
    cases d with
    | sqlServer =>
      exact ⟨rfl, by simp [SqlServer.sameDay, SqlServer.partsToNow, SqlServer.aheadWindow,
        SqlServer.behindWindow, hl]⟩
    | postgres => exact ⟨rfl, by simp [Postgres.aheadWindow, Postgres.behindWindow, hl]⟩
  | on | onOrBefore | onOrAfter =>
    obtain ⟨v, rfl⟩ := List.length_eq_one_iff.1 (of_decide_eq_true ha)
    cases d with
    | sqlServer => exact ⟨rfl, by simp [SqlServer.compareDay, hl]⟩
    | postgres => exact ⟨rfl, by simp [Postgres.compareDay, hl]⟩
  | lastX part | nextX part | olderThanX part =>
    obtain ⟨v, rfl⟩ := List.length_eq_one_iff.1 (of_decide_eq_true ha)
    cases d with
    | sqlServer =>
      refine .bind_pure (Operator.singleCount_yields rfl v) fun n _ => ?_
      simp [SqlServer.partsToNow, SqlServer.aheadWindow, SqlServer.behindWindow, hl]
    | postgres =>
      refine .bind_pure (Operator.singleCount_yields rfl v) fun n _ => ?_
      simp [Postgres.aheadWindow, Postgres.behindWindow, hl]

end

section

variable {d : Dialect} {ambient : String}

theorem columnLayout_breaks (c : Column) : (columnLayout d ambient c).breaks = [] := by
  unfold columnLayout
  cases c.function? <;> cases c.distinct <;> cases c.hasName <;> simp [aggregatedLayout, Piece.isInline]

theorem joinLayout_breaks (j : Join) : (joinLayout d j).breaks = [.lineBreak 2] := by
  have hk : (Layout.join [.space, .text "and", .space] (j.keys.map fun k =>
      ofText (j.source.exposed ++ "." ++ d.quote k.source ++ " = " ++
        j.target.exposed ++ "." ++ d.quote k.target))).breaks = [] := by
    apply Layout.breaks_join_eq_nil rfl
    intro q hq
    obtain ⟨k, _, rfl⟩ := List.mem_map.1 hq
    rfl
  simp [joinLayout, Piece.isInline, hk]

variable (d ambient)

theorem conditionLayout_yields (c : Condition) :
    Yields (conditionLayout d ambient c) c.faults fun l => l.breaks = [] := by
  unfold conditionLayout Dialect.condition Condition.faults Operator.ofId
  rw [Operator.ofId?_eq_named?]
  cases Operator.named? c.operator with
  | none => rfl
  | some op =>
    exact (op.checkOperands_yields c.operands.toList.length).bind fun _ ha =>
      d.operatorCondition_yields (columnLayout_breaks c.column) ha

/-- The first fault of a filter is that of its first condition with one, and the whole filter stands on
one line, however deep it is. -/
theorem filterLayout_yields (f : Filter) :
    Yields (filterLayout d ambient f) (f.allConditions.flatMap Condition.faults) fun l => l.breaks = [] := by
  induction f using Filter.nested_induction with
  | step f ih =>
    obtain ⟨connective, conditions, subfilters⟩ := f
    have hown := Yields.mapM fun c (_ : c ∈ conditions) => conditionLayout_yields d ambient c
    have hnested := Yields.mapM fun g (hg : g ∈ subfilters.filter Filter.isSpecified) =>
      ih g (List.mem_of_mem_filter hg)
    rw [filterLayout, subfilterLayouts_eq_mapM, Filter.allConditions_eq, List.flatMap_append,
      ← Filter.flatMap_filter_isSpecified, List.flatMap_assoc]
    refine hown.bind fun own ho => hnested.bind_pure fun nested hn => ?_
    have hparts : ∀ q ∈ own ++ nested, q.breaks = [] := by
      intro q hq
      exact (List.mem_append.1 hq).elim (ho q) (hn q)
    have hjoin : (Layout.join [.space, .text connective.keyword, .space] (own ++ nested)).breaks = [] :=
      Layout.breaks_join_eq_nil rfl hparts
    simp [hjoin]

end

def listBreaks {α : Type} (items : List α) : Layout :=
  if items.isEmpty then [] else .lineBreak 0 :: .lineBreak 1 :: items.tail.map fun _ => .comma

theorem breaks_clause {α : Type} (keyword : String) {item : α → Layout} (h : ∀ a, (item a).breaks = [])
    (items : List α) :
    Layout.breaks (if !items.isEmpty then
      [.lineBreak 0, .text keyword, .lineBreak 1] ++ Layout.join [.comma] (items.map item) else []) =
      listBreaks items := by
  cases items with
  | nil => rfl
  | cons a items =>
    rw [List.isEmpty_cons, Bool.not_false, if_pos rfl, Layout.breaks_append, Layout.breaks_list rfl h]
    rfl

def selectBreaks (d : Dialect) (s : Select) : Layout :=
  .lineBreak 1 :: (s.columns.tail.map fun _ => .columnSeparator) ++ [.lineBreak 0, .lineBreak 0] ++
    (s.joins.flatMap fun _ => [.lineBreak 1, .lineBreak 2]) ++
    (if s.specifiedFilter?.isSome then [.lineBreak 0, .lineBreak 1] else []) ++
    listBreaks s.orderBy ++ listBreaks s.groupBy ++
    if s.top.isSome && d.rowLimit = .limit then [.lineBreak 0] else []

section

variable (d : Dialect) (s : Select)

theorem headLayout_breaks : (headLayout d s).breaks = [] := by
  unfold headLayout
  split <;> split <;> simp [Piece.isInline]

theorem columnsLayout_breaks : (columnsLayout d s).breaks =
    .lineBreak 1 :: s.columns.tail.map fun _ => .columnSeparator := by
  have hc : (if s.columns.isEmpty then [Column.wildcard ""] else s.columns).tail = s.columns.tail := by
    cases s.columns <;> rfl
  unfold columnsLayout
  simp only [Layout.breaks_append]
  rw [Layout.breaks_list rfl fun c => columnLayout_breaks c, hc]
  rfl

theorem fromLayout_breaks : (fromLayout d s).breaks =
    [.lineBreak 0, .lineBreak 0] ++ s.joins.flatMap fun _ => [.lineBreak 1, .lineBreak 2] := by
  unfold fromLayout Select.hasJoins
  cases s.joins with
  | nil => rfl
  | cons j joins =>
    simp [Piece.isInline, Layout.breaks_join, joinLayout_breaks, List.flatMap_map]

theorem whereLayout_yields :
    Yields (whereLayout d s) (s.conditions.flatMap Condition.faults) fun l =>
      l.breaks = if s.specifiedFilter?.isSome then [.lineBreak 0, .lineBreak 1] else [] := by
  unfold whereLayout Select.conditions Select.specifiedFilter?
  cases s.filter with
  | none => exact ⟨rfl, rfl⟩
  | some f =>
    cases hf : f.isSpecified with
    | true =>
      have hlayout := filterLayout_yields d (ambientName s) f
      simp only [Option.filter_some_pos hf, Option.toList_some, List.flatMap_singleton, Option.isSome_some]
      refine hlayout.bind_pure fun l hl => ?_
      rw [Layout.breaks_append, hl]
      rfl
    | false =>
      have hc : f.allConditions = [] := by simpa [Filter.isSpecified_eq] using hf
      simp only [Option.filter_some_neg hf, Option.toList_some, List.flatMap_singleton, hc]
      exact ⟨rfl, rfl⟩

theorem orderLayout_breaks : (orderLayout d s).breaks = listBreaks s.orderBy :=
  breaks_clause "order by" (fun _ => rfl) s.orderBy

theorem groupLayout_breaks : (groupLayout d s).breaks = listBreaks s.groupBy :=
  breaks_clause "group by" (fun _ => rfl) s.groupBy

theorem tailLayout_breaks : (tailLayout d s).breaks =
    if s.top.isSome && d.rowLimit = .limit then [.lineBreak 0] else [] := by
  unfold tailLayout
  cases s.top <;> cases d.rowLimit <;> rfl

theorem selectLayout_yields :
    Yields (selectLayout d s) (s.conditions.flatMap Condition.faults) fun l =>
      l.breaks = selectBreaks d s := by
  refine (whereLayout_yields d s).bind_pure fun filter hf => ?_
  simp only [Layout.breaks_append, headLayout_breaks, columnsLayout_breaks, fromLayout_breaks, hf,
    orderLayout_breaks, groupLayout_breaks, tailLayout_breaks, selectBreaks]
  simp

end

end Sql

end FetchQuery
