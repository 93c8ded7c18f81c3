import FetchQuery.Proofs.DocumentFault
import FetchQuery.Settings.Basic

namespace FetchQuery

/-- What is wrong with a condition whose operands fit in number. -/
def Statement.Condition.writingFault? (c : Condition) : Option Fault :=
  match Operator.named? c.operator with
  | none => some (.unknownOperator c.operator)
  | some op =>
    if op.counts then
      (c.operands.toList.find? fun v => ¬ ∃ n, Text.WritesInt64 v n).map (.notAnInteger c.operator)
    else none

namespace Statement.Condition

theorem head?_faults {c : Condition}
    (h : ∀ op, Operator.named? c.operator = some op → op.arityFaults c.operands.toList.length = []) :
    c.faults.head? = c.writingFault? := by
  unfold faults writingFault?
  cases hn : Operator.named? c.operator with
  | none => rfl
  | some op =>
    simp only
    rw [h op hn, List.nil_append, Operator.countFaults, Operator.id_of_named? hn]
    split
    · rw [List.head?_map, List.head?_filter]
    · rfl

theorem writingFault?_cases {c : Condition} {fault : Fault} (h : c.writingFault? = some fault) :
    (∃ id, fault = .unknownOperator id) ∨ ∃ id operand, fault = .notAnInteger id operand := by
  unfold writingFault? at h
  split at h
  · exact .inl ⟨c.operator, (Option.some.inj h).symm⟩
  · split at h
    · obtain ⟨operand, _, rfl⟩ := Option.map_eq_some_iff.1 h
      exact .inr ⟨c.operator, operand, rfl⟩
    · cases h

end Statement.Condition

namespace Document

open Statement (Select)
open Fallible

theorem Condition.length_placed (qualifier : String) (c : Condition) :
    (c.placed qualifier).operands.toList.length = c.operandCount := by
  unfold Condition.placed Condition.operandCount
  split <;> rfl

theorem Place.scope_faults_of_clauses {p : Place} {part : List Statement.Clause} (h : p.clauses = .ok part) :
    p.scope.faults = [] := by
  obtain ⟨_, _, h⟩ := bind_eq_ok.1 h
  obtain ⟨own, ho, _⟩ := bind_eq_ok.1 h
  exact (p.scope.clauses_yields p.qualifier).exists_ok_iff.1 ⟨own, ho⟩

theorem arityFaults_of_select {d : Document} {o : StatementOptions} {e : Entity} {s : Select}
    (h : d.select o e = .ok s) {c : Statement.Condition} (hc : c ∈ s.conditions) {op : Operator}
    (hop : Operator.named? c.operator = some op) : op.arityFaults c.operands.toList.length = [] := by
  rw [Select.conditions, allConditions_select h] at hc
  obtain ⟨p, hp, hc⟩ := List.mem_flatMap.1 hc
  obtain ⟨c, hm, rfl⟩ := List.mem_map.1 hc
  obtain ⟨parts, hparts, _⟩ := select_eq_ok.1 h
  obtain ⟨part, _, hpart⟩ := (exists_of_forall₂ hparts).1 p hp
  have hf : c.faults = [] := List.flatMap_eq_nil_iff.1 (Place.scope_faults_of_clauses hpart) c hm
  rw [Condition.length_placed]
  rw [Condition.faults, show Operator.named? c.operator = some op from hop] at hf
  simpa using hf

theorem selectText_yields (dialect : Sql.Dialect) (layout : Sql.LayoutOptions) (s : Select) :
    Yields (Sql.selectText dialect layout s) (s.conditions.flatMap Statement.Condition.faults) fun _ => True := by
  rw [Sql.selectText_eq_render]
  exact (Sql.selectLayout_yields dialect s).map fun _ _ => trivial

theorem selectText_eq_error_iff {d : Document} {o : StatementOptions} {e : Entity} {s : Select}
    (h : d.select o e = .ok s) (dialect : Sql.Dialect) (layout : Sql.LayoutOptions) (fault : Fault) :
    Sql.selectText dialect layout s = .error fault ↔
      s.conditions.findSome? Statement.Condition.writingFault? = some fault := by
  have hf : ∀ c ∈ s.conditions, c.faults.head? = c.writingFault? :=
    fun c hc => Statement.Condition.head?_faults fun op => arityFaults_of_select h hc
  rw [(selectText_yields dialect layout s).eq_error_iff, List.head?_flatMap, ← List.head?_filterMap,
    ← List.head?_filterMap, List.filterMap_congr hf]

/-- In all dialects and layouts the same faults stand in the way. -/
theorem sql_yields (d : Document) (o : StatementOptions) (e : Entity) : ∃ faults, ∀ dialect layout,
    Yields (d.sql ⟨dialect, o, layout⟩ e) faults fun _ => True := by
  simp only [Document.sql]
  cases d.select o e with
  | error fault => exact ⟨[fault], fun _ _ => rfl⟩
  | ok s => exact ⟨_, fun dialect layout => selectText_yields dialect layout s⟩

/-- A statement that could be made fails to be written exactly when one of its conditions has an unknown
operator or a number of units that is none. The first such condition is reported, in all dialects alike, and
so a document can be written in both dialects or in neither. -/
theorem sql_writing_fault (d : Document) (o : StatementOptions) (e : Entity) :
    (∀ s, d.select o e = .ok s → ∀ dialect layout fault,
      (Sql.selectText dialect layout s = .error fault ↔
        s.conditions.findSome? Statement.Condition.writingFault? = some fault) ∧
      (Sql.selectText dialect layout s = .error fault →
        (∃ id, fault = .unknownOperator id) ∨ ∃ id operand, fault = .notAnInteger id operand)) ∧
    ∀ layout layout',
      (∀ fault, d.sql ⟨.sqlServer, o, layout⟩ e = .error fault ↔
        d.sql ⟨.postgres, o, layout'⟩ e = .error fault) ∧
      ((∃ t, d.sql ⟨.sqlServer, o, layout⟩ e = .ok t) ↔ ∃ t, d.sql ⟨.postgres, o, layout'⟩ e = .ok t) := by
  constructor
  · intro s h dialect layout fault
    have hw := selectText_eq_error_iff h dialect layout fault
    refine ⟨hw, fun hf => ?_⟩
    obtain ⟨c, _, hc⟩ := List.exists_of_findSome?_eq_some (hw.1 hf)
    exact Statement.Condition.writingFault?_cases hc
  · intro layout layout'
    obtain ⟨faults, hy⟩ := sql_yields d o e
    have hserver := hy .sqlServer layout
    have hpostgres := hy .postgres layout'
    constructor
    · intro fault
      rw [hserver.eq_error_iff, hpostgres.eq_error_iff]
    · rw [hserver.exists_ok_iff, hpostgres.exists_ok_iff]

def undatedAccounts : Entity where
  name := "account"
  scope :=
    { filters :=
        [⟨.or, [{ column := "name", operator := "eq", value := some "a" },
            { column := "createdon", operator := "olderthan-x-hours", value := some " 3.5" }],
          [{ conditions := [{ column := "name", operator := "sounds-like", value := some "a" }] }]⟩] }

theorem sql_writing_fault_accounts : ∃ s, ({} : Document).select {} undatedAccounts = .ok s ∧
    s.conditions.findSome? Statement.Condition.writingFault? =
      some (.notAnInteger "olderthan-x-hours" " 3.5") ∧
    ∀ dialect layout, Sql.selectText dialect layout s = .error (.notAnInteger "olderthan-x-hours" " 3.5") := by
  refine ⟨_, rfl, by decide +kernel, fun dialect layout => ?_⟩
  exact (((sql_writing_fault {} {} undatedAccounts).1 _ rfl dialect layout _).1).2 (by decide +kernel)

end Document

end FetchQuery
