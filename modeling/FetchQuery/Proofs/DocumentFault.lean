import FetchQuery.Proofs.FilterTree
import FetchQuery.Proofs.KeyColumns
import FetchQuery.Proofs.LayoutOutcome

namespace FetchQuery.Document

open Statement (AliasedName)
open Fallible

/-- Listed operands count, and without them the one value does. -/
def Condition.operandCount (c : Condition) : Nat := if c.values = [] then 1 else c.values.length

def Condition.faults (c : Condition) : List Fault :=
  (Operator.named? c.operator).toList.flatMap fun op => op.arityFaults c.operandCount

def Scope.faults (s : Scope) : List Fault :=
  (s.filters.flatMap Filter.allConditions).flatMap Condition.faults

def linkTypes : List String :=
  ["inner", "left", "left-outer", "outer", "right", "right-outer", "full-outer"]

namespace Link

def typeFaults (l : Link) : List Fault :=
  let linkType := l.linkType.getD "inner"
  if linkType ∈ linkTypes then [] else [.unknownLinkType linkType]

def keyFaults (l : Link) : List Fault :=
  let fromCount := (listed l.fromColumns).1.length
  let toCount := (listed l.toColumns).1.length
  if fromCount = toCount ∧ 0 < toCount then [] else [.unpairedKeys l.name fromCount toCount]

mutual

def faults : Link → List Fault
  | link@⟨_, _, _, _, _, scope, links⟩ =>
    link.typeFaults ++ link.keyFaults ++ scope.faults ++ faultsOfAll links

def faultsOfAll : List Link → List Fault
  | [] => []
  | l :: ls => l.faults ++ faultsOfAll ls

end

end Link

/-- The faults of an entity in reading order: those of its own scope and then those of its links. -/
def Entity.faults (e : Entity) : List Fault := e.scope.faults ++ Link.faultsOfAll e.links

theorem Condition.length_operands (c : Condition) : c.operands.toList.length = c.operandCount := by
  unfold Condition.operands Condition.operandCount
  cases c.values <;> rfl

theorem Condition.resolve_yields (qualifier : String) (c : Condition) :
    Yields (c.resolve qualifier) c.faults fun _ => True := by
  unfold Condition.resolve Condition.faults
  rw [Operator.ofId?_eq_named?, c.length_operands]
  cases Operator.named? c.operator with
  | none => exact ⟨rfl, trivial⟩
  | some op =>
    rw [Option.toList_some, List.flatMap_singleton]
    exact (op.checkOperands_yields c.operandCount).bind_pure fun _ _ => trivial

namespace Filter

mutual

theorem resolve_yields (qualifier : String) (f : Filter) :
    Yields (f.resolve qualifier) (f.allConditions.flatMap Condition.faults) fun _ => True := by
  match f with
  | ⟨connective, conditions, subfilters⟩ =>
    rw [resolve, allConditions, List.flatMap_append]
    have hown := Yields.mapM fun c (_ : c ∈ conditions) => c.resolve_yields qualifier
    exact hown.bind fun _ _ => (resolveAll_yields qualifier subfilters).bind_pure fun _ _ => trivial

theorem resolveAll_yields (qualifier : String) (fs : List Filter) :
    Yields (resolveAll qualifier fs) ((allConditionsOf fs).flatMap Condition.faults) fun _ => True := by
  match fs with
  | [] => exact ⟨rfl, trivial⟩
  | f :: fs =>
    rw [resolveAll, allConditionsOf, List.flatMap_append]
    exact (resolve_yields qualifier f).bind fun _ _ =>
      (resolveAll_yields qualifier fs).bind_pure fun _ _ => trivial

end

end Filter

theorem Scope.clauses_yields (qualifier : String) (s : Scope) :
    Yields (s.clauses qualifier) s.faults fun _ => True := by
  have hf := Filter.resolveAll_yields qualifier s.filters
  rw [Filter.allConditionsOf_eq_flatMap] at hf
  have hfilter : Yields (Filter.resolveCombined qualifier s.filters) s.faults fun _ => True :=
    hf.map fun _ _ => trivial
  exact hfilter.bind_pure fun _ _ => trivial

theorem joinKind_yields (linkType : String) :
    Yields (joinKind linkType) (if linkType ∈ linkTypes then [] else [.unknownLinkType linkType])
      fun _ => True := by
  unfold joinKind
  split
  case h_8 => simp_all [linkTypes, Yields]
  all_goals exact ⟨rfl, trivial⟩

namespace Link

theorem keyPairs_yields (l : Link) : Yields l.keyPairs l.keyFaults fun _ => True := by
  rw [keyPairs_eq, lists_iff.1 (listed l.fromColumns).2, lists_iff.1 (listed l.toColumns).2, keyFaults]
  by_cases h : (listed l.fromColumns).1.length = (listed l.toColumns).1.length ∧
      0 < (listed l.toColumns).1.length
  · rw [if_pos h, if_pos h]
    exact ⟨rfl, trivial⟩
  · rw [if_neg h, if_neg h]
    rfl

theorem join_yields (source : AliasedName) (l : Link) :
    Yields (l.join source) (l.typeFaults ++ l.keyFaults) fun _ => True :=
  (joinKind_yields _).bind fun _ _ => l.keyPairs_yields.bind_pure fun _ _ => trivial

mutual

theorem clauses_yields (source : AliasedName) (l : Link) :
    Yields (l.clauses source) l.faults fun _ => True := by
  match l with
  | ⟨name, aliasName, linkType, fromColumns, toColumns, scope, links⟩ =>
    rw [clauses, faults, List.append_assoc]
    refine (join_yields source _).bind fun _ _ => ?_
    refine (scope.clauses_yields _).bind fun _ _ => ?_
    exact (clausesOfAll_yields _ links).bind_pure fun _ _ => trivial

theorem clausesOfAll_yields (source : AliasedName) (ls : List Link) :
    Yields (clausesOfAll source ls) (faultsOfAll ls) fun _ => True := by
  match ls with
  | [] => exact ⟨rfl, trivial⟩
  | l :: ls =>
    rw [clausesOfAll, faultsOfAll]
    exact (clauses_yields source l).bind fun _ _ =>
      (clausesOfAll_yields source ls).bind_pure fun _ _ => trivial

end

end Link

theorem select_yields (d : Document) (o : StatementOptions) (e : Entity) :
    Yields (d.select o e) e.faults fun _ => True := by
  have hlinks := Link.clausesOfAll_yields (e.source o) e.links
  have hclauses : Yields (e.clauses (e.source o)) e.faults fun _ => True :=
    (e.scope.clauses_yields _).bind fun _ _ => hlinks.bind_pure fun _ _ => trivial
  exact hclauses.bind_pure fun _ _ => trivial

/-- Whatever the options, the statement of an entity fails with the first fault of the entity, and it
succeeds when there is none. -/
theorem select_reports_first (d : Document) (o : StatementOptions) (e : Entity) :
    (∀ fault, d.select o e = .error fault ↔ e.faults.head? = some fault) ∧
      ((∃ s, d.select o e = .ok s) ↔ e.faults = []) :=
  ⟨(select_yields d o e).eq_error_iff, (select_yields d o e).exists_ok_iff⟩

-- The keys of a link come before its filters, and these before the links inside it.
example : Entity.faults
    { name := "account"
      links :=
        [{ name := "contact"
           fromColumns := "parentid, kind"
           toColumns := "accountid"
           scope :=
             { filters := [{ conditions := [{ column := "age", operator := "between", value := some "7" }] }] }
           links := [{ name := "task", linkType := some "cross", fromColumns := "id", toColumns := "id" }] }] } =
    [.unpairedKeys "contact" 2 1, .operandCount "between" .two 1, .unknownLinkType "cross"] := by
  decide +kernel

end FetchQuery.Document
