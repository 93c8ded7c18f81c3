import FetchQuery.Proofs.Draft
import FetchQuery.Proofs.JoinNormalization
import Mathlib.Data.List.Basic

namespace FetchQuery.Statement

namespace Clause

inductive Kind where
  | distinct | top | column | join | filter | orderBy | groupBy
  deriving Repr, DecidableEq

def kind : Clause → Kind
  | .distinct _ => .distinct
  | .top _ => .top
  | .column _ => .column
  | .join _ => .join
  | .filter _ => .filter
  | .orderBy _ => .orderBy
  | .groupBy _ => .groupBy

/-- Whether a clause has no effect before the given ones: a filter without conditions never has, and a `distinct`
or a `top` gives way to a later one. -/
def isIdle (later : List Clause) : Clause → Bool
  | .distinct _ => later.any (·.kind = .distinct)
  | .top _ => later.any (·.kind = .top)
  | .filter f => !f.isSpecified
  | _ => false

def effective : List Clause → List Clause
  | [] => []
  | c :: clauses => if c.isIdle clauses then effective clauses else c :: effective clauses

/-- The clauses of kind `k`, and no others, hold a value for `p`. -/
def Projects {α : Type} (p : Clause → Option α) (k : Kind) : Prop :=
  ∀ c, (p c).isSome = true ↔ c.kind = k

theorem projects_distinct : Projects distinct? .distinct := by
  rintro ⟨⟩ <;> simp [distinct?, kind]

theorem projects_top : Projects top? .top := by
  rintro ⟨⟩ <;> simp [top?, kind]

theorem projects_column : Projects column? .column := by
  rintro ⟨⟩ <;> simp [column?, kind]

theorem projects_join : Projects join? .join := by
  rintro ⟨⟩ <;> simp [join?, kind]

theorem projects_filter : Projects filter? .filter := by
  rintro ⟨⟩ <;> simp [filter?, kind]

theorem projects_orderBy : Projects orderBy? .orderBy := by
  rintro ⟨⟩ <;> simp [orderBy?, kind]

theorem projects_groupBy : Projects groupBy? .groupBy := by
  rintro ⟨⟩ <;> simp [groupBy?, kind]

namespace Projects

variable {α : Type} {p : Clause → Option α} {k : Kind}

theorem filterMap_filter (hp : Projects p k) (clauses : List Clause) :
    (clauses.filter (·.kind = k)).filterMap p = clauses.filterMap p := by
  rw [List.filterMap_filter]
  apply List.filterMap_congr
  intro c _
  by_cases hc : c.kind = k
  · rw [if_pos (decide_eq_true hc)]
  · have hnone : p c = none := Option.not_isSome_iff_eq_none.1 (mt (hp c).1 hc)
    rw [hnone, ite_self]

theorem filterMap_eq (hp : Projects p k) {a b : List Clause}
    (h : a.filter (·.kind = k) = b.filter (·.kind = k)) : a.filterMap p = b.filterMap p := by
  rw [← hp.filterMap_filter a, h, hp.filterMap_filter]

theorem exists_getLast? (hp : Projects p k) {clauses : List Clause} (h : clauses.any (·.kind = k) = true) :
    ∃ a, (clauses.filterMap p).getLast? = some a := by
  obtain ⟨c, hc, hk⟩ := List.any_eq_true.1 h
  obtain ⟨a, ha⟩ := Option.isSome_iff_exists.1 ((hp c).2 (of_decide_eq_true hk))
  have hmem : a ∈ clauses.filterMap p := List.mem_filterMap.2 ⟨c, hc, ha⟩
  exact ⟨_, List.getLast?_eq_some_getLast (List.ne_nil_of_mem hmem)⟩

end Projects

end Clause

namespace Draft

open Clause

/-- An idle clause leaves no trace once the later ones are added. -/
theorem foldl_add_of_isIdle (d : Draft) {c : Clause} {clauses : List Clause} (h : c.isIdle clauses = true) :
    clauses.foldl add (d.add c) = clauses.foldl add d := by
  -- a later value of the same kind is the one that stays, whatever was there before it
  cases c with
  | distinct value =>
    obtain ⟨last, hlast⟩ := projects_distinct.exists_getLast? h
    simp [foldl_add, add, hlast]
  | top rows =>
    obtain ⟨last, hlast⟩ := projects_top.exists_getLast? h
    simp [foldl_add, add, hlast]
  | filter f =>
    have hf : f.isSpecified = false := by simpa [isIdle] using h
    simp [add, hf]
  | _ => cases h

theorem foldl_add_effective (d : Draft) (clauses : List Clause) :
    (effective clauses).foldl add d = clauses.foldl add d := by
  induction clauses generalizing d with
  | nil => rfl
  | cons c clauses ih =>
    rw [effective, List.foldl_cons]
    split
    next h => rw [ih, foldl_add_of_isIdle d h]
    next => rw [List.foldl_cons, ih]

end Draft

theorem Filter.combine_of_two_le {fs : List Filter} (h : 2 ≤ fs.length) : combine fs = some ⟨.and, [], fs⟩ := by
  obtain _ | ⟨f, _ | ⟨g, fs⟩⟩ := fs
  · cases h
  · exact absurd h (by simp)
  · rfl

namespace Select

open Clause

theorem ofClauses_effective (normalize : Bool) (source : AliasedName) (clauses : List Clause) :
    ofClauses normalize source (effective clauses) = ofClauses normalize source clauses := by
  rw [ofClauses, Draft.foldl_add_effective, ofClauses]

theorem ofClauses_congr (normalize : Bool) (source : AliasedName) {a b : List Clause}
    (h : ∀ k, a.filter (·.kind = k) = b.filter (·.kind = k)) :
    ofClauses normalize source a = ofClauses normalize source b := by
  rw [ofClauses_eq, ofClauses_eq, specifiedFilters, specifiedFilters, projects_distinct.filterMap_eq (h _),
    projects_top.filterMap_eq (h _), projects_column.filterMap_eq (h _), projects_join.filterMap_eq (h _),
    projects_filter.filterMap_eq (h _), projects_orderBy.filterMap_eq (h _), projects_groupBy.filterMap_eq (h _)]

/-- What a statement holds once the clauses have been added to it in their order. -/
structure Collects (normalize : Bool) (source : AliasedName) (clauses : List Clause) (s : Select) : Prop where
  source : s.source = source
  distinct : s.distinct = (clauses.filterMap distinct?).getLast?.getD false
  top : s.top = (clauses.filterMap top?).getLast?
  columns : s.columns = clauses.filterMap column?
  joins : normalize = false → s.joins = clauses.filterMap join?
  sortedJoins : normalize = true → s.joins.Pairwise fun i j => i.kind.rank ≤ j.kind.rank
  joinsOfKind : ∀ kind, s.joins.filter (·.kind = kind) = (clauses.filterMap join?).filter (·.kind = kind)
  orderBy : s.orderBy = clauses.filterMap orderBy?
  groupBy : s.groupBy = clauses.filterMap groupBy?
  unfiltered : specifiedFilters clauses = [] → s.filter = none
  filtered : ∀ f, specifiedFilters clauses = [f] → s.filter = some f
  conjoined : 2 ≤ (specifiedFilters clauses).length → s.filter = some ⟨.and, [], specifiedFilters clauses⟩

theorem collects_ofClauses (normalize : Bool) (source : AliasedName) (clauses : List Clause) :
    Collects normalize source clauses (ofClauses normalize source clauses) := by
  rw [ofClauses_eq]
  refine ⟨rfl, rfl, rfl, rfl, ?_, ?_, fun kind => ?_, rfl, rfl, fun h => ?_, fun f h => ?_,
    Filter.combine_of_two_le⟩
  · rintro rfl
    rfl
  · rintro rfl
    exact pairwise_normalizeJoins _
  · cases normalize with
    | false => rfl
    | true => exact ofKind_normalizeJoins kind _
  · rw [h, Filter.combine]
  · rw [h, Filter.combine]

/-- Statements with the same effective clauses of each kind are the same, however the kinds are interleaved, and
hold the values of the clauses in their order. -/
theorem ofClauses_interleaved (source : AliasedName) (a b : List Clause)
    (h : ∀ k, (effective a).filter (·.kind = k) = (effective b).filter (·.kind = k)) (normalize : Bool) :
    ofClauses normalize source a = ofClauses normalize source b ∧
      Collects normalize source a (ofClauses normalize source a) := by
  refine ⟨?_, collects_ofClauses normalize source a⟩
  calc ofClauses normalize source a
    _ = ofClauses normalize source (effective a) := (ofClauses_effective normalize source a).symm
    _ = ofClauses normalize source (effective b) := ofClauses_congr normalize source h
    _ = ofClauses normalize source b := ofClauses_effective normalize source b

end Select

def stateFilter (value : String) : Filter :=
  ⟨.or, [⟨{ expression := "state" }, "eq", .single value⟩], []⟩

def contactClause (kind : JoinKind) : Clause :=
  .join ⟨kind, ⟨"account", ""⟩, ⟨"contact", "c"⟩, [⟨"accountid", "parentid"⟩]⟩

def groupedClauses : List Clause :=
  [.top 1, .distinct true, .filter ⟨.or, [], [⟨.and, [], []⟩]⟩, .column { expression := "name" },
    .column (.wildcard "c"), contactClause .outer, contactClause .inner, .filter (stateFilter "0"),
    .filter (stateFilter "1"), .distinct false, .top 5, .orderBy ⟨.descending, ⟨"name", ""⟩⟩]

def mixedClauses : List Clause :=
  [.filter (stateFilter "0"), .column { expression := "name" }, contactClause .outer, .distinct false,
    .orderBy ⟨.descending, ⟨"name", ""⟩⟩, .column (.wildcard "c"), .top 5, .filter (stateFilter "1"),
    contactClause .inner]

theorem ofClauses_interleaved_mixed :
    (∀ k, (Clause.effective groupedClauses).filter (·.kind = k) =
      (Clause.effective mixedClauses).filter (·.kind = k)) ∧
    (Select.ofClauses true ⟨"account", ""⟩ mixedClauses).joins.map (·.kind) = [.inner, .outer] ∧
    ∀ normalize, Select.ofClauses normalize ⟨"account", ""⟩ groupedClauses =
        Select.ofClauses normalize ⟨"account", ""⟩ mixedClauses ∧
      Select.Collects normalize ⟨"account", ""⟩ groupedClauses
        (Select.ofClauses normalize ⟨"account", ""⟩ groupedClauses) := by
  have h : ∀ k, (Clause.effective groupedClauses).filter (·.kind = k) =
      (Clause.effective mixedClauses).filter (·.kind = k) := by
    intro k
    cases k <;> rfl
  have hkinds : (Select.ofClauses true ⟨"account", ""⟩ mixedClauses).joins.map (·.kind) = [.inner, .outer] := by
    rw [Select.ofClauses_eq, if_pos rfl, normalizeJoins_eq]
    rfl
  exact ⟨h, hkinds, Select.ofClauses_interleaved ⟨"account", ""⟩ _ _ h⟩

end FetchQuery.Statement
