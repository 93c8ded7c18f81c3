import FetchQuery.Statement.Draft

namespace FetchQuery.Statement

namespace Clause

def distinct? : Clause → Option Bool
  | .distinct value => some value
  | _ => none

def top? : Clause → Option UInt32
  | .top rows => some rows
  | _ => none

def column? : Clause → Option Column
  | .column c => some c
  | _ => none

def join? : Clause → Option Join
  | .join j => some j
  | _ => none

def filter? : Clause → Option Filter
  | .filter f => some f
  | _ => none

def orderBy? : Clause → Option Order
  | .orderBy o => some o
  | _ => none

def groupBy? : Clause → Option AliasedName
  | .groupBy n => some n
  | _ => none

end Clause

def specifiedFilters (clauses : List Clause) : List Filter :=
  (clauses.filterMap Clause.filter?).filter Filter.isSpecified

/-- Clauses extend each list of a draft at its end. -/
theorem Draft.foldl_add (d : Draft) (clauses : List Clause) :
    clauses.foldl Draft.add d =
      { source := d.source
        distinct := (clauses.filterMap Clause.distinct?).getLast?.getD d.distinct
        top := (clauses.filterMap Clause.top?).getLast?.or d.top
        columns := d.columns ++ clauses.filterMap Clause.column?
        joins := d.joins ++ clauses.filterMap Clause.join?
        filters := d.filters ++ specifiedFilters clauses
        orderBy := d.orderBy ++ clauses.filterMap Clause.orderBy?
        groupBy := d.groupBy ++ clauses.filterMap Clause.groupBy? } := by
  induction clauses generalizing d with
  | nil => simp [specifiedFilters]
  | cons c clauses ih =>
    rw [List.foldl_cons, ih]
    cases c with
    | filter f =>
      by_cases hf : f.isSpecified = true <;>
        simp [Draft.add, specifiedFilters, List.filterMap_cons, Clause.distinct?, Clause.top?,
          Clause.column?, Clause.join?, Clause.filter?, Clause.orderBy?, Clause.groupBy?, hf]
    | _ =>
      simp [Draft.add, specifiedFilters, List.filterMap_cons, List.getLast?_cons, Clause.distinct?,
        Clause.top?, Clause.column?, Clause.join?, Clause.filter?, Clause.orderBy?, Clause.groupBy?]

theorem Select.ofClauses_eq (normalize : Bool) (source : AliasedName) (clauses : List Clause) :
    Select.ofClauses normalize source clauses =
      { source
        distinct := (clauses.filterMap Clause.distinct?).getLast?.getD false
        top := (clauses.filterMap Clause.top?).getLast?
        columns := clauses.filterMap Clause.column?
        filter := Filter.combine (specifiedFilters clauses)
        joins := if normalize then normalizeJoins (clauses.filterMap Clause.join?)
          else clauses.filterMap Clause.join?
        orderBy := clauses.filterMap Clause.orderBy?
        groupBy := clauses.filterMap Clause.groupBy? } := by
  simp [Select.ofClauses, Draft.foldl_add, Draft.select]

end FetchQuery.Statement
