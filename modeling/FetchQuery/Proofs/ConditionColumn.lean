import FetchQuery.Proofs.Fallible
import FetchQuery.Proofs.Lexicon
import FetchQuery.Sql.Condition

namespace FetchQuery

namespace Operator

def mentions : Operator → Nat
  | ne | neq | between | notBetween | lastSevenDays | nextSevenDays | lastX _ | nextX _ => 2
  | _ => 1

/-- How often a condition names its column, by the id of its operator. Without an operator there is no condition. -/
def mentionsOf (id : String) : Nat := ((named? id).map mentions).getD 0

/-- Whether the operator says the same in every dialect: it is neither on dates nor on the current user. -/
def isCommon (op : Operator) : Bool :=
  match op.family with
  | .relativeDate | .absoluteDate | .calendarWindow | .rollingWindow | .parameterizedWindow | .aging
  | .identity => false
  | _ => true

end Operator

namespace Sql

open Layout (ofText)
open Fallible

/-- The condition fails for every column, or it consists of the same parts for every column, with the column between
each two neighbours. -/
def Surrounds (mentions : Nat) (condition : Layout → Except Fault Layout) : Prop :=
  (∃ fault, ∀ lhs, condition lhs = .error fault) ∨
    ∃ parts : List Layout, parts.length = mentions + 1 ∧ ∀ lhs, condition lhs = .ok (Layout.join lhs parts)

namespace Surrounds

variable {mentions : Nat} {condition : Layout → Except Fault Layout}

theorem once (before after : Layout) (h : ∀ lhs, condition lhs = .ok (before ++ lhs ++ after)) :
    Surrounds 1 condition :=
  .inr ⟨[before, after], rfl, fun lhs => by simp [h, Layout.join]⟩

theorem twice (before between after : Layout)
    (h : ∀ lhs, condition lhs = .ok (before ++ lhs ++ between ++ lhs ++ after)) : Surrounds 2 condition :=
  .inr ⟨[before, between, after], rfl, fun lhs => by simp [h, Layout.join]⟩

/-- What is read of the operands makes no difference to where the column stands. -/
theorem bind {α : Type} {x : Except Fault α} {f : α → Layout → Except Fault Layout}
    (h : ∀ a, Surrounds mentions (f a)) : Surrounds mentions fun lhs => x >>= fun a => f a lhs := by
  cases x with
  | error fault => exact .inl ⟨fault, fun _ => rfl⟩
  | ok a => exact h a

end Surrounds

namespace SqlServer

theorem partsToNow_surrounds (part : DatePart) (comparison : String) :
    Surrounds 1 fun lhs => .ok (partsToNow part lhs ++ ofText comparison) :=
  .once (ofText ("DATEDIFF(" ++ part.keyword ++ ", ")) (ofText ", GETDATE())" ++ ofText comparison)
    fun _ => congrArg Except.ok (List.append_assoc ..)

theorem window_surrounds (part : DatePart) (first second : String) :
    Surrounds 2 fun lhs => .ok (ofText "(" ++ partsToNow part lhs ++ ofText first ++ partsToNow part lhs ++
      ofText second) :=
  .twice (ofText "(" ++ ofText ("DATEDIFF(" ++ part.keyword ++ ", "))
    (ofText ", GETDATE())" ++ ofText first ++ ofText ("DATEDIFF(" ++ part.keyword ++ ", "))
    (ofText ", GETDATE())" ++ ofText second) fun lhs => by simp only [partsToNow, List.append_assoc]

theorem dateCondition_surrounds (op : Operator) (operands : List String) :
    Surrounds op.mentions fun lhs => dateCondition lhs op operands := by
  cases op with
  | today | tomorrow | yesterday => exact .once _ _ fun _ => rfl
  | on | onOrBefore | onOrAfter => exact .bind fun _ => .once _ _ fun _ => rfl
  | calendar part offset => exact partsToNow_surrounds part _
  | lastSevenDays | nextSevenDays => exact window_surrounds .day _ _
  | lastX part | nextX part => exact .bind fun _ => window_surrounds part _ _
  | olderThanX part => exact .bind fun _ => partsToNow_surrounds part _
  | _ => exact .inl ⟨_, fun _ => rfl⟩

end SqlServer

namespace Postgres

theorem window_surrounds (first second : String) :
    Surrounds 2 fun lhs => .ok (ofText "(" ++ lhs ++ ofText first ++ lhs ++ ofText second) :=
  .twice _ _ _ fun _ => rfl

theorem dateCondition_surrounds (op : Operator) (operands : List String) :
    Surrounds op.mentions fun lhs => dateCondition lhs op operands := by
  cases op with
  | today | tomorrow | yesterday => exact .once [] _ fun _ => rfl
  | on | onOrBefore | onOrAfter => exact .bind fun _ => .once _ _ fun _ => rfl
  | calendar part offset => exact .once _ _ fun _ => rfl
  | lastSevenDays | nextSevenDays => exact window_surrounds _ _
  | lastX part | nextX part => exact .bind fun _ => window_surrounds _ _
  | olderThanX part => exact .bind fun _ => .once [] _ fun _ => rfl
  | _ => exact .inl ⟨_, fun _ => rfl⟩

end Postgres

namespace Dialect

theorem dateCondition_surrounds (d : Dialect) (op : Operator) (operands : List String) :
    Surrounds op.mentions fun lhs => d.dateCondition lhs op operands := by
  cases d with
  | sqlServer => exact SqlServer.dateCondition_surrounds op operands
  | postgres => exact Postgres.dateCondition_surrounds op operands

theorem operatorCondition_surrounds (d : Dialect) (op : Operator) (operands : List String) :
    Surrounds op.mentions fun lhs => d.operatorCondition lhs op operands := by
  cases op with
  | eq | lt | le | gt | ge | like | notLike | beginsWith | notBeginWith | endsWith | notEndWith =>
    exact .bind fun _ => .once [] _ fun _ => rfl
  | ne | neq =>
    exact .bind fun v => .twice (ofText "(") (ofText (" " ++ "!=" ++ " " ++ literal v) ++ ofText " or ")
      (ofText " is null)") fun lhs => congrArg Except.ok (by simp only [List.append_assoc])
  | null | notNull | isIn | notIn => exact .once [] _ fun _ => rfl
  | between =>
    exact .bind fun ⟨low, high⟩ => .twice (ofText "(") (ofText (" " ++ ">=" ++ " " ++ literal low) ++ ofText " and ")
      (ofText (" " ++ "<=" ++ " " ++ literal high) ++ ofText ")")
      fun lhs => congrArg Except.ok (by simp only [List.append_assoc])
  | notBetween =>
    exact .bind fun ⟨low, high⟩ => .twice (ofText "(") (ofText (" " ++ "<" ++ " " ++ literal low) ++ ofText " or ")
      (ofText (" " ++ ">" ++ " " ++ literal high) ++ ofText ")")
      fun lhs => congrArg Except.ok (by simp only [List.append_assoc])
  | eqUserId => cases d <;> exact .once [] _ fun _ => rfl
  | _ => exact d.dateCondition_surrounds _ operands

theorem operatorCondition_common (d d' : Dialect) {op : Operator} (h : op.isCommon = true) (lhs : Layout)
    (operands : List String) : d.operatorCondition lhs op operands = d'.operatorCondition lhs op operands := by
  cases op with
  | eq | ne | neq | lt | le | gt | ge | like | notLike | beginsWith | notBeginWith | endsWith | notEndWith | null
  | notNull | isIn | notIn | between | notBetween => rfl
  | today | tomorrow | yesterday | on | onOrBefore | onOrAfter | calendar | lastSevenDays | nextSevenDays | lastX
  | nextX | olderThanX | eqUserId => cases h

theorem condition_of_named {d : Dialect} {id : String} {op : Operator} (h : Operator.named? id = some op) (lhs : Layout)
    (operands : List String) : d.condition lhs id operands =
      op.checkOperands operands.length >>= fun _ => d.operatorCondition lhs op operands := by
  rw [condition, Operator.ofId, Operator.ofId?_eq_named?, h]
  rfl

theorem condition_of_not_named {d : Dialect} {id : String} (h : Operator.named? id = none) (lhs : Layout)
    (operands : List String) : d.condition lhs id operands = .error (.unknownOperator id) := by
  rw [condition, Operator.ofId, Operator.ofId?_eq_named?, h]
  rfl

theorem condition_surrounds (d : Dialect) (id : String) (operands : List String) :
    Surrounds (Operator.mentionsOf id) fun lhs => d.condition lhs id operands := by
  unfold Operator.mentionsOf
  cases h : Operator.named? id with
  | none => exact .inl ⟨_, fun lhs => condition_of_not_named h lhs operands⟩
  | some op =>
    simp only [condition_of_named h]
    exact .bind fun _ => d.operatorCondition_surrounds op operands

theorem condition_common (d d' : Dialect) {id : String} (h : (Operator.named? id).all Operator.isCommon = true)
    (lhs : Layout) (operands : List String) : d.condition lhs id operands = d'.condition lhs id operands := by
  cases hop : Operator.named? id with
  | none => rw [condition_of_not_named hop, condition_of_not_named hop]
  | some op =>
    rw [hop] at h
    rw [condition_of_named hop, condition_of_named hop, operatorCondition_common d d' h]

end Dialect

end Sql

end FetchQuery
