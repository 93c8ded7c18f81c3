import FetchQuery.Json.Number

namespace FetchQuery

inductive Json where
  | null
  | bool (value : Bool)
  | number (value : Json.Number)
  | string (value : String)
  | array (items : List Json)
  | object (members : List (String × Json))
  deriving Repr, BEq, Inhabited

namespace Json

def natural (n : Nat) : Json := .number (.integer n)

mutual

def nesting : Json → Nat
  | array items => nestingOfAll items + 1
  | object members => nestingOfMembers members + 1
  | _ => 0

def nestingOfAll : List Json → Nat
  | [] => 0
  | j :: js => max j.nesting (nestingOfAll js)

def nestingOfMembers : List (String × Json) → Nat
  | [] => 0
  | m :: ms => max (nestingOfMember m) (nestingOfMembers ms)

def nestingOfMember : String × Json → Nat
  | (_, j) => j.nesting

end

def string? : Json → Option String
  | string s => some s
  | _ => none

def bool? : Json → Option Bool
  | bool b => some b
  | _ => none

/-- A number written as an integer, from `0` to below `bound`. -/
def natural? (bound : Nat) : Json → Option Nat
  | number (.integer n) => if 0 ≤ n && n.toNat < bound then some n.toNat else none
  | _ => none

def uint32? (j : Json) : Option UInt32 := (j.natural? UInt32.size).map UInt32.ofNat

def list? {α : Type} (f : Json → Option α) : Json → Option (List α)
  | array items => items.mapM f
  | _ => none

end Json

end FetchQuery
