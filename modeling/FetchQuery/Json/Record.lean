import FetchQuery.Json.Basic

namespace FetchQuery.Json

/-- The value under a key, or none when the key is absent. Fails for a repeated key. -/
def member? (members : List (String × Json)) (key : String) : Option (Option Json) :=
  match members.filter fun m => m.1 == key with
  | [] => some none
  | [m] => some (some m.2)
  | _ => none

def namedFields (names : List String) : Json → Option (List (Option Json))
  | object members => names.mapM (member? members)
  | _ => none

/-- The values of the fields of a record, whether they stand by name or by position. -/
def fields (names : List String) : Json → Option (List (Option Json))
  | array items =>
    if items.length ≤ names.length then
      some (items.map some ++ List.replicate (names.length - items.length) none)
    else none
  | j => j.namedFields names

def required {α : Type} (f : Json → Option α) : Option Json → Option α
  | none => none
  | some j => f j

/-- A field with a default; a null does not stand for the default. -/
def defaulted {α : Type} (default : α) (f : Json → Option α) : Option Json → Option α
  | none => some default
  | some j => f j

def optional {α : Type} (f : Json → Option α) : Option Json → Option (Option α)
  | none => some none
  | some null => some none
  | some j => (f j).map some

end FetchQuery.Json
