import FetchQuery.Text.Digit
import FetchQuery.Text.Enclosed
import FetchQuery.Text.Integer
import FetchQuery.Text.Split

namespace FetchQuery.Sql

/-- Digits of any script, with an optional fraction after a point. -/
def isUnsignedNumber (cs : List Char) : Bool :=
  match Text.split '.' cs with
  | [whole] => !whole.isEmpty && whole.all Text.isDecimalDigit
  | [whole, fraction] =>
    !whole.isEmpty && whole.all Text.isDecimalDigit &&
      !fraction.isEmpty && fraction.all Text.isDecimalDigit
  | _ => false

def isNumber : List Char → Bool
  | '+' :: cs => isUnsignedNumber cs
  | '-' :: cs => isUnsignedNumber cs
  | cs => isUnsignedNumber cs

def withoutBraces (cs : List Char) : List Char :=
  match cs with
  | '{' :: rest => if rest.getLast? = some '}' then rest.dropLast else cs
  | _ => cs

/-- The lower-case form of a GUID: groups of 8, 4, 4, 4 and 12 hexadecimal digits between hyphens,
all in one optional pair of braces. -/
def guid? (cs : List Char) : Option (List Char) :=
  let inner := withoutBraces cs
  let groups := Text.split '-' inner
  if groups.map List.length = [8, 4, 4, 4, 12] ∧ groups.all (·.all Text.isHexDigit) then
    some (inner.map Char.toLower)
  else none

def quoted (s : String) : String := Text.enclose '\x27' '\x27' s

def literal (value : String) : String :=
  if isNumber value.toList then value
  else match guid? value.toList with
    | some guid => quoted (String.ofList guid)
    | none => quoted value

def literalList (values : List String) : String := Text.join ", " (values.map literal)

end FetchQuery.Sql
