import FetchQuery.Settings.Basic
import FetchQuery.Toml.Reader

namespace FetchQuery

namespace Toml

/-- The values of the named fields. An array lists them by position; a date has none of them. -/
def fields? (names : List String) : Toml → Option (List (Option Toml))
  | table entries => some (names.map (entries.lookup ·))
  | array items => some ((List.range names.length).map fun i => items[i]?)
  | dateTime _ => some (names.map fun _ => none)
  | _ => none

def boolean? : Toml → Option Bool
  | boolean b => some b
  | _ => none

def natural? : Toml → Option Nat
  | integer n => if 0 ≤ n then some n.toNat else none
  | _ => none

def string? : Toml → Option String
  | string s => some s
  | _ => none

def char? : Toml → Option Char
  | string s => match s.toList with
    | [c] => some c
    | _ => none
  | _ => none

/-- A dialect is its name, or a table with that name alone over an empty table or array. -/
def dialect? : Toml → Option Sql.Dialect
  | string name => Sql.Dialect.ofName? name
  | table [(name, table [])] | table [(name, array [])] => Sql.Dialect.ofName? name
  | _ => none

def defaulted {α : Type} (default : α) (f : Toml → Option α) : Option Toml → Option α
  | none => some default
  | some t => f t

def statementOptions? (t : Toml) : Option Document.StatementOptions := do
  let [aliasRoot, normalizeJoins] ← t.fields? ["use_alias_on_root", "normalize_joins"] | none
  return {
    aliasRoot := ← defaulted false boolean? aliasRoot
    normalizeJoins := ← defaulted false boolean? normalizeJoins }

def layoutOptions? (t : Toml) : Option Sql.LayoutOptions := do
  let [pretty, tabLength, spaceChar, comma] ←
    t.fields? ["pretty", "tab_length", "space_char", "comma"] | none
  return {
    pretty := ← defaulted true boolean? pretty
    tabLength := ← defaulted 3 natural? tabLength
    spaceChar := ← defaulted ' ' char? spaceChar
    comma := ← defaulted ", " string? comma }

end Toml

namespace Settings

def ofEntries? (entries : List (String × Toml)) : Option Settings := do
  return {
    dialect := ← Toml.defaulted .sqlServer Toml.dialect? (entries.lookup "dialect")
    statement := ← Toml.defaulted {} Toml.statementOptions? (entries.lookup "converter")
    layout := ← Toml.defaulted {} Toml.layoutOptions? (entries.lookup "formatter") }

def parse (s : String) : Option Settings := (Toml.parse s).bind ofEntries?

end Settings

end FetchQuery
