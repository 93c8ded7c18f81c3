import FetchQuery.Toml.Value

namespace FetchQuery.Toml

/-- How a table came to be: by its own header, by a header for a table inside it, or by a key of
several parts. -/
inductive Origin where
  | header | implied | dotted
  deriving DecidableEq

inductive Node where
  | value (value : Toml)
  | table (origin : Origin) (entries : List (String × Node))
  /-- An array of tables, each opened by a header, the last one first. -/
  | tables (items : List (List (String × Node)))

abbrev Entries := List (String × Node)

namespace Entries

def replace (entries : Entries) (key : String) (node : Node) : Entries :=
  entries.map fun e => if e.1 == key then (key, node) else e

/-- Changes the table at a path, making the tables on the way that are missing. Of an array of tables
the last one is meant. The parts of a key reach no table that has a header of its own. -/
def at? (dotted : Bool) (change : Origin → Entries → Option Entries) :
    Origin → List String → Entries → Option Entries
  | origin, [], entries => change origin entries
  | _, key :: path, entries =>
    match entries.lookup key with
    | none =>
      let origin := if dotted then .dotted else .implied
      (at? dotted change origin path []).map fun inner => entries ++ [(key, .table origin inner)]
    | some (.table origin inner) =>
      if dotted && origin == .header then none
      else (at? dotted change origin path inner).map fun inner =>
        replace entries key (.table origin inner)
    | some (.tables (last :: earlier)) =>
      (at? dotted change .header path last).map fun last =>
        replace entries key (.tables (last :: earlier))
    | some _ => none

/-- A header opens a table that is new, or that only tables inside it have implied. -/
def openTable (key : String) (entries : Entries) : Option Entries :=
  match entries.lookup key with
  | none => some (entries ++ [(key, .table .header [])])
  | some (.table .implied inner) => some (replace entries key (.table .header inner))
  | some _ => none

def appendTable (key : String) (entries : Entries) : Option Entries :=
  match entries.lookup key with
  | none => some (entries ++ [(key, .tables [[]])])
  | some (.tables items) => some (replace entries key (.tables ([] :: items)))
  | some _ => none

/-- Sets a new key. One of several parts ends in a table that such keys have made. -/
def assign (path : List String) (key : String) (v : Toml) (entries : Entries) : Option Entries :=
  let change (origin : Origin) (entries : Entries) : Option Entries :=
    if (!path.isEmpty && origin != .dotted) || (entries.lookup key).isSome then none
    else some (entries ++ [(key, .value v)])
  at? true change .header path entries

end Entries

inductive Line where
  | table (path : List String) (key : String)
  | arrayTable (path : List String) (key : String)
  | assignment (path : List String) (key : String) (value : Toml)

def splitLast? (parts : List String) : Option (List String × String) :=
  parts.getLast?.map fun key => (parts.dropLast, key)

def line? (cs : List Char) : Option (Line × List Char) :=
  match cs with
  | '[' :: '[' :: rest => do
    let (parts, rest) ← key? rest
    let (path, key) ← splitLast? parts
    let rest ← afterChar? ']' (← afterChar? ']' rest)
    return (.arrayTable path key, ← afterLine? rest)
  | '[' :: rest => do
    let (parts, rest) ← key? rest
    let (path, key) ← splitLast? parts
    return (.table path key, ← afterLine? (← afterChar? ']' rest))
  | _ => do
    let (parts, rest) ← key? cs
    let (path, key) ← splitLast? parts
    let rest := skipSpaces (← afterChar? '=' rest)
    let (v, rest) ← value? (rest.length + 1) 0 rest
    return (.assignment path key v, ← afterLine? rest)

def lines? : Nat → List Char → Option (List Line)
  | 0, _ => none
  | fuel + 1, cs =>
    match skipLines false cs with
    | [] => some []
    | cs => do
      let (line, rest) ← line? cs
      let lines ← lines? fuel rest
      return line :: lines

/-- A table that is being filled, and the path of the table opened last. -/
structure Filling where
  root : Entries
  current : List String

def Filling.add (f : Filling) : Line → Option Filling
  | .table path key =>
    (Entries.at? false (fun _ => Entries.openTable key) .header path f.root).map
      fun root => ⟨root, path ++ [key]⟩
  | .arrayTable path key =>
    (Entries.at? false (fun _ => Entries.appendTable key) .header path f.root).map
      fun root => ⟨root, path ++ [key]⟩
  | .assignment path key v =>
    (Entries.at? false (fun _ => Entries.assign path key v) .header f.current f.root).map
      fun root => { f with root }

mutual

def Node.toToml : Node → Toml
  | value v => v
  | table _ entries => .table (Node.toEntries entries)
  | tables items => .array (Node.toTables items).reverse

def Node.toEntries : List (String × Node) → List (String × Toml)
  | [] => []
  | e :: es => Node.toEntry e :: Node.toEntries es

def Node.toEntry : String × Node → String × Toml
  | (key, n) => (key, n.toToml)

def Node.toTables : List (List (String × Node)) → List Toml
  | [] => []
  | t :: ts => .table (Node.toEntries t) :: Node.toTables ts

end

/-- Reads a text as the table at its root. A byte order mark may stand in front. -/
def parse (s : String) : Option (List (String × Toml)) := do
  let cs := match s.toList with
    | '\ufeff' :: cs => cs
    | cs => cs
  let lines ← lines? (cs.length + 1) cs
  let filling ← lines.foldlM Filling.add ⟨[], []⟩
  return Node.toEntries filling.root

end FetchQuery.Toml
