import FetchQuery.Toml.DateTime
import FetchQuery.Toml.Number
import FetchQuery.Toml.Text

namespace FetchQuery.Toml

/-- Values may stand inside one another, and keys may have parts, up to but not including this number. -/
def maxDepth : Nat := 80

def isBareKeyChar (c : Char) : Bool := c.isAlphanum || c == '-' || c == '_'

def keyPart? (cs : List Char) : Option (String × List Char) :=
  match cs with
  | '"' :: rest => (basic? rest).map fun r => (String.ofList r.1, r.2)
  | '\x27' :: rest => (literal? rest).map fun r => (String.ofList r.1, r.2)
  | _ =>
    let name := cs.takeWhile isBareKeyChar
    if name.isEmpty then none else some (String.ofList name, cs.dropWhile isBareKeyChar)

def keyParts? : Nat → List Char → Option (List String × List Char)
  | 0, _ => none
  | fuel + 1, cs => do
    let (part, rest) ← keyPart? (skipSpaces cs)
    match skipSpaces rest with
    | '.' :: more =>
      let (parts, rest) ← keyParts? fuel more
      return (part :: parts, rest)
    | rest => return ([part], rest)

def key? (cs : List Char) : Option (List String × List Char) :=
  (keyParts? (cs.length + 1) cs).filter fun r => r.1.length < maxDepth

def isScalarChar (c : Char) : Bool :=
  c.isAlphanum || c == '+' || c == '-' || c == '_' || c == '.' || c == ':'

/-- The characters of a scalar without quotes. A date may have its time after one space. -/
def scalarLength (cs : List Char) : Nat :=
  let first := cs.takeWhile isScalarChar
  match cs.dropWhile isScalarChar with
  | ' ' :: rest =>
    if isDate first && rest.head?.any Text.isAsciiDigit then
      first.length + 1 + (rest.takeWhile isScalarChar).length
    else first.length
  | _ => first.length

def ofScalar? (cs : List Char) : Option Toml :=
  match String.ofList cs with
  | "true" => some (.boolean true)
  | "false" => some (.boolean false)
  | literal =>
    if isDateTime cs then some (.dateTime literal)
    else if isFloat cs || isSpecialFloat cs then some (.float literal)
    else (integer? cs).map .integer

/-- An entry of a table in braces: a value, or a table made by a key of several parts. -/
inductive Inline where
  | leaf (value : Toml)
  | open (entries : List (String × Inline))

namespace Inline

/-- Puts a value under a key. Only tables that keys of several parts have made take more keys. -/
def insert (value : Toml) : List String → List (String × Inline) → Option (List (String × Inline))
  | [], _ => none
  | [key], entries =>
    if (entries.lookup key).isSome then none else some (entries ++ [(key, .leaf value)])
  | key :: path, entries =>
    match entries.lookup key with
    | none => (insert value path []).map fun inner => entries ++ [(key, .open inner)]
    | some (.open inner) => (insert value path inner).map fun inner =>
      entries.map fun e => if e.1 == key then (key, .open inner) else e
    | some (.leaf _) => none

mutual

def toToml : Inline → Toml
  | leaf value => value
  | .open entries => .table (toEntries entries)

def toEntries : List (String × Inline) → List (String × Toml)
  | [] => []
  | e :: es => toEntry e :: toEntries es

def toEntry : String × Inline → String × Toml
  | (key, i) => (key, i.toToml)

end

end Inline

mutual

def value? : Nat → Nat → List Char → Option (Toml × List Char)
  | 0, _, _ => none
  | fuel + 1, depth, cs =>
    match cs with
    | '"' :: _ | '\x27' :: _ => (text? cs).map fun r => (.string (String.ofList r.1), r.2)
    | '[' :: rest =>
      if depth + 1 < maxDepth then
        (items? fuel (depth + 1) rest).map fun r => (.array r.1, r.2)
      else none
    | '{' :: rest =>
      if depth + 1 < maxDepth then
        match skipSpaces rest with
        | '}' :: rest => some (.table [], rest)
        | rest => (entries? fuel (depth + 1) [] rest).map fun r => (.table (Inline.toEntries r.1), r.2)
      else none
    | _ =>
      let n := scalarLength cs
      (ofScalar? (cs.take n)).map fun v => (v, cs.drop n)

def items? : Nat → Nat → List Char → Option (List Toml × List Char)
  | 0, _, _ => none
  | fuel + 1, depth, cs =>
    match skipLines false cs with
    | ']' :: rest => some ([], rest)
    | cs => do
      let (v, rest) ← value? fuel depth cs
      match skipLines false rest with
      | ']' :: rest => return ([v], rest)
      | ',' :: rest =>
        let (vs, rest) ← items? fuel depth rest
        return (v :: vs, rest)
      | _ => none

/-- The rest of a table in braces, which stands on one line and ends in no comma. -/
def entries? : Nat → Nat → List (String × Inline) → List Char →
    Option (List (String × Inline) × List Char)
  | 0, _, _, _ => none
  | fuel + 1, depth, entries, cs => do
    let (key, rest) ← key? cs
    let rest ← afterChar? '=' rest
    let (v, rest) ← value? fuel depth (skipSpaces rest)
    let entries ← Inline.insert v key entries
    match skipSpaces rest with
    | '}' :: rest => return (entries, rest)
    | ',' :: rest => entries? fuel depth entries rest
    | _ => none

end

end FetchQuery.Toml
