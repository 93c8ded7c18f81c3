import FetchQuery.Json.Basic
import FetchQuery.Json.Token

namespace FetchQuery.Json

def maxNesting : Nat := 127

/-- An open array or object, with what it holds so far in reverse. -/
inductive Frame where
  | array (items : List Json)
  | object (members : List (String × Json))
  | member (members : List (String × Json)) (key : String)

inductive Expected where
  | value
  | firstItem
  | firstKey
  | key
  | colon (key : String)
  | separator
  | nothing (result : Json)

structure Reader where
  stack : List Frame
  expected : Expected
  /-- Whether the member being read is one to pass over. -/
  passing : Bool

namespace Reader

def start : Reader := ⟨[], .value, false⟩

/-- A finished value goes into the innermost open array or object. -/
def place (r : Reader) (v : Json) : Option Reader :=
  match r.stack with
  | [] => some ⟨[], .nothing v, false⟩
  | .array items :: rest => some ⟨.array (v :: items) :: rest, .separator, r.passing⟩
  | [.member members key] =>
    some ⟨[.object (if r.passing then members else (key, v) :: members)], .separator, false⟩
  | .member members key :: rest =>
    some ⟨.object ((key, v) :: members) :: rest, .separator, r.passing⟩
  | .object _ :: _ => none

def push (r : Reader) (frame : Frame) (expected : Expected) : Option Reader :=
  if r.passing || r.stack.length < maxNesting then
    some { r with stack := frame :: r.stack, expected }
  else none

def text? (r : Reader) (value : Option String) : Option String :=
  if r.passing then some (value.getD "") else value

def readValue (r : Reader) : Token → Option Reader
  | .null => r.place .null
  | .bool b => r.place (.bool b)
  | .number value =>
    if r.passing then r.place .null else value.bind fun n => r.place (.number n)
  | .string value => (r.text? value).bind fun s => r.place (.string s)
  | .openArray => r.push (.array []) .firstItem
  | .openObject => r.push (.object []) .firstKey
  | _ => none

def readKey (r : Reader) : Token → Option Reader
  | .string value => (r.text? value).map fun key => { r with expected := .colon key }
  | _ => none

def close (r : Reader) : Token → Option Reader
  | .closeArray => match r.stack with
    | .array items :: rest => place { r with stack := rest } (.array items.reverse)
    | _ => none
  | .closeObject => match r.stack with
    | .object members :: rest => place { r with stack := rest } (.object members.reverse)
    | _ => none
  | _ => none

/-- After the colon the key decides whether the value is passed over; only the root object may do so. -/
def startMember (ignored : String → Bool) (r : Reader) (key : String) : Option Reader :=
  match r.stack with
  | [.object members] => some ⟨[.member members key], .value, ignored key⟩
  | .object members :: rest => some ⟨.member members key :: rest, .value, r.passing⟩
  | _ => none

def next (r : Reader) : Option Reader :=
  match r.stack with
  | .array _ :: _ => some { r with expected := .value }
  | .object _ :: _ => some { r with expected := .key }
  | _ => none

def step (ignored : String → Bool) (r : Reader) (t : Token) : Option Reader :=
  match r.expected with
  | .value => r.readValue t
  | .firstItem => if t = .closeArray then r.close t else r.readValue t
  | .firstKey => if t = .closeObject then r.close t else r.readKey t
  | .key => r.readKey t
  | .colon key => if t = .colon then r.startMember ignored key else none
  | .separator => if t = .comma then r.next else r.close t
  | .nothing _ => none

def result? (r : Reader) : Option Json :=
  match r.expected with
  | .nothing v => some v
  | _ => none

end Reader

def ofTokens? (ignored : String → Bool) (tokens : List Token) : Option Json :=
  (tokens.foldlM (Reader.step ignored) Reader.start).bind Reader.result?

/-- Reads a text, passing over the members of the root object with an ignored key. -/
def parseIgnoring (ignored : String → Bool) (s : String) : Option Json :=
  (Token.scan s.toList).bind (ofTokens? ignored)

def parse (s : String) : Option Json := parseIgnoring (fun _ => false) s

end FetchQuery.Json
