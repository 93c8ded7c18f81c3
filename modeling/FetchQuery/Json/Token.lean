import FetchQuery.Json.Number

namespace FetchQuery.Json

inductive Token where
  | openArray | closeArray | openObject | closeObject | comma | colon
  | null
  | bool (value : Bool)
  /-- A number, or none when it is too large for a double. -/
  | number (value : Option Number)
  /-- A string, or none when a surrogate in it stands alone. -/
  | string (value : Option String)
  deriving Repr, DecidableEq

inductive StringItem where
  | char (c : Char)
  | unit (value : Nat)

namespace StringItem

def isHigh (n : Nat) : Bool := 0xD800 ≤ n && n < 0xDC00
def isLow (n : Nat) : Bool := 0xDC00 ≤ n && n < 0xE000

/-- The characters of a string. A high surrogate joins the low one right after it. -/
def chars? : List StringItem → Option (List Char)
  | [] => some []
  | char c :: rest => (chars? rest).map (c :: ·)
  | [unit n] => if isHigh n || isLow n then none else some [Char.ofNat n]
  | unit n :: unit m :: rest =>
    if isHigh n then
      if isLow m then
        (chars? rest).map (Char.ofNat (0x10000 + (n - 0xD800) * 0x400 + (m - 0xDC00)) :: ·)
      else none
    else if isLow n then none
    else (chars? (unit m :: rest)).map (Char.ofNat n :: ·)
  | unit n :: char c :: rest =>
    if isHigh n || isLow n then none
    else (chars? (char c :: rest)).map (Char.ofNat n :: ·)

end StringItem

namespace Token

/-- Where a scan stands. What has been seen of a token is kept in reverse. -/
inductive Mode where
  | between
  | word (seen : List Char)
  | number (seen : List Char)
  | text (seen : List StringItem)
  | escape (seen : List StringItem)
  | hex (seen : List StringItem) (digits : Nat) (value : Nat)

structure Scan where
  /-- The tokens so far, in reverse. -/
  tokens : List Token
  mode : Mode

def ofWord? (seen : List Char) : Option Token :=
  match String.ofList seen.reverse with
  | "null" => some null
  | "true" => some (bool true)
  | "false" => some (bool false)
  | _ => none

def ofNumber? (seen : List Char) : Option Token :=
  let literal := seen.reverse
  (Number.Parts.ofLiteral? literal).map fun p =>
    number (if p.overflows then none else some (p.number literal))

def ofString (seen : List StringItem) : Token :=
  string ((StringItem.chars? seen.reverse).map String.ofList)

def isNumberChar (c : Char) : Bool :=
  Text.isAsciiDigit c || c == '+' || c == '-' || c == '.' || c == 'e' || c == 'E'

def isWordChar (c : Char) : Bool := 'a' ≤ c && c ≤ 'z'

namespace Scan

def start (tokens : List Token) (c : Char) : Option Scan :=
  match c with
  | '[' => some ⟨openArray :: tokens, .between⟩
  | ']' => some ⟨closeArray :: tokens, .between⟩
  | '{' => some ⟨openObject :: tokens, .between⟩
  | '}' => some ⟨closeObject :: tokens, .between⟩
  | ',' => some ⟨comma :: tokens, .between⟩
  | ':' => some ⟨colon :: tokens, .between⟩
  | '"' => some ⟨tokens, .text []⟩
  | ' ' | '\t' | '\n' | '\r' => some ⟨tokens, .between⟩
  | c =>
    if c = '-' || Text.isAsciiDigit c then some ⟨tokens, .number [c]⟩
    else if isWordChar c then some ⟨tokens, .word [c]⟩
    else none

def escaped? : Char → Option Char
  | '"' => some '"'
  | '\\' => some '\\'
  | '/' => some '/'
  | 'b' => some '\x08'
  | 'f' => some '\x0c'
  | 'n' => some '\n'
  | 'r' => some '\r'
  | 't' => some '\t'
  | _ => none

def step (s : Scan) (c : Char) : Option Scan :=
  match s.mode with
  | .between => start s.tokens c
  | .word seen =>
    if isWordChar c then some ⟨s.tokens, .word (c :: seen)⟩
    else do start ((← ofWord? seen) :: s.tokens) c
  | .number seen =>
    if isNumberChar c then some ⟨s.tokens, .number (c :: seen)⟩
    else do start ((← ofNumber? seen) :: s.tokens) c
  | .text seen =>
    if c = '"' then some ⟨ofString seen :: s.tokens, .between⟩
    else if c = '\\' then some ⟨s.tokens, .escape seen⟩
    else if c < ' ' then none
    else some ⟨s.tokens, .text (.char c :: seen)⟩
  | .escape seen =>
    if c = 'u' then some ⟨s.tokens, .hex seen 0 0⟩
    else (escaped? c).map fun e => ⟨s.tokens, .text (.char e :: seen)⟩
  | .hex seen digits value =>
    (Text.hexValue? c).map fun h =>
      if digits = 3 then ⟨s.tokens, .text (.unit (16 * value + h) :: seen)⟩
      else ⟨s.tokens, .hex seen (digits + 1) (16 * value + h)⟩

def finish (s : Scan) : Option (List Token) :=
  match s.mode with
  | .between => some s.tokens.reverse
  | .word seen => (ofWord? seen).map fun t => (t :: s.tokens).reverse
  | .number seen => (ofNumber? seen).map fun t => (t :: s.tokens).reverse
  | _ => none

end Scan

def scan (cs : List Char) : Option (List Token) :=
  (cs.foldlM Scan.step ⟨[], .between⟩).bind Scan.finish

end Token

end FetchQuery.Json
