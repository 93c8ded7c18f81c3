import FetchQuery.Text.Integer

namespace FetchQuery.Toml

def fixedNat? (width : Nat) (cs : List Char) : Option (Nat × List Char) :=
  let digits := cs.take width
  if digits.length = width && digits.all Text.isAsciiDigit then
    some (Text.natOfDigits digits, cs.drop width)
  else none

def field? (low high : Nat) (cs : List Char) : Option (Nat × List Char) :=
  (fixedNat? 2 cs).filter fun r => low ≤ r.1 && r.1 ≤ high

def afterChar? (c : Char) : List Char → Option (List Char)
  | d :: cs => if d = c then some cs else none
  | [] => none

def isLeapYear (year : Nat) : Bool := year % 4 == 0 && (year % 100 != 0 || year % 400 == 0)

def daysInMonth (year month : Nat) : Nat :=
  if month = 2 then if isLeapYear year then 29 else 28
  else if month = 4 || month = 6 || month = 9 || month = 11 then 30
  else 31

def afterDate? (cs : List Char) : Option (List Char) := do
  let (year, cs) ← fixedNat? 4 cs
  let (month, cs) ← field? 1 12 (← afterChar? '-' cs)
  let (_, cs) ← field? 1 (daysInMonth year month) (← afterChar? '-' cs)
  return cs

/-- What follows a time of day. A minute may have a leap second. -/
def afterTime? (cs : List Char) : Option (List Char) := do
  let (_, cs) ← field? 0 23 cs
  let (_, cs) ← field? 0 59 (← afterChar? ':' cs)
  let (_, cs) ← field? 0 60 (← afterChar? ':' cs)
  match cs with
  | '.' :: fraction =>
    if fraction.head?.any Text.isAsciiDigit then some (fraction.dropWhile Text.isAsciiDigit)
    else none
  | cs => some cs

def isOffset : List Char → Bool
  | [] => true
  | ['Z'] => true
  | ['z'] => true
  | sign :: cs =>
    (sign == '+' || sign == '-') && (do
      let (_, cs) ← field? 0 23 cs
      let (_, cs) ← field? 0 59 (← afterChar? ':' cs)
      return cs.isEmpty).getD false

def isDate (cs : List Char) : Bool := afterDate? cs == some []

/-- A date, a time, or a date and a time with an optional offset. -/
def isDateTime (cs : List Char) : Bool :=
  match afterDate? cs with
  | some [] => true
  | some (c :: time) => (c == 'T' || c == 't' || c == ' ') && (afterTime? time).any isOffset
  | none => afterTime? cs == some []

end FetchQuery.Toml
