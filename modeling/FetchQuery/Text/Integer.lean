namespace FetchQuery.Text

def isAsciiDigit (c : Char) : Bool :=
  '0' ≤ c && c ≤ '9'

def digitValue (c : Char) : Nat :=
  c.toNat - '0'.toNat

def natOfDigits (cs : List Char) : Nat :=
  cs.foldl (fun n c => 10 * n + digitValue c) 0

def readNat? (cs : List Char) : Option Nat :=
  if !cs.isEmpty && cs.all isAsciiDigit then some (natOfDigits cs) else none

/-- An unsigned number may carry a plus sign, but no minus sign, not even before zero. -/
def readUnsigned? : List Char → Option Nat
  | '+' :: cs => readNat? cs
  | cs => readNat? cs

def readInt? : List Char → Option Int
  | '+' :: cs => (readNat? cs).map Int.ofNat
  | '-' :: cs => (readNat? cs).map fun n => - Int.ofNat n
  | cs => (readNat? cs).map Int.ofNat

def minInt64 : Int := -9223372036854775808
def maxInt64 : Int := 9223372036854775807

def readInt64? (cs : List Char) : Option Int :=
  (readInt? cs).filter fun n => minInt64 ≤ n && n ≤ maxInt64

/-- The negated number, where the largest 64-bit number stands in for one that is too large. -/
def negateInt64 (n : Int) : Int :=
  min (-n) maxInt64

def hexValue? (c : Char) : Option Nat :=
  if '0' ≤ c && c ≤ '9' then some (c.toNat - '0'.toNat)
  else if 'a' ≤ c && c ≤ 'f' then some (c.toNat - 'a'.toNat + 10)
  else if 'A' ≤ c && c ≤ 'F' then some (c.toNat - 'A'.toNat + 10)
  else none

def isHexDigit (c : Char) : Bool :=
  (hexValue? c).isSome

end FetchQuery.Text
