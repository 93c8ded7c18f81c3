import FetchQuery.Text.Double
import FetchQuery.Text.Integer

namespace FetchQuery.Json

/-- A number. Integers are kept by value; numbers with a fraction or an exponent, and negative zero,
as they are written. -/
inductive Number where
  | integer (value : Int)
  | real (literal : String)
  deriving Repr, DecidableEq

namespace Number

structure Parts where
  negative : Bool
  whole : List Char
  fraction : Option (List Char)
  exponent : Option Int

def isWhole : List Char → Bool
  | [] => false
  | ['0'] => true
  | c :: cs => c != '0' && (c :: cs).all Text.isAsciiDigit

def exponent? : List Char → Option (Option Int)
  | [] => some none
  | c :: cs => if c = 'e' || c = 'E' then (Text.readInt? cs).map some else none

def Parts.ofLiteral? (cs : List Char) : Option Parts := do
  let negative := cs.head? == some '-'
  let unsigned := if negative then cs.drop 1 else cs
  let whole := unsigned.takeWhile Text.isAsciiDigit
  guard (isWhole whole)
  match unsigned.dropWhile Text.isAsciiDigit with
  | '.' :: rest =>
    let fraction := rest.takeWhile Text.isAsciiDigit
    guard (!fraction.isEmpty)
    return ⟨negative, whole, some fraction, ← exponent? (rest.dropWhile Text.isAsciiDigit)⟩
  | rest => return ⟨negative, whole, none, ← exponent? rest⟩

/-- Digits read into a significand as long as it fits in 64 bits. -/
structure Significand where
  value : Nat
  /-- The power of ten that digits left out, or digits after the point, stand for. -/
  exponent : Int
  full : Bool

namespace Significand

def fits (s : Significand) (c : Char) : Bool := 10 * s.value + Text.digitValue c < UInt64.size

/-- A digit before the point; one that does not fit multiplies by ten. -/
def addWhole (s : Significand) (c : Char) : Significand :=
  if !s.full && s.fits c then { s with value := 10 * s.value + Text.digitValue c }
  else { s with exponent := s.exponent + 1, full := true }

/-- A digit after the point; one that does not fit is dropped, with all that follow it. -/
def addFraction (s : Significand) (c : Char) : Significand :=
  if !s.full && s.fits c then
    { s with value := 10 * s.value + Text.digitValue c, exponent := s.exponent - 1 }
  else { s with full := true }

def ofParts (p : Parts) : Significand :=
  let whole := p.whole.foldl addWhole ⟨0, 0, false⟩
  (p.fraction.getD []).foldl addFraction { whole with full := false }

end Significand

/-- Whether a number is too large for a double. Integers of 64 bits never are. -/
def Parts.overflows (p : Parts) : Bool :=
  let s := Significand.ofParts p
  Text.Double.productOverflows s.value (s.exponent + p.exponent.getD 0)

def Parts.number (p : Parts) (literal : List Char) : Number :=
  let n := Text.natOfDigits p.whole
  if p.fraction.isSome || p.exponent.isSome || (p.negative && n == 0) then
    .real (String.ofList literal)
  else .integer (if p.negative then -n else n)

end Number

end FetchQuery.Json
