import FetchQuery.Text.Double
import FetchQuery.Text.Integer
import FetchQuery.Toml.Basic

namespace FetchQuery.Toml

/-- Digits with at most one underscore between neighbours, and none at the ends. -/
def isDigitRun (isDigit : Char → Bool) : List Char → Bool
  | [] => false
  | [c] => isDigit c
  | c :: '_' :: cs => isDigit c && isDigitRun isDigit cs
  | c :: cs => isDigit c && isDigitRun isDigit cs

def withoutUnderscores (cs : List Char) : List Char := cs.filter (· != '_')

def isDecimal (cs : List Char) : Bool :=
  isDigitRun Text.isAsciiDigit cs && (cs.head? != some '0' || cs.length == 1)

def withoutSign : List Char → List Char
  | '+' :: cs => cs
  | '-' :: cs => cs
  | cs => cs

def based? (base : Nat) (digits : List Char) : Option Int :=
  let isDigit (c : Char) : Bool := (Text.hexValue? c).any (· < base)
  if isDigitRun isDigit digits then
    let n := (withoutUnderscores digits).foldl
      (fun n c => base * n + (Text.hexValue? c).getD 0) 0
    if n ≤ Text.maxInt64.toNat then some n else none
  else none

def integer? : List Char → Option Int
  | '0' :: 'x' :: cs => based? 16 cs
  | '0' :: 'o' :: cs => based? 8 cs
  | '0' :: 'b' :: cs => based? 2 cs
  | cs => if isDecimal (withoutSign cs) then Text.readInt64? (withoutUnderscores cs) else none

def isExponentMark (c : Char) : Bool := c == 'e' || c == 'E'

/-- A decimal number with a fraction, an exponent or both. One too large for a double is refused,
unless it is negative. -/
def isFloat (cs : List Char) : Bool :=
  let unsigned := withoutSign cs
  let mantissa := unsigned.takeWhile (!isExponentMark ·)
  let exponent := unsigned.drop (mantissa.length + 1)
  let hasExponent := mantissa.length < unsigned.length
  let whole := mantissa.takeWhile (· != '.')
  let fraction := mantissa.drop (whole.length + 1)
  let hasFraction := whole.length < mantissa.length
  let digits := Text.natOfDigits (withoutUnderscores (whole ++ fraction))
  let power := ((Text.readInt? (withoutUnderscores exponent)).getD 0) -
    (withoutUnderscores fraction).length
  isDecimal whole && (hasFraction || hasExponent) &&
    (!hasFraction || isDigitRun Text.isAsciiDigit fraction) &&
    (!hasExponent || isDigitRun Text.isAsciiDigit (withoutSign exponent)) &&
    (cs.head? == some '-' || !Text.Double.overflows digits power)

def isSpecialFloat (cs : List Char) : Bool :=
  let name := String.ofList (withoutSign cs)
  name == "inf" || name == "nan"

end FetchQuery.Toml
