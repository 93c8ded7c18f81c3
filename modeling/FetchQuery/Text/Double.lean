namespace FetchQuery.Text.Double

/-- The least number that rounds to infinity: half a step above the largest finite double. -/
def limit : Nat := Nat.pow 2 1024 - Nat.pow 2 970

/-- The nearest number with at most 53 significant bits; a tie goes to the even one. -/
def rounded (n : Nat) : Nat :=
  if n < Nat.pow 2 53 then n
  else
    let unit := Nat.pow 2 (n.log2 - 52)
    let quotient := n / unit
    let remainder := n % unit
    if 2 * remainder > unit || (2 * remainder == unit && quotient % 2 == 1) then
      (quotient + 1) * unit
    else quotient * unit

/-- Whether `significand * 10 ^ exponent` rounds to infinity when both factors and then their product
are rounded. Powers above `10 ^ 308` are infinite by themselves. -/
def productOverflows (significand : Nat) (exponent : Int) : Bool :=
  significand != 0 && (308 < exponent ||
    (0 ≤ exponent && limit ≤ rounded significand * rounded (Nat.pow 10 exponent.toNat)))

def overflows (digits : Nat) (exponent : Int) : Bool :=
  let size := (Nat.toDigits 10 digits).length + exponent
  digits != 0 && (310 < size ||
    (308 ≤ size && limit * Nat.pow 10 (-exponent).toNat ≤ digits * Nat.pow 10 exponent.toNat))

end FetchQuery.Text.Double
