/-!
# Decimal numbers

A decimal number is a sign, a coefficient and a power of ten: what a numeral denotes before it
is rounded to a machine number.
-/

namespace Lisplet

/-- The number `± coefficient · 10 ^ exponent`. -/
structure Decimal where
  negative : Bool
  coefficient : Nat
  exponent : Int
deriving DecidableEq, Repr

namespace Decimal

/-- The number of digits of a coefficient. -/
def digitCount (n : Nat) : Nat := (Nat.toDigits 10 n).length

/-- The number of zeros that the digits of a coefficient end in. -/
def trailingZeros (n : Nat) : Nat := ((Nat.toDigits 10 n).reverse.takeWhile (· == '0')).length

/-- The same number with a coefficient that does not end in a zero. -/
def reduced (d : Decimal) : Decimal :=
  let zeros := trailingZeros d.coefficient
  ⟨d.negative, d.coefficient / Nat.pow 10 zeros, d.exponent + zeros⟩

/-- The magnitude as a quotient of natural numbers. -/
def numerator (d : Decimal) : Nat := d.coefficient * Nat.pow 10 d.exponent.toNat

def denominator (d : Decimal) : Nat := Nat.pow 10 (-d.exponent).toNat

end Decimal

end Lisplet
