import Lisplet.Number.Decimal

/-!
# Rounding to binary64

The magnitudes of binary64, zero to infinity, are numbered by their bit patterns: the rank of a
magnitude is its bits without the sign.  Every finite magnitude is a whole number of units of
`2 ^ -1074` (`units`), and the rank just at or below a given number of units is found from its
leading 53 bits (`floorRank`).  A quotient is rounded to the nearest rank, a tie to the even one
(`nearestRank`), and a decimal number by way of the quotient that it is (`Decimal.rank`).
-/

namespace Lisplet.Binary64

/-- The rank of infinity. -/
def infinityRank : Nat := 0x7ff * Nat.pow 2 52

/-- The leading bits of a finite magnitude, at most 53. -/
def mantissa (rank : Nat) : Nat :=
  if rank < Nat.pow 2 52 then rank else rank % Nat.pow 2 52 + Nat.pow 2 52

/-- The place of the last of these bits, in units of `2 ^ -1074`. -/
def place (rank : Nat) : Nat := rank / Nat.pow 2 52 - 1

/-- A finite magnitude in units of `2 ^ -1074`. -/
def units (rank : Nat) : Nat := mantissa rank * Nat.pow 2 (place rank)

/-- The number of low bits that do not fit into 53. -/
def excessBits (u : Nat) : Nat := u.log2 - 52

/-- The rank of the greatest magnitude that has at most `u` units. -/
def floorRank (u : Nat) : Nat := excessBits u * Nat.pow 2 52 + u / Nat.pow 2 (excessBits u)

/-- The rank nearest to `num / den`; between two ranks, the even one. -/
def nearestRank (num den : Nat) : Nat :=
  let scaled := num * Nat.pow 2 1074
  let u := scaled / den
  let step := Nat.pow 2 (excessBits u)
  let rank := floorRank u
  let above := 2 * (scaled - u / step * step * den)
  let carry := step * den < above ∨ (above = step * den ∧ rank % 2 = 1)
  min (if carry then rank + 1 else rank) infinityRank

/-- The machine number of a rank and a sign. -/
def ofRank (negative : Bool) (rank : Nat) : Float :=
  Float.ofBits (UInt64.ofNat (rank + if negative then Nat.pow 2 63 else 0))

def rank (x : Float) : Nat := x.toBits.toNat % Nat.pow 2 63

def isNegative (x : Float) : Bool := decide (Nat.pow 2 63 ≤ x.toBits.toNat)

end Lisplet.Binary64

namespace Lisplet.Decimal

/-- The rank nearest to the magnitude of a decimal number.  Numbers far outside the range of
binary64 are settled by the place of their first digit, before any power of ten is computed. -/
def rank (d : Decimal) : Nat :=
  let size := digitCount d.coefficient + d.exponent
  if d.coefficient = 0 ∨ size < -330 then 0
  else if 310 < size then Binary64.infinityRank
  else Binary64.nearestRank d.numerator d.denominator

/-- The machine number nearest to a decimal number. -/
def toFloat (d : Decimal) : Float := Binary64.ofRank d.negative d.rank

end Lisplet.Decimal
