import Lisplet.Number.Decimal

/-!
# Layouts of numbers

How a decimal number is written down: where its digits are written positionally and where with
an exponent, and what stands around them.  A layout decides nothing about the digits.
-/

namespace Lisplet

/-- The decisions of a way to write numbers.  A number `d.ddd · 10 ^ e` is written positionally
when `least ≤ e < bound`, and with an exponent otherwise. -/
structure Layout where
  least : Int
  bound : Int
  /-- Whether a positional number without a fraction ends in `.0`. -/
  point : Bool
  /-- The least number of digits of an exponent. -/
  exponentWidth : Nat
deriving DecidableEq, Repr

namespace Layout

/-- The digits with the point in its place. -/
def positional (layout : Layout) (digits : List Char) (e : Int) : List Char :=
  if e < 0 then '0' :: '.' :: List.replicate (-e - 1).toNat '0' ++ digits
  else
    let whole := e.toNat + 1
    if digits.length ≤ whole then
      digits ++ List.replicate (whole - digits.length) '0' ++
        (if layout.point then ['.', '0'] else [])
    else digits.take whole ++ '.' :: digits.drop whole

/-- An exponent, always with its sign. -/
def exponent (layout : Layout) (e : Int) : List Char :=
  let digits := Nat.toDigits 10 e.natAbs
  'e' :: (if e < 0 then '-' else '+') ::
    List.replicate (layout.exponentWidth - digits.length) '0' ++ digits

/-- One digit, the point and the other digits if there are any, and the exponent. -/
def scientific (layout : Layout) (digits : List Char) (e : Int) : List Char :=
  digits.take 1 ++ (if digits.length ≤ 1 then [] else '.' :: digits.drop 1) ++ layout.exponent e

/-- A decimal number written down. -/
def write (layout : Layout) (d : Decimal) : List Char :=
  let digits := Nat.toDigits 10 d.coefficient
  let e := d.exponent + digits.length - 1
  let body :=
    if layout.least ≤ e ∧ e < layout.bound then layout.positional digits e
    else layout.scientific digits e
  if d.negative then '-' :: body else body

end Layout

end Lisplet
