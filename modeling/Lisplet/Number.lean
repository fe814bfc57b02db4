import Lisplet.Number.Layout
import Lisplet.Number.Numeral
import Lisplet.Number.Shortest

/-!
# Numbers

The numbers of programs are machine numbers.  Two results that are no number are told apart by
when they were made, so a number carries the mark of its making; the mark means nothing for any
other number.  Numbers are written in two ways: for readers of programs (`displayText`) and in
messages, where the text has to give the number away exactly (`exactText`).
-/

namespace Lisplet

/-- A machine number and the mark of its making. -/
structure Number where
  value : Float
  mark : Nat := 0

namespace Number

/-- The mark of the one result that is no number and is always the same: zero divided by zero. -/
def sharedMark : Nat := 0

/-- A result that is no number differs from itself. -/
def isNaN (x : Number) : Bool := !(x.value == x.value)

/-- Same value, or the same result that is no number. -/
def same (x y : Number) : Bool :=
  x.value == y.value || (x.isNaN && y.isNaN && x.mark == y.mark)

/-- Zero and a result that is no number count as false. -/
def isTrue (x : Number) : Bool := !x.isNaN && !(x.value == 0)

/-! ## Writing -/

/-- Positional from `10 ^ -4` up to `10 ^ 16`, always with a point; exponents have two digits. -/
def exactLayout : Layout := ⟨-4, 16, true, 2⟩

/-- Positional from `10 ^ -6` up to `10 ^ 21`; exponents have as few digits as they need. -/
def displayLayout : Layout := ⟨-6, 21, false, 1⟩

/-- A text with the sign of a number in front. -/
def signed (x : Float) (text : String) : String :=
  if Binary64.isNegative x then "-" ++ text else text

def exactText (x : Float) : String :=
  if Binary64.infinityRank < Binary64.rank x then "nan"
  else if Binary64.rank x = Binary64.infinityRank then signed x "inf"
  else String.ofList (exactLayout.write (Binary64.shortest x))

/-- The units of a whole number are a multiple of `2 ^ 1074`. -/
def isWhole (x : Float) : Bool := Binary64.units (Binary64.rank x) % Nat.pow 2 1074 == 0

/-- The magnitude of a whole number. -/
def wholePart (x : Float) : Nat := Binary64.units (Binary64.rank x) / Nat.pow 2 1074

/-- A whole number below `10 ^ 21` is written with all its digits, and zero without a sign. -/
def displayText (x : Float) : String :=
  if Binary64.infinityRank < Binary64.rank x then "NaN"
  else if Binary64.rank x = Binary64.infinityRank then signed x "Infinity"
  else if isWhole x && decide (wholePart x < Nat.pow 10 21) then
    if wholePart x = 0 then "0"
    else signed x (String.ofList (Nat.toDigits 10 (wholePart x)))
  else String.ofList (displayLayout.write (Binary64.shortest x))

end Number

end Lisplet
