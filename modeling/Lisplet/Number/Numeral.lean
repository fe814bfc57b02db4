import Lisplet.Text.Blank
import Lisplet.Text.Digit
import Lisplet.Number.Rounding

/-!
# Numerals

`isNumeral` recognises the numerals of programs: an optional sign, digits with at most one point
among, before or after them, and an optional exponent.  `Decimal.read?` reads a text as a decimal
number by a somewhat wider rule, which allows single underscores inside a group of digits, and
`Binary64.read?` adds blanks at the ends and the names of infinity and of the number that is
none.
-/

namespace Lisplet

/-! ## Recognising -/

/-- The text without a sign at its front. -/
def dropSign : List Char → List Char
  | [] => []
  | c :: cs => if c = '+' ∨ c = '-' then cs else c :: cs

/-- Nothing, or an exponent and nothing after it. -/
def isExponentPart : List Char → Bool
  | [] => true
  | c :: cs =>
    (c == 'e' || c == 'E') && !(dropSign cs).isEmpty && (dropSign cs).all Text.isDigit

/-- A numeral, without its sign. -/
def isUnsignedNumeral (s : List Char) : Bool :=
  let whole := s.takeWhile Text.isDigit
  match s.dropWhile Text.isDigit with
  | '.' :: r =>
    !(whole.isEmpty && (r.takeWhile Text.isDigit).isEmpty) &&
      isExponentPart (r.dropWhile Text.isDigit)
  | r => !whole.isEmpty && isExponentPart r

/-- Whether a text is a numeral. -/
def isNumeral (s : List Char) : Bool := isUnsignedNumeral (dropSign s)

/-! ## Reading -/

/-- Whether a text begins with a minus sign. -/
def isMinus : List Char → Bool
  | '-' :: _ => true
  | _ => false

/-- The exponent that ends a number, zero if there is none. -/
def readExponent? : List Char → Option Int
  | [] => some 0
  | c :: cs =>
    if c = 'e' ∨ c = 'E' then
      match Text.digitGroup (dropSign cs) with
      | (d :: ds, []) =>
        let n : Int := Text.Digits.value (d :: ds)
        some (if isMinus cs then -n else n)
      | _ => none
    else none

/-- The digits after a point at the front of a text, and what follows them. -/
def readFraction : List Char → List Nat × List Char
  | '.' :: cs => Text.digitGroup cs
  | cs => ([], cs)

/-- Reads a text as a decimal number. -/
def Decimal.read? (s : List Char) : Option Decimal :=
  let (whole, afterWhole) := Text.digitGroup (dropSign s)
  let (fraction, afterFraction) := readFraction afterWhole
  if whole.isEmpty && fraction.isEmpty then none
  else
    (readExponent? afterFraction).map fun e =>
      ⟨isMinus s, Text.Digits.value (whole ++ fraction), e - fraction.length⟩

namespace Binary64

def infinity (negative : Bool) : Float := ofRank negative infinityRank

/-- The number that is none. -/
def notANumber : Float := ofRank false (infinityRank + Nat.pow 2 51)

/-- Reads a text as a machine number. -/
def read? (s : List Char) : Option Float :=
  let text := Text.trim s
  let word := String.ofList ((dropSign text).map Char.toLower)
  if word = "inf" ∨ word = "infinity" then some (infinity (isMinus text))
  else if word = "nan" then some notANumber
  else (Decimal.read? text).map Decimal.toFloat

end Binary64

end Lisplet
