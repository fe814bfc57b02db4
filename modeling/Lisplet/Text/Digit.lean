/-!
# Decimal digits

Every script with decimal digits has its ten digits in a row, from zero to nine, so a table of
the zeros says which characters are digits (`digit?`) and what they are worth.  A group of
digits may have single underscores between its digits (`digitGroup`); `Digits.value` reads the
digits of a number, most significant first.
-/

namespace Lisplet.Text

/-- The zero of each script that has decimal digits. -/
def digitZeros : List Nat := [
  0x30, 0x660, 0x6f0, 0x7c0, 0x966, 0x9e6, 0xa66, 0xae6, 0xb66, 0xbe6, 0xc66, 0xce6, 0xd66, 0xde6,
  0xe50, 0xed0, 0xf20, 0x1040, 0x1090, 0x17e0, 0x1810, 0x1946, 0x19d0, 0x1a80, 0x1a90, 0x1b50,
  0x1bb0, 0x1c40, 0x1c50, 0xa620, 0xa8d0, 0xa900, 0xa9d0, 0xa9f0, 0xaa50, 0xabf0, 0xff10, 0x104a0,
  0x10d30, 0x11066, 0x110f0, 0x11136, 0x111d0, 0x112f0, 0x11450, 0x114d0, 0x11650, 0x116c0,
  0x11730, 0x118e0, 0x11950, 0x11c50, 0x11d50, 0x11da0, 0x16a60, 0x16ac0, 0x16b50, 0x1d7ce,
  0x1d7d8, 0x1d7e2, 0x1d7ec, 0x1d7f6, 0x1e140, 0x1e2f0, 0x1e950, 0x1fbf0]

/-- The worth of the code point `n`, when its zero is one of the ascending `zeros`. -/
def digitAmong : List Nat → Nat → Option Nat
  | [], _ => none
  | z :: zeros, n =>
    if n < z then none else if n < z + 10 then some (n - z) else digitAmong zeros n

/-- What a decimal digit of any script is worth. -/
def digit? (c : Char) : Option Nat := digitAmong digitZeros c.toNat

def isDigit (c : Char) : Bool := (digit? c).isSome

def startsWithDigit : List Char → Bool
  | [] => false
  | c :: _ => isDigit c

/-- The rest of a group of digits that has begun, and what follows the group. -/
def digitGroupTail : List Char → List Nat × List Char
  | [] => ([], [])
  | c :: cs =>
    match digit? c with
    | some d => let (ds, rest) := digitGroupTail cs; (d :: ds, rest)
    | none => if c = '_' ∧ startsWithDigit cs then digitGroupTail cs else ([], c :: cs)

/-- The longest group of digits at the front of a text, and what follows it.  Between two digits
of a group there may be one underscore. -/
def digitGroup (s : List Char) : List Nat × List Char :=
  if startsWithDigit s then digitGroupTail s else ([], s)

/-- The number that digits stand for, most significant first. -/
def Digits.value (digits : List Nat) : Nat := digits.foldl (fun n d => 10 * n + d) 0

end Lisplet.Text
