import Lisplet.Text.Printable

/-!
# Quoted text

A text shown between quotes, so that a reader sees where it ends and which characters it holds.
The quote is an apostrophe unless the text holds an apostrophe and no double quote.  The quote
and the backslash are escaped, as are the tab and the two line ends; every other character that
is not printable is written by its code point in hexadecimal.
-/

namespace Lisplet.Text

/-- A number in lower case hexadecimal, with zeros in front up to the width. -/
def hexadecimal (width n : Nat) : List Char :=
  let digits := Nat.toDigits 16 n
  List.replicate (width - digits.length) '0' ++ digits

/-- A code point written out: two, four or eight digits, as few as hold it. -/
def codePoint (n : Nat) : List Char :=
  if n < 0x100 then '\\' :: 'x' :: hexadecimal 2 n
  else if n < 0x10000 then '\\' :: 'u' :: hexadecimal 4 n
  else '\\' :: 'U' :: hexadecimal 8 n

/-- The quote that a text is put between. -/
def quoteFor (s : List Char) : Char :=
  if s.contains '\'' && !s.contains '"' then '"' else '\''

/-- A character as it stands between two quotes `q`. -/
def escape (q c : Char) : List Char :=
  if c = q ∨ c = '\\' then ['\\', c]
  else if c = '\t' then ['\\', 't']
  else if c = '\n' then ['\\', 'n']
  else if c = '\r' then ['\\', 'r']
  else if isPrintable c then [c]
  else codePoint c.toNat

/-- The text between quotes. -/
def quote (s : List Char) : List Char :=
  let q := quoteFor s
  q :: s.flatMap (escape q) ++ [q]

def quoted (s : String) : String := String.ofList (quote s.toList)

end Lisplet.Text
