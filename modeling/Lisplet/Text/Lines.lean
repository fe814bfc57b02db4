/-!
# Lines of a text

A text is cut at its line breaks, a carriage return directly followed by a line feed being one
break (`cut`).  The lines are what stands between the breaks (`lines`), the text comes back when
the breaks are put in again (`Broken.text`), and `unifyBreaks` writes every break as a line feed.
-/

namespace Lisplet.Text

/-- The three ways to end a line. -/
inductive Break where
  | lineFeed
  | carriageReturn
  | returnAndFeed
deriving DecidableEq, Repr

def Break.text : Break → List Char
  | lineFeed => ['\n']
  | carriageReturn => ['\r']
  | returnAndFeed => ['\r', '\n']

/-- A text cut at its breaks: the first line, then every break with the line after it. -/
structure Broken where
  first : List Char
  rest : List (Break × List Char)
deriving DecidableEq, Repr

namespace Broken

/-- A further character at the front of the first line. -/
def push (c : Char) (b : Broken) : Broken := ⟨c :: b.first, b.rest⟩

/-- A break at the front, and an empty line before it. -/
def breakWith (k : Break) (b : Broken) : Broken := ⟨[], (k, b.first) :: b.rest⟩

def lines (b : Broken) : List (List Char) := b.first :: b.rest.map (·.2)

/-- The text that was cut. -/
def text (b : Broken) : List Char := b.first ++ b.rest.flatMap fun (k, line) => k.text ++ line

end Broken

/-- Cuts a text at its line breaks. -/
def cut : List Char → Broken
  | [] => ⟨[], []⟩
  | '\r' :: '\n' :: cs => (cut cs).breakWith .returnAndFeed
  | '\r' :: cs => (cut cs).breakWith .carriageReturn
  | '\n' :: cs => (cut cs).breakWith .lineFeed
  | c :: cs => (cut cs).push c

/-- The lines of a text; there is always at least one. -/
def lines (s : List Char) : List (List Char) := (cut s).lines

/-- The text with every line break written as a line feed. -/
def unifyBreaks : List Char → List Char
  | [] => []
  | '\r' :: '\n' :: cs => '\n' :: unifyBreaks cs
  | '\r' :: cs => '\n' :: unifyBreaks cs
  | c :: cs => c :: unifyBreaks cs

end Lisplet.Text
