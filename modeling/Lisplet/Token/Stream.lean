import Lisplet.Text.Lines
import Lisplet.Token.Row

/-!
# Token streams

A token stream hands out the tokens of a program one at a time and takes a row from its source
only when it has no token left.  A row with a fault hands out the fault first, and then the
tokens to the left of it.
-/

namespace Lisplet

/-- The rows not yet taken, the number of rows taken, and the tokens of the last of these that
are not yet handed out. -/
structure TokenStream where
  rows : List (List Char)
  taken : Nat := 0
  cache : List Token := []

namespace TokenStream

def ofText (text : String) : TokenStream := ⟨Text.lines text.toList, 0, []⟩

/-- Every row is taken and every token handed out. -/
def atEnd (s : TokenStream) : Bool := s.rows.isEmpty && s.cache.isEmpty

/-- Takes rows until there is a token, a fault or no row left. -/
def fillFrom (taken : Nat) : List (List Char) → Option ScanFault × TokenStream
  | [] => (none, ⟨[], taken, []⟩)
  | row :: rows =>
    match scanRow taken row with
    | ([], none) => fillFrom (taken + 1) rows
    | (tokens, fault) => (fault, ⟨rows, taken + 1, tokens⟩)

def fill (s : TokenStream) : Option ScanFault × TokenStream :=
  if s.cache.isEmpty then fillFrom s.taken s.rows else (none, s)

/-- The next token, which stays in the stream; none at the end. -/
def peek (s : TokenStream) : Except ScanFault (Option Token) × TokenStream :=
  match s.fill with
  | (some fault, s) => (.error fault, s)
  | (none, s) => (.ok s.cache.head?, s)

/-- The next token, taken out of the stream; none at the end. -/
def next (s : TokenStream) : Except ScanFault (Option Token) × TokenStream :=
  match s.peek with
  | (.ok token, s) => (.ok token, { s with cache := s.cache.tail })
  | (.error fault, s) => (.error fault, s)

/-- All tokens of the rows, or the first fault. -/
def drainRows (taken : Nat) : List (List Char) → Except ScanFault (List Token) × TokenStream
  | [] => (.ok [], ⟨[], taken, []⟩)
  | row :: rows =>
    match scanRow taken row with
    | (tokens, some fault) => (.error fault, ⟨rows, taken + 1, tokens⟩)
    | (tokens, none) =>
      match drainRows (taken + 1) rows with
      | (.ok more, s) => (.ok (tokens ++ more), s)
      | (.error fault, s) => (.error fault, s)

/-- Takes out all tokens up to the end, or up to the first fault, which loses them. -/
def drain (s : TokenStream) : Except ScanFault (List Token) × TokenStream :=
  match drainRows s.taken s.rows with
  | (.ok tokens, s') => (.ok (s.cache ++ tokens), s')
  | (.error fault, s') => (.error fault, s')

end TokenStream

/-- The tokens of a text. -/
def tokens (text : String) : Except ScanFault (List Token) := (TokenStream.ofText text).drain.1

end Lisplet
