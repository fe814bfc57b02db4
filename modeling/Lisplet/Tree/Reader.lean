import Lisplet.Token.Stream
import Lisplet.Tree

/-!
# Reading trees

Tokens are read into trees with a stack of the lists that are still open, innermost first.  A
left parenthesis opens a list, a right parenthesis closes the innermost one, and every other
token is a leaf; a tree that is finished while no list is open is a form.  Lists may be nested
only up to a limit.
-/

namespace Lisplet

/-- Why the tokens of a program are not forms. -/
inductive ReadFault where
  | scan (fault : ScanFault)
  | endOfStream
  /-- The input ended inside a list; the line is that of the innermost open parenthesis. -/
  | unclosed (line : Nat)
  | strayParen (line : Nat)
  | tooDeep
deriving DecidableEq, Repr

namespace ReadFault

def line? : ReadFault → Option Nat
  | scan fault => fault.line?
  | _ => none

def message : ReadFault → String
  | scan fault => fault.message
  | endOfStream => "Unexpected end of stream"
  | unclosed line =>
    "Unexpected end of stream parsing statement starting on line " ++ toString line
  | strayParen line => "Unexpected right parenthesis on line " ++ toString line
  | tooDeep => "maximum recursion depth exceeded"

end ReadFault

/-- A list that is not closed yet: the line of its parenthesis and its items, last first. -/
structure OpenList where
  line : Nat
  items : List Tree := []

/-- The open lists, innermost first. -/
abbrev Partial := List OpenList

/-- What a token makes of the open lists. -/
inductive Fed where
  | more (lists : Partial)
  | form (tree : Tree)
  | fault (fault : ReadFault)

namespace Partial

/-- A finished tree goes into the innermost open list; without one it is a form. -/
def add (tree : Tree) : Partial → Fed
  | [] => .form tree
  | inner :: outer => .more ({ inner with items := tree :: inner.items } :: outer)

/-- Reads one token. -/
def feed (limit : Nat) (p : Partial) (token : Token) : Fed :=
  match token.kind, p with
  | .leftParen, p => if p.length < limit then .more (⟨token.line, []⟩ :: p) else .fault .tooDeep
  | .rightParen, [] => .fault (.strayParen token.line)
  | .rightParen, inner :: outer => add (.list inner.items.reverse) outer
  | _, p => add (.leaf token) p

/-- Reads tokens until a form is finished, a fault arises or the tokens end, and returns the
tokens that are left. -/
def feedAll (limit : Nat) : Partial → List Token → Fed × List Token
  | p, [] => (.more p, [])
  | p, token :: tokens =>
    match feed limit p token with
    | .more p => feedAll limit p tokens
    | done => (done, tokens)

/-- The fault of an input that ends here. -/
def endFault : Partial → ReadFault
  | [] => .endOfStream
  | inner :: _ => .unclosed inner.line

end Partial

namespace TokenStream

/-- Reads one form from the cached tokens and then from the rows. -/
def readFrom (limit : Nat) (p : Partial) (cache : List Token) (taken : Nat) :
    List (List Char) → Except ReadFault Tree × TokenStream
  | [] =>
    match p.feedAll limit cache with
    | (.form tree, rest) => (.ok tree, ⟨[], taken, rest⟩)
    | (.fault fault, rest) => (.error fault, ⟨[], taken, rest⟩)
    | (.more p, rest) => (.error p.endFault, ⟨[], taken, rest⟩)
  | row :: rows =>
    match p.feedAll limit cache with
    | (.form tree, rest) => (.ok tree, ⟨row :: rows, taken, rest⟩)
    | (.fault fault, rest) => (.error fault, ⟨row :: rows, taken, rest⟩)
    | (.more p, _) =>
      match scanRow taken row with
      | (tokens, some fault) => (.error (.scan fault), ⟨rows, taken + 1, tokens⟩)
      | (tokens, none) => readFrom limit p tokens (taken + 1) rows

/-- Reads one form. -/
def read (limit : Nat) (s : TokenStream) : Except ReadFault Tree × TokenStream :=
  readFrom limit [] s.cache s.taken s.rows

end TokenStream

end Lisplet
