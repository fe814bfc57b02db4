import Lisplet.Token.Lexeme

/-!
# Rows of tokens

A row is one line of a program.  `pieces` cuts it into lexemes: blanks and commas separate,
parentheses and quoted strings stand for themselves, a semicolon starts a comment that runs to
the end of the row, and all else is collected into runs.  `scanRow` turns the lexemes into tokens
from left to right, up to the first one that is a fault.
-/

namespace Lisplet

/-- Blanks and commas separate lexemes. -/
def isGap (c : Char) : Bool := Text.isBlank c || c == ','

/-- A piece of a row: a lexeme, or a quote that is not closed in the row. -/
inductive Piece where
  | lexeme (text : List Char)
  | openQuote
deriving DecidableEq, Repr

/-- Where a cut through a row stands: in a run, whose characters so far are given, or in a
string; both hold their characters in reverse. -/
inductive Cut where
  | run (seen : List Char)
  | quoted (seen : List Char)

/-- The lexeme of a run, if the run has any characters. -/
def runPiece : List Char → List Piece
  | [] => []
  | c :: cs => [.lexeme (c :: cs).reverse]

/-- The pieces of a row from some place on. -/
def piecesFrom : Cut → List Char → List Piece
  | .run seen, [] => runPiece seen
  | .quoted _, [] => [.openQuote]
  | .quoted seen, c :: cs =>
    if c = '"' then .lexeme ('"' :: seen.reverse ++ ['"']) :: piecesFrom (.run []) cs
    else piecesFrom (.quoted (c :: seen)) cs
  | .run seen, c :: cs =>
    if isGap c then runPiece seen ++ piecesFrom (.run []) cs
    else if c = ';' then runPiece seen
    else if c = '(' ∨ c = ')' then runPiece seen ++ .lexeme [c] :: piecesFrom (.run []) cs
    else if c = '"' then runPiece seen ++ piecesFrom (.quoted []) cs
    else piecesFrom (.run (c :: seen)) cs

/-- The pieces of a row, from left to right. -/
def pieces (row : List Char) : List Piece := piecesFrom (.run []) row

/-- The tokens of pieces, and the fault that ended them, if one did. -/
def scanPieces (line : Nat) : List Piece → List Token × Option ScanFault
  | [] => ([], none)
  | .openQuote :: _ => ([], some (.unterminatedString line))
  | .lexeme text :: rest =>
    match Token.ofLexeme text line with
    | .error fault => ([], some fault)
    | .ok token =>
      let (tokens, fault) := scanPieces line rest
      (token :: tokens, fault)

/-- The tokens of a row up to its first fault, and the fault. -/
def scanRow (line : Nat) (row : List Char) : List Token × Option ScanFault :=
  scanPieces line (pieces row)

/-- A row of blanks only. -/
def isBlankRow (row : List Char) : Bool := row.all Text.isBlank

end Lisplet
