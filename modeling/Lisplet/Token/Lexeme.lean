import Lisplet.Token

/-!
# Lexemes

A lexeme is the text of one token.  `Token.ofLexeme` says which token it is: a parenthesis, a
string (it begins with a quote), a boolean (it begins with a hash), an identifier, a symbol or a
numeral.  A lexeme that is none of these is a fault, which names the line.
-/

namespace Lisplet

/-- Why a row of a program is not a row of tokens. -/
inductive ScanFault where
  | unterminatedString (line : Nat)
  | badBoolean (text : String) (line : Nat)
  | unreadable (text : String) (line : Nat)
  | badNumeral (text : String)
deriving DecidableEq, Repr

namespace ScanFault

def line? : ScanFault → Option Nat
  | unterminatedString line | badBoolean _ line | unreadable _ line => some line
  | badNumeral _ => none

def text : ScanFault → String
  | unterminatedString _ => "Unexpected end-of-line reading string"
  | badBoolean text _ => text ++ " is not a valid boolean constant, expected #t or #f"
  | unreadable text _ => "Unable to parse token " ++ text
  | badNumeral text => "could not convert string to float: " ++ Text.quoted text

def message (f : ScanFault) : String := atLine f.text f.line?

end ScanFault

/-! ## Classes of lexemes -/

def isIdentifierStart (c : Char) : Bool := c.isAlpha || c == '_'

def isIdentifierRest (c : Char) : Bool := c.isAlphanum || c == '_' || c == '-'

/-- A letter or an underscore, then letters, digits, underscores and hyphens, all of them ASCII. -/
def isIdentifierText : List Char → Bool
  | [] => false
  | c :: cs => isIdentifierStart c && cs.all isIdentifierRest

/-- The characters of symbols. -/
def symbolChars : List Char :=
  ['!', '@', '$', '%', '&', '/', '.', '-', '\\', 'λ', '=', '?', '+', '|', '*', '^']

def isSymbolText (s : List Char) : Bool := !s.isEmpty && s.all symbolChars.contains

def isStringText (s : List Char) : Bool := s.head? == some '"'

def isBooleanText (s : List Char) : Bool := s.head? == some '#'

namespace Token

/-- The boolean that a lexeme beginning with a hash stands for. -/
def booleanOfLexeme (text : List Char) (line : Nat) : Except ScanFault Token :=
  if text = ['#', 't'] then .ok ⟨line, .boolean true⟩
  else if text = ['#', 'f'] then .ok ⟨line, .boolean false⟩
  else .error (.badBoolean (String.ofList text) line)

/-- The number that a numeral stands for. -/
def numberOfLexeme (text : List Char) (line : Nat) : Except ScanFault Token :=
  match Binary64.read? text with
  | some x => .ok ⟨line, .number ⟨x, 0⟩⟩
  | none => .error (.badNumeral (String.ofList text))

/-- The token of a lexeme. -/
def ofLexeme (text : List Char) (line : Nat) : Except ScanFault Token :=
  if text = ['('] then .ok ⟨line, .leftParen⟩
  else if text = [')'] then .ok ⟨line, .rightParen⟩
  else if isStringText text then .ok ⟨line, .string (String.ofList (text.drop 1).dropLast)⟩
  else if isBooleanText text then booleanOfLexeme text line
  else if isIdentifierText text then .ok ⟨line, .identifier (String.ofList text)⟩
  else if isSymbolText text then .ok ⟨line, .symbol (String.ofList text)⟩
  else if isNumeral text then numberOfLexeme text line
  else .error (.unreadable (String.ofList text) line)

end Token

end Lisplet
