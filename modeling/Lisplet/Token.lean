import Lisplet.Number
import Lisplet.Text.Quoted

/-!
# Tokens

A token is a parenthesis, a name (an identifier or a symbol) or a literal (a string, a number or
a boolean), together with the line that it was scanned on, counted from zero.  Every token has a
source text (`Token.source`) and a full description for messages (`Token.description`).
-/

namespace Lisplet

/-- What a token is. -/
inductive Token.Kind where
  | leftParen
  | rightParen
  | identifier (name : String)
  | symbol (name : String)
  | string (text : String)
  | number (number : Number)
  | boolean (value : Bool)

structure Token where
  line : Nat
  kind : Token.Kind

/-- A message that names its line, if there is one to name. -/
def atLine (text : String) : Option Nat → String
  | none => text
  | some line => text ++ " (line " ++ toString line ++ ")"

namespace Token

/-- The name of a token's type. -/
def Kind.typeName : Kind → String
  | leftParen => "LeftParenthesis"
  | rightParen => "RightParenthesis"
  | identifier _ => "Identifier"
  | symbol _ => "Symbol"
  | string _ => "String"
  | number _ => "Number"
  | boolean _ => "Boolean"

/-! ## Classes -/

def isParen (t : Token) : Bool :=
  match t.kind with
  | .leftParen | .rightParen => true
  | _ => false

/-- A literal stands for its own value. -/
def isLiteral (t : Token) : Bool :=
  match t.kind with
  | .string _ | .number _ | .boolean _ => true
  | _ => false

def isName (t : Token) : Bool :=
  match t.kind with
  | .identifier _ | .symbol _ => true
  | _ => false

def isIdentifier (t : Token) : Bool :=
  match t.kind with
  | .identifier _ => true
  | _ => false

/-- A token that was asked for its name and has none. -/
structure Nameless where
  token : Token

def Nameless.message (f : Nameless) : String := f.token.kind.typeName ++ " token has no name"

/-- The name of an identifier or a symbol. -/
def name (t : Token) : Except Nameless String :=
  match t.kind with
  | .identifier name | .symbol name => .ok name
  | _ => .error ⟨t⟩

/-! ## Text -/

/-- The token as it is written in a program. -/
def source (t : Token) : String :=
  match t.kind with
  | .leftParen => "("
  | .rightParen => ")"
  | .identifier name | .symbol name => name
  | .string text => "\"" ++ text ++ "\""
  | .number x => Number.displayText x.value
  | .boolean true => "#t"
  | .boolean false => "#f"

/-- The label of a token's type in a description. -/
def Kind.label : Kind → String
  | leftParen => "LEFT_PAREN"
  | rightParen => "RIGHT_PAREN"
  | identifier _ => "IDENTIFIER"
  | symbol _ => "SYMBOL"
  | string _ => "STRING"
  | number _ => "NUMBER"
  | boolean _ => "BOOLEAN"

/-- The content of a token in a description. -/
def Kind.content : Kind → String
  | leftParen | rightParen => "None"
  | identifier text | symbol text | string text => Text.quoted text
  | number x => Number.exactText x.value
  | boolean true => "True"
  | boolean false => "False"

/-- All that is known about a token. -/
def description (t : Token) : String :=
  "Token(type=<TokenType." ++ t.kind.label ++ ": '" ++ t.kind.typeName ++ "'>, line=" ++
    toString t.line ++ ", value=" ++ t.kind.content ++ ")"

end Token

end Lisplet
