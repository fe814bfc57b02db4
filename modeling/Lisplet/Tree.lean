import Lisplet.Token

/-!
# Trees

A program is read into trees: a leaf is a token, a list holds trees.  A tree can be written back
as source text (`Tree.source`) and described in full for messages (`Tree.description`).
-/

namespace Lisplet

/-- A token, or a list of trees. -/
inductive Tree where
  | leaf (token : Token)
  | list (items : List Tree)

namespace Tree

/-- The line of the first token of a tree; the empty list has none. -/
def line? : Tree → Option Nat
  | leaf token => some token.line
  | list [] => none
  | list (first :: _) => first.line?

def isLiteral : Tree → Bool
  | leaf token => token.isLiteral
  | list _ => false

def isName : Tree → Bool
  | leaf token => token.isName
  | list _ => false

def isIdentifier : Tree → Bool
  | leaf token => token.isIdentifier
  | list _ => false

/-! ## Leaves -/

mutual

/-- The tokens of a tree, from left to right. -/
def leaves : Tree → List Token
  | leaf token => [token]
  | list items => leavesAll items

/-- The tokens of some trees. -/
def leavesAll : List Tree → List Token
  | [] => []
  | tree :: trees => leaves tree ++ leavesAll trees

end

/-! ## Text -/

mutual

/-- The tree as it is written in a program. -/
def source : Tree → String
  | leaf token => token.source
  | list items => "(" ++ " ".intercalate (sources items) ++ ")"

/-- The sources of some trees. -/
def sources : List Tree → List String
  | [] => []
  | tree :: trees => source tree :: sources trees

end

mutual

/-- All that is known about a tree. -/
def description : Tree → String
  | leaf token => token.description
  | list items => "[" ++ ", ".intercalate (descriptions items) ++ "]"

/-- The descriptions of some trees. -/
def descriptions : List Tree → List String
  | [] => []
  | tree :: trees => description tree :: descriptions trees

end

end Tree

end Lisplet
