/-!
# Primitives

The built-in functions.  An operation is given the values of its arguments; a special form is
given the arguments themselves and decides what to evaluate.  `Primitive.named?` finds the
primitive of a reserved name; no other name is reserved.
-/

namespace Lisplet

/-- The built-in functions of values. -/
inductive Operation where
  | add
  | sub
  | mul
  | div
  | equal
  | write
  | block
deriving DecidableEq, Repr

/-- The built-in functions of arguments that are not evaluated. -/
inductive SpecialForm where
  | lambda
  | define
  | set
  | branch
deriving DecidableEq, Repr

inductive Primitive where
  | eager (operation : Operation)
  | lazy (form : SpecialForm)
deriving DecidableEq, Repr

def Operation.name : Operation → String
  | add => "+"
  | sub => "-"
  | mul => "*"
  | div => "/"
  | equal => "="
  | write => "write"
  | block => "block"

def SpecialForm.name : SpecialForm → String
  | lambda => "lambda"
  | define => "define"
  | set => "set"
  | branch => "if"

namespace Primitive

/-- The name that a primitive shows itself by. -/
def name : Primitive → String
  | eager operation => operation.name
  | lazy form => form.name

/-- The primitive of a reserved name, some of which have several names. -/
def named? (name : String) : Option Primitive :=
  match name with
  | "+" => some (eager .add)
  | "-" => some (eager .sub)
  | "*" => some (eager .mul)
  | "/" => some (eager .div)
  | "=" => some (eager .equal)
  | "write" => some (eager .write)
  | "block" => some (eager .block)
  | "lambda" | "\\" | "λ" => some (lazy .lambda)
  | "define" | "$" => some (lazy .define)
  | "set" => some (lazy .set)
  | "if" => some (lazy .branch)
  | _ => none

/-! ## Text -/

def display (p : Primitive) : String := "<primitive " ++ p.name ++ ">"

/-- The label of a primitive in a description. -/
def label : Primitive → String
  | eager .add => "ADD"
  | eager .sub => "SUB"
  | eager .mul => "MUL"
  | eager .div => "DIV"
  | eager .equal => "EQ"
  | eager .write => "WRITE"
  | eager .block => "BLOCK"
  | lazy .lambda => "LAMBDA"
  | lazy .define => "DEFINE"
  | lazy .set => "SET"
  | lazy .branch => "IF"

def typeName : Primitive → String
  | eager _ => "EagerPrimitive"
  | lazy _ => "LazyPrimitive"

/-- All that is known about a primitive. -/
def description (p : Primitive) : String :=
  p.typeName ++ "(op=<Op." ++ p.label ++ ": '" ++ p.name ++ "'>)"

end Primitive

/-- A reserved name always means its primitive. -/
def isReserved (name : String) : Bool := (Primitive.named? name).isSome

end Lisplet
