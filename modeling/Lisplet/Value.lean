import Lisplet.Primitive
import Lisplet.Scope
import Lisplet.Tree

/-!
# Values

What programs compute with: nothing, booleans, numbers, strings, lists of values, primitives and
closures.  A closure holds a copy of the scope that was active when it was made, so that later
bindings in that scope are not seen through it, and the name that was being defined then, under
which it can call itself.  Closures are told apart by an identity of their own.
-/

namespace Lisplet

/-- A function made by a program, over the values `α` that it may hold. -/
structure Closure (α : Type) where
  id : Nat
  formals : List String
  body : Tree
  captured : Scope α
  selfName : Option String

inductive Value where
  | null
  | boolean (value : Bool)
  | number (number : Number)
  | string (text : String)
  | list (items : List Value)
  | primitive (primitive : Primitive)
  | closure (closure : Closure Value)

namespace Value

/-- The value of a literal token. -/
def ofToken? (t : Token) : Option Value :=
  match t.kind with
  | .string text => some (string text)
  | .number x => some (number x)
  | .boolean b => some (boolean b)
  | _ => none

def isCallable : Value → Bool
  | primitive _ | closure _ => true
  | _ => false

/-- A special form takes its arguments as they stand in the program. -/
def isLazy : Value → Bool
  | primitive (.lazy _) => true
  | _ => false

/-- Nothing, false, zero, a result that is no number and the empty string count as false. -/
def isTrue : Value → Bool
  | null => false
  | boolean b => b
  | number x => x.isTrue
  | string text => text ≠ ""
  | list _ | primitive _ | closure _ => true

def typeName : Value → String
  | null => "null"
  | boolean _ => "boolean"
  | number _ => "number"
  | string _ => "string"
  | list _ => "list"
  | primitive p => p.typeName
  | closure _ => "Closure"

end Value

/-! ## Calls -/

namespace Closure

/-- Binds formals to arguments by position.  A formal without an argument is bound to nothing, an
argument without a formal is dropped, and of formals with one name the last one counts. -/
def bindFormals : List String → List Value → Scope Value → Scope Value
  | [], _, scope => scope
  | name :: names, [], scope => bindFormals names [] (scope.set name .null)
  | name :: names, value :: values, scope => bindFormals names values (scope.set name value)

/-- The captured scope, with the closure under its own name. -/
def selfScope (c : Closure Value) : Scope Value :=
  match c.selfName with
  | none => c.captured
  | some name => c.captured.set name (.closure c)

/-- The local scope of a call: what was captured, then the closure itself, then the formals. -/
def bindings (c : Closure Value) (arguments : List Value) : Scope Value :=
  bindFormals c.formals arguments c.selfScope

def display {α : Type} (c : Closure α) : String :=
  let name :=
    match c.selfName with
    | none => ""
    | some name => if name = "" then "" else " " ++ name
  "<lambda" ++ name ++ " (" ++ " ".intercalate c.formals ++ ")>"

end Closure

/-! ## Text -/

namespace Value

mutual

/-- A value as programs print it. -/
def display : Value → String
  | null => ""
  | boolean b => if b then "true" else "false"
  | number x => Number.displayText x.value
  | string text => text
  | list items => ",".intercalate (displays items)
  | primitive p => p.display
  | closure c => c.display

/-- Some values as programs print them. -/
def displays : List Value → List String
  | [] => []
  | value :: values => display value :: displays values

end

mutual

/-- A value as it is described in messages. -/
def description : Value → String
  | null => "None"
  | boolean b => if b then "True" else "False"
  | number x => Number.exactText x.value
  | string text => Text.quoted text
  | list items => "[" ++ ", ".intercalate (descriptions items) ++ "]"
  | primitive p => p.description
  | closure c => c.display

/-- Some values as they are described in messages. -/
def descriptions : List Value → List String
  | [] => []
  | value :: values => description value :: descriptions values

end

end Value

end Lisplet
