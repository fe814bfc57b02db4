import Lisplet.Value

/-!
# Faults of evaluation

Why the evaluation of a form fails.  A fault names the line that it can be blamed on, where there
is one.
-/

namespace Lisplet

inductive EvalFault where
  | emptyForm
  /-- A parenthesis stands where a form is expected. -/
  | notAForm (token : Token)
  | nameless (fault : Token.Nameless)
  | unbound (name : String) (line : Nat)
  /-- The head of a list is not a function. -/
  | notFunction (value : Value) (line : Option Nat)
  /-- A value is applied that is not a function, or not one of such arguments. -/
  | notApplicable (value : Value)
  | notNumber (operation : Operation) (value : Value)
  | defineArity (line : Option Nat)
  | lambdaArity (line : Option Nat)
  | branchArity (line : Option Nat)
  | badTarget (target : Tree)
  | badParameters (parameters : Tree)
  | badFlag (line : Nat)
  | reservedName (name : String) (line : Nat)
  | alreadyDefined (name : String) (line : Nat)
  | nestedDefine (current : String)
  | tooDeep

namespace EvalFault

def line? : EvalFault → Option Nat
  | unbound _ line | badFlag line | reservedName _ line | alreadyDefined _ line => some line
  | notFunction _ line | defineArity line | lambdaArity line | branchArity line => line
  | badTarget tree | badParameters tree => tree.line?
  | _ => none

def text : EvalFault → String
  | emptyForm => "Unexpected empty statement"
  | notAForm token => "Cannot evaluate " ++ token.description
  | nameless fault => fault.message
  | unbound name _ => "Unknown symbol or identifier " ++ name
  | notFunction value _ => "Expected function, got " ++ value.typeName
  | notApplicable value => "Cannot apply non-function " ++ value.description
  | notNumber operation value =>
    "All arguments to " ++ operation.name ++ " must be numbers, got " ++ Text.quoted value.display
  | defineArity _ => "define requires a name, a value and an optional redefinition flag"
  | lambdaArity _ => "lambda requires a parameter list and exactly one body expression"
  | branchArity _ =>
    "if requires a condition, a then-expression and an optional else-expression"
  | badTarget tree => "Define target must be an identifier or symbol, found " ++ tree.source
  | badParameters tree =>
    "lambda parameters must be a list of identifiers, found " ++ tree.source
  | badFlag _ => "define redefinition flag must be #t or #f"
  | reservedName name _ => name ++ " is a reserved name"
  | alreadyDefined name _ =>
    name ++ " is already defined, use 'set' if redefinition is intentional"
  | nestedDefine current =>
    "Nested defines are not permitted, already defining " ++ current
  | tooDeep => "maximum recursion depth exceeded"

def message (f : EvalFault) : String := atLine f.text f.line?

end EvalFault

end Lisplet
