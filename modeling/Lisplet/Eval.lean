import Lisplet.Eval.Form
import Lisplet.Eval.Operation

/-!
# Evaluation

A literal stands for its value and a name for what it is bound to, a reserved name always for
its primitive.  A list is the application of its first item: special forms are given the other
items as they stand, all other functions their values, from left to right.  One step of
evaluation (`Eval.step`) is given the evaluator for the trees inside; `evaluate` closes the
recursion and allows only so many evaluations to be nested.
-/

namespace Lisplet

namespace Eval

/-- What a function is applied to: values, or trees that are not evaluated. -/
inductive Operands where
  | values (values : List Value)
  | trees (trees : List Tree)

/-- The value of a name. -/
def resolve (name : String) (line : Nat) : Eval Value := do
  match Primitive.named? name with
  | some p => pure (.primitive p)
  | none =>
    let env ← environment
    if env.isBound name then pure (env.lookup name) else fail (.unbound name line)

/-- The value of a token. -/
def atom (token : Token) : Eval Value :=
  match Value.ofToken? token with
  | some value => pure value
  | none =>
    if token.isName then do
      let name ← nameOf token
      resolve name token.line
    else fail (.notAForm token)

variable (eval : Tree → Eval Value)

/-- Calls a closure: its body is evaluated in a fresh local scope. -/
def call (closure : Closure Value) (arguments : List Value) : Eval Value := do
  note (.calling closure arguments.length)
  inScope (closure.bindings arguments) (eval closure.body)

/-- Applies a function to what it takes. -/
def apply (function : Value) (operands : Operands) : Eval Value :=
  match function, operands with
  | .closure closure, .values values => call eval closure values
  | .primitive (.eager operation), .values values => operate operation values
  | .primitive (.lazy form), .trees trees => special eval form trees
  | _, _ => fail (.notApplicable function)

/-- The values of some trees, from left to right. -/
def valuesOf : List Tree → Eval (List Value)
  | [] => pure []
  | tree :: trees => do
    let value ← eval tree
    let values ← valuesOf trees
    pure (value :: values)

/-- One step of evaluation. -/
def step : Tree → Eval Value
  | .leaf token => atom token
  | .list [] => fail .emptyForm
  | .list (head :: tail) => do
    let function ← eval head
    if !function.isCallable then fail (.notFunction function head.line?)
    else if function.isLazy then apply eval function (.trees tail)
    else do
      let values ← valuesOf eval tail
      apply eval function (.values values)

end Eval

/-- Evaluates a tree, with at most `depth` evaluations inside one another. -/
def evaluate : Nat → Tree → Eval Value
  | 0, _ => Eval.fail .tooDeep
  | depth + 1, tree => Eval.step (evaluate depth) tree

end Lisplet
