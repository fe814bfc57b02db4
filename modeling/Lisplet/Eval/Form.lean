import Lisplet.Machine

/-!
# Special forms

What the built-in functions of arguments that are not evaluated do.  Each is given the evaluator
(`eval`) for the trees that it decides to evaluate.
-/

namespace Lisplet.Eval

/-- The name of a token. -/
def nameOf (token : Token) : Eval String :=
  match token.name with
  | .ok name => pure name
  | .error fault => fail (.nameless fault)

def namesOf : List Token → Eval (List String)
  | [] => pure []
  | token :: tokens => do
    let name ← nameOf token
    let names ← namesOf tokens
    pure (name :: names)

variable (eval : Tree → Eval Value)

/-! ## Definitions -/

/-- The token of the name to be bound. -/
def targetOf (target : Tree) : Eval Token :=
  match target with
  | .leaf token => if token.isName then pure token else fail (.badTarget target)
  | .list _ => fail (.badTarget target)

/-- Whether an existing binding may be replaced, as the third argument of a definition says. -/
def flagOf (flag : Tree) (line : Nat) : Eval Bool := do
  match ← eval flag with
  | .boolean b => pure b
  | _ => fail (.badFlag line)

/-- Binds the name of a token to the value of a tree.  While the value is computed the definition
is in progress. -/
def bindName (redefine : Bool) (token : Token) (tree : Tree) : Eval Value := do
  let name ← nameOf token
  let env ← environment
  if isReserved name then fail (.reservedName name token.line)
  else if env.has name && !redefine then fail (.alreadyDefined name token.line)
  else
    defining name do
      let value ← eval tree
      assign name value
    let env ← environment
    note (.bound name env.hasLocals)
    pure .null

/-- `(define name value [flag])`: an existing binding is replaced only if `redefine` or the flag
allow it. -/
def define (redefine : Bool) (arguments : List Tree) : Eval Value :=
  match arguments with
  | [target, tree] => do
    let token ← targetOf target
    bindName eval redefine token tree
  | [target, tree, flag] => do
    let token ← targetOf target
    let allowed ← flagOf eval flag token.line
    bindName eval (redefine || allowed) token tree
  | _ => fail (.defineArity (Tree.list arguments).line?)

/-! ## Branches and functions -/

/-- `(if condition then [else])`. -/
def branch (arguments : List Tree) : Eval Value :=
  match arguments with
  | [condition, whenTrue] => do
    let value ← eval condition
    if value.isTrue then eval whenTrue else pure .null
  | [condition, whenTrue, whenFalse] => do
    let value ← eval condition
    if value.isTrue then eval whenTrue else eval whenFalse
  | _ => fail (.branchArity (Tree.list arguments).line?)

/-- The tokens of a parameter list, if it is a list of identifiers. -/
def parametersOf? : List Tree → Option (List Token)
  | [] => some []
  | .leaf token :: rest =>
    if token.isIdentifier then (parametersOf? rest).map (token :: ·) else none
  | .list _ :: _ => none

/-- The tokens of a parameter list. -/
def parametersOf (parameters : Tree) : Eval (List Token) :=
  match parameters with
  | .leaf _ => fail (.badParameters parameters)
  | .list items =>
    match parametersOf? items with
    | some tokens => pure tokens
    | none => fail (.badParameters parameters)

/-- `(lambda (name ...) body)`: the closure holds a copy of the active scope and the name of the
definition in progress. -/
def lambda (arguments : List Tree) : Eval Value :=
  match arguments with
  | [parameters, body] => do
    let tokens ← parametersOf parameters
    let formals ← namesOf tokens
    let env ← environment
    let id ← freshMark
    pure (.closure ⟨id, formals, body, env.active, env.defining⟩)
  | _ => fail (.lambdaArity (Tree.list arguments).line?)

/-- Runs a special form. -/
def special (form : SpecialForm) (arguments : List Tree) : Eval Value :=
  match form with
  | .lambda => lambda arguments
  | .define => define eval false arguments
  | .set => define eval true arguments
  | .branch => branch eval arguments

end Lisplet.Eval
