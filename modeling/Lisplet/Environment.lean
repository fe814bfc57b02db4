import Lisplet.Number.Rounding
import Lisplet.Value

/-!
# Environments

An environment has one global scope and a stack of local scopes, of which only the top one is
ever consulted, and it remembers which name is being defined.  The active scope is the top local
one, or the global one when there is none: names are set there, and looked up there first and
then among the globals.  `Environment.Contexts` keeps, beside an environment, what was entered
and not yet left.
-/

namespace Lisplet

structure Environment where
  globals : Scope Value
  /-- The local scopes, innermost first. -/
  locals : List (Scope Value) := []
  /-- The name whose definition is in progress. -/
  defining : Option String := none

namespace Environment

/-- The two constants that every program starts with. -/
def constants : Scope Value :=
  ⟨[("PI", .number ⟨Decimal.toFloat ⟨false, 3141592653589793, -15⟩, 0⟩),
    ("E", .number ⟨Decimal.toFloat ⟨false, 2718281828459045, -15⟩, 0⟩)]⟩

def initial : Environment := ⟨constants, [], none⟩

variable (env : Environment)

def hasLocals : Bool := !env.locals.isEmpty

/-- The top local scope if there is one, else the globals. -/
def active : Scope Value :=
  match env.locals with
  | [] => env.globals
  | top :: _ => top

/-- Whether a name is bound in the active scope. -/
def has (name : String) : Bool := env.active.has name

/-- What a name is bound to: in the active scope, else among the globals. -/
def get? (name : String) : Option Value :=
  match env.active.get? name with
  | some value => some value
  | none => env.globals.get? name

def isBound (name : String) : Bool := (env.get? name).isSome

/-- The value of a name; a name that is not bound reads as nothing. -/
def lookup (name : String) : Value := (env.get? name).getD .null

/-- Binds a name in the active scope. -/
def set (name : String) (value : Value) : Environment :=
  match env.locals with
  | [] => { env with globals := env.globals.set name value }
  | top :: rest => { env with locals := top.set name value :: rest }

/-- Enters a local scope. -/
def push (scope : Scope Value) : Environment := { env with locals := scope :: env.locals }

/-- Leaves the local scope that was entered last. -/
def pop : Environment := { env with locals := env.locals.tail }

/-- Starts the definition of a name, unless one is in progress: then its name is returned. -/
def beginDefine (name : String) : Except String Environment :=
  match env.defining with
  | some current => .error current
  | none => .ok { env with defining := some name }

/-- Ends the definition in progress. -/
def endDefine : Environment := { env with defining := none }

/-! ## Contexts -/

/-- What can be entered and left. -/
inductive Context where
  | scope
  | definition
deriving DecidableEq, Repr

/-- An environment and the contexts that are open in it, innermost first. -/
structure Contexts where
  env : Environment := initial
  entered : List Context := []

namespace Contexts

def set (c : Contexts) (name : String) (value : Value) : Contexts :=
  { c with env := c.env.set name value }

def enterScope (c : Contexts) (scope : Scope Value) : Contexts :=
  ⟨c.env.push scope, .scope :: c.entered⟩

/-- Enters a definition; if one is in progress nothing is entered, and its name is returned. -/
def enterDefine (c : Contexts) (name : String) : Except String Unit × Contexts :=
  match c.env.beginDefine name with
  | .error current => (.error current, c)
  | .ok env => (.ok (), ⟨env, .definition :: c.entered⟩)

/-- Leaves the context that was entered last, and says whether there was one. -/
def leave (c : Contexts) : Bool × Contexts :=
  match c.entered with
  | [] => (false, c)
  | .scope :: rest => (true, ⟨c.env.pop, rest⟩)
  | .definition :: rest => (true, ⟨c.env.endDefine, rest⟩)

end Contexts

end Environment

end Lisplet
