import Lisplet.Environment
import Lisplet.Eval.Fault
import Lisplet.Journal

/-!
# The machine

The state that evaluation works on: the environment, the lines printed so far, the journal, and
the next fresh mark.  An evaluation (`Eval α`) takes a machine to a machine and ends in a value or
a fault; what was done before a fault stays done.  Local scopes and definitions are entered for
the length of an evaluation only, and are left however it ends (`Eval.inScope`, `Eval.defining`).
-/

namespace Lisplet

structure Machine where
  env : Environment := .initial
  output : Array String := #[]
  journal : Array Entry := #[]
  /-- The next mark for a number or a closure; the shared mark is never handed out. -/
  fresh : Nat := Number.sharedMark + 1

/-- An evaluation that ends in an `α` or a fault. -/
def Eval (α : Type) : Type := Machine → Except EvalFault α × Machine

namespace Eval

variable {α β : Type}

@[inline] protected def pure (a : α) : Eval α := fun m => (.ok a, m)

@[inline] protected def bind (x : Eval α) (f : α → Eval β) : Eval β := fun m =>
  match x m with
  | (.ok a, m) => f a m
  | (.error fault, m) => (.error fault, m)

instance : Monad Eval where
  pure := Eval.pure
  bind := Eval.bind

/-- Ends in a fault. -/
@[inline] def fail (fault : EvalFault) : Eval α := fun m => (.error fault, m)

@[inline] def environment : Eval Environment := fun m => (.ok m.env, m)

/-- Binds a name in the active scope. -/
@[inline] def assign (name : String) (value : Value) : Eval Unit := fun m =>
  (.ok (), { m with env := m.env.set name value })

/-- Prints a line. -/
@[inline] def print (line : String) : Eval Unit := fun m =>
  (.ok (), { m with output := m.output.push line })

/-- Makes an entry in the journal. -/
@[inline] def note (entry : Entry) : Eval Unit := fun m =>
  (.ok (), { m with journal := m.journal.push entry })

/-- A mark that was not handed out before. -/
@[inline] def freshMark : Eval Nat := fun m => (.ok m.fresh, { m with fresh := m.fresh + 1 })

/-- Evaluates in a local scope, which is left however the evaluation ends. -/
@[inline] def inScope (scope : Scope Value) (x : Eval α) : Eval α := fun m =>
  match x { m with env := m.env.push scope } with
  | (result, m) => (result, { m with env := m.env.pop })

/-- Evaluates while a name is being defined; the definition ends however the evaluation ends.  A
definition inside another one is a fault. -/
@[inline] def defining (name : String) (x : Eval α) : Eval α := fun m =>
  match m.env.beginDefine name with
  | .error current => (.error (.nestedDefine current), m)
  | .ok env =>
    match x { m with env := env } with
    | (result, m) => (result, { m with env := m.env.endDefine })

end Eval

end Lisplet
