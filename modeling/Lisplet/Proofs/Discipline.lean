import Lisplet.Proofs.Simulation

/-!
# What evaluation keeps

Evaluation changes a machine in few ways: it prints lines, notes calls, hands out marks, runs
bodies in local scopes, and gives up or completes definitions.  A relation between the machine
before and after that respects all of these is a `Discipline`.  To keep a discipline is a congruence
(`Discipline.congruence`), so it holds between the machine before and after every evaluation,
however it ends (`Discipline.keeps_evaluate`).
-/

namespace Lisplet

namespace Eval

variable {α β : Type} {eval : Tree → Eval Value}

/-- The machine after an evaluation, however it ends, is related to the machine before. -/
def Keeps (R : Machine → Machine → Prop) (x : Eval α) : Prop := ∀ m, R m (x m).2

/-- A relation that respects all that evaluation does to a machine. -/
structure Discipline (R : Machine → Machine → Prop) : Prop where
  refl : ∀ m, R m m
  trans : ∀ {m₁ m₂ m₃}, R m₁ m₂ → R m₂ m₃ → R m₁ m₃
  print : ∀ m line, R m { m with output := m.output.push line }
  calling : ∀ m closure count, R m { m with journal := m.journal.push (.calling closure count) }
  fresh : ∀ m, R m { m with fresh := m.fresh + 1 }
  /-- A local scope is entered, and left after whatever was done in it. -/
  scope : ∀ {m scope m'}, R { m with env := m.env.push scope } m' →
    R m { m' with env := m'.env.pop }
  /-- A definition begins, and its value fails. -/
  abandoned : ∀ {redefine m name m'}, Bindable redefine m name → R (m.begun name) m' →
    R m m'.abandoned
  /-- A definition begins, and its value is found and bound. -/
  completed : ∀ {redefine m name m'} (value : Value), Bindable redefine m name →
    R (m.begun name) m' → R m (m'.completed name value)

namespace Discipline

variable {R : Machine → Machine → Prop} (d : Discipline R)

include d

theorem keeps_bind {x : Eval α} {f : α → Eval β} (hx : Keeps R x) (hf : ∀ a, Keeps R (f a)) :
    Keeps R (x >>= f) := by
  intro m
  have first := hx m
  rw [bind_apply]
  cases hr : x m with
  | mk result m' =>
    rw [hr] at first
    cases result with
    | error fault => exact first
    | ok a => exact d.trans first (hf a m')

theorem keeps_inScope {x : Eval α} (hx : Keeps R x) (scope : Scope Value) :
    Keeps R (inScope scope x) := fun m => d.scope (hx { m with env := m.env.push scope })

theorem keeps_binding {name : String} (unreserved : isReserved name = false) {x : Eval Value}
    (hx : Keeps R x) : Keeps R (binding name x) := by
  intro m
  rw [binding_apply]
  cases idle : m.env.defining with
  | some current => exact d.refl m
  | none =>
    have bindable : Bindable true m name := ⟨unreserved, .inr rfl, idle⟩
    have value := hx (m.begun name)
    dsimp only
    cases hv : x (m.begun name) with
    | mk result m' =>
      rw [hv] at value
      cases result with
      | error fault => exact d.abandoned bindable value
      | ok result => exact d.completed result bindable value

/-- What every evaluation keeps can be read off its parts. -/
theorem congruence : Congruence fun x _ => Keeps R x where
  pure _ := d.refl
  fail _ := d.refl
  bind := d.keeps_bind
  environment := d.refl
  freshMark := d.fresh
  print line m := d.print m line
  calling closure count m := d.calling m closure count
  inScope := d.keeps_inScope
  binding unreserved := d.keeps_binding unreserved

variable (h : ∀ tree, Keeps R (eval tree))

include h

theorem keeps_call (closure : Closure Value) (arguments : List Value) :
    Keeps R (call eval closure arguments) :=
  @Congruence.call _ d.congruence eval eval h closure arguments

theorem keeps_valuesOf (trees : List Tree) : Keeps R (valuesOf eval trees) :=
  @Congruence.valuesOf _ d.congruence eval eval h trees

omit h

/-- A discipline holds between the machine before and after every evaluation. -/
theorem keeps_evaluate (depth : Nat) (tree : Tree) : Keeps R (evaluate depth tree) :=
  d.congruence.evaluate depth tree

end Discipline

end Eval

end Lisplet
