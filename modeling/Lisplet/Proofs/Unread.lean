import Lisplet.Proofs.Simulation

/-!
# What is never read

The lines that were printed and the entries that were made are kept by a machine, but evaluation
never reads them.  So an evaluation does the same on a machine that printed and noted something else
before (`Machine.withPast`, `Eval.Unreading`), and on two machines that differ only in their past it
comes to the same, with the same lines printed (`Eval.Unreading.same`).
-/

namespace Lisplet

namespace Machine

/-- The machine with other lines and entries before its own. -/
def withPast (m : Machine) (output : Array String) (journal : Array Entry) : Machine :=
  { m with output := output ++ m.output, journal := journal ++ m.journal }

/-- The machine without its past. -/
def bare (m : Machine) : Machine := { m with output := #[], journal := #[] }

theorem bare_withPast (m : Machine) : m.bare.withPast m.output m.journal = m := by
  simp [bare, withPast]

end Machine

namespace Eval

variable {α β : Type}

/-- An evaluation that does the same whatever was printed and noted before. -/
def Unreading (x : Eval α) : Prop :=
  ∀ m output journal,
    x (m.withPast output journal) = ((x m).1, (x m).2.withPast output journal)

theorem unreading_print (line : String) : Unreading (print line) := by
  intro m output journal
  simp only [print, Machine.withPast, Array.append_push]

theorem unreading_note (entry : Entry) : Unreading (note entry) := by
  intro m output journal
  simp only [note, Machine.withPast, Array.append_push]

theorem Unreading.bind {x : Eval α} {f : α → Eval β} (hx : Unreading x)
    (hf : ∀ a, Unreading (f a)) : Unreading (x >>= f) := by
  intro m output journal
  rw [bind_apply, bind_apply, hx m output journal]
  cases x m with
  | mk result m' =>
    cases result with
    | error fault => rfl
    | ok a => exact hf a m' output journal

theorem Unreading.inScope {x : Eval α} (hx : Unreading x) (scope : Scope Value) :
    Unreading (inScope scope x) := by
  intro m output journal
  have inside := hx { m with env := m.env.push scope } output journal
  simp only [Machine.withPast] at inside
  simp only [Eval.inScope, Machine.withPast, inside]

theorem Unreading.defining {x : Eval α} (hx : Unreading x) (name : String) :
    Unreading (defining name x) := by
  intro m output journal
  cases hd : m.env.defining with
  | some current => rw [defining_of_some hd, defining_of_some (m := m.withPast _ _) hd]
  | none =>
    have inside : x ((m.withPast output journal).begun name) =
        ((x (m.begun name)).1, (x (m.begun name)).2.withPast output journal) :=
      hx (m.begun name) output journal
    rw [defining_of_none hd, defining_of_none (m := m.withPast _ _) hd, inside]
    rfl

/-- Nothing that evaluation is made of reads what was printed and noted before. -/
theorem unreading_congruence : Congruence fun x _ => Unreading x where
  pure _ _ _ _ := rfl
  fail _ _ _ _ := rfl
  bind := Unreading.bind
  environment _ _ _ := rfl
  freshMark _ _ _ := rfl
  print := unreading_print
  calling _ _ := unreading_note _
  inScope := Unreading.inScope
  binding {name x _} _ hx := by
    have assigned (value : Value) : Unreading (assign name value) := fun _ _ _ => rfl
    have seen : Unreading environment := fun _ _ _ => rfl
    refine ((hx.bind assigned).defining name).bind fun _ => seen.bind fun env => ?_
    exact (unreading_note _).bind fun _ _ _ _ => rfl

theorem unreading_evaluate (depth : Nat) (tree : Tree) : Unreading (evaluate depth tree) :=
  unreading_congruence.evaluate depth tree

end Eval

/-- Machines that differ only in what they printed and noted. -/
structure Machine.SamePresent (m m' : Machine) : Prop where
  env : m.env = m'.env
  fresh : m.fresh = m'.fresh

theorem Machine.SamePresent.bare_eq {m m' : Machine} (h : m.SamePresent m') : m.bare = m'.bare := by
  rw [Machine.bare, Machine.bare, h.env, h.fresh]

/-- On machines that differ only in their past an evaluation comes to the same, and prints the same
lines. -/
theorem Eval.Unreading.same {α : Type} {x : Eval α} (hx : Unreading x) {m m' : Machine}
    (h : m.SamePresent m') :
    (x m).1 = (x m').1 ∧ (x m).2.SamePresent (x m').2 ∧
      ∃ lines, (x m).2.output = m.output ++ lines ∧ (x m').2.output = m'.output ++ lines := by
  have left := hx m.bare m.output m.journal
  have right := hx m'.bare m'.output m'.journal
  rw [Machine.bare_withPast] at left right
  rw [left, right, h.bare_eq]
  exact ⟨rfl, ⟨rfl, rfl⟩, (x m'.bare).2.output, rfl, rfl⟩

end Lisplet
