import Lisplet.Proofs.Discipline

/-!
# The frame of evaluation

Evaluation binds names in the scope that is active when it starts, and changes nothing else of an
environment: `Environment.Framed` says so.  The lines that were printed before stay in front of
the lines that are printed during it.  Both together are a discipline (`framed_discipline`), so
they hold of every evaluation, whether it ends in a value or in a fault.  A call works in a local
scope of its own, and therefore leaves the environment as it was.
-/

namespace Lisplet

/-- Setting a name binds it, and no other name. -/
theorem Scope.has_set {α : Type} (s : Scope α) (name key : String) (value : α) :
    (s.set name value).has key = true ↔ key = name ∨ s.has key = true := by
  unfold Scope.has
  rw [Scope.get?_set]
  by_cases h : key = name <;> simp [h]

namespace Environment

/-- All that may happen to an environment is that its active scope gets new bindings. -/
structure Framed (before after : Environment) : Prop where
  defining : after.defining = before.defining
  depth : after.locals.length = before.locals.length
  /-- The local scopes under the top one. -/
  below : after.locals.tail = before.locals.tail
  /-- The globals, unless they are the active scope. -/
  globals : before.locals ≠ [] → after.globals = before.globals
  /-- No name that is bound in the active scope becomes unbound. -/
  active : ∀ name, before.has name = true → after.has name = true

theorem Framed.refl (env : Environment) : Framed env env :=
  ⟨rfl, rfl, rfl, fun _ => rfl, fun _ h => h⟩

theorem Framed.trans {env₁ env₂ env₃ : Environment} (h₁ : Framed env₁ env₂)
    (h₂ : Framed env₂ env₃) : Framed env₁ env₃ where
  defining := h₂.defining.trans h₁.defining
  depth := h₂.depth.trans h₁.depth
  below := h₂.below.trans h₁.below
  globals hl := by
    have nonempty : env₂.locals ≠ [] := by
      rw [← List.length_pos_iff, h₁.depth]
      exact List.length_pos_iff.2 hl
    exact (h₂.globals nonempty).trans (h₁.globals hl)
  active name h := h₂.active name (h₁.active name h)

/-- Setting a name stays inside the frame. -/
theorem framed_set (env : Environment) (name : String) (value : Value) :
    Framed env (env.set name value) := by
  obtain ⟨globals, locals, defining⟩ := env
  cases locals with
  | nil =>
    refine ⟨rfl, rfl, rfl, fun h => absurd rfl h, fun key h => ?_⟩
    exact (globals.has_set name key value).2 (Or.inr h)
  | cons top rest =>
    refine ⟨rfl, rfl, rfl, fun _ => rfl, fun key h => ?_⟩
    exact (top.has_set name key value).2 (Or.inr h)

/-- One name is bound to a value in the active scope, and that is all that is changed. -/
structure Binds (before : Environment) (name : String) (value : Value) (after : Environment) :
    Prop where
  framed : before.Framed after
  active : ∀ key, after.active.get? key = if key = name then some value else before.active.get? key

theorem binds_set (env : Environment) (name : String) (value : Value) :
    env.Binds name value (env.set name value) := by
  refine ⟨env.framed_set name value, fun key => ?_⟩
  obtain ⟨globals, locals, defining⟩ := env
  cases locals with
  | nil => exact globals.get?_set name key value
  | cons top rest => exact top.get?_set name key value

/-- Whatever happens inside the frame of a new local scope is undone by leaving that scope. -/
theorem pop_of_framed_push {env after : Environment} {scope : Scope Value}
    (h : Framed (env.push scope) after) : after.pop = env := by
  obtain ⟨globals, locals, defining⟩ := env
  obtain ⟨globals', locals', defining'⟩ := after
  have hg : globals' = globals := h.globals (List.cons_ne_nil _ _)
  have hl : locals'.tail = locals := h.below
  have hd : defining' = defining := h.defining
  rw [pop, hg, hl, hd]

/-- A definition that starts and ends inside the frame leaves no trace in the marker. -/
theorem Framed.endDefine {env after : Environment} {name : String} (hd : env.defining = none)
    (h : Framed { env with defining := some name } after) : Framed env after.endDefine :=
  ⟨hd.symm, h.depth, h.below, h.globals, h.active⟩

end Environment

/-- What evaluation may do to a machine: the environment stays framed, and lines are appended. -/
structure Machine.Framed (before after : Machine) : Prop where
  env : before.env.Framed after.env
  output : ∃ lines, after.output = before.output ++ lines

theorem Machine.Framed.of_output {m m' : Machine} (he : m.env.Framed m'.env)
    (ho : m'.output = m.output) : m.Framed m' :=
  ⟨he, #[], by rw [ho, Array.append_empty]⟩

theorem framed_discipline : Eval.Discipline Machine.Framed where
  refl m := .of_output (.refl m.env) rfl
  trans h₁ h₂ := by
    obtain ⟨lines₁, ho₁⟩ := h₁.output
    obtain ⟨lines₂, ho₂⟩ := h₂.output
    exact ⟨h₁.env.trans h₂.env, lines₁ ++ lines₂, by rw [ho₂, ho₁, Array.append_assoc]⟩
  print m line := ⟨.refl m.env, #[line], rfl⟩
  calling m closure count := .of_output (.refl m.env) rfl
  fresh m := .of_output (.refl m.env) rfl
  scope {m scope m'} h := by
    have same : m'.env.pop = m.env := Environment.pop_of_framed_push h.env
    refine ⟨?_, h.output⟩
    rw [same]
    exact .refl m.env
  abandoned hb h := ⟨h.env.endDefine hb.idle, h.output⟩
  completed value hb h :=
    ⟨(h.env.trans (Environment.framed_set _ _ value)).endDefine hb.idle, h.output⟩

/-- A call leaves the environment exactly as it was. -/
theorem Eval.call_env (depth : Nat) (closure : Closure Value) (arguments : List Value)
    (m : Machine) : (Eval.call (evaluate depth) closure arguments m).2.env = m.env := by
  have body := framed_discipline.keeps_evaluate depth closure.body (m.entered closure arguments)
  rw [Eval.call_apply]
  exact Environment.pop_of_framed_push body.env

/-- Every evaluation, however it ends, keeps the marker, the number of local scopes and every scope
but the active one; names that are bound in the active scope stay bound, and printed lines stay
printed.  A call keeps the whole environment. -/
theorem evaluate_framed (depth : Nat) (tree : Tree) (closure : Closure Value)
    (arguments : List Value) (m : Machine) :
    m.Framed (evaluate depth tree m).2 ∧
      m.Framed (Eval.call (evaluate depth) closure arguments m).2 ∧
      (Eval.call (evaluate depth) closure arguments m).2.env = m.env :=
  ⟨framed_discipline.keeps_evaluate depth tree m,
    framed_discipline.keeps_call (framed_discipline.keeps_evaluate depth) closure arguments m,
    Eval.call_env depth closure arguments m⟩

end Lisplet
