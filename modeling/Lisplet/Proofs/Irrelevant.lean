import Lisplet.Proofs.Lockstep
import Lisplet.Proofs.WellFormed

/-!
# Bindings that do not matter

Every closure copies the scope that it is made in, so a binding that no part of a program looks at
still spreads through closures, local scopes and results.  It changes nothing else: environments
that are akin, that is alike in all their scopes but for names that are ignored
(`Environment.Akin`), give outcomes that are akin again (`Eval.evaluate_akin`).  In particular a
global that neither the tree nor any closure in reach mentions may be added, changed or removed
(`Eval.evaluate_unmentioned`).
-/

namespace Lisplet

variable {M : Matching} {ignored : String → Prop}

/-! ## Environments -/

namespace Environment

/-- Environments that are alike in all their scopes. -/
structure Akin (M : Matching) (e₁ e₂ : Environment) : Prop where
  globals : e₁.globals.Alike M e₂.globals
  locals : List.Forall₂ (Scope.Alike M) e₁.locals e₂.locals
  defining : e₁.defining = e₂.defining

variable {e₁ e₂ e₁' e₂' : Environment}

theorem Akin.alike (h : e₁.Akin M e₂) : e₁.Alike M e₂ := by
  obtain ⟨globals₁, locals₁, defining₁⟩ := e₁
  obtain ⟨globals₂, locals₂, defining₂⟩ := e₂
  have locals : List.Forall₂ (Scope.Alike M) locals₁ locals₂ := h.locals
  cases locals with
  | nil => exact ⟨h.globals, h.globals, rfl, h.defining⟩
  | cons top rest => exact ⟨h.globals, top, rfl, h.defining⟩

/-- Akin environments stay akin if their active scopes get alike bindings and nothing else
happens. -/
theorem Akin.of_framed (h : e₁.Akin M e₂) (framed₁ : e₁.Framed e₁') (framed₂ : e₂.Framed e₂')
    (alike : e₁'.Alike M e₂') : e₁'.Akin M e₂' := by
  refine ⟨alike.globals, ?_, alike.defining⟩
  have below : List.Forall₂ (Scope.Alike M) e₁'.locals.tail e₂'.locals.tail := by
    have locals := h.locals
    rw [framed₁.below, framed₂.below]
    generalize e₁.locals = locals₁, e₂.locals = locals₂ at locals ⊢
    cases locals with
    | nil => exact .nil
    | cons _ rest => exact rest
  obtain ⟨globals₁, locals₁, defining₁⟩ := e₁'
  obtain ⟨globals₂, locals₂, defining₂⟩ := e₂'
  have depths := alike.hasLocals
  cases locals₁ with
  | nil =>
    cases locals₂ with
    | nil => exact .nil
    | cons top₂ rest₂ => cases depths
  | cons top₁ rest₁ =>
    cases locals₂ with
    | nil => cases depths
    | cons top₂ rest₂ => exact .cons alike.active below

end Environment

/-! ## Evaluation -/

namespace Eval

/-- Outcomes that can be told apart by the names that do not count only: alike values or alike
faults, which have one message, the same lines, and akin environments. -/
structure Akin (M : Matching) (r₁ r₂ : Except EvalFault Value × Machine) : Prop where
  results : Results M (Value.Alike M) r₁.1 r₂.1
  messages : ∀ f g, r₁.1 = .error f → r₂.1 = .error g → f.message = g.message
  output : r₁.2.output = r₂.2.output
  env : r₁.2.env.Akin M r₂.2.env

/-- In akin environments a readable tree has akin outcomes. -/
theorem evaluate_akin (depth : Nat) {tree : Tree} (readable : tree.Readable (.ignoring ignored))
    {m : Machine} {env : Environment} (h : m.env.Akin (.ignoring ignored) env) :
    Akin (.ignoring ignored) (evaluate depth tree m)
      (evaluate depth tree { m with env := env }) := by
  have start : m.Alike (.ignoring ignored) m.output m.output { m with env := env } :=
    ⟨h.alike, fun _ => rfl, #[], by simp, by simp⟩
  obtain ⟨results, machines⟩ := lockstep_evaluate (Matching.ignoring_faithful ignored) depth tree
    readable m { m with env := env } start
  refine ⟨results, fun f g hf hg => ?_, ?_, ?_⟩
  · rw [hf, hg] at results
    exact results.message_eq
  · obtain ⟨lines, left, right⟩ := machines.output
    rw [left, right]
  · -- The local scopes under the active ones are those from the start.
    exact h.of_framed (framed_discipline.keeps_evaluate depth tree m).env
      (framed_discipline.keeps_evaluate depth tree { m with env := env }).env machines.env

end Eval

/-! ## Names that nothing mentions -/

/-- A name is written somewhere in a tree, as an identifier or a symbol. -/
def Tree.Mentions (name : String) (tree : Tree) : Prop :=
  ∃ token ∈ tree.leaves, token.name = .ok name

theorem Tree.readable_of_not_mentions {name : String} {tree : Tree} (h : ¬ tree.Mentions name) :
    tree.Readable (.ignoring (· = name)) := by
  refine Tree.readable_ignoring fun token mem other named => .inr ?_
  rintro rfl
  exact h ⟨token, mem, named⟩

/-- A value is like itself if no closure in reach mentions the name that is ignored. -/
theorem Value.alike_of_not_mentions {name : String} {v : Value}
    (h : ∀ c, v.Reaches (.closure c) → ¬ c.body.Mentions name) :
    v.Alike (.ignoring (· = name)) v := by
  refine v.alike_self fun part reaches => ?_
  cases part with
  | number x => exact Eq.refl x.mark
  | closure c => exact ⟨Eq.refl c.id, Tree.readable_of_not_mentions (h c reaches)⟩
  | _ => trivial

theorem Scope.alike_of_not_mentions {name : String} {s t : Scope Value}
    (h : ∀ key v, s.get? key = some v →
      ∀ c, v.Reaches (.closure c) → ¬ c.body.Mentions name)
    (others : ∀ key, key ≠ name → t.get? key = s.get? key) :
    s.Alike (.ignoring (· = name)) t := by
  intro key counts
  rw [others key counts]
  cases get : s.get? key with
  | none => exact .none
  | some v => exact .some (Value.alike_of_not_mentions (h key v get))

namespace Eval

/-- A global that is mentioned neither by a tree nor by the body of any closure in reach does not
matter: whether it is added, changed or removed, the outcome stays the same but for what closures
hold under that name. -/
theorem evaluate_unmentioned (depth : Nat) {tree : Tree} {name : String} {m : Machine}
    {globals : Scope Value} (free : ¬ tree.Mentions name)
    (closures : ∀ c, m.env.Reaches (.closure c) → ¬ c.body.Mentions name)
    (others : ∀ key, key ≠ name → globals.get? key = m.env.globals.get? key) :
    Akin (.ignoring (· = name)) (evaluate depth tree m)
      (evaluate depth tree { m with env := { m.env with globals := globals } }) := by
  have scope (s : Scope Value) (mem : s ∈ m.env.globals :: m.env.locals) (key : String) (v : Value)
      (get : s.get? key = some v) (c : Closure Value) (reaches : v.Reaches (.closure c)) :
      ¬ c.body.Mentions name := closures c ⟨s, mem, key, v, get, reaches⟩
  have akin : m.env.Akin (.ignoring (· = name)) { m.env with globals := globals } := by
    refine ⟨?_, ?_, rfl⟩
    · exact Scope.alike_of_not_mentions (scope m.env.globals List.mem_cons_self) others
    · refine List.forall₂_same.2 fun s mem => ?_
      exact Scope.alike_of_not_mentions (scope s (List.mem_cons_of_mem _ mem)) fun _ _ => rfl
  exact evaluate_akin depth (Tree.readable_of_not_mentions free) akin

/-- `(f (lambda () f))`, where `f` returns what it is given, makes a closure that holds a copy of
all globals: with one more global the result holds one more binding. -/
theorem evaluate_unmentioned_copied :
    let f : Closure Value := ⟨1, ["x"], .leaf ⟨0, .identifier "x"⟩, ⟨[]⟩, some "f"⟩
    let body : Tree := .leaf ⟨0, .identifier "f"⟩
    let tree : Tree := .list [body, .list [.leaf ⟨0, .identifier "lambda"⟩, .list [], body]]
    let m : Machine := { env := ⟨⟨[("f", .closure f)]⟩, [], none⟩ }
    let globals : Scope Value := ⟨[("f", .closure f), ("y", .boolean true)]⟩
    let m' : Machine := { m with env := { m.env with globals := globals } }
    (evaluate 3 tree m).1 = .ok (.closure ⟨1, [], body, ⟨[("f", .closure f)]⟩, none⟩) ∧
      (evaluate 3 tree m').1 = .ok (.closure ⟨1, [], body, globals, none⟩) ∧
      Akin (.ignoring (· = "y")) (evaluate 3 tree m) (evaluate 3 tree m') := by
  intro f body tree m globals m'
  have free : ¬ tree.Mentions "y" := by
    rintro ⟨token, mem, named⟩
    simp only [tree, body, Tree.leaves, Tree.leavesAll, List.cons_append, List.nil_append,
      List.append_nil, List.mem_cons, List.not_mem_nil, or_false] at mem
    rcases mem with rfl | rfl | rfl <;> simp [Token.name] at named
  have closures : ∀ c, m.env.Reaches (.closure c) → ¬ c.body.Mentions "y" := by
    rintro c ⟨scope, mem, key, v, get, reaches⟩ ⟨token, inside, named⟩
    cases List.mem_singleton.1 mem
    simp only [m, Scope.get?, Scope.find?] at get
    split_ifs at get
    cases get
    cases reaches with
    | refl =>
      cases List.mem_singleton.1 inside
      simp [Token.name] at named
    | captured get => cases get
  have others : ∀ key, key ≠ "y" → globals.get? key = m.env.globals.get? key := by
    intro key other
    simp only [globals, m, Scope.get?, Scope.find?]
    split_ifs with first second
    · rfl
    · exact absurd second.symm other
    · rfl
  exact ⟨rfl, rfl, evaluate_unmentioned 3 free closures others⟩

end Eval

end Lisplet
