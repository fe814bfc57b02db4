import Lisplet.Proofs.Frame

/-!
# Runs in lockstep

Two machines are alike under a matching if their active scopes and globals are, and if the marks
that they hand out next correspond (`Machine.Alike`); nothing is said about the local scopes under
the active one.  A tree that is readable under the matching is evaluated on both in lockstep: to
alike values or faults, to alike machines, and with the same lines printed
(`Eval.lockstep_evaluate`).  To run in lockstep is a simulation (`Eval.lockstep_simulation`).  It
has to say that evaluation stays inside its frame, since a call is followed by what its caller does,
and the caller goes on in the environment that it had before.
-/

namespace Lisplet

variable {M : Matching} {o₁ o₂ : Array String}

/-! ## Alike machines -/

/-- Environments that look alike to a readable tree. -/
structure Environment.Alike (M : Matching) (e₁ e₂ : Environment) : Prop where
  globals : e₁.globals.Alike M e₂.globals
  active : e₁.active.Alike M e₂.active
  hasLocals : e₁.hasLocals = e₂.hasLocals
  defining : e₁.defining = e₂.defining

/-- Machines that look alike to a readable tree, and have printed the same lines since their
outputs were `o₁` and `o₂`. -/
structure Machine.Alike (M : Matching) (o₁ o₂ : Array String) (m₁ m₂ : Machine) : Prop where
  env : m₁.env.Alike M m₂.env
  fresh : ∀ k, M.marks (m₁.fresh + k) (m₂.fresh + k)
  output : ∃ lines, m₁.output = o₁ ++ lines ∧ m₂.output = o₂ ++ lines

namespace Environment

variable {e₁ e₂ : Environment}

/-- Alike environments give alike values to a name that counts. -/
theorem Alike.get? (h : e₁.Alike M e₂) {name : String} (counts : M.names name) :
    Option.Rel (Value.Alike M) (e₁.get? name) (e₂.get? name) := by
  have top := h.active name counts
  have bottom := h.globals name counts
  unfold Environment.get?
  generalize e₁.active.get? name = a₁, e₂.active.get? name = a₂ at top
  cases top with
  | some alike => exact .some alike
  | none => exact bottom

theorem Alike.set (h : e₁.Alike M e₂) {v w : Value} (hv : v.Alike M w) (name : String) :
    (e₁.set name v).Alike M (e₂.set name w) := by
  obtain ⟨globals₁, locals₁, defining₁⟩ := e₁
  obtain ⟨globals₂, locals₂, defining₂⟩ := e₂
  have depths := h.hasLocals
  cases locals₁ with
  | nil =>
    cases locals₂ with
    | nil => exact ⟨h.globals.set hv name, h.globals.set hv name, rfl, h.defining⟩
    | cons top rest => cases depths
  | cons top₁ rest₁ =>
    cases locals₂ with
    | nil => cases depths
    | cons top₂ rest₂ => exact ⟨h.globals, h.active.set hv name, rfl, h.defining⟩

theorem Alike.push (globals : e₁.globals.Alike M e₂.globals) (defining : e₁.defining = e₂.defining)
    {s t : Scope Value} (h : s.Alike M t) : (e₁.push s).Alike M (e₂.push t) :=
  ⟨globals, h, rfl, defining⟩

end Environment

namespace Machine

variable {m₁ m₂ : Machine}

theorem Alike.begun (h : m₁.Alike M o₁ o₂ m₂) (name : String) :
    (m₁.begun name).Alike M o₁ o₂ (m₂.begun name) :=
  ⟨⟨h.env.globals, h.env.active, h.env.hasLocals, rfl⟩, h.fresh, h.output⟩

theorem Alike.abandoned (h : m₁.Alike M o₁ o₂ m₂) : m₁.abandoned.Alike M o₁ o₂ m₂.abandoned :=
  ⟨⟨h.env.globals, h.env.active, h.env.hasLocals, rfl⟩, h.fresh, h.output⟩

theorem Alike.completed (h : m₁.Alike M o₁ o₂ m₂) (name : String) {v w : Value}
    (hv : v.Alike M w) : (m₁.completed name v).Alike M o₁ o₂ (m₂.completed name w) := by
  have env := h.env.set hv name
  exact ⟨⟨env.globals, env.active, env.hasLocals, rfl⟩, h.fresh, h.output⟩

/-- The bodies of alike closures are evaluated on alike machines, whatever local scopes their
callers have. -/
theorem entered_alike {c d : Closure Value} (hc : (Value.closure c).Alike M (.closure d))
    {vs ws : List Value} (hv : List.Forall₂ (Value.Alike M) vs ws)
    (globals : m₁.env.globals.Alike M m₂.env.globals)
    (defining : m₁.env.defining = m₂.env.defining)
    (fresh : ∀ k, M.marks (m₁.fresh + k) (m₂.fresh + k))
    (output : ∃ lines, m₁.output = o₁ ++ lines ∧ m₂.output = o₂ ++ lines) :
    (m₁.entered c vs).Alike M o₁ o₂ (m₂.entered d ws) :=
  ⟨.push globals defining (Closure.bindings_alike hc hv), fresh, output⟩

end Machine

/-- Trees that are readable, and values and environments that are alike. -/
def Correspondence.ofMatching (faithful : M.Faithful) : Correspondence where
  matching := M
  tokens := Token.Readable M
  values := Value.Alike M
  environments := Environment.Alike M
  faithful := faithful
  readable h := h
  alike h := h
  null := .null
  boolean := .boolean
  number := .number
  primitive := .primitive
  literal readable value := readable.alike value
  closure he id _ readable := .closure id rfl rfl readable he.defining he.active
  body h := by
    cases h with
    | closure id formals body readable selfName captured => exact readable
  has he counts := he.active.has counts
  get? he counts := he.get? counts

namespace Eval

variable {α β : Type}

/-! ## Evaluations in lockstep -/

/-- Related results, or alike faults. -/
inductive Results (M : Matching) (R : α → β → Prop) :
    Except EvalFault α → Except EvalFault β → Prop where
  | ok {a : α} {b : β} (h : R a b) : Results M R (.ok a) (.ok b)
  | error {f g : EvalFault} (h : f.Alike M g) : Results M R (.error f) (.error g)

theorem Results.message_eq {R : α → β → Prop} {f g : EvalFault}
    (h : Results M R (.error f) (.error g)) : f.message = g.message := by
  cases h with
  | error alike => exact alike.message_eq

/-- How two evaluations end that run in lockstep: with related results, on alike machines, and
inside the frames of the environments that they started in. -/
structure InStep (M : Matching) (o₁ o₂ : Array String) (R : α → α → Prop) (m₁ m₂ : Machine)
    (left right : Except EvalFault α × Machine) : Prop where
  results : Results M R left.1 right.1
  machines : left.2.Alike M o₁ o₂ right.2
  framed₁ : m₁.env.Framed left.2.env
  framed₂ : m₂.env.Framed right.2.env

/-- Two evaluations that run in lockstep on alike machines. -/
def Lockstep (M : Matching) (o₁ o₂ : Array String) (R : α → α → Prop) (x y : Eval α) : Prop :=
  ∀ m₁ m₂, m₁.Alike M o₁ o₂ m₂ → InStep M o₁ o₂ R m₁ m₂ (x m₁) (y m₂)

theorem Lockstep.bind {R : α → α → Prop} {S : β → β → Prop} {x y : Eval α} {f g : α → Eval β}
    (hx : Lockstep M o₁ o₂ R x y) (hf : ∀ a b, R a b → Lockstep M o₁ o₂ S (f a) (g b)) :
    Lockstep M o₁ o₂ S (x >>= f) (y >>= g) := by
  intro m₁ m₂ hm
  obtain ⟨results, machines, framed₁, framed₂⟩ := hx m₁ m₂ hm
  rw [bind_apply, bind_apply]
  generalize x m₁ = left, y m₂ = right at results machines framed₁ framed₂
  obtain ⟨r₁, m₁'⟩ := left
  obtain ⟨r₂, m₂'⟩ := right
  cases results with
  | error alike => exact ⟨.error alike, machines, framed₁, framed₂⟩
  | ok related =>
    obtain ⟨results, machines, later₁, later₂⟩ := hf _ _ related m₁' m₂' machines
    exact ⟨results, machines, framed₁.trans later₁, framed₂.trans later₂⟩

theorem lockstep_freshMark : Lockstep M o₁ o₂ M.marks freshMark freshMark := by
  intro m₁ m₂ hm
  refine ⟨.ok (hm.fresh 0), ⟨hm.env, fun k => ?_, hm.output⟩, .refl _, .refl _⟩
  have next := hm.fresh (k + 1)
  rwa [Nat.add_comm k, ← Nat.add_assoc, ← Nat.add_assoc] at next

theorem lockstep_print (line : String) : Lockstep M o₁ o₂ Eq (print line) (print line) := by
  intro m₁ m₂ hm
  obtain ⟨lines, left, right⟩ := hm.output
  refine ⟨.ok rfl, ⟨hm.env, hm.fresh, lines.push line, ?_, ?_⟩, .refl _, .refl _⟩
  · rw [Array.append_push, ← left]
    rfl
  · rw [Array.append_push, ← right]
    rfl

/-- A call leaves the environments as they were, so these are alike again after it. -/
theorem Lockstep.inScope {c d : Closure Value} (hc : (Value.closure c).Alike M (.closure d))
    {vs ws : List Value} (hv : List.Forall₂ (Value.Alike M) vs ws) {R : α → α → Prop}
    {x y : Eval α} (h : Lockstep M o₁ o₂ R x y) :
    Lockstep M o₁ o₂ R (inScope (c.bindings vs) x) (inScope (d.bindings ws) y) := by
  intro m₁ m₂ hm
  have scopes := Closure.bindings_alike hc hv
  obtain ⟨results, machines, framed₁, framed₂⟩ := h
    { m₁ with env := m₁.env.push (c.bindings vs) } { m₂ with env := m₂.env.push (d.bindings ws) }
    ⟨.push hm.env.globals hm.env.defining scopes, hm.fresh, hm.output⟩
  -- The scopes of the calls are left; under them nothing was changed.
  rw [inScope_apply, inScope_apply, Environment.pop_of_framed_push framed₁,
    Environment.pop_of_framed_push framed₂]
  exact ⟨results, ⟨hm.env, machines.fresh, machines.output⟩, .refl _, .refl _⟩

theorem Lockstep.binding (name : String) {x y : Eval Value}
    (h : Lockstep M o₁ o₂ (Value.Alike M) x y) :
    Lockstep M o₁ o₂ (Value.Alike M) (binding name x) (binding name y) := by
  intro m₁ m₂ hm
  have same := hm.env.defining
  rw [binding_apply, binding_apply]
  cases idle₁ : m₁.env.defining with
  | some current =>
    rw [← same, idle₁]
    exact ⟨.error (.same rfl), hm, .refl _, .refl _⟩
  | none =>
    have idle₂ : m₂.env.defining = none := same.symm.trans idle₁
    obtain ⟨results, machines, framed₁, framed₂⟩ := h _ _ (hm.begun name)
    rw [idle₂]
    dsimp only
    generalize x (m₁.begun name) = left, y (m₂.begun name) = right at *
    obtain ⟨r₁, m₁'⟩ := left
    obtain ⟨r₂, m₂'⟩ := right
    cases results with
    | error alike =>
      exact ⟨.error alike, machines.abandoned, framed₁.endDefine idle₁, framed₂.endDefine idle₂⟩
    | ok alike =>
      exact ⟨.ok .null, machines.completed name alike,
        (framed₁.trans (Environment.framed_set _ name _)).endDefine idle₁,
        (framed₂.trans (Environment.framed_set _ name _)).endDefine idle₂⟩

/-- Lockstep goes through all that evaluation is made of. -/
theorem lockstep_simulation (faithful : M.Faithful) :
    Simulation (.ofMatching faithful) (Lockstep M o₁ o₂) where
  pure related _ _ hm := ⟨.ok related, hm, .refl _, .refl _⟩
  fail {_ _ f g} faults _ _ hm := by
    have alike : f.Alike M g := by
      cases faults with
      | same nobody regular => exact .same nobody
      | notAForm read paren => exact .same rfl
      | notFunction h line => exact .notFunction h line
      | notNumber operation h => exact .notNumber operation h
    exact ⟨.error alike, hm, .refl _, .refl _⟩
  bind _ := Lockstep.bind
  environment _ _ hm := ⟨.ok hm.env, hm, .refl _, .refl _⟩
  freshMark := lockstep_freshMark
  print := lockstep_print
  calling _ _ _ _ hm := ⟨.ok rfl, ⟨hm.env, hm.fresh, hm.output⟩, .refl _, .refl _⟩
  inScope hc hv := Lockstep.inScope hc hv
  binding _ := Lockstep.binding _

/-- A readable tree is evaluated in lockstep on alike machines. -/
theorem lockstep_evaluate (faithful : M.Faithful) (depth : Nat) (tree : Tree)
    (readable : tree.Readable M) (m₁ m₂ : Machine) (hm : m₁.Alike M o₁ o₂ m₂) :
    Results M (Value.Alike M) (evaluate depth tree m₁).1 (evaluate depth tree m₂).1 ∧
      (evaluate depth tree m₁).2.Alike M o₁ o₂ (evaluate depth tree m₂).2 := by
  have ends := (lockstep_simulation faithful).evaluate depth readable m₁ m₂ hm
  exact ⟨ends.results, ends.machines⟩

end Eval

end Lisplet
