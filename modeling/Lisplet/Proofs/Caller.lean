import Lisplet.Proofs.Lockstep

/-!
# Calls and their callers

A call works in a scope of its own and sees nothing of its caller but the globals and the name that
is being defined.  So two calls of a closure with the same arguments come to the same, on whatever
machines they are made, if the globals and that name are the same (`Eval.call_alike`).  The marks
that the calls hand out may differ: those handed out before correspond to themselves, and the first
one of the one call to the first one of the other, and so on (`Matching.renewed`).
-/

namespace Lisplet

/-- Marks that both runs know correspond to themselves; marks handed out from `f₁` and `f₂` on
correspond in the order in which they are handed out.  All names count. -/
def Matching.renewed (f₁ f₂ : Nat) : Matching where
  marks a b := (a = b ∧ a < f₁ ∧ a < f₂) ∨ ∃ k, a = f₁ + k ∧ b = f₂ + k
  names _ := True

namespace Matching

variable {f₁ f₂ : Nat}

/-- A mark corresponds to itself if both runs know it, or if they hand out the same marks. -/
theorem renewed_self {mark : Nat} (h : f₁ = f₂ ∨ mark < f₁ ∧ mark < f₂) :
    (renewed f₁ f₂).marks mark mark := by
  rcases h with rfl | known
  · rcases Nat.lt_or_ge mark f₁ with old | new
    · exact .inl ⟨rfl, old, old⟩
    · exact .inr ⟨mark - f₁, by omega, by omega⟩
  · exact .inl ⟨rfl, known⟩

theorem renewed_faithful
    (h : f₁ = f₂ ∨ Number.sharedMark < f₁ ∧ Number.sharedMark < f₂) :
    (renewed f₁ f₂).Faithful where
  shared := renewed_self h
  unique := by
    rintro a a' b b' (⟨rfl, old⟩ | ⟨k, rfl, rfl⟩) (⟨rfl, old'⟩ | ⟨k', rfl, rfl⟩) <;> omega

end Matching

/-! ## Marks that are known -/

/-- A mark of a value itself, or of a number in the body of a closure. -/
def Value.Bears (mark : Nat) : Value → Prop
  | number x => x.mark = mark
  | closure c =>
    c.id = mark ∨ ∃ token ∈ c.body.leaves, ∃ x, token.kind = .number x ∧ x.mark = mark
  | _ => False

/-- The marks that can be got from a value were handed out before the mark `next`. -/
def Value.Known (next : Nat) (v : Value) : Prop :=
  ∀ part mark, v.Reaches part → part.Bears mark → mark < next

theorem Value.alike_renewed {f₁ f₂ : Nat} {v : Value}
    (h : f₁ = f₂ ∨ v.Known f₁ ∧ v.Known f₂) : v.Alike (.renewed f₁ f₂) v := by
  refine v.alike_self fun part reaches => ?_
  have marks : ∀ mark, part.Bears mark → (Matching.renewed f₁ f₂).marks mark mark :=
    fun mark bears => Matching.renewed_self
      (h.imp_right fun known => ⟨known.1 part mark reaches bears, known.2 part mark reaches bears⟩)
  cases part with
  | number x => exact marks x.mark rfl
  | closure c =>
    refine ⟨marks c.id (.inl rfl), fun token mem => ?_⟩
    unfold Token.Readable
    split
    · exact .inr trivial
    · exact .inr trivial
    · exact marks _ (.inr ⟨token, mem, _, ‹_›, rfl⟩)
    · trivial
  | _ => trivial

/-- A machine on which a closure is called has handed out all marks that the call can see. -/
structure Machine.Knows (m : Machine) (closure : Closure Value) (arguments : List Value) :
    Prop where
  shared : Number.sharedMark < m.fresh
  closure : (Value.closure closure).Known m.fresh
  arguments : ∀ v ∈ arguments, v.Known m.fresh
  globals : ∀ name v, m.env.globals.get? name = some v → v.Known m.fresh

/-! ## Calls -/

namespace Eval

/-- A call does not depend on the local scopes of its caller: on two machines with the same globals
and the same name being defined it comes to the same value or fault, but for the marks that it
hands out, and prints the same lines. -/
theorem call_alike (depth : Nat) {closure : Closure Value} {arguments : List Value}
    {m₁ m₂ : Machine} (globals : m₁.env.globals = m₂.env.globals)
    (defining : m₁.env.defining = m₂.env.defining)
    (known : m₁.fresh = m₂.fresh ∨ m₁.Knows closure arguments ∧ m₂.Knows closure arguments) :
    let M := Matching.renewed m₁.fresh m₂.fresh
    let r₁ := call (evaluate depth) closure arguments m₁
    let r₂ := call (evaluate depth) closure arguments m₂
    Results M (Value.Alike M) r₁.1 r₂.1 ∧
      (∀ f g, r₁.1 = .error f → r₂.1 = .error g → f.message = g.message) ∧
      ∃ lines, r₁.2.output = m₁.output ++ lines ∧ r₂.2.output = m₂.output ++ lines := by
  intro M r₁ r₂
  have faithful : M.Faithful :=
    Matching.renewed_faithful (known.imp_right fun k => ⟨k.1.shared, k.2.shared⟩)
  have hc : (Value.closure closure).Alike M (.closure closure) :=
    Value.alike_renewed (known.imp_right fun k => ⟨k.1.closure, k.2.closure⟩)
  have hv : List.Forall₂ (Value.Alike M) arguments arguments :=
    List.forall₂_same.2 fun v mem =>
      Value.alike_renewed (known.imp_right fun k => ⟨k.1.arguments v mem, k.2.arguments v mem⟩)
  have hg : m₁.env.globals.Alike M m₂.env.globals := by
    intro name _
    cases get : m₂.env.globals.get? name with
    | none =>
      rw [globals, get]
      exact .none
    | some v =>
      rw [globals, get]
      refine .some (Value.alike_renewed (known.imp_right fun k => ?_))
      exact ⟨k.1.globals name v (by rw [globals, get]), k.2.globals name v get⟩
  have entered : (m₁.entered closure arguments).Alike M m₁.output m₂.output
      (m₂.entered closure arguments) :=
    Machine.entered_alike hc hv hg defining (fun k => .inr ⟨k, rfl, rfl⟩) ⟨#[], by simp, by simp⟩
  have readable : closure.body.Readable M := by
    cases hc
    assumption
  obtain ⟨results, machines⟩ := lockstep_evaluate faithful depth closure.body readable _ _ entered
  have same : Results M (Value.Alike M) r₁.1 r₂.1 := results
  refine ⟨same, fun f g hf hg => ?_, machines.output⟩
  rw [hf, hg] at same
  exact same.message_eq

/-- A closure whose body names a local of its caller, called with and without that local. -/
theorem call_alike_unbound :
    let closure : Closure Value := ⟨1, ["x"], .leaf ⟨0, .identifier "y"⟩, ⟨[]⟩, none⟩
    let alone : Machine := ⟨⟨⟨[]⟩, [], none⟩, #[], #[], 2⟩
    let inside : Machine := ⟨⟨⟨[]⟩, [⟨[("y", .boolean true)]⟩], none⟩, #["begun"], #[], 7⟩
    (alone.Knows closure [.null] ∧ inside.Knows closure [.null]) ∧
      (call (evaluate 5) closure [.null] alone).1 = .error (.unbound "y" 0) ∧
      Results (.renewed 2 7) (Value.Alike (.renewed 2 7))
        (call (evaluate 5) closure [.null] alone).1
        (call (evaluate 5) closure [.null] inside).1 := by
  intro closure alone inside
  have own : ∀ next, 1 < next → (Value.closure closure).Known next := by
    intro next more part mark reaches bears
    cases reaches with
    | captured get => cases get
    | refl =>
      rcases bears with rfl | ⟨token, mem, x, kind, -⟩
      · exact more
      · cases List.mem_singleton.1 mem
        cases kind
  have null : ∀ next, Value.null.Known next := by
    intro next part mark reaches bears
    cases reaches
    exact bears.elim
  have first : alone.Knows closure [.null] :=
    ⟨by decide, own 2 (by decide), by simpa using null 2, fun name v get => by cases get⟩
  have second : inside.Knows closure [.null] :=
    ⟨by decide, own 7 (by decide), by simpa using null 7, fun name v get => by cases get⟩
  have globals : alone.env.globals = inside.env.globals := rfl
  have defining : alone.env.defining = inside.env.defining := rfl
  exact ⟨⟨first, second⟩, rfl, (call_alike 5 globals defining (.inr ⟨first, second⟩)).1⟩

end Eval

end Lisplet
