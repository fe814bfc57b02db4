import Lisplet.Proofs.Irrelevant
import Lisplet.Proofs.Reachable

/-!
# Reserved names

A reserved name always means its primitive.  Definitions refuse reserved names, so none of them is
ever bound among the globals, being defined, or the name of a closure (`SparesReserved`).  The
formals of a closure may well be reserved names, and then these are bound in local scopes and in the
closures that are made there; but such bindings are never looked at, whatever they are
(`Session.reserved_names_keep_meaning`).
-/

namespace Lisplet

/-- No reserved name is bound among the globals or being defined, and none is the name of a closure
that can be got from the environment or from the values at hand. -/
structure SparesReserved (env : Environment) (values : List Value) : Prop where
  globals : ∀ name, isReserved name = true → env.globals.has name = false
  defining : ∀ name, env.defining = some name → isReserved name = false
  closures : ∀ c, (env.Reaches (.closure c) ∨ ∃ v ∈ values, v.Reaches (.closure c)) →
    ∀ name, c.selfName = some name → isReserved name = false

theorem Environment.WellFormed.sparesReserved {env : Environment} (h : env.WellFormed)
    {values : List Value} (hv : ∀ v ∈ values, v.WellFormed) : SparesReserved env values := by
  refine ⟨h.globals, h.defining, fun c reached => ?_⟩
  have proper : (Value.closure c).Proper := by
    rcases reached with inside | ⟨v, mem, inside⟩
    · exact h.proper inside
    · exact hv v mem _ inside
  exact proper.2.2

/-- Every tree is readable when the reserved names are ignored. -/
theorem Tree.readable_ignoring_reserved (tree : Tree) :
    tree.Readable (.ignoring fun name => isReserved name = true) :=
  Tree.readable_ignoring fun _ _ name _ => Classical.em (isReserved name = true)

namespace Session

/-- No program changes what a reserved name means.  In all that a session reaches, between requests
and while one is answered, reserved names are spared; and whatever is bound to reserved names in
local scopes and inside closures, every tree has the same outcome, but for these bindings. -/
theorem reserved_names_keep_meaning (limit : Nat) (settings : Settings) (earlier : List Request)
    (request : Request) :
    let before : Session := after { limit := limit, settings := settings } earlier
    let M := Matching.ignoring fun name => isReserved name = true
    SparesReserved before.machine.env [] ∧
      (∀ env values, Encounters request before env values → SparesReserved env values) ∧
      ∀ (depth : Nat) (tree : Tree) (m : Machine) (env : Environment), m.env.Akin M env →
        Eval.Akin M (evaluate depth tree m) (evaluate depth tree { m with env := env }) := by
  intro before M
  have session : before.WellFormed := after_wellFormed earlier (wellFormed_fresh limit settings)
  refine ⟨session.env.sparesReserved (by simp), fun env values encounters => ?_, ?_⟩
  · obtain ⟨wellFormed, passed⟩ := encounters_wellFormed encounters session
    exact wellFormed.sparesReserved passed
  · intro depth tree m env akin
    exact Eval.evaluate_akin depth tree.readable_ignoring_reserved akin

/-- `(if #t (lambda () "a"))` has the same outcome where `if` is a local and where `write` is one;
the closures that it comes to differ in these locals only. -/
theorem reserved_names_keep_meaning_locals :
    let body : Tree := .leaf ⟨0, .string "a"⟩
    let tree : Tree := .list [.leaf ⟨0, .identifier "if"⟩, .leaf ⟨0, .boolean true⟩,
      .list [.leaf ⟨0, .identifier "lambda"⟩, .list [], body]]
    let scope : Scope Value := ⟨[("if", .string "b")]⟩
    let scope' : Scope Value := ⟨[("write", .null)]⟩
    let m : Machine := { env := ⟨⟨[]⟩, [scope], none⟩ }
    let env : Environment := ⟨⟨[]⟩, [scope'], none⟩
    let M := Matching.ignoring fun name => isReserved name = true
    m.env.Akin M env ∧
      (evaluate 3 tree m).1 = .ok (.closure ⟨1, [], body, scope, none⟩) ∧
      (evaluate 3 tree { m with env := env }).1 = .ok (.closure ⟨1, [], body, scope', none⟩) ∧
      Eval.Akin M (evaluate 3 tree m) (evaluate 3 tree { m with env := env }) := by
  intro body tree scope scope' m env M
  have alike : scope.Alike M scope' := by
    intro name counts
    simp only [scope, scope', Scope.get?, Scope.find?]
    split_ifs with first second second
    · exact absurd (first ▸ rfl) counts
    · exact absurd (first ▸ rfl) counts
    · exact absurd (second ▸ rfl) counts
    · exact .none
  have akin : m.env.Akin M env := ⟨fun _ _ => .none, .cons alike .nil, rfl⟩
  obtain ⟨-, -, same⟩ := reserved_names_keep_meaning 0 {} [] (.print "")
  exact ⟨akin, rfl, rfl, same 3 tree m env akin⟩

end Session

end Lisplet
