import Lisplet.Eval
import Mathlib.Tactic.SplitIfs

/-!
# Outcomes

What the parts of an evaluation do to a machine, as equations.  The machines that a definition and
a call go through have names of their own (`Machine.begun`, `Machine.abandoned`,
`Machine.completed`, `Machine.entered`).  Binding a name is described by two equations: one for a
name that cannot be bound, where nothing happens, and one for a name that can (`Bindable`).
-/

namespace Lisplet

namespace Token

/-- The tokens that have a name are the identifiers and the symbols. -/
theorem name_eq_ok_iff (token : Token) (name : String) :
    token.name = .ok name ↔ token.kind = .identifier name ∨ token.kind = .symbol name := by
  cases h : token.kind <;> simp [Token.name, h]

theorem isName_iff (token : Token) : token.isName = true ↔ ∃ name, token.name = .ok name := by
  cases h : token.kind <;> simp [Token.isName, Token.name, h]

end Token

namespace Machine

/-- The machine while the value of a name is computed. -/
def begun (m : Machine) (name : String) : Machine :=
  { m with env := { m.env with defining := some name } }

/-- The machine after a definition ended without a value. -/
def abandoned (m : Machine) : Machine := { m with env := m.env.endDefine }

/-- The machine after a definition ended with a value: the name is bound, and that is noted. -/
def completed (m : Machine) (name : String) (value : Value) : Machine :=
  { m with
    env := (m.env.set name value).endDefine
    journal := m.journal.push (.bound name (m.env.set name value).endDefine.hasLocals) }

/-- The machine on which the body of a closure is evaluated. -/
def entered (m : Machine) (closure : Closure Value) (arguments : List Value) : Machine :=
  { m with
    env := m.env.push (closure.bindings arguments)
    journal := m.journal.push (.calling closure arguments.length) }

end Machine

namespace Eval

variable {α β : Type}

theorem pure_apply (a : α) (m : Machine) : (pure a : Eval α) m = (.ok a, m) := rfl

theorem fail_apply (fault : EvalFault) (m : Machine) :
    (fail fault : Eval α) m = (.error fault, m) := rfl

theorem bind_apply (x : Eval α) (f : α → Eval β) (m : Machine) :
    (x >>= f) m =
      match x m with
      | (.ok a, m') => f a m'
      | (.error fault, m') => (.error fault, m') := rfl

theorem bind_ok {x : Eval α} {f : α → Eval β} {m m' : Machine} {a : α} (h : x m = (.ok a, m')) :
    (x >>= f) m = f a m' := by
  rw [bind_apply, h]

theorem bind_error {x : Eval α} {f : α → Eval β} {m m' : Machine} {fault : EvalFault}
    (h : x m = (.error fault, m')) : (x >>= f) m = (.error fault, m') := by
  rw [bind_apply, h]

theorem environment_apply (m : Machine) : environment m = (.ok m.env, m) := rfl

theorem defining_of_some {name current : String} {x : Eval α} {m : Machine}
    (h : m.env.defining = some current) :
    defining name x m = (.error (.nestedDefine current), m) := by
  simp only [defining, Environment.beginDefine, h]

theorem defining_of_none {name : String} {x : Eval α} {m : Machine}
    (h : m.env.defining = none) :
    defining name x m = ((x (m.begun name)).1, (x (m.begun name)).2.abandoned) := by
  simp only [defining, Environment.beginDefine, h]
  rfl

theorem inScope_apply (scope : Scope Value) (x : Eval α) (m : Machine) :
    inScope scope x m =
      ((x { m with env := m.env.push scope }).1,
        { (x { m with env := m.env.push scope }).2 with
          env := (x { m with env := m.env.push scope }).2.env.pop }) := rfl

theorem call_apply (eval : Tree → Eval Value) (closure : Closure Value) (arguments : List Value)
    (m : Machine) :
    call eval closure arguments m =
      ((eval closure.body (m.entered closure arguments)).1,
        { (eval closure.body (m.entered closure arguments)).2 with
          env := (eval closure.body (m.entered closure arguments)).2.env.pop }) := rfl

protected theorem pure_bind (a : α) (f : α → Eval β) : (pure a >>= f : Eval β) = f a := rfl

/-! ## Names -/

theorem nameOf_eq_ok {token : Token} {name : String} (h : token.name = .ok name) :
    nameOf token = pure name := by
  unfold nameOf
  rw [h]

theorem targetOf_of_isName {target : Tree} (h : target.isName = true) :
    ∃ token name, target = .leaf token ∧ token.name = .ok name ∧ targetOf target = pure token := by
  cases target with
  | leaf token =>
    obtain ⟨name, hn⟩ := token.isName_iff.1 h
    exact ⟨token, name, rfl, hn, if_pos h⟩
  | list items => cases h

theorem targetOf_of_not_isName {target : Tree} (h : target.isName = false) :
    targetOf target = fail (.badTarget target) := by
  cases target with
  | leaf token =>
    have notName : ¬ token.isName = true := by simpa [Tree.isName] using h
    exact if_neg notName
  | list items => rfl

/-- The names of parameters are the identifiers that the parameters are. -/
theorem namesOf_of_parametersOf? {items : List Tree} {tokens : List Token}
    (h : parametersOf? items = some tokens) :
    ∃ names, namesOf tokens = pure names ∧
      ∀ name ∈ names, ∃ token, .leaf token ∈ items ∧ token.kind = .identifier name := by
  induction items generalizing tokens with
  | nil =>
    cases h
    exact ⟨[], rfl, by simp⟩
  | cons item items ih =>
    cases item with
    | list trees => cases h
    | leaf token =>
      rw [parametersOf?] at h
      split_ifs at h with identifier
      obtain ⟨more, hm, rfl⟩ := Option.map_eq_some_iff.1 h
      obtain ⟨names, rest, later⟩ := ih hm
      cases kind : token.kind with
      | identifier name =>
        have named : token.name = .ok name := by simp [Token.name, kind]
        refine ⟨name :: names, ?_, List.forall_mem_cons.2 ⟨⟨token, by simp, kind⟩, ?_⟩⟩
        · rw [namesOf, nameOf_eq_ok named, rest]
          rfl
        · intro other mem
          obtain ⟨token', inside, kind'⟩ := later other mem
          exact ⟨token', List.mem_cons_of_mem _ inside, kind'⟩
      | _ => simp [Token.isIdentifier, kind] at identifier

/-! ## Binding a name -/

/-- What is left to do of binding a name when nothing is against it but another definition. -/
def binding (name : String) (x : Eval Value) : Eval Value := do
  defining name do
    let value ← x
    assign name value
  let env ← environment
  note (.bound name env.hasLocals)
  pure .null

theorem binding_apply (name : String) (x : Eval Value) (m : Machine) :
    binding name x m =
      match m.env.defining with
      | some current => (.error (.nestedDefine current), m)
      | none =>
        match x (m.begun name) with
        | (.error fault, m') => (.error fault, m'.abandoned)
        | (.ok value, m') => (.ok .null, m'.completed name value) := by
  cases hd : m.env.defining with
  | some current => exact bind_error (defining_of_some hd)
  | none =>
    obtain ⟨result, m', hv⟩ : ∃ result m', x (m.begun name) = (result, m') := ⟨_, _, rfl⟩
    rw [hv]
    cases result with
    | error fault =>
      refine bind_error ?_
      rw [defining_of_none hd, bind_error hv]
    | ok value =>
      have ended : defining name (x >>= assign name) m =
          (.ok (), Machine.abandoned { m' with env := m'.env.set name value }) := by
        rw [defining_of_none hd, bind_ok hv]
        rfl
      exact bind_ok ended

theorem bindName_eq (eval : Tree → Eval Value) (redefine : Bool) {token : Token} {name : String}
    (h : token.name = .ok name) (tree : Tree) :
    bindName eval redefine token tree = (environment >>= fun env =>
      if isReserved name then fail (.reservedName name token.line)
      else if env.has name && !redefine then fail (.alreadyDefined name token.line)
      else binding name (eval tree)) := by
  rw [bindName, nameOf_eq_ok h]
  rfl

/-- All that binding a name can do: three refusals that change nothing, then the value is
computed while the definition is in progress. -/
theorem bindName_apply (eval : Tree → Eval Value) (redefine : Bool) {token : Token} {name : String}
    (h : token.name = .ok name) (tree : Tree) (m : Machine) :
    bindName eval redefine token tree m =
      if isReserved name then (.error (.reservedName name token.line), m)
      else if m.env.has name && !redefine then (.error (.alreadyDefined name token.line), m)
      else
        match m.env.defining with
        | some current => (.error (.nestedDefine current), m)
        | none =>
          match eval tree (m.begun name) with
          | (.error fault, m') => (.error fault, m'.abandoned)
          | (.ok value, m') => (.ok .null, m'.completed name value) := by
  rw [bindName_eq eval redefine h, bind_ok (environment_apply m)]
  split_ifs
  · rfl
  · rfl
  · exact binding_apply name (eval tree) m

/-- What is checked before the value of a name is computed. -/
structure Bindable (redefine : Bool) (m : Machine) (name : String) : Prop where
  unreserved : isReserved name = false
  free : m.env.has name = false ∨ redefine = true
  idle : m.env.defining = none

variable {eval : Tree → Eval Value} {redefine : Bool} {token : Token} {name : String} {tree : Tree}
  {m : Machine}

theorem bindName_of_not_bindable (h : token.name = .ok name) (hb : ¬ Bindable redefine m name) :
    ∃ fault, bindName eval redefine token tree m = (.error fault, m) := by
  rw [bindName_apply eval redefine h]
  split_ifs with hr hf
  · exact ⟨_, rfl⟩
  · exact ⟨_, rfl⟩
  cases hd : m.env.defining with
  | some current => exact ⟨_, rfl⟩
  | none =>
    have free : m.env.has name = false ∨ redefine = true := by
      cases redefine <;> simp_all
    exact absurd ⟨by simpa using hr, free, hd⟩ hb

theorem bindName_of_bindable (h : token.name = .ok name) (hb : Bindable redefine m name) :
    bindName eval redefine token tree m =
      match eval tree (m.begun name) with
      | (.error fault, m') => (.error fault, m'.abandoned)
      | (.ok value, m') => (.ok .null, m'.completed name value) := by
  have free : ¬ (m.env.has name && !redefine) = true := by
    rcases hb.free with hf | hf <;> simp [hf]
  rw [bindName_apply eval redefine h, if_neg (by simp [hb.unreserved]), if_neg free, hb.idle]

end Eval

end Lisplet
