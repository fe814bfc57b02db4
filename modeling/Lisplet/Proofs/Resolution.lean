import Lisplet.Proofs.Outcome

/-!
# Names in a call

A name that is evaluated in the scope of a call goes through five layers: the reserved names, the
formals, the closure's own name, what the closure captured, and the globals.  `Closure.Means` says
what a name means by these layers, and evaluation finds exactly that (`evaluate_name_entered`).
Of formals with one name the last one counts, also when it is the one that got no argument
(`IsLastIndex`).
-/

namespace Lisplet

/-! ## Formals -/

/-- The last place of a name among some names. -/
structure IsLastIndex (names : List String) (name : String) (i : Nat) : Prop where
  here : names[i]? = some name
  last : ∀ j, i < j → names[j]? ≠ some name

theorem isLastIndex_zero {key name : String} {names : List String} :
    IsLastIndex (key :: names) name 0 ↔ key = name ∧ name ∉ names := by
  constructor
  · intro h
    refine ⟨Option.some.inj h.here, fun mem => ?_⟩
    obtain ⟨j, found⟩ := List.getElem?_of_mem mem
    exact h.last (j + 1) (Nat.succ_pos j) found
  · rintro ⟨rfl, other⟩
    refine ⟨rfl, fun j later found => ?_⟩
    obtain ⟨k, rfl⟩ := Nat.exists_eq_add_of_lt later
    rw [Nat.zero_add, List.getElem?_cons_succ] at found
    exact other (List.mem_of_getElem? found)

theorem isLastIndex_succ {key name : String} {names : List String} {i : Nat} :
    IsLastIndex (key :: names) name (i + 1) ↔ IsLastIndex names name i := by
  constructor
  · intro h
    exact ⟨h.here, fun j later => h.last (j + 1) (Nat.succ_lt_succ later)⟩
  · intro h
    refine ⟨h.here, fun j later => ?_⟩
    obtain ⟨k, rfl⟩ := Nat.exists_eq_succ_of_ne_zero (Nat.ne_of_gt (Nat.zero_lt_of_lt later))
    exact h.last k (Nat.lt_of_succ_lt_succ later)

theorem exists_isLastIndex {names : List String} {name : String} (h : name ∈ names) :
    ∃ i, IsLastIndex names name i := by
  induction names with
  | nil => cases h
  | cons key names ih =>
    by_cases later : name ∈ names
    · obtain ⟨i, last⟩ := ih later
      exact ⟨i + 1, isLastIndex_succ.2 last⟩
    · have here : key = name := ((List.mem_cons.1 h).resolve_right later).symm
      exact ⟨0, isLastIndex_zero.2 ⟨here, later⟩⟩

namespace Closure

/-- The first formal is bound to the first argument, or to nothing if there is none. -/
theorem bindFormals_cons (formal : String) (formals : List String) (arguments : List Value)
    (scope : Scope Value) :
    bindFormals (formal :: formals) arguments scope =
      bindFormals formals arguments.tail (scope.set formal (arguments[0]?.getD .null)) := by
  cases arguments <;> rfl

theorem get?_bindFormals_of_notMem {formals : List String} {name : String}
    (other : name ∉ formals) (arguments : List Value) (scope : Scope Value) :
    (bindFormals formals arguments scope).get? name = scope.get? name := by
  induction formals generalizing arguments scope with
  | nil => rfl
  | cons formal formals ih =>
    obtain ⟨ne, other⟩ := not_or.1 (mt List.mem_cons.2 other)
    rw [bindFormals_cons, ih other, Scope.get?_set, if_neg ne]

theorem get?_bindFormals_of_isLastIndex {formals : List String} {name : String} {i : Nat}
    (last : IsLastIndex formals name i) (arguments : List Value) (scope : Scope Value) :
    (bindFormals formals arguments scope).get? name = some (arguments[i]?.getD .null) := by
  induction formals generalizing i arguments scope with
  | nil => cases last.here
  | cons formal formals ih =>
    rw [bindFormals_cons]
    cases i with
    | zero =>
      -- No formal behind this one can replace the binding.
      obtain ⟨rfl, other⟩ := isLastIndex_zero.1 last
      rw [get?_bindFormals_of_notMem other, Scope.get?_set, if_pos rfl]
    | succ i => rw [ih (isLastIndex_succ.1 last), List.getElem?_tail]

/-! ## Layers -/

variable (c : Closure Value)

theorem get?_selfScope (name : String) :
    c.selfScope.get? name =
      if c.selfName = some name then some (.closure c) else c.captured.get? name := by
  unfold selfScope
  cases c.selfName with
  | none => rfl
  | some own =>
    show (c.captured.set own (.closure c)).get? name = _
    rw [Scope.get?_set]
    by_cases same : name = own
    · rw [if_pos same, if_pos (congrArg some same.symm)]
    · rw [if_neg same, if_neg fun h => same (Option.some.inj h).symm]

/-- What a name means in the scope of a call; `line` is the line that a fault names. -/
inductive Means (arguments : List Value) (globals : Scope Value) (name : String) (line : Nat) :
    Except EvalFault Value → Prop
  | reserved {p : Primitive} (reserved : Primitive.named? name = some p) :
      Means arguments globals name line (.ok (.primitive p))
  | formal {i : Nat} (free : isReserved name = false) (last : IsLastIndex c.formals name i) :
      Means arguments globals name line (.ok (arguments[i]?.getD .null))
  | self (free : isReserved name = false) (other : name ∉ c.formals)
      (own : c.selfName = some name) : Means arguments globals name line (.ok (.closure c))
  | captured {value : Value} (free : isReserved name = false) (other : name ∉ c.formals)
      (foreign : c.selfName ≠ some name) (held : c.captured.get? name = some value) :
      Means arguments globals name line (.ok value)
  | global {value : Value} (free : isReserved name = false) (other : name ∉ c.formals)
      (foreign : c.selfName ≠ some name) (missing : c.captured.get? name = none)
      (held : globals.get? name = some value) : Means arguments globals name line (.ok value)
  | unbound (free : isReserved name = false) (other : name ∉ c.formals)
      (foreign : c.selfName ≠ some name) (missing : c.captured.get? name = none)
      (nowhere : globals.get? name = none) :
      Means arguments globals name line (.error (.unbound name line))

/-- Every name means something. -/
theorem exists_means (arguments : List Value) (globals : Scope Value) (name : String)
    (line : Nat) : ∃ result, c.Means arguments globals name line result := by
  cases reserved : Primitive.named? name with
  | some p => exact ⟨_, .reserved reserved⟩
  | none =>
    have free : isReserved name = false := by rw [isReserved, reserved]; rfl
    by_cases formal : name ∈ c.formals
    · obtain ⟨i, last⟩ := exists_isLastIndex formal
      exact ⟨_, .formal free last⟩
    by_cases own : c.selfName = some name
    · exact ⟨_, .self free formal own⟩
    cases missing : c.captured.get? name with
    | some value => exact ⟨_, .captured free formal own missing⟩
    | none =>
      cases held : globals.get? name with
      | some value => exact ⟨_, .global free formal own missing held⟩
      | none => exact ⟨_, .unbound free formal own missing held⟩

end Closure

/-! ## Evaluation of names -/

/-- Only the active scope and the globals are looked at. -/
theorem Environment.get?_eq_or (env : Environment) (name : String) :
    env.get? name = (env.active.get? name).or (env.globals.get? name) := by
  unfold get?
  cases env.active.get? name <;> rfl

theorem Environment.get?_of_top {env : Environment} {scope : Scope Value}
    (top : env.locals.head? = some scope) (name : String) :
    env.get? name = (scope.get? name).or (env.globals.get? name) := by
  obtain ⟨rest, locals⟩ := List.head?_eq_some_iff.1 top
  have active : env.active = scope := by
    rw [active, locals]
  rw [get?_eq_or, active]

namespace Eval

theorem named?_of_not_isReserved {name : String} (h : isReserved name = false) :
    Primitive.named? name = none := by
  simpa [isReserved] using h

theorem resolve_of_named {name : String} {p : Primitive} (h : Primitive.named? name = some p)
    (line : Nat) (m : Machine) : resolve name line m = (.ok (.primitive p), m) := by
  unfold resolve
  rw [h]
  rfl

/-- A name that is not reserved stands for what it is bound to. -/
theorem resolve_of_free {name : String} (h : isReserved name = false) (line : Nat)
    (m : Machine) :
    resolve name line m =
      match m.env.get? name with
      | some value => (.ok value, m)
      | none => (.error (.unbound name line), m) := by
  unfold resolve
  rw [named?_of_not_isReserved h]
  show (if m.env.isBound name then pure (m.env.lookup name) else fail (.unbound name line) :
    Eval Value) m = _
  unfold Environment.isBound Environment.lookup
  cases m.env.get? name <;> rfl

theorem evaluate_name {token : Token} {name : String} (named : token.name = .ok name)
    (depth : Nat) : evaluate (depth + 1) (.leaf token) = resolve name token.line := by
  show atom token = _
  obtain ⟨line, kind⟩ := token
  cases kind <;> cases named <;> rfl

/-- The meaning of a name holds as long as the scope that a call entered is on top and is not
changed. -/
theorem resolve_of_means {closure : Closure Value} {arguments : List Value} {m : Machine}
    {name : String} {line : Nat} {result : Except EvalFault Value}
    (top : m.env.locals.head? = some (closure.bindings arguments))
    (h : closure.Means arguments m.env.globals name line result) :
    resolve name line m = (result, m) := by
  have look := Environment.get?_of_top top name
  have inner (other : name ∉ closure.formals) :
      (closure.bindings arguments).get? name = closure.selfScope.get? name :=
    Closure.get?_bindFormals_of_notMem other arguments closure.selfScope
  cases h with
  | reserved reserved => exact resolve_of_named reserved line _
  | formal free last =>
    have bound := Closure.get?_bindFormals_of_isLastIndex last arguments closure.selfScope
    rw [resolve_of_free free, look, Closure.bindings, bound, Option.some_or]
  | self free other own =>
    rw [resolve_of_free free, look, inner other, Closure.get?_selfScope, if_pos own,
      Option.some_or]
  | captured free other foreign held =>
    rw [resolve_of_free free, look, inner other, Closure.get?_selfScope, if_neg foreign, held,
      Option.some_or]
  | global free other foreign missing held =>
    rw [resolve_of_free free, look, inner other, Closure.get?_selfScope, if_neg foreign, missing,
      held, Option.none_or]
  | unbound free other foreign missing nowhere =>
    rw [resolve_of_free free, look, inner other, Closure.get?_selfScope, if_neg foreign, missing,
      nowhere, Option.none_or]

/-- A name that is evaluated in the scope that a call has just entered gives what it means there,
whatever the environment of the call is, and changes nothing. -/
theorem evaluate_name_entered (depth : Nat) (closure : Closure Value) (arguments : List Value)
    (m : Machine) (token : Token) (name : String) (named : token.name = .ok name)
    (result : Except EvalFault Value) (after : Machine) :
    evaluate (depth + 1) (.leaf token) (m.entered closure arguments) = (result, after) ↔
      closure.Means arguments m.env.globals name token.line result ∧
        after = m.entered closure arguments := by
  have found {meaning : Except EvalFault Value}
      (means : closure.Means arguments m.env.globals name token.line meaning) :
      evaluate (depth + 1) (.leaf token) (m.entered closure arguments) =
        (meaning, m.entered closure arguments) := by
    rw [evaluate_name named]
    exact resolve_of_means (m := m.entered closure arguments) rfl means
  constructor
  · intro h
    obtain ⟨meaning, means⟩ := closure.exists_means arguments m.env.globals name token.line
    obtain ⟨rfl, rfl⟩ := Prod.mk.inj ((found means).symm.trans h)
    exact ⟨means, rfl⟩
  · rintro ⟨means, rfl⟩
    exact found means

/-- In a call of `(lambda (x x) ...)` with one argument, `x` is nothing: the argument went to the
first `x`, and what the closure captured and its own name are behind the second one. -/
theorem evaluate_name_entered_twice :
    let closure : Closure Value :=
      ⟨1, ["x", "x"], .list [], ⟨[("x", .boolean false)]⟩, some "x"⟩
    let token : Token := ⟨4, .identifier "x"⟩
    let m : Machine := {}
    token.name = .ok "x" ∧ closure.Means [.boolean true] m.env.globals "x" 4 (.ok .null) ∧
      evaluate 1 (.leaf token) (m.entered closure [.boolean true]) =
        (.ok .null, m.entered closure [.boolean true]) := by
  intro closure token m
  have last : IsLastIndex closure.formals "x" 1 :=
    isLastIndex_succ.2 (isLastIndex_zero.2 ⟨rfl, by simp⟩)
  have means : closure.Means [.boolean true] m.env.globals "x" 4 (.ok .null) :=
    .formal (by decide) last
  refine ⟨rfl, means, ?_⟩
  exact (evaluate_name_entered 0 closure [.boolean true] m token "x" rfl _ _).2 ⟨means, rfl⟩

end Eval

end Lisplet
