import Lisplet.Proofs.Frame

/-!
# Definitions

While a definition is in progress nothing can be bound: evaluation leaves the whole environment
untouched, and every further definition inside it is refused (`untouched_discipline`).  The check
that a name is free is made before its value is computed, and so it is still good when the name is
bound.  That makes definitions all or nothing (`AllOrNothing`): a definition goes through exactly
if everything that it needs is given (`Admits`), and then changes one binding; otherwise the
environment is the one that its flag left.
-/

namespace Lisplet

/-! ## While a definition is in progress -/

/-- Whether an entry says that a name was bound. -/
def Entry.isBinding : Entry → Bool
  | .bound _ _ => true
  | _ => false

/-- Nothing was bound.  Every definition that goes through makes an entry, so this is also said
of the scopes that were entered and left meanwhile. -/
structure Machine.Untouched (before after : Machine) : Prop where
  env : after.env = before.env
  journal : ∃ entries, after.journal = before.journal ++ entries ∧
    ∀ entry ∈ entries, entry.isBinding = false

theorem Machine.Untouched.of_journal {m m' : Machine} (he : m'.env = m.env)
    (hj : m'.journal = m.journal) : m.Untouched m' :=
  ⟨he, #[], by rw [hj, Array.append_empty], by simp⟩

theorem Machine.Untouched.trans {m₁ m₂ m₃ : Machine} (h₁ : m₁.Untouched m₂)
    (h₂ : m₂.Untouched m₃) : m₁.Untouched m₃ := by
  obtain ⟨entries₁, hj₁, silent₁⟩ := h₁.journal
  obtain ⟨entries₂, hj₂, silent₂⟩ := h₂.journal
  refine ⟨h₂.env.trans h₁.env, entries₁ ++ entries₂, ?_, ?_⟩
  · rw [hj₂, hj₁, Array.append_assoc]
  · intro entry h
    rcases Array.mem_append.1 h with h | h
    · exact silent₁ entry h
    · exact silent₂ entry h

theorem untouched_discipline :
    Eval.Discipline fun m m' => m.env.defining ≠ none → m.Untouched m' where
  refl m _ := .of_journal rfl rfl
  trans {m₁ m₂ m₃} h₁ h₂ hm := by
    have first := h₁ hm
    have marked : m₂.env.defining ≠ none := by rwa [first.env]
    exact first.trans (h₂ marked)
  print m line _ := .of_journal rfl rfl
  calling m closure count _ := ⟨rfl, #[.calling closure count], rfl, by simp [Entry.isBinding]⟩
  fresh m _ := .of_journal rfl rfl
  scope {m scope m'} h hm := by
    have body := h hm
    refine ⟨?_, body.journal⟩
    show m'.env.pop = m.env
    rw [body.env]
    rfl
  -- A definition inside another one never gets as far as its value.
  abandoned hb _ hm := absurd hb.idle hm
  completed _ hb _ hm := absurd hb.idle hm

/-- The special form of definitions, by whether they may replace a binding. -/
def SpecialForm.binding (redefine : Bool) : SpecialForm := if redefine then .set else .define

namespace Eval

/-- An evaluator that changes no environment in which a definition is in progress. -/
def Restrained (eval : Tree → Eval Value) : Prop :=
  ∀ tree m, m.env.defining ≠ none → (eval tree m).2.env = m.env

theorem restrained_evaluate (depth : Nat) : Restrained (evaluate depth) :=
  fun tree m h => (untouched_discipline.keeps_evaluate depth tree m h).env

/-! ## All or nothing -/

/-- The machine after the flag of a definition, if it has a target and a flag. -/
def afterFlag (eval : Tree → Eval Value) (arguments : List Tree) (m : Machine) : Machine :=
  match arguments with
  | [target, _, flag] => if target.isName then (eval flag m).2 else m
  | _ => m

/-- All that a definition needs in order to bind a name to a value. -/
structure Admits (eval : Tree → Eval Value) (redefine : Bool) (arguments : List Tree)
    (m : Machine) (name : String) (value : Value) : Prop where
  arity : arguments.length = 2 ∨ arguments.length = 3
  target : ∃ token, arguments[0]? = some (.leaf token) ∧
    (token.kind = .identifier name ∨ token.kind = .symbol name)
  flag : ∀ flag, arguments[2]? = some flag → ∃ allowed, (eval flag m).1 = .ok (.boolean allowed)
  unreserved : isReserved name = false
  free : (afterFlag eval arguments m).env.has name = false ∨ redefine = true ∨
    ∃ flag, arguments[2]? = some flag ∧ (eval flag m).1 = .ok (.boolean true)
  idle : (afterFlag eval arguments m).env.defining = none
  value : ∃ tree, arguments[1]? = some tree ∧
    (eval tree ((afterFlag eval arguments m).begun name)).1 = .ok value

/-- An outcome is a success exactly if some binding is admitted; then that binding is the only
change, and it is noted.  Otherwise there is no change. -/
structure AllOrNothing (before : Environment) (admits : String → Value → Prop)
    (outcome : Except EvalFault Value × Machine) : Prop where
  succeeds : (∃ result, outcome.1 = .ok result) ↔ ∃ name value, admits name value
  success : ∀ name value, admits name value →
    outcome.1 = .ok .null ∧ before.Binds name value outcome.2.env
  noted : (∃ result, outcome.1 = .ok result) →
    ∃ entry, entry.isBinding = true ∧ outcome.2.journal.back? = some entry
  failure : ∀ fault, outcome.1 = .error fault → outcome.2.env = before

namespace AllOrNothing

variable {before : Environment} {admits admits' : String → Value → Prop} {m : Machine}

theorem of_error {fault : EvalFault} (env : m.env = before)
    (never : ∀ name value, ¬ admits name value) : AllOrNothing before admits (.error fault, m) where
  succeeds := by
    constructor
    · rintro ⟨result, h⟩
      cases h
    · rintro ⟨name, value, h⟩
      exact absurd h (never name value)
  success name value h := absurd h (never name value)
  noted := by
    rintro ⟨result, h⟩
    cases h
  failure _ _ := env

theorem of_ok (name : String) (value : Value) (env : m.env = before.set name value)
    (noted : ∃ entry, entry.isBinding = true ∧ m.journal.back? = some entry)
    (only : ∀ name' value', admits name' value' ↔ name' = name ∧ value' = value) :
    AllOrNothing before admits (.ok .null, m) where
  succeeds := ⟨fun _ => ⟨name, value, (only name value).2 ⟨rfl, rfl⟩⟩, fun _ => ⟨.null, rfl⟩⟩
  success name' value' h := by
    obtain ⟨rfl, rfl⟩ := (only name' value').1 h
    refine ⟨rfl, ?_⟩
    rw [env]
    exact before.binds_set name' value'
  noted _ := noted
  failure fault h := by cases h

theorem congr {outcome : Except EvalFault Value × Machine}
    (h : AllOrNothing before admits outcome)
    (same : ∀ name value, admits name value ↔ admits' name value) :
    AllOrNothing before admits' outcome := by
  have equal : admits = admits' := by
    funext name value
    exact propext (same name value)
  rwa [equal] at h

end AllOrNothing

/-! ## Binding a name -/

variable {eval : Tree → Eval Value} {redefine : Bool} {token : Token} {name : String} {tree : Tree}
  {m : Machine}

theorem begun_endDefine (hd : m.env.defining = none) (name : String) :
    (m.begun name).env.endDefine = m.env := by
  obtain ⟨⟨globals, locals, defining⟩, output, journal, fresh⟩ := m
  cases hd
  rfl

theorem begun_set_endDefine (hd : m.env.defining = none) (name : String)
    (value : Value) : ((m.begun name).env.set name value).endDefine = m.env.set name value := by
  obtain ⟨⟨globals, locals, defining⟩, output, journal, fresh⟩ := m
  cases hd
  cases locals <;> rfl

/-- Binding a name is all or nothing.  The value is computed by an evaluator that binds nothing
itself, so that the environment at the end is the one in which the name was found free. -/
theorem bindName_allOrNothing (restrained : Restrained eval) (hn : token.name = .ok name) :
    AllOrNothing m.env
      (fun name' value => name' = name ∧ Bindable redefine m name ∧
        (eval tree (m.begun name)).1 = .ok value)
      (bindName eval redefine token tree m) := by
  have kept : (eval tree (m.begun name)).2.env = (m.begun name).env :=
    restrained tree (m.begun name) (by simp [Machine.begun])
  by_cases hb : Bindable redefine m name
  · rw [bindName_of_bindable hn hb]
    cases hv : eval tree (m.begun name) with
    | mk result m' =>
      rw [hv] at kept
      replace kept : m'.env = (m.begun name).env := kept
      cases result with
      | error fault =>
        refine .of_error ?_ (by simp)
        rw [Machine.abandoned, kept, begun_endDefine hb.idle]
      | ok value =>
        refine .of_ok name value ?_ ⟨_, rfl, Array.back?_push⟩ fun name' value' => ?_
        · rw [Machine.completed, kept, begun_set_endDefine hb.idle]
        · constructor
          · rintro ⟨rfl, -, h⟩
            cases h
            exact ⟨rfl, rfl⟩
          · rintro ⟨rfl, rfl⟩
            exact ⟨rfl, hb, rfl⟩
  · obtain ⟨fault, refused⟩ := bindName_of_not_bindable hn hb
    rw [refused]
    exact .of_error rfl fun _ _ h => hb h.2.1

/-! ## The arguments of a definition -/

theorem flagOf_of_boolean {flag : Tree} {m m₁ : Machine} {allowed : Bool} (line : Nat)
    (h : eval flag m = (.ok (.boolean allowed), m₁)) :
    flagOf eval flag line m = (.ok allowed, m₁) := bind_ok h

theorem flagOf_of_not_boolean {flag : Tree} {m : Machine} (line : Nat)
    (h : ∀ allowed, (eval flag m).1 ≠ .ok (.boolean allowed)) :
    ∃ fault, flagOf eval flag line m = (.error fault, (eval flag m).2) := by
  cases hr : eval flag m with
  | mk result m₁ =>
    cases result with
    | error fault => exact ⟨fault, bind_error hr⟩
    | ok value =>
      refine ⟨.badFlag line, (bind_ok hr).trans ?_⟩
      split
      · exact absurd (congrArg Prod.fst hr) (h _)
      · rfl

/-- With a name for a target and at most one flag, whose permission is `allowed`, a definition
needs what is checked before the value is computed, and the value. -/
theorem admits_iff {rest : List Tree} {allowed : Bool} {m₁ : Machine}
    (hn : token.name = .ok name) (arity : rest.length ≤ 1)
    (boolean : ∀ flag, rest[0]? = some flag → (eval flag m).1 = .ok (.boolean allowed))
    (absent : rest[0]? = none → allowed = false)
    (after : afterFlag eval (.leaf token :: tree :: rest) m = m₁) (name' : String)
    (value : Value) :
    (name' = name ∧ Bindable (redefine || allowed) m₁ name ∧
      (eval tree (m₁.begun name)).1 = .ok value) ↔
    Admits eval redefine (.leaf token :: tree :: rest) m name' value := by
  subst after
  constructor
  · rintro ⟨rfl, bindable, hv⟩
    refine ⟨?_, ⟨token, rfl, (token.name_eq_ok_iff name').1 hn⟩,
      fun flag hf => ⟨allowed, boolean flag hf⟩, bindable.unreserved, ?_, bindable.idle,
      tree, rfl, hv⟩
    · simp only [List.length_cons]
      omega
    · refine bindable.free.imp_right fun permitted => ?_
      rcases Bool.or_eq_true_iff.1 permitted with always | rfl
      · exact Or.inl always
      · cases hr : rest[0]? with
        | none => cases absent hr
        | some flag => exact Or.inr ⟨flag, hr, boolean flag hr⟩
  · intro h
    obtain ⟨token', ht, hk⟩ := h.target
    obtain ⟨tree', hv, result⟩ := h.value
    cases ht
    cases hv
    obtain rfl : name' = name :=
      Except.ok.inj (((token.name_eq_ok_iff name').2 hk).symm.trans hn)
    refine ⟨rfl, ⟨h.unreserved, h.free.imp_right fun permitted => ?_, h.idle⟩, result⟩
    rcases permitted with always | ⟨flag, hf, permitted⟩
    · simp [always]
    · have same := (boolean flag hf).symm.trans permitted
      cases same
      simp

theorem Admits.isName {target : Tree} {rest : List Tree} {value : Value}
    (h : Admits eval redefine (target :: rest) m name value) : target.isName = true := by
  obtain ⟨token, ht, hk⟩ := h.target
  cases ht
  exact token.isName_iff.2 ⟨name, (token.name_eq_ok_iff name).2 hk⟩

/-- A definition that gets as far as its name is all or nothing. -/
theorem define_allOrNothing_of_bindName {rest : List Tree} {allowed : Bool} {m₁ : Machine}
    (restrained : Restrained eval) (hn : token.name = .ok name) (arity : rest.length ≤ 1)
    (boolean : ∀ flag, rest[0]? = some flag → (eval flag m).1 = .ok (.boolean allowed))
    (absent : rest[0]? = none → allowed = false)
    (after : afterFlag eval (.leaf token :: tree :: rest) m = m₁)
    (reached : define eval redefine (.leaf token :: tree :: rest) m =
      bindName eval (redefine || allowed) token tree m₁) :
    AllOrNothing (afterFlag eval (.leaf token :: tree :: rest) m).env
      (Admits eval redefine (.leaf token :: tree :: rest) m)
      (define eval redefine (.leaf token :: tree :: rest) m) := by
  rw [reached, after]
  exact (bindName_allOrNothing restrained hn).congr (admits_iff hn arity boolean absent after)

theorem define_plain_allOrNothing (restrained : Restrained eval) (target : Tree) :
    AllOrNothing m.env (Admits eval redefine [target, tree] m)
      (define eval redefine [target, tree] m) := by
  cases ht : target.isName with
  | false =>
    rw [define, targetOf_of_not_isName ht, bind_error (fail_apply _ m)]
    exact .of_error rfl fun _ _ h => by simp [h.isName] at ht
  | true =>
    obtain ⟨token, name, rfl, hn, named⟩ := targetOf_of_isName ht
    have reached : define eval redefine [.leaf token, tree] m =
        bindName eval (redefine || false) token tree m := by
      rw [define, named, bind_ok (pure_apply token m), Bool.or_false]
    exact define_allOrNothing_of_bindName restrained hn (by simp) (by simp) (by simp) rfl reached

theorem define_flagged_allOrNothing (restrained : Restrained eval) (target flag : Tree) :
    AllOrNothing (afterFlag eval [target, tree, flag] m).env
      (Admits eval redefine [target, tree, flag] m)
      (define eval redefine [target, tree, flag] m) := by
  cases ht : target.isName with
  | false =>
    rw [define, targetOf_of_not_isName ht, bind_error (fail_apply _ m)]
    refine .of_error ?_ fun _ _ h => by simp [h.isName] at ht
    simp [afterFlag, ht]
  | true =>
    have after : afterFlag eval [target, tree, flag] m = (eval flag m).2 := if_pos ht
    obtain ⟨token, name, rfl, hn, named⟩ := targetOf_of_isName ht
    by_cases hf : ∃ allowed, (eval flag m).1 = .ok (.boolean allowed)
    · obtain ⟨allowed, hf⟩ := hf
      have evaluated : eval flag m = (.ok (.boolean allowed), (eval flag m).2) := by
        rw [← hf]
      have reached : define eval redefine [.leaf token, tree, flag] m =
          bindName eval (redefine || allowed) token tree (eval flag m).2 := by
        rw [define, named, bind_ok (pure_apply token m),
          bind_ok (flagOf_of_boolean token.line evaluated)]
      refine define_allOrNothing_of_bindName restrained hn (by simp) ?_ (by simp) after reached
      intro flag' h
      cases h
      exact hf
    · obtain ⟨fault, failed⟩ := flagOf_of_not_boolean token.line fun allowed h => hf ⟨allowed, h⟩
      rw [define, named, bind_ok (pure_apply token m), bind_error failed, after]
      exact .of_error rfl fun _ _ h => hf (h.flag flag rfl)

/-- Every definition is all or nothing, if evaluation binds nothing under a definition. -/
theorem define_allOrNothing (restrained : Restrained eval) (redefine : Bool)
    (arguments : List Tree) (m : Machine) :
    AllOrNothing (afterFlag eval arguments m).env (Admits eval redefine arguments m)
      (define eval redefine arguments m) := by
  match arguments with
  | [target, tree] => exact define_plain_allOrNothing restrained target
  | [target, tree, flag] => exact define_flagged_allOrNothing restrained target flag
  | [] => exact .of_error rfl fun _ _ h => by simpa using h.arity
  | [_] => exact .of_error rfl fun _ _ h => by simpa using h.arity
  | _ :: _ :: _ :: _ :: _ => exact .of_error rfl fun _ _ h => by simpa using h.arity

theorem special_allOrNothing (restrained : Restrained eval) (redefine : Bool)
    (arguments : List Tree) (m : Machine) :
    AllOrNothing (afterFlag eval arguments m).env (Admits eval redefine arguments m)
      (special eval (.binding redefine) arguments m) := by
  cases redefine with
  | false => exact define_allOrNothing restrained false arguments m
  | true => exact define_allOrNothing restrained true arguments m

/-- A definition with `define` or `set` succeeds exactly if it has what it needs, and then the name
is bound to the value and nothing else is changed.  If it fails, whether it is refused or its value
fails at any depth, the environment is the one that the flag left. -/
theorem definition_allOrNothing (depth : Nat) (redefine : Bool) (arguments : List Tree)
    (m : Machine) :
    AllOrNothing (afterFlag (evaluate depth) arguments m).env
      (Admits (evaluate depth) redefine arguments m)
      (special (evaluate depth) (.binding redefine) arguments m) :=
  special_allOrNothing (restrained_evaluate depth) redefine arguments m

/-- `(define PI #f #t)` replaces a binding that every program starts with. -/
theorem definition_allOrNothing_constant :
    let arguments : List Tree :=
      [.leaf ⟨0, .identifier "PI"⟩, .leaf ⟨0, .boolean false⟩, .leaf ⟨0, .boolean true⟩]
    let outcome := special (evaluate 1) (.binding false) arguments {}
    Environment.initial.has "PI" = true ∧
      Admits (evaluate 1) false arguments {} "PI" (.boolean false) ∧
      outcome.1 = .ok .null ∧ Environment.initial.Binds "PI" (.boolean false) outcome.2.env := by
  intro arguments outcome
  have admitted : Admits (evaluate 1) false arguments {} "PI" (.boolean false) := by
    refine ⟨Or.inr rfl, ⟨_, rfl, Or.inl rfl⟩, ?_, rfl, Or.inr (Or.inr ⟨_, rfl, rfl⟩), rfl, _, rfl,
      rfl⟩
    intro flag h
    cases h
    exact ⟨true, rfl⟩
  exact ⟨rfl, admitted, (definition_allOrNothing 1 false arguments {}).success _ _ admitted⟩

/-! ## Definitions inside a definition -/

theorem afterFlag_env (restrained : Restrained eval) (arguments : List Tree)
    (h : m.env.defining ≠ none) : (afterFlag eval arguments m).env = m.env := by
  unfold afterFlag
  split
  · split
    · exact restrained _ m h
    · rfl
  · rfl

/-- A definition inside another one ends in a fault. -/
theorem special_of_defining (restrained : Restrained eval) (redefine : Bool)
    (arguments : List Tree) (h : m.env.defining ≠ none) :
    ∃ fault, (special eval (.binding redefine) arguments m).1 = .error fault := by
  have outcome := special_allOrNothing restrained redefine arguments m
  cases hr : (special eval (.binding redefine) arguments m).1 with
  | error fault => exact ⟨fault, rfl⟩
  | ok result =>
    obtain ⟨name, value, admitted⟩ := outcome.succeeds.1 ⟨result, hr⟩
    have idle := admitted.idle
    rw [afterFlag_env restrained arguments h] at idle
    exact absurd idle h

/-- While a definition is in progress, evaluation and calls bind nothing, and at most print.  Every
definition that is run meanwhile ends in a fault, also deep inside the bodies of closures: one that
goes through makes an entry in the journal, and no such entry is made. -/
theorem evaluate_while_defining (depth : Nat) (tree : Tree) (closure : Closure Value)
    (values : List Value) (redefine : Bool) (arguments : List Tree) (m : Machine)
    (h : m.env.defining ≠ none) :
    m.Untouched (evaluate depth tree m).2 ∧
      (∃ lines, (evaluate depth tree m).2.output = m.output ++ lines) ∧
      m.Untouched (call (evaluate depth) closure values m).2 ∧
      (∃ fault, (special (evaluate depth) (.binding redefine) arguments m).1 = .error fault) ∧
      ∀ m' result, (special (evaluate depth) (.binding redefine) arguments m').1 = .ok result →
        ∃ entry, entry.isBinding = true ∧
          (special (evaluate depth) (.binding redefine) arguments m').2.journal.back? =
            some entry := by
  have untouched := untouched_discipline.keeps_evaluate depth
  refine ⟨untouched tree m h, (framed_discipline.keeps_evaluate depth tree m).output,
    untouched_discipline.keeps_call untouched closure values m h,
    special_of_defining (restrained_evaluate depth) redefine arguments h, ?_⟩
  intro m' result hr
  exact (special_allOrNothing (restrained_evaluate depth) redefine arguments m').noted ⟨result, hr⟩

/-- While `a` is being defined, the call `(f)` of a closure with the body `(set x #t)` ends in a
fault that names `a`. -/
theorem evaluate_while_defining_in_body :
    let target : Tree := .leaf ⟨0, .identifier "x"⟩
    let value : Tree := .leaf ⟨0, .boolean true⟩
    let closure : Closure Value :=
      ⟨1, [], .list [.leaf ⟨0, .identifier "set"⟩, target, value], ⟨[]⟩, none⟩
    let m : Machine := { env := ⟨⟨[("f", .closure closure)]⟩, [], some "a"⟩ }
    let tree : Tree := .list [.leaf ⟨0, .identifier "f"⟩]
    m.env.defining ≠ none ∧ (evaluate 3 tree m).1 = .error (.nestedDefine "a") ∧
      m.Untouched (evaluate 3 tree m).2 ∧
      ∃ fault, (special (evaluate 3) (.binding true) [target, value] m).1 = .error fault := by
  intro target value closure m tree
  have marked : m.env.defining ≠ none := by simp [m]
  have held := evaluate_while_defining 3 tree closure [] true [target, value] m marked
  exact ⟨marked, rfl, held.1, held.2.2.2.1⟩

end Eval

end Lisplet
