import Lisplet.Proofs.Definition
import Lisplet.Proofs.Resolution

/-!
# Returned functions

A function that returns a function hands its arguments on: the inner function captures the scope of
the call that made it.  The inner function also gets the name that is being defined at that moment,
which need not be the name of its maker, and in its calls this name is in front of what it
captured.  So a formal of the maker keeps its argument in all calls of the inner function, unless
the inner function was given the name of that formal: then the name stands for the inner function
(`returned_function_resolves`).
-/

namespace Lisplet

/-! ## Programs -/

namespace Tree

/-- `(lambda (formal ...) body)`, by any name of the special form. -/
def IsLambda (tree : Tree) (formals : List String) (body : Tree) : Prop :=
  ∃ (head : Token) (form : String) (parameters : List Token),
    head.name = .ok form ∧ Primitive.named? form = some (.lazy .lambda) ∧
      parameters.map Token.kind = formals.map .identifier ∧
      tree = .list [.leaf head, .list (parameters.map .leaf), body]

/-- `(define name value)`, by any name of the special form. -/
def IsDefinition (tree : Tree) (name : String) (value : Tree) : Prop :=
  ∃ (head : Token) (form : String) (target : Token),
    head.name = .ok form ∧ Primitive.named? form = some (.lazy .define) ∧
      target.name = .ok name ∧ tree = .list [.leaf head, .leaf target, value]

/-- `(function argument ...)`. -/
def IsCall (tree : Tree) (function : String) (arguments : List Tree) : Prop :=
  ∃ head : Token, head.name = .ok function ∧ tree = .list (.leaf head :: arguments)

end Tree

namespace Closure

/-- A closure that was made, on some machine, by
`(lambda (formal ...) (lambda (inner ...) body))`. -/
def IsMaker (make : Closure Value) (formals inner : List String) (body : Tree) : Prop :=
  ∃ (tree nested : Tree) (depth : Nat) (m : Machine),
    tree.IsLambda formals nested ∧ nested.IsLambda inner body ∧
      (evaluate depth tree m).1 = .ok (.closure make)

/-- In every call of a closure a name has a value, as long as nothing was bound in the scope of the
call. -/
def Resolves (c : Closure Value) (name : String) (value : Value) : Prop :=
  ∀ (arguments : List Value) (m : Machine) (depth : Nat) (token : Token),
    m.env.locals.head? = some (c.bindings arguments) → token.name = .ok name →
      evaluate (depth + 1) (.leaf token) m = (.ok value, m)

end Closure

namespace Eval

variable {eval : Tree → Eval Value} {depth : Nat} {m : Machine}

/-! ## Lists -/

/-- The head of a list has to be evaluated, and so a list takes two levels. -/
theorem exists_depth_of_ok {head : Tree} {tail : List Tree} {value : Value} {after : Machine}
    (h : evaluate depth (.list (head :: tail)) m = (.ok value, after)) :
    ∃ levels, depth = levels + 2 := by
  match depth with
  | 0 => cases h
  | 1 => cases h
  | levels + 2 => exact ⟨levels, rfl⟩

theorem evaluate_special {head : Token} {name : String} {form : SpecialForm}
    (named : head.name = .ok name) (reserved : Primitive.named? name = some (.lazy form))
    (tail : List Tree) :
    evaluate (depth + 2) (.list (.leaf head :: tail)) m =
      special (evaluate (depth + 1)) form tail m := by
  have function : evaluate (depth + 1) (.leaf head) m = (.ok (.primitive (.lazy form)), m) := by
    rw [evaluate_name named]
    exact resolve_of_named reserved head.line m
  exact bind_ok function

theorem evaluate_application {head : Token} {name : String} {closure : Closure Value}
    (named : head.name = .ok name) (free : isReserved name = false)
    (bound : m.env.get? name = some (.closure closure)) (tail : List Tree) :
    evaluate (depth + 2) (.list (.leaf head :: tail)) m =
      (valuesOf (evaluate (depth + 1)) tail >>= call (evaluate (depth + 1)) closure) m := by
  have function : evaluate (depth + 1) (.leaf head) m = (.ok (.closure closure), m) := by
    rw [evaluate_name named, resolve_of_free free, bound]
  exact bind_ok function

/-! ## Functions -/

theorem parametersOf?_map_leaf {parameters : List Token} {formals : List String}
    (kinds : parameters.map Token.kind = formals.map .identifier) :
    parametersOf? (parameters.map .leaf) = some parameters ∧ namesOf parameters = pure formals := by
  induction parameters generalizing formals with
  | nil =>
    obtain rfl : formals = [] := List.map_eq_nil_iff.1 kinds.symm
    exact ⟨rfl, rfl⟩
  | cons token parameters ih =>
    obtain ⟨formal, formals, rfl⟩ : ∃ formal rest, formals = formal :: rest := by
      cases formals with
      | nil => cases kinds
      | cons formal rest => exact ⟨formal, rest, rfl⟩
    obtain ⟨kind, kinds⟩ := List.cons.inj kinds
    obtain ⟨rest, names⟩ := ih kinds
    have identifier : token.isIdentifier = true := by simp [Token.isIdentifier, kind]
    have name : nameOf token = pure formal := nameOf_eq_ok (by simp [Token.name, kind])
    constructor
    · simp [parametersOf?, identifier, rest]
    · rw [namesOf, name, names]
      rfl

/-- A function holds the active scope and the name that is being defined. -/
theorem evaluate_lambda {tree body : Tree} {formals : List String}
    (written : tree.IsLambda formals body) :
    evaluate (depth + 2) tree m =
      (.ok (.closure ⟨m.fresh, formals, body, m.env.active, m.env.defining⟩),
        { m with fresh := m.fresh + 1 }) := by
  obtain ⟨head, form, parameters, named, reserved, kinds, rfl⟩ := written
  obtain ⟨tokens, names⟩ := parametersOf?_map_leaf kinds
  have found : parametersOf (.list (parameters.map .leaf)) = pure parameters := by
    simp only [parametersOf, tokens]
  rw [evaluate_special named reserved]
  show lambda [.list (parameters.map .leaf), body] m = _
  rw [lambda, found, bind_ok (pure_apply parameters m), names]
  rfl

theorem closure_of_isMaker {make : Closure Value} {formals inner : List String} {body : Tree}
    (maker : make.IsMaker formals inner body) :
    make.formals = formals ∧ make.body.IsLambda inner body := by
  obtain ⟨tree, nested, depth, m, outer, written, made⟩ := maker
  obtain ⟨levels, rfl⟩ : ∃ levels, depth = levels + 2 := by
    obtain ⟨head, form, parameters, -, -, -, rfl⟩ := outer
    exact exists_depth_of_ok (Prod.ext made rfl)
  rw [evaluate_lambda outer] at made
  cases made
  exact ⟨rfl, written⟩

/-! ## Definitions -/

theorem define_of_name {target : Token} {name : String} (named : target.name = .ok name)
    (redefine : Bool) (value : Tree) :
    define eval redefine [.leaf target, value] m = bindName eval redefine target value m := by
  have isName : target.isName = true := target.isName_iff.2 ⟨name, named⟩
  have found : targetOf (.leaf target) = pure target := if_pos isName
  rw [define, found, bind_ok (pure_apply target m)]

/-- What a definition has done that went through. -/
theorem exists_value_of_defined {tree value : Tree} {name : String} {result : Value}
    {after : Machine} (written : tree.IsDefinition name value)
    (h : evaluate (depth + 1) tree m = (.ok result, after)) :
    ∃ bound m', evaluate depth value (m.begun name) = (.ok bound, m') ∧
      after = m'.completed name bound := by
  obtain ⟨head, form, target, named, reserved, targetName, rfl⟩ := written
  obtain ⟨levels, levelsEq⟩ := exists_depth_of_ok h
  obtain rfl : depth = levels + 1 := by omega
  rw [evaluate_special named reserved] at h
  replace h : bindName (evaluate (levels + 1)) false target value m = (.ok result, after) := by
    rw [← define_of_name targetName false value]
    exact h
  by_cases bindable : Bindable false m name
  · rw [bindName_of_bindable targetName bindable] at h
    obtain ⟨outcome, m', computed⟩ :
        ∃ outcome m', evaluate (levels + 1) value (m.begun name) = (outcome, m') := ⟨_, _, rfl⟩
    rw [computed] at h
    cases outcome with
    | error fault => cases h
    | ok bound =>
      obtain ⟨-, rfl⟩ := Prod.mk.inj h
      exact ⟨bound, m', computed, rfl⟩
  · obtain ⟨fault, refused⟩ : ∃ fault,
        bindName (evaluate (levels + 1)) false target value m = (.error fault, m) :=
      bindName_of_not_bindable targetName bindable
    rw [refused] at h
    cases h

theorem get?_completed (m : Machine) (name : String) (value : Value) :
    (m.completed name value).env.get? name = some value := by
  have active : (m.env.set name value).active.get? name = some value := by
    rw [(m.env.binds_set name value).active name, if_pos rfl]
  show (m.env.set name value).get? name = some value
  rw [Environment.get?_eq_or, active, Option.some_or]

/-! ## Returned functions -/

/-- While a name is being defined, a maker returns a function that holds the scope of the call and
has that name for its own. -/
theorem exists_returned {make : Closure Value} {inner : List String} {body : Tree}
    (nested : make.body.IsLambda inner body) {function name : String} {call : Tree}
    {arguments : List Tree} (applied : call.IsCall function arguments)
    (free : isReserved function = false) (bound : m.env.get? function = some (.closure make))
    (marked : m.env.defining = some name) {result : Value} {after : Machine}
    (h : evaluate (depth + 1) call m = (.ok result, after)) :
    ∃ values returned, (valuesOf (evaluate depth) arguments m).1 = .ok values ∧
      result = .closure returned ∧ returned.formals = inner ∧
      returned.captured = make.bindings values ∧ returned.selfName = some name := by
  obtain ⟨head, named, rfl⟩ := applied
  obtain ⟨levels, levelsEq⟩ := exists_depth_of_ok h
  obtain rfl : depth = levels + 1 := by omega
  rw [evaluate_application named free bound] at h
  obtain ⟨outcome, m', computed⟩ :
      ∃ outcome m', valuesOf (evaluate (levels + 1)) arguments m = (outcome, m') := ⟨_, _, rfl⟩
  cases outcome with
  | error fault =>
    rw [bind_error computed] at h
    cases h
  | ok values =>
    -- The arguments bind nothing, because a definition is in progress.
    have kept : m'.env.defining = some name := by
      have untouched := untouched_discipline.keeps_valuesOf
        (untouched_discipline.keeps_evaluate (levels + 1)) arguments m (by simp [marked])
      rw [computed] at untouched
      rw [untouched.env, marked]
    rw [bind_ok computed, call_apply] at h
    have made : (evaluate (levels + 1) make.body (m'.entered make values)).1 = .ok result :=
      congrArg Prod.fst h
    obtain ⟨k, kEq⟩ : ∃ k, levels + 1 = k + 2 := by
      obtain ⟨head, form, parameters, -, -, -, written⟩ := nested
      rw [written] at made
      exact exists_depth_of_ok (Prod.ext made rfl)
    rw [kEq, evaluate_lambda nested] at made
    exact ⟨values, _, by rw [computed], (Except.ok.inj made).symm, rfl, rfl, kept⟩

theorem resolves_of_captured {make returned : Closure Value} {values : List Value}
    {p name : String} {i : Nat} (free : isReserved p = false)
    (last : IsLastIndex make.formals p i) (other : p ∉ returned.formals)
    (captured : returned.captured = make.bindings values)
    (selfName : returned.selfName = some name) :
    returned.Resolves p
      (if name = p then .closure returned else values[i]?.getD .null) := by
  intro arguments m depth token top named
  rw [evaluate_name named]
  refine resolve_of_means top ?_
  by_cases own : name = p
  · rw [if_pos own]
    exact .self free other (by rw [selfName, own])
  · rw [if_neg own]
    refine .captured free other (fun h => own (Option.some.inj (selfName.symm.trans h))) ?_
    rw [captured]
    exact Closure.get?_bindFormals_of_isLastIndex last values make.selfScope

/-- Let `make` be made by `(lambda (formal ...) (lambda (inner ...) body))`, and let `p` occur once
among its formals, in place `i`, and not among the inner ones.  After `(define g (make ...))` has
gone through, `p` stands in all calls of `g` for the argument in place `i` that `make` was called
with, if `g` is another name than `p`.  If `g` is `p`, it stands for the returned function. -/
theorem returned_function_resolves {make : Closure Value} {formals inner : List String}
    {body : Tree} (maker : make.IsMaker formals inner body) {p : String} {i : Nat}
    (free : isReserved p = false) (place : formals[i]? = some p)
    (once : ∀ j, formals[j]? = some p → j = i) (other : p ∉ inner) {m after : Machine}
    {function g : String} (unreserved : isReserved function = false)
    (bound : m.env.get? function = some (.closure make)) {call tree : Tree}
    {arguments : List Tree} (applied : call.IsCall function arguments)
    (definition : tree.IsDefinition g call) {result : Value}
    (defined : evaluate (depth + 2) tree m = (.ok result, after)) :
    ∃ values returned, (valuesOf (evaluate depth) arguments (m.begun g)).1 = .ok values ∧
      after.env.get? g = some (.closure returned) ∧
      returned.Resolves p (if g = p then .closure returned else values[i]?.getD .null) := by
  obtain ⟨formalsEq, nested⟩ := closure_of_isMaker maker
  have last : IsLastIndex make.formals p i :=
    ⟨by rw [formalsEq, place], fun j later found => by
      rw [formalsEq] at found
      exact (Nat.ne_of_gt later) (once j found)⟩
  obtain ⟨value, m', computed, rfl⟩ := exists_value_of_defined definition defined
  obtain ⟨values, returned, passed, rfl, innerEq, captured, selfName⟩ :=
    exists_returned (m := m.begun g) nested applied unreserved bound rfl computed
  refine ⟨values, returned, passed, get?_completed m' g _, ?_⟩
  exact resolves_of_captured free last (innerEq ▸ other) captured selfName

/-! ## A function that returns what its maker was given -/

/-- `(lambda (b) a)`. -/
def constant : Tree :=
  .list [.leaf ⟨0, .identifier "lambda"⟩, .list [.leaf ⟨0, .identifier "b"⟩],
    .leaf ⟨0, .identifier "a"⟩]

/-- `(lambda (a) (lambda (b) a))`. -/
def constantMaker : Tree :=
  .list [.leaf ⟨0, .identifier "lambda"⟩, .list [.leaf ⟨0, .identifier "a"⟩], constant]

/-- `(define name value)`. -/
def definitionOf (name : String) (value : Tree) : Tree :=
  .list [.leaf ⟨0, .identifier "define"⟩, .leaf ⟨0, .identifier name⟩, value]

/-- `(make #t)`. -/
def makeTrue : Tree := .list [.leaf ⟨0, .identifier "make"⟩, .leaf ⟨0, .boolean true⟩]

/-- A fresh machine after `(define make (lambda (a) (lambda (b) a)))`. -/
def withMake : Machine := (evaluate 3 (definitionOf "make" constantMaker) {}).2

/-- What `make` is bound to there. -/
def makeClosure : Closure Value :=
  ⟨1, ["a"], constant, Environment.constants, some "make"⟩

theorem isMaker_makeClosure :
    makeClosure.IsMaker ["a"] ["b"] (.leaf ⟨0, .identifier "a"⟩) := by
  refine ⟨constantMaker, constant, 2, Machine.begun {} "make", ?_, ?_, rfl⟩
  · exact ⟨_, "lambda", [⟨0, .identifier "a"⟩], rfl, rfl, rfl, rfl⟩
  · exact ⟨_, "lambda", [⟨0, .identifier "b"⟩], rfl, rfl, rfl, rfl⟩

theorem get?_withMake : withMake.env.get? "make" = some (.closure makeClosure) := rfl

/-- After `(define f (make #t))`, in every call of `f` the name `a` stands for `#t`. -/
theorem returned_function_resolves_other_name :
    let defined := evaluate 4 (definitionOf "f" makeTrue) withMake
    withMake.env.get? "make" = some (.closure makeClosure) ∧ defined.1 = .ok .null ∧
      ∃ returned, defined.2.env.get? "f" = some (.closure returned) ∧
        returned.Resolves "a" (.boolean true) := by
  intro defined
  have once : ∀ j, (["a"] : List String)[j]? = some "a" → j = 0 := fun j found => by
    obtain ⟨short, -⟩ := List.getElem?_eq_some_iff.1 found
    exact Nat.lt_one_iff.1 short
  have applied : makeTrue.IsCall "make" [.leaf ⟨0, .boolean true⟩] := ⟨_, rfl, rfl⟩
  have definition : (definitionOf "f" makeTrue).IsDefinition "f" makeTrue :=
    ⟨_, "define", _, rfl, rfl, rfl, rfl⟩
  have goes : evaluate 4 (definitionOf "f" makeTrue) withMake = (.ok .null, defined.2) :=
    Prod.ext rfl rfl
  obtain ⟨values, returned, passed, bound, resolves⟩ :=
    returned_function_resolves isMaker_makeClosure (by decide) rfl once (by decide) (by decide)
      get?_withMake applied definition goes
  obtain rfl : [Value.boolean true] = values := Except.ok.inj passed
  exact ⟨get?_withMake, rfl, returned, bound, resolves⟩

/-- After `(define a (make #t))`, which goes through because `a` is not bound, the name `a` does not
stand for `#t` in the calls of `a`. -/
theorem returned_function_hides_argument :
    let defined := evaluate 4 (definitionOf "a" makeTrue) withMake
    makeClosure.IsMaker ["a"] ["b"] (.leaf ⟨0, .identifier "a"⟩) ∧
      withMake.env.get? "make" = some (.closure makeClosure) ∧ withMake.env.get? "a" = none ∧
      defined.1 = .ok .null ∧
      ∃ returned, defined.2.env.get? "a" = some (.closure returned) ∧
        ¬ returned.Resolves "a" (.boolean true) := by
  intro defined
  refine ⟨isMaker_makeClosure, get?_withMake, rfl, rfl,
    ⟨2, ["b"], .leaf ⟨0, .identifier "a"⟩, makeClosure.bindings [.boolean true], some "a"⟩,
    rfl, fun resolves => ?_⟩
  have called := resolves [] (defined.2.entered _ []) 0 ⟨0, .identifier "a"⟩ rfl rfl
  cases congrArg Prod.fst called

end Eval

end Lisplet
