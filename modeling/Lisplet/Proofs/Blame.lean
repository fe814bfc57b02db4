import Lisplet.Proofs.Definition

/-!
# Where calls of what is no function are blamed

The fault of a call whose head is no function names the line of the first token of that head.  A
tree may well have no first token (`Tree.line?` gives up at an empty list), but such a tree has no
value either: the value of a list needs the value of its first item, and so on down to a token
(`exists_token_of_ok`).

To say which call a fault is about, the evaluations inside an evaluation are listed: those that one
step asks for (`Asks`), and those that the whole evaluation comes to (`Visits`).  No fault is caught
on the way, so the fault of a visited call is the fault of the whole evaluation, and the other way
round (`raises_step_iff`, `raises_evaluate_iff`).
-/

namespace Lisplet

namespace Eval

variable {α β : Type}

/-! ## Faults of computations -/

/-- The two parts of a computation that ends in a value. -/
theorem exists_of_bind_ok {x : Eval α} {f : α → Eval β} {b : β} {m m' : Machine}
    (h : (x >>= f) m = (.ok b, m')) : ∃ a m₁, x m = (.ok a, m₁) ∧ f a m₁ = (.ok b, m') := by
  rw [bind_apply] at h
  split at h
  next a m₁ first => exact ⟨a, m₁, first, h⟩
  next => cases h

/-- A computation ends in a fault. -/
def Raises (fault : EvalFault) (x : Eval α) (m : Machine) : Prop := (x m).1 = .error fault

variable {fault : EvalFault} {m m' : Machine}

@[simp]
theorem not_raises_pure (a : α) : ¬ Raises fault (pure a : Eval α) m := by
  rintro ⟨⟩

@[simp]
theorem raises_fail_iff {fault' : EvalFault} :
    Raises fault (fail fault' : Eval α) m ↔ fault' = fault := by
  simp [Raises, fail_apply]

theorem raises_bind_iff {x : Eval α} {f : α → Eval β} :
    Raises fault (x >>= f) m ↔
      Raises fault x m ∨ ∃ a m', x m = (.ok a, m') ∧ Raises fault (f a) m' := by
  unfold Raises
  rw [bind_apply]
  obtain ⟨result, m₁⟩ := x m
  cases result with
  | error fault' => simp
  | ok a =>
    constructor
    · exact fun later => .inr ⟨a, m₁, rfl, later⟩
    · rintro (failed | ⟨a', m₂, same, later⟩)
      · cases failed
      · cases same
        exact later

@[simp]
theorem not_raises_environment : ¬ Raises fault environment m := by
  rintro ⟨⟩

@[simp]
theorem not_raises_freshMark : ¬ Raises fault freshMark m := by
  rintro ⟨⟩

/-! ## What one step asks for -/

section Asks

variable (eval : Tree → Eval Value)

/-- The trees that a definition evaluates: its flag, and the tree of its value, if the name can be
bound. -/
inductive DefineAsks (redefine : Bool) : List Tree → Machine → Tree → Machine → Prop where
  | flag {target tree flag : Tree} {m : Machine} (named : target.isName = true) :
    DefineAsks redefine [target, tree, flag] m flag m
  | value {token : Token} {name : String} {tree : Tree} {m : Machine}
    (named : token.name = .ok name) (bindable : Bindable redefine m name) :
    DefineAsks redefine [.leaf token, tree] m tree (m.begun name)
  | flagged {token : Token} {name : String} {tree flag : Tree} {allowed : Bool} {m m' : Machine}
    (named : token.name = .ok name) (permission : eval flag m = (.ok (.boolean allowed), m'))
    (bindable : Bindable (redefine || allowed) m' name) :
    DefineAsks redefine [.leaf token, tree, flag] m tree (m'.begun name)

/-- The trees that a branch evaluates: its condition, and what is chosen by it. -/
inductive BranchAsks : List Tree → Machine → Tree → Machine → Prop where
  | condition {condition whenTrue : Tree} {rest : List Tree} {m : Machine}
    (arity : rest.length ≤ 1) : BranchAsks (condition :: whenTrue :: rest) m condition m
  | whenTrue {condition whenTrue : Tree} {rest : List Tree} {value : Value} {m m' : Machine}
    (arity : rest.length ≤ 1) (decided : eval condition m = (.ok value, m'))
    (holds : value.isTrue = true) :
    BranchAsks (condition :: whenTrue :: rest) m whenTrue m'
  | whenFalse {condition whenTrue whenFalse : Tree} {value : Value} {m m' : Machine}
    (decided : eval condition m = (.ok value, m')) (fails : value.isTrue = false) :
    BranchAsks [condition, whenTrue, whenFalse] m whenFalse m'

/-- The trees that a special form evaluates. -/
def FormAsks : SpecialForm → List Tree → Machine → Tree → Machine → Prop
  | .lambda, _, _, _, _ => False
  | .define, arguments, m, tree, m' => DefineAsks eval false arguments m tree m'
  | .set, arguments, m, tree, m' => DefineAsks eval true arguments m tree m'
  | .branch, arguments, m, tree, m' => BranchAsks eval arguments m tree m'

/-- One of some trees is evaluated, after those to the left of it had values. -/
def ItemAsks (trees : List Tree) (m : Machine) (tree : Tree) (m' : Machine) : Prop :=
  ∃ before after values, trees = before ++ tree :: after ∧
    valuesOf eval before m = (.ok values, m')

/-- The trees that a call evaluates after its head: those that a special form asks for, or all
arguments, and then the body of a closure. -/
inductive CallAsks : Value → List Tree → Machine → Tree → Machine → Prop where
  | form {form : SpecialForm} {tail : List Tree} {tree : Tree} {m m' : Machine}
    (asks : FormAsks eval form tail m tree m') :
    CallAsks (.primitive (.lazy form)) tail m tree m'
  | argument {function : Value} {tail : List Tree} {tree : Tree} {m m' : Machine}
    (callable : function.isCallable = true) (eager : function.isLazy = false)
    (asks : ItemAsks eval tail m tree m') : CallAsks function tail m tree m'
  | body {closure : Closure Value} {tail : List Tree} {values : List Value} {m m' : Machine}
    (arguments : valuesOf eval tail m = (.ok values, m')) :
    CallAsks (.closure closure) tail m closure.body (m'.entered closure values)

/-- The step for a tree, on some machine, asks for the evaluation of another tree on another
machine. -/
inductive Asks : Tree → Machine → Tree → Machine → Prop where
  | head {head : Tree} {tail : List Tree} {m : Machine} : Asks (.list (head :: tail)) m head m
  | call {head tree : Tree} {tail : List Tree} {function : Value} {m m₁ m' : Machine}
    (evaluated : eval head m = (.ok function, m₁)) (asks : CallAsks eval function tail m₁ tree m') :
    Asks (.list (head :: tail)) m tree m'

end Asks

/-- The evaluation of a tree comes to the evaluation of a tree inside it, or of its own. -/
inductive Visits : Nat → Tree → Machine → Nat → Tree → Machine → Prop where
  | self (depth : Nat) (tree : Tree) (m : Machine) : Visits depth tree m depth tree m
  | inside {depth depth' : Nat} {tree tree₁ tree' : Tree} {m m₁ m' : Machine}
    (asks : Asks (evaluate depth) tree m tree₁ m₁) (rest : Visits depth tree₁ m₁ depth' tree' m') :
    Visits (depth + 1) tree m depth' tree' m'

/-- The evaluation of a tree comes to a list whose head has a value that is no function. -/
def CallsNonFunction (depth : Nat) (tree : Tree) (m : Machine) (head : Tree) (value : Value) :
    Prop :=
  ∃ inner tail m', Visits depth tree m (inner + 1) (.list (head :: tail)) m' ∧
    (evaluate inner head m').1 = .ok value ∧ value.isCallable = false

/-! ## Faults of the parts of a step -/

section Step

variable {eval : Tree → Eval Value} {value : Value} {line : Option Nat}

/-- Operations on values have faults of their own only. -/
theorem not_raises_operate (operation : Operation) (arguments : List Value) :
    ¬ Raises (.notFunction value line) (operate operation arguments) m := by
  have numbers : numbersOf operation arguments ≠ .error (.notFunction value line) := by
    induction arguments with
    | nil => simp [numbersOf]
    | cons argument rest ih =>
      cases argument with
      | number x =>
        rw [numbersOf]
        cases hr : numbersOf operation rest with
        | error fault =>
          rw [hr] at ih
          exact ih
        | ok xs => simp [Except.map]
      | _ => simp [numbersOf]
  have fresh (x : Float) (m : Machine) : ¬ Raises (.notFunction value line) (freshNumber x) m := by
    rintro ⟨⟩
  have calculated (calculate : List Float → Eval Value)
      (hc : ∀ xs, ¬ Raises (.notFunction value line) (calculate xs) m) :
      ¬ Raises (.notFunction value line) (arithmetic operation arguments calculate) m := by
    unfold arithmetic
    cases hn : numbersOf operation arguments with
    | error fault =>
      rw [hn] at numbers
      simpa using numbers
    | ok xs => exact hc xs
  cases operation with
  | add => exact calculated _ fun _ => fresh _ m
  | mul => exact calculated _ fun _ => fresh _ m
  | sub =>
    refine calculated _ fun xs => ?_
    unfold difference
    split
    · exact not_raises_pure _
    · exact fresh _ m
    · exact fresh _ m
  | div =>
    refine calculated _ fun xs => ?_
    split
    · exact not_raises_pure _
    · exact fresh _ m
  | equal => exact not_raises_pure _
  | write => rintro ⟨⟩
  | block => exact not_raises_pure _

theorem not_raises_nameOf (token : Token) :
    ¬ Raises (.notFunction value line) (nameOf token) m := by
  unfold nameOf
  cases token.name with
  | ok name => exact not_raises_pure name
  | error fault => simp

theorem not_raises_namesOf (tokens : List Token) :
    ¬ Raises (.notFunction value line) (namesOf tokens) m := by
  induction tokens generalizing m with
  | nil => exact not_raises_pure _
  | cons token tokens ih => simp [namesOf, raises_bind_iff, not_raises_nameOf, ih]

theorem not_raises_atom (token : Token) : ¬ Raises (.notFunction value line) (atom token) m := by
  have resolved (name : String) (m : Machine) :
      ¬ Raises (.notFunction value line) (resolve name token.line) m := by
    unfold resolve
    cases Primitive.named? name with
    | some p => exact not_raises_pure _
    | none =>
      simp only [raises_bind_iff, not_raises_environment, false_or]
      rintro ⟨env, m', -, failed⟩
      split at failed <;> simp at failed
  unfold atom
  cases Value.ofToken? token with
  | some literal => exact not_raises_pure literal
  | none =>
    dsimp only
    split
    · simp [raises_bind_iff, not_raises_nameOf, resolved]
    · simp

theorem not_raises_lambda (arguments : List Tree) :
    ¬ Raises (.notFunction value line) (lambda arguments) m := by
  have parameters (tree : Tree) (m : Machine) :
      ¬ Raises (.notFunction value line) (parametersOf tree) m := by
    unfold parametersOf
    split
    · simp
    · split <;> simp
  unfold lambda
  split
  · simp [raises_bind_iff, parameters, not_raises_namesOf]
  · simp

/-- A value is computed only for a name that can be bound. -/
theorem raises_bindName_iff {redefine : Bool} {token : Token} {name : String} {tree : Tree}
    (named : token.name = .ok name) :
    Raises (.notFunction value line) (bindName eval redefine token tree) m ↔
      Bindable redefine m name ∧ Raises (.notFunction value line) (eval tree) (m.begun name) := by
  by_cases bindable : Bindable redefine m name
  · simp only [bindable, true_and, Raises, bindName_of_bindable named bindable]
    cases hv : eval tree (m.begun name) with
    | mk result m' => cases result <;> simp
  · simp only [bindable, false_and, iff_false, Raises, bindName_apply eval redefine named]
    split_ifs with reserved bound
    · simp
    · simp
    cases hd : m.env.defining with
    | some current => simp
    | none =>
      refine absurd ⟨by simpa using reserved, ?_, hd⟩ bindable
      cases redefine <;> simp_all

theorem flagOf_eq_ok_iff {flag : Tree} {line : Nat} {allowed : Bool} :
    flagOf eval flag line m = (.ok allowed, m') ↔ eval flag m = (.ok (.boolean allowed), m') := by
  constructor
  · intro h
    obtain ⟨v, m₁, evaluated, read⟩ := exists_of_bind_ok h
    cases v with
    | boolean b =>
      cases read
      exact evaluated
    | _ => cases read
  · exact flagOf_of_boolean line

theorem raises_flagOf_iff {flag : Tree} {flagLine : Nat} :
    Raises (.notFunction value line) (flagOf eval flag flagLine) m ↔
      Raises (.notFunction value line) (eval flag) m := by
  unfold flagOf
  rw [raises_bind_iff, or_iff_left]
  rintro ⟨v, m₁, -, failed⟩
  split at failed <;> simp at failed

theorem DefineAsks.isName {redefine : Bool} {target tree : Tree} {rest : List Tree}
    (h : DefineAsks eval redefine (target :: rest) m tree m') : target.isName = true := by
  cases h with
  | flag named => exact named
  | value named bindable => exact (Token.isName_iff _).2 ⟨_, named⟩
  | flagged named permission bindable => exact (Token.isName_iff _).2 ⟨_, named⟩

/-- A definition without a name for a target evaluates nothing. -/
theorem raises_define_of_not_isName {redefine : Bool} {target tree : Tree} {rest : List Tree}
    (nameless : target.isName = false) (arity : rest.length ≤ 1) :
    Raises (.notFunction value line) (define eval redefine (target :: tree :: rest)) m ↔
      ∃ asked m', DefineAsks eval redefine (target :: tree :: rest) m asked m' ∧
        Raises (.notFunction value line) (eval asked) m' := by
  refine iff_of_false ?_ ?_
  · match rest with
    | [] | [_] => simp [define, targetOf_of_not_isName nameless, Raises, bind_apply, fail_apply]
    | _ :: _ :: _ => simp at arity
  · rintro ⟨asked, m', asks, -⟩
    cases nameless.symm.trans asks.isName

theorem raises_define_plain_iff {redefine : Bool} {target tree : Tree} :
    Raises (.notFunction value line) (define eval redefine [target, tree]) m ↔
      ∃ asked m', DefineAsks eval redefine [target, tree] m asked m' ∧
        Raises (.notFunction value line) (eval asked) m' := by
  cases isName : target.isName with
  | false => exact raises_define_of_not_isName isName (by simp)
  | true =>
    obtain ⟨token, name, rfl, named, found⟩ := targetOf_of_isName isName
    have same : define eval redefine [.leaf token, tree] = bindName eval redefine token tree := by
      rw [define, found]
      rfl
    rw [same, raises_bindName_iff named]
    constructor
    · rintro ⟨bindable, failed⟩
      exact ⟨tree, _, .value named bindable, failed⟩
    · rintro ⟨asked, m', asks, failed⟩
      cases asks with
      | value named' bindable =>
        cases named.symm.trans named'
        exact ⟨bindable, failed⟩

theorem raises_define_flagged_iff {redefine : Bool} {target tree flag : Tree} :
    Raises (.notFunction value line) (define eval redefine [target, tree, flag]) m ↔
      ∃ asked m', DefineAsks eval redefine [target, tree, flag] m asked m' ∧
        Raises (.notFunction value line) (eval asked) m' := by
  cases isName : target.isName with
  | false => exact raises_define_of_not_isName isName (by simp)
  | true =>
    obtain ⟨token, name, rfl, named, found⟩ := targetOf_of_isName isName
    have same : define eval redefine [.leaf token, tree, flag] =
        flagOf eval flag token.line >>= fun allowed =>
          bindName eval (redefine || allowed) token tree := by
      rw [define, found]
      rfl
    simp only [same, raises_bind_iff, raises_flagOf_iff, flagOf_eq_ok_iff,
      raises_bindName_iff named]
    constructor
    · rintro (failed | ⟨allowed, m₁, permission, bindable, failed⟩)
      · exact ⟨flag, m, .flag isName, failed⟩
      · exact ⟨tree, _, .flagged named permission bindable, failed⟩
    · rintro ⟨asked, m', asks, failed⟩
      cases asks with
      | flag => exact .inl failed
      | flagged named' permission bindable =>
        cases named.symm.trans named'
        exact .inr ⟨_, _, permission, bindable, failed⟩

theorem raises_define_iff (redefine : Bool) (arguments : List Tree) :
    Raises (.notFunction value line) (define eval redefine arguments) m ↔
      ∃ asked m', DefineAsks eval redefine arguments m asked m' ∧
        Raises (.notFunction value line) (eval asked) m' := by
  match arguments with
  | [target, tree] => exact raises_define_plain_iff
  | [target, tree, flag] => exact raises_define_flagged_iff
  | [] | [_] | _ :: _ :: _ :: _ :: _ =>
    simp only [define, raises_fail_iff, reduceCtorEq, false_iff]
    rintro ⟨asked, m', ⟨⟩, -⟩

/-- A branch fails in its condition or in what is chosen by it. -/
theorem raises_branch_cons_iff {condition whenTrue : Tree} {rest : List Tree}
    (arity : rest.length ≤ 1) :
    Raises (.notFunction value line) (branch eval (condition :: whenTrue :: rest)) m ↔
      Raises (.notFunction value line) (eval condition) m ∨
        ∃ v m', eval condition m = (.ok v, m') ∧
          ∃ chosen ∈ if v.isTrue then some whenTrue else rest.head?,
            Raises (.notFunction value line) (eval chosen) m' := by
  match rest with
  | [] | [_] =>
    rw [branch, raises_bind_iff]
    refine or_congr_right (exists₂_congr fun v m' => and_congr_right fun _ => ?_)
    cases v.isTrue <;> simp
  | _ :: _ :: _ => simp at arity

theorem raises_branch_iff (arguments : List Tree) :
    Raises (.notFunction value line) (branch eval arguments) m ↔
      ∃ asked m', BranchAsks eval arguments m asked m' ∧
        Raises (.notFunction value line) (eval asked) m' := by
  constructor
  · intro failed
    match arguments with
    | [] | [_] | _ :: _ :: _ :: _ :: _ => simp [branch] at failed
    | [condition, whenTrue] | [condition, whenTrue, _] =>
      rcases (raises_branch_cons_iff (by simp)).1 failed with
        early | ⟨v, m₁, decided, chosen, mem, later⟩
      · exact ⟨condition, m, .condition (by simp), early⟩
      · split_ifs at mem with holds
        · cases mem
          exact ⟨whenTrue, m₁, .whenTrue (by simp) decided holds, later⟩
        · cases mem <;> exact ⟨_, m₁, .whenFalse decided (by simpa using holds), later⟩
  · rintro ⟨asked, m', asks, failed⟩
    cases asks with
    | condition arity => exact (raises_branch_cons_iff arity).2 (.inl failed)
    | whenTrue arity decided holds =>
      exact (raises_branch_cons_iff arity).2 (.inr ⟨_, m', decided, asked, by simp [holds], failed⟩)
    | whenFalse decided fails =>
      refine (raises_branch_cons_iff (by simp)).2 (.inr ⟨_, m', decided, asked, ?_, failed⟩)
      simp [fails]

theorem raises_special_iff (form : SpecialForm) (arguments : List Tree) :
    Raises (.notFunction value line) (special eval form arguments) m ↔
      ∃ asked m', FormAsks eval form arguments m asked m' ∧
        Raises (.notFunction value line) (eval asked) m' := by
  cases form with
  | lambda => exact iff_of_false (not_raises_lambda arguments) (by simp [FormAsks])
  | define => exact raises_define_iff false arguments
  | set => exact raises_define_iff true arguments
  | branch => exact raises_branch_iff arguments

theorem raises_valuesOf_iff (trees : List Tree) :
    Raises fault (valuesOf eval trees) m ↔
      ∃ asked m', ItemAsks eval trees m asked m' ∧ Raises fault (eval asked) m' := by
  induction trees generalizing m with
  | nil => simp [valuesOf, ItemAsks]
  | cons first rest ih =>
    simp only [valuesOf, raises_bind_iff, ih, not_raises_pure, and_false, exists_false, or_false]
    constructor
    · rintro (failed | ⟨v, m₁, evaluated, asked, m', ⟨before, after, vs, rfl, earlier⟩, failed⟩)
      · exact ⟨first, m, ⟨[], rest, [], rfl, rfl⟩, failed⟩
      · refine ⟨asked, m', ⟨first :: before, after, v :: vs, rfl, ?_⟩, failed⟩
        rw [valuesOf, bind_ok evaluated, bind_ok earlier, pure_apply]
    · rintro ⟨asked, m', ⟨before, after, vs, split, earlier⟩, failed⟩
      cases before with
      | nil =>
        cases split
        cases earlier
        exact .inl failed
      | cons _ before =>
        cases split
        obtain ⟨v, m₁, evaluated, earlier⟩ := exists_of_bind_ok earlier
        obtain ⟨vs', m₂, earlier, made⟩ := exists_of_bind_ok earlier
        cases made
        exact .inr ⟨v, m₁, evaluated, asked, m', ⟨before, after, vs', rfl, earlier⟩, failed⟩

/-! ## Faults of steps and of evaluations -/

theorem CallAsks.isCallable {function : Value} {tail : List Tree} {tree : Tree}
    (h : CallAsks eval function tail m tree m') : function.isCallable = true := by
  cases h with
  | form asks => rfl
  | argument callable eager asks => exact callable
  | body arguments => rfl

theorem raises_lazy_iff {function : Value} {tail : List Tree} (isLazy : function.isLazy = true) :
    Raises (.notFunction value line) (apply eval function (.trees tail)) m ↔
      ∃ asked m', CallAsks eval function tail m asked m' ∧
        Raises (.notFunction value line) (eval asked) m' := by
  match function with
  | .primitive (.lazy form) =>
    refine (raises_special_iff form tail).trans ⟨?_, ?_⟩
    · rintro ⟨asked, m', asks, failed⟩
      exact ⟨asked, m', .form asks, failed⟩
    · rintro ⟨asked, m', asks, failed⟩
      cases asks with
      | form asks => exact ⟨asked, m', asks, failed⟩
      | argument callable eager asks => cases eager

theorem raises_eager_iff {function : Value} {tail : List Tree}
    (callable : function.isCallable = true) (eager : function.isLazy = false) :
    Raises (.notFunction value line)
        (valuesOf eval tail >>= fun values => apply eval function (.values values)) m ↔
      ∃ asked m', CallAsks eval function tail m asked m' ∧
        Raises (.notFunction value line) (eval asked) m' := by
  rw [raises_bind_iff, raises_valuesOf_iff]
  constructor
  · rintro (⟨asked, m', asks, failed⟩ | ⟨values, m₁, arguments, failed⟩)
    · exact ⟨asked, m', .argument callable eager asks, failed⟩
    · match function with
      | .closure closure => exact ⟨closure.body, _, .body arguments, failed⟩
      | .primitive (.eager operation) => exact absurd failed (not_raises_operate operation values)
  · rintro ⟨asked, m', asks, failed⟩
    cases asks with
    | form asks => cases eager
    | argument callable eager asks => exact .inl ⟨asked, m', asks, failed⟩
    | body arguments => exact .inr ⟨_, _, arguments, failed⟩

/-- A call whose head has a value has the fault that this is no function, or the faults of what it
asks for. -/
theorem raises_call_iff {head : Tree} {tail : List Tree} {function : Value} {m₁ : Machine}
    (evaluated : eval head m = (.ok function, m₁)) :
    Raises (.notFunction value line) (step eval (.list (head :: tail))) m ↔
      (function = value ∧ value.isCallable = false ∧ line = head.line?) ∨
        ∃ asked m', CallAsks eval function tail m₁ asked m' ∧
          Raises (.notFunction value line) (eval asked) m' := by
  rw [Raises, step, bind_ok evaluated]
  cases callable : function.isCallable with
  | false =>
    constructor
    · rintro ⟨⟩
      exact .inl ⟨rfl, callable, rfl⟩
    · rintro (⟨rfl, -, rfl⟩ | ⟨asked, m', asks, -⟩)
      · rfl
      · cases callable.symm.trans asks.isCallable
  | true =>
    have function_ne : ¬ (function = value ∧ value.isCallable = false ∧ line = head.line?) := by
      rintro ⟨rfl, noFunction, -⟩
      cases callable.symm.trans noFunction
    rw [or_iff_right function_ne]
    cases isLazy : function.isLazy with
    | true => exact raises_lazy_iff isLazy
    | false => exact raises_eager_iff callable isLazy

/-- A step has the fault of a head that is no function, or the fault of an evaluation that it asks
for, and every such fault is its own. -/
theorem raises_step_iff {tree : Tree} :
    Raises (.notFunction value line) (step eval tree) m ↔
      (∃ head tail, tree = .list (head :: tail) ∧ (eval head m).1 = .ok value ∧
        value.isCallable = false ∧ line = head.line?) ∨
      ∃ asked m', Asks eval tree m asked m' ∧
        Raises (.notFunction value line) (eval asked) m' := by
  match tree with
  | .leaf token =>
    refine iff_of_false (not_raises_atom token) ?_
    rintro (⟨head, tail, ⟨⟩, -⟩ | ⟨asked, m', ⟨⟩, -⟩)
  | .list [] =>
    refine iff_of_false (by simp [step]) ?_
    rintro (⟨head, tail, ⟨⟩, -⟩ | ⟨asked, m', ⟨⟩, -⟩)
  | .list (head :: tail) =>
    constructor
    · intro failed
      rcases raises_bind_iff.1 failed with early | ⟨function, m₁, evaluated, -⟩
      · exact .inr ⟨head, m, .head, early⟩
      · rcases (raises_call_iff evaluated).1 failed with
          ⟨rfl, noFunction⟩ | ⟨asked, m', asks, later⟩
        · exact .inl ⟨head, tail, rfl, congrArg Prod.fst evaluated, noFunction⟩
        · exact .inr ⟨asked, m', .call evaluated asks, later⟩
    · rintro (⟨_, _, ⟨⟩, evaluated, noFunction⟩ | ⟨asked, m', asks, failed⟩)
      · exact (raises_call_iff (Prod.ext evaluated rfl)).2 (.inl ⟨rfl, noFunction⟩)
      · cases asks with
        | head => exact raises_bind_iff.2 (.inl failed)
        | call evaluated asks =>
          exact (raises_call_iff evaluated).2 (.inr ⟨asked, m', asks, failed⟩)

end Step

variable {depth depth' : Nat} {tree tree' : Tree} {value : Value} {line : Option Nat}

/-- The fault of a visited call is the fault of the whole evaluation. -/
theorem Visits.raises (h : Visits depth tree m depth' tree' m')
    (failed : Raises (.notFunction value line) (evaluate depth' tree') m') :
    Raises (.notFunction value line) (evaluate depth tree) m := by
  induction h with
  | self depth tree m => exact failed
  | inside asks rest ih => exact raises_step_iff.2 (.inr ⟨_, _, asks, ih failed⟩)

theorem raises_evaluate_iff :
    Raises (.notFunction value line) (evaluate depth tree) m ↔
      ∃ head, CallsNonFunction depth tree m head value ∧ line = head.line? := by
  constructor
  · intro failed
    induction depth generalizing tree m with
    | zero => cases failed
    | succ depth ih =>
      rcases raises_step_iff.1 failed with ⟨head, tail, rfl, evaluated, noFunction, named⟩ | inside
      · exact ⟨head, ⟨depth, tail, m, .self _ _ _, evaluated, noFunction⟩, named⟩
      · obtain ⟨asked, m₁, asks, failed⟩ := inside
        obtain ⟨head, ⟨inner, tail, m', visits, call⟩, named⟩ := ih failed
        exact ⟨head, ⟨inner, tail, m', .inside asks visits, call⟩, named⟩
  · rintro ⟨head, ⟨inner, tail, m', visits, evaluated, noFunction⟩, named⟩
    exact visits.raises (raises_step_iff.2 (.inl ⟨head, tail, rfl, evaluated, noFunction, named⟩))

/-! ## The first token -/

/-- A tree that has a value has a first token, and its line is that of this token. -/
theorem exists_token_of_ok (h : (evaluate depth tree m).1 = .ok value) :
    ∃ token, tree.leaves.head? = some token ∧ tree.line? = some token.line := by
  induction depth generalizing tree m value with
  | zero => cases h
  | succ depth ih =>
    match tree with
    | .leaf token => exact ⟨token, rfl, rfl⟩
    | .list [] => cases h
    | .list (head :: tail) =>
      -- The first token of a list is that of its head, and the head had to have a value before the
      -- list could have one.
      obtain ⟨function, m₁, evaluated, -⟩ := exists_of_bind_ok (Prod.ext h rfl)
      obtain ⟨token, first, line⟩ := ih (congrArg Prod.fst evaluated)
      exact ⟨token, by simp [Tree.leaves, Tree.leavesAll, first], line⟩

/-- An evaluation ends in the fault that a value is no function exactly if it comes to a call whose
head has that value, and the line of the fault is that of the first token of the head.  Every such
head has a first token, however deeply it is nested. -/
theorem nonFunction_blamed_on_head (depth : Nat) (tree : Tree) (m : Machine) :
    (∀ value line, (evaluate depth tree m).1 = .error (.notFunction value line) ↔
      ∃ head token, CallsNonFunction depth tree m head value ∧
        head.leaves.head? = some token ∧ line = some token.line) ∧
    ∀ head value, CallsNonFunction depth tree m head value →
      ∃ token, head.leaves.head? = some token ∧ head.line? = some token.line := by
  have named (head : Tree) (value : Value) (call : CallsNonFunction depth tree m head value) :
      ∃ token, head.leaves.head? = some token ∧ head.line? = some token.line := by
    obtain ⟨inner, tail, m', -, evaluated, -⟩ := call
    exact exists_token_of_ok evaluated
  refine ⟨fun value line => raises_evaluate_iff.trans ⟨?_, ?_⟩, named⟩
  · rintro ⟨head, call, rfl⟩
    obtain ⟨token, first, line⟩ := named head value call
    exact ⟨head, token, call, first, line⟩
  · rintro ⟨head, token, call, first, rfl⟩
    obtain ⟨token', first', line⟩ := named head value call
    cases first.symm.trans first'
    exact ⟨head, call, line.symm⟩

/-- In `((lambda () ((block "f") #t)))`, written on several lines, the call in the body is blamed on
the line of `block`. -/
theorem nonFunction_blamed_on_head_in_body :
    let head : Tree := .list [.leaf ⟨5, .identifier "block"⟩, .leaf ⟨6, .string "f"⟩]
    let body : Tree := .list [head, .leaf ⟨7, .boolean true⟩]
    let tree : Tree := .list [.list [.leaf ⟨4, .identifier "lambda"⟩, .list [], body]]
    CallsNonFunction 4 tree {} head (.string "f") ∧
      (evaluate 4 tree {}).1 = .error (.notFunction (.string "f") (some 5)) ∧
      ∃ token, head.leaves.head? = some token ∧ head.line? = some token.line := by
  intro head body tree
  have call : CallsNonFunction 4 tree {} head (.string "f") :=
    ⟨2, [.leaf ⟨7, .boolean true⟩], _, .inside (.call rfl (.body rfl)) (.self _ _ _), rfl, rfl⟩
  obtain ⟨raised, named⟩ := nonFunction_blamed_on_head 4 tree {}
  exact ⟨call, (raised _ _).2 ⟨head, ⟨5, .identifier "block"⟩, call, rfl, rfl⟩, named head _ call⟩

end Eval

end Lisplet
