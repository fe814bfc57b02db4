import Lisplet.Proofs.Frame

/-!
# Contexts of an environment

Scopes and definitions are entered and left in any order, as long as what is left is always what
was entered last.  What is open after some actions can be told from these alone (`opened`), and so
can the sets that reach the globals (`globalSets`).  The environment itself has only a list of
scopes and one marker; that these follow what is open is an invariant (`Nested`), which says of
every open scope that leaving it gives the environment back in which it was entered.
-/

namespace Lisplet

namespace Environment

/-! ## Actions -/

/-- How a context is left: after what was done in it was finished, or after it failed. -/
inductive Ending where
  | normal
  | failing
deriving DecidableEq, Repr

/-- What a computation does to the context that it runs in. -/
def Ending.of {α : Type} : Except EvalFault α → Ending
  | .ok _ => normal
  | .error _ => failing

/-- What can be done to an environment. -/
inductive Action where
  | set (name : String) (value : Value)
  | enterScope (scope : Scope Value)
  | enterDefine (name : String)
  /-- The context that was entered last is left. -/
  | leave (ending : Ending)

/-- What comes of an action. -/
inductive Answer where
  | done
  /-- The definition of another name is in progress. -/
  | refused (current : String)
  /-- The failure that a context was left with goes on. -/
  | failed
deriving DecidableEq, Repr

namespace Contexts

def perform (action : Action) (c : Contexts) : Answer × Contexts :=
  match action with
  | .set name value => (.done, c.set name value)
  | .enterScope scope => (.done, c.enterScope scope)
  | .enterDefine name =>
    match c.enterDefine name with
    | (.ok (), c) => (.done, c)
    | (.error current, c) => (.refused current, c)
  | .leave .normal => (.done, c.leave.2)
  | .leave .failing => (if c.leave.1 then .failed else .done, c.leave.2)

/-- What was done to an environment, the latest action first. -/
abbrev History := List Action

/-- An environment that starts with some globals, after what was done to it. -/
def after (globals : Scope Value) : History → Contexts
  | [] => ⟨⟨globals, [], none⟩, []⟩
  | action :: earlier => (perform action (after globals earlier)).2

/-! ## What is open -/

/-- A context that is open: the definition of a name, or a scope together with what had been done
before it was entered. -/
inductive Opened where
  | scope (before : History)
  | definition (name : String)

namespace Opened

def isScope : Opened → Bool
  | scope _ => true
  | definition _ => false

def name? : Opened → Option String
  | scope _ => none
  | definition name => some name

def context : Opened → Context
  | scope _ => .scope
  | definition _ => .definition

end Opened

/-- The names of the open definitions. -/
def names (contexts : List Opened) : List String := contexts.filterMap Opened.name?

theorem names_definition (name : String) (rest : List Opened) :
    names (.definition name :: rest) = name :: names rest := rfl

/-- The contexts that are open after some actions, innermost first.  A definition is not entered
while another one is open. -/
def opened : History → List Opened
  | [] => []
  | .set _ _ :: earlier => opened earlier
  | .enterScope _ :: earlier => .scope earlier :: opened earlier
  | .enterDefine name :: earlier =>
    if (names (opened earlier)).isEmpty then .definition name :: opened earlier else opened earlier
  | .leave _ :: earlier => (opened earlier).tail

/-- The sets that were made while no scope was open, the latest first. -/
def globalSets : History → List (String × Value)
  | [] => []
  | .set name value :: earlier =>
    if (opened earlier).any Opened.isScope then globalSets earlier
    else (name, value) :: globalSets earlier
  | _ :: earlier => globalSets earlier

/-- Contexts are open in an environment, innermost first: without any there is no local scope and no
marker; a scope can be left, which gives the environment back that it was entered in; a definition
has its name in the marker. -/
def Nested (globals : Scope Value) : List Opened → Environment → Prop
  | [], env => env.locals = [] ∧ env.defining = none
  | .scope before :: rest, env =>
    env.locals ≠ [] ∧ env.pop = (after globals before).env ∧ Nested globals rest env.pop
  | .definition name :: rest, env => env.defining = some name ∧ Nested globals rest env.endDefine

variable {globals : Scope Value} {contexts : List Opened} {env : Environment}

/-! ## What the invariant says -/

theorem Nested.length_locals (h : Nested globals contexts env) :
    env.locals.length = contexts.countP Opened.isScope := by
  induction contexts generalizing env with
  | nil => simp [h.1]
  | cons context rest ih =>
    cases context with
    | scope before =>
      obtain ⟨some, -, nested⟩ := h
      have popped := ih nested
      rw [pop, List.length_tail] at popped
      rw [List.countP_cons_of_pos rfl, ← popped]
      exact (Nat.sub_add_cancel (List.length_pos_iff.2 some)).symm
    | definition name =>
      have ended := ih h.2
      exact ended

/-- At most one definition is open, and the marker is its name. -/
theorem Nested.defining (h : Nested globals contexts env) :
    env.defining.toList = names contexts := by
  induction contexts generalizing env with
  | nil => simp [h.2, names]
  | cons context rest ih =>
    cases context with
    | scope before =>
      have popped := ih h.2.2
      exact popped
    | definition name =>
      -- Without the marker the same contexts are open further out, so no definition is among them.
      have none : [] = names rest := ih h.2
      rw [h.1, Option.toList_some, names_definition, ← none]

/-! ## What actions do to it -/

theorem pop_set (some : env.locals ≠ []) (name : String) (value : Value) :
    (env.set name value).pop = env.pop := by
  obtain ⟨globals, locals, defining⟩ := env
  obtain ⟨top, locals, rfl⟩ := List.exists_cons_of_ne_nil some
  rfl

theorem endDefine_set (env : Environment) (name : String) (value : Value) :
    (env.set name value).endDefine = env.endDefine.set name value := by
  obtain ⟨globals, locals, defining⟩ := env
  cases locals <;> rfl

theorem Nested.set (h : Nested globals contexts env) (name : String) (value : Value) :
    Nested globals contexts (env.set name value) := by
  have framed := env.framed_set name value
  induction contexts generalizing env with
  | nil =>
    have empty : (env.set name value).locals.length = 0 := by
      rw [framed.depth, h.1, List.length_nil]
    exact ⟨List.eq_nil_of_length_eq_zero empty, framed.defining.trans h.2⟩
  | cons context rest ih =>
    cases context with
    | scope before =>
      obtain ⟨some, restored, nested⟩ := h
      have some' : 0 < (env.set name value).locals.length := by
        rw [framed.depth]
        exact List.length_pos_iff.2 some
      rw [Nested, pop_set some]
      exact ⟨List.length_pos_iff.1 some', restored, nested⟩
    | definition name' =>
      refine ⟨framed.defining.trans h.1, ?_⟩
      rw [endDefine_set]
      exact ih h.2 (env.endDefine.framed_set name value)

theorem endDefine_of_idle {env : Environment} (idle : env.defining = none) (name : String) :
    endDefine { env with defining := some name } = env := by
  obtain ⟨globals, locals, defining⟩ := env
  cases idle
  rfl

theorem perform_enterScope (scope : Scope Value) (c : Contexts) :
    perform (.enterScope scope) c = (.done, ⟨c.env.push scope, .scope :: c.entered⟩) := rfl

theorem enterDefine_of_some {c : Contexts} {current : String}
    (h : c.env.defining = some current) (name : String) :
    perform (.enterDefine name) c = (.refused current, c) := by
  simp [perform, enterDefine, beginDefine, h]

theorem enterDefine_of_none {c : Contexts} (h : c.env.defining = none) (name : String) :
    perform (.enterDefine name) c =
      (.done, ⟨{ c.env with defining := some name }, .definition :: c.entered⟩) := by
  simp [perform, enterDefine, beginDefine, h]

theorem leave_ending (ending : Ending) (c : Contexts) :
    (perform (.leave ending) c).2 = c.leave.2 := by
  cases ending <;> rfl

/-- The open contexts are those that were entered and not left, and they are nested in the
environment. -/
theorem nested_after (globals : Scope Value) (history : History) :
    (after globals history).entered = (opened history).map Opened.context ∧
      Nested globals (opened history) (after globals history).env := by
  induction history with
  | nil => exact ⟨rfl, rfl, rfl⟩
  | cons action earlier ih =>
    obtain ⟨entered, nested⟩ := ih
    cases action with
    | set name value => exact ⟨entered, nested.set name value⟩
    | enterScope scope =>
      exact ⟨congrArg (Context.scope :: ·) entered, List.cons_ne_nil _ _, rfl, nested⟩
    | enterDefine name =>
      -- The marker is set exactly if a definition is open.
      have marker := nested.defining
      rw [after, opened]
      cases hd : (after globals earlier).env.defining with
      | some current =>
        rw [hd, Option.toList_some] at marker
        rw [enterDefine_of_some hd, if_neg (by simp [← marker])]
        exact ⟨entered, nested⟩
      | none =>
        rw [hd, Option.toList_none] at marker
        rw [enterDefine_of_none hd, if_pos (by simp [← marker])]
        refine ⟨congrArg (Context.definition :: ·) entered, rfl, ?_⟩
        rw [endDefine_of_idle hd]
        exact nested
    | leave ending =>
      rw [after, opened, leave_ending]
      cases ho : opened earlier with
      | nil =>
        rw [ho] at entered nested
        simp only [leave, entered, List.map_nil]
        exact ⟨rfl, nested⟩
      | cons context rest =>
        rw [ho] at entered nested
        cases context with
        | scope before =>
          simp only [leave, entered, List.map_cons, Opened.context]
          exact ⟨rfl, nested.2.2⟩
        | definition name =>
          simp only [leave, entered, List.map_cons, Opened.context]
          exact ⟨rfl, nested.2⟩

/-! ## Globals -/

theorem globals_set (env : Environment) (name : String) (value : Value) :
    (env.set name value).globals =
      if env.hasLocals then env.globals else env.globals.set name value := by
  obtain ⟨globals, locals, defining⟩ := env
  cases locals <;> rfl

theorem globals_leave (c : Contexts) : c.leave.2.env.globals = c.env.globals := by
  unfold leave
  split <;> rfl

/-- There is a local scope exactly while a scope is open. -/
theorem Nested.hasLocals (h : Nested globals contexts env) :
    env.hasLocals = contexts.any Opened.isScope := by
  have count := h.length_locals
  rw [Bool.eq_iff_iff, Environment.hasLocals, Bool.not_eq_true', List.isEmpty_eq_false_iff,
    ← List.length_pos_iff, count, List.countP_pos_iff, List.any_eq_true]

theorem globals_after (globals : Scope Value) (history : History) :
    (after globals history).env.globals =
      (globalSets history).foldr (fun binding scope => scope.set binding.1 binding.2) globals := by
  induction history with
  | nil => rfl
  | cons action earlier ih =>
    cases action with
    | set name value =>
      have same : (after globals (.set name value :: earlier)).env =
          (after globals earlier).env.set name value := rfl
      rw [same, globals_set, (nested_after globals earlier).2.hasLocals, globalSets]
      split_ifs
      · exact ih
      · rw [List.foldr_cons, ih]
    | enterScope scope => exact ih
    | enterDefine name =>
      rw [after]
      cases hd : (after globals earlier).env.defining with
      | some current =>
        rw [enterDefine_of_some hd]
        exact ih
      | none =>
        rw [enterDefine_of_none hd]
        exact ih
    | leave ending =>
      rw [after, leave_ending, globals_leave]
      exact ih

/-! ## What is seen -/

/-- What is seen of an environment is its top scope and its globals. -/
theorem get?_congr {env env' : Environment} (top : env'.locals.head? = env.locals.head?)
    (same : env'.globals = env.globals) (name : String) : env'.get? name = env.get? name := by
  have active : env'.active = env.active := by
    obtain ⟨globals, locals, defining⟩ := env
    obtain ⟨globals', locals', defining'⟩ := env'
    cases same
    cases locals <;> cases locals' <;> simp_all [Environment.active]
  rw [Environment.get?, Environment.get?, active, same]

/-! ## Blocks -/

/-- The second evaluation enters a context by an action, runs the first one in it, and leaves the
context in the way in which that one ends.  An action that is refused is the end of it. -/
def RunsIn {α : Type} (action : Action) (x y : Eval α) : Prop :=
  ∀ (m : Machine) (entered : List Context),
    match perform action ⟨m.env, entered⟩ with
    | (.refused current, _) => y m = (.error (.nestedDefine current), m)
    | (_, inside) =>
      let (result, m') := x { m with env := inside.env }
      let outside := (perform (.leave (.of result)) ⟨m'.env, inside.entered⟩).2
      y m = (result, { m' with env := outside.env }) ∧ outside.entered = entered

theorem runsIn_inScope {α : Type} (scope : Scope Value) (x : Eval α) :
    RunsIn (.enterScope scope) x (Eval.inScope scope x) := by
  intro m entered
  rw [perform_enterScope]
  simp only [leave_ending]
  exact ⟨rfl, rfl⟩

theorem runsIn_defining {α : Type} (name : String) (x : Eval α) :
    RunsIn (.enterDefine name) x (Eval.defining name x) := by
  intro m entered
  cases hd : m.env.defining with
  | some current =>
    rw [enterDefine_of_some hd]
    exact Eval.defining_of_some hd
  | none =>
    rw [enterDefine_of_none hd]
    simp only [leave_ending]
    exact ⟨Eval.defining_of_none hd, rfl⟩

/-- At every moment of a history there is one local scope for each open scope, the marker is the
name of the only open definition, and another definition is refused without effect.  How a context
is left makes no difference: leaving a scope gives the environment back in which it was entered.
The globals are those of the start with the sets made while no scope was open.  Names are looked up
in the top scope and in the globals only.  Blocks of evaluation enter and leave their contexts by
these actions, however they end. -/
theorem contexts_stacked (globals : Scope Value) (history : History) :
    let c := after globals history
    c.env.locals.length = (opened history).countP Opened.isScope ∧
      c.env.defining.toList = names (opened history) ∧
      (∀ name current, .definition current ∈ opened history →
        perform (.enterDefine name) c = (.refused current, c)) ∧
      (perform (.leave .normal) c).2 = (perform (.leave .failing) c).2 ∧
      (∀ before rest ending, opened history = .scope before :: rest →
        (perform (.leave ending) c).2.env = (after globals before).env) ∧
      c.env.globals =
        (globalSets history).foldr (fun binding scope => scope.set binding.1 binding.2) globals ∧
      (∀ (env : Environment) (name : String), env.locals.head? = c.env.locals.head? →
        env.globals = c.env.globals →
          env.isBound name = c.env.isBound name ∧ env.lookup name = c.env.lookup name) ∧
      ∀ (α : Type) (x : Eval α),
        (∀ scope, RunsIn (.enterScope scope) x (Eval.inScope scope x)) ∧
          ∀ name, RunsIn (.enterDefine name) x (Eval.defining name x) := by
  intro c
  obtain ⟨entered, nested⟩ := nested_after globals history
  refine ⟨nested.length_locals, nested.defining, ?_, ?_, ?_, globals_after globals history, ?_,
    fun α x => ⟨fun scope => runsIn_inScope scope x, fun name => runsIn_defining name x⟩⟩
  · intro name current mem
    have named : current ∈ names (opened history) :=
      List.mem_filterMap.2 ⟨.definition current, mem, rfl⟩
    rw [← nested.defining, Option.mem_toList] at named
    exact enterDefine_of_some named name
  · rw [leave_ending, leave_ending]
  · intro before rest ending innermost
    rw [innermost] at entered nested
    have left : c.leave.2.env = c.env.pop := by
      simp only [leave, c, entered, List.map_cons, Opened.context]
    rw [leave_ending, left]
    exact nested.2.1
  · intro env name top same
    rw [Environment.isBound, Environment.lookup, get?_congr top same]
    exact ⟨rfl, rfl⟩

/-- While `f` is defined, and in a scope that was entered meanwhile, the definition of `h` is
refused; when the scope is left with a failure, what was set in it is gone. -/
theorem contexts_stacked_define_scope :
    let before : History := [.enterDefine "f", .set "g" (.boolean true)]
    let c := after constants (.set "g" .null :: .enterScope ⟨[]⟩ :: before)
    perform (.enterDefine "h") c = (.refused "f", c) ∧
      (perform (.leave .failing) c).2.env = (after constants before).env := by
  intro before c
  have stacked := contexts_stacked constants (.set "g" .null :: .enterScope ⟨[]⟩ :: before)
  obtain ⟨-, -, refused, -, restored, -⟩ := stacked
  exact ⟨refused "h" "f" (List.mem_cons_of_mem _ List.mem_cons_self),
    restored before [.definition "f"] .failing rfl⟩

end Contexts

end Environment

end Lisplet
