import Lisplet.Proofs.Simulation
import Lisplet.Proofs.WellFormed

/-!
# Evaluation under watch

An evaluation comes through environments that are gone when it ends.  To speak about them it is
watched: before and after every evaluation inside it, and before every application of a function to
values, the environment is checked together with the values at hand, and an alarm is raised if they
do not pass (`Eval.watched`).  A watch without alarms changes nothing (`Eval.watched_always`).  No
fault is ever caught, so an alarm that is raised is what the evaluation ends in, and an evaluation
encounters those environments and values that an alarm can tell (`Eval.Encounters`).

Well-formed trees on well-formed machines encounter only what is well-formed, and never end in a
fault that is internal to the evaluator (`Eval.safe_evaluate`, `Eval.encounters_wellFormed`).
-/

namespace Lisplet

namespace Eval

variable {α β : Type}

/-! ## The watch -/

section Watch

variable (passes : Environment → List Value → Prop) (alarm : EvalFault)

open Classical in
/-- Raises the alarm unless the environment and the values at hand pass. -/
noncomputable def checked (values : List Value) (x : Eval α) : Eval α := fun m =>
  if passes m.env values then x m else fail alarm m

/-- The values at hand after an evaluation. -/
def valuesIn : Except EvalFault Value → List Value
  | .ok value => [value]
  | .error _ => []

/-- Checks what an evaluation came to. -/
noncomputable def concluded (x : Eval Value) : Eval Value := fun m =>
  match x m with
  | (result, m') => checked passes alarm (valuesIn result) (fun m => (result, m)) m'

/-- One step of evaluation, where a function and its arguments are checked before it is applied. -/
noncomputable def watchedStep (eval : Tree → Eval Value) : Tree → Eval Value
  | .list (head :: tail) => do
    let function ← eval head
    if !function.isCallable then fail (.notFunction function head.line?)
    else if function.isLazy then apply eval function (.trees tail)
    else do
      let values ← valuesOf eval tail
      checked passes alarm (function :: values) (apply eval function (.values values))
  | tree => step eval tree

/-- Evaluates a tree, and watches that evaluation and all evaluations inside it. -/
noncomputable def watched : Nat → Tree → Eval Value
  | 0, _ => fail .tooDeep
  | depth + 1, tree =>
    checked passes alarm [] (concluded passes alarm (watchedStep passes alarm (watched depth) tree))

end Watch

variable {passes : Environment → List Value → Prop} {alarm : EvalFault}

theorem checked_of_passes {values : List Value} {x : Eval α} {m : Machine}
    (h : passes m.env values) : checked passes alarm values x m = x m := if_pos h

theorem checked_of_not_passes {values : List Value} {x : Eval α} {m : Machine}
    (h : ¬ passes m.env values) : checked passes alarm values x m = (.error alarm, m) := if_neg h

/-- Under a watch that raises no alarm a tree is evaluated as without it. -/
theorem watched_always (alarm : EvalFault) (depth : Nat) (tree : Tree) :
    watched (fun _ _ => True) alarm depth tree = evaluate depth tree := by
  have before {α : Type} (values : List Value) (x : Eval α) :
      checked (fun _ _ => True) alarm values x = x := funext fun _ => checked_of_passes trivial
  have after (x : Eval Value) : concluded (fun _ _ => True) alarm x = x := by
    funext m
    unfold concluded
    exact congrFun (before _ _) _
  induction depth generalizing tree with
  | zero => rfl
  | succ depth ih =>
    have inside : watched (fun _ _ => True) alarm depth = evaluate depth := funext ih
    rw [watched, before, after, inside]
    match tree with
    | .leaf token => rfl
    | .list [] => rfl
    | .list (head :: tail) =>
      simp only [watchedStep, before]
      rfl

/-- The evaluation of a tree comes to an environment, with some values at hand: watching out for
just these makes a difference, for some alarm. -/
def Encounters (depth : Nat) (tree : Tree) (m : Machine) (env : Environment)
    (values : List Value) : Prop :=
  ∃ alarm, watched (fun e vs => ¬ (e = env ∧ vs = values)) alarm depth tree m ≠
    evaluate depth tree m

/-- An evaluation that is not cut off encounters the environment that it starts in. -/
theorem encounters_start (depth : Nat) (tree : Tree) (m : Machine) :
    Encounters (depth + 1) tree m m.env [] := by
  have raised (alarm : EvalFault) : watched (fun e vs => ¬ (e = m.env ∧ vs = [])) alarm (depth + 1)
      tree m = (.error alarm, m) := checked_of_not_passes (by simp)
  by_contra never
  -- The evaluation would end in two faults at once.
  have first := not_not.1 (not_exists.1 never .emptyForm)
  have second := not_not.1 (not_exists.1 never .tooDeep)
  rw [raised] at first second
  have both := first.trans second.symm
  cases both

/-- The arguments of `(block #t)` are encountered together with their function. -/
example (m : Machine) :
    let tree : Tree := .list [.leaf ⟨0, .identifier "block"⟩, .leaf ⟨0, .boolean true⟩]
    Encounters 2 tree m m.env [.primitive (.eager .block), .boolean true] := by
  refine ⟨.emptyForm, ?_⟩
  simp [watched, watchedStep, checked, concluded, valuesIn, bind_apply, fail_apply, pure_apply,
    evaluate, step, atom, Value.ofToken?, Token.isName, nameOf, Token.name, resolve,
    Primitive.named?, Value.isCallable, Value.isLazy, valuesOf, apply, operate]

/-! ## Safe evaluation -/

/-- A result as it should be, or a fault that a program can have. -/
def Regular (R : α → Prop) : Except EvalFault α → Prop
  | .ok a => R a
  | .error fault => fault.isInternal = false

/-- Outcomes with one well-formed machine, and with related results or one fault that a program can
have. -/
inductive Agree (R : α → α → Prop) :
    Except EvalFault α × Machine → Except EvalFault α × Machine → Prop where
  | ok {a b : α} {m : Machine} (env : m.env.WellFormed) (related : R a b) :
      Agree R (.ok a, m) (.ok b, m)
  | error {fault : EvalFault} {m : Machine} (env : m.env.WellFormed)
      (regular : fault.isInternal = false) : Agree R (.error fault, m) (.error fault, m)

/-- Computations that agree on well-formed machines. -/
def Safe (R : α → α → Prop) (x y : Eval α) : Prop := ∀ m, m.env.WellFormed → Agree R (x m) (y m)

variable {R : α → α → Prop} {S : β → β → Prop}

theorem Safe.bind {x y : Eval α} {f g : α → Eval β} (hx : Safe R x y)
    (hf : ∀ a b, R a b → Safe S (f a) (g b)) : Safe S (x >>= f) (y >>= g) := by
  intro m hm
  rw [bind_apply, bind_apply]
  have agree := hx m hm
  generalize x m = first, y m = second at agree
  cases agree with
  | ok env related => exact hf _ _ related _ env
  | error env regular => exact .error env regular

theorem Safe.binding {name : String} (unreserved : isReserved name = false) {x y : Eval Value}
    (h : Safe Correspondence.wellFormed.values x y) :
    Safe Correspondence.wellFormed.values (binding name x) (binding name y) := by
  intro m hm
  rw [binding_apply, binding_apply]
  cases m.env.defining with
  | some current => exact .error hm rfl
  | none =>
    have value := h (m.begun name) (hm.begin unreserved)
    dsimp only
    generalize x (m.begun name) = first, y (m.begun name) = second at value
    cases value with
    | error env regular => exact .error env.endDefine regular
    | ok env related =>
      obtain ⟨wellFormed, rfl⟩ := related
      exact .ok (env.set unreserved wellFormed).endDefine ⟨Value.wellFormed_null, rfl⟩

/-- Safety goes through all that evaluation is made of. -/
theorem safe_simulation : Simulation .wellFormed Safe where
  pure related _ hm := .ok hm related
  fail faults m hm := by
    cases faults with
    | same nobody regular => exact .error hm regular
    | notAForm read paren =>
      have leaf := read.leaf
      cases paren.symm.trans leaf
    | notFunction h | notNumber operation h =>
      cases h.2
      exact .error hm rfl
  bind _ := Safe.bind
  environment _ hm := .ok hm ⟨hm, rfl⟩
  freshMark _ hm := .ok hm rfl
  print _ _ hm := .ok hm rfl
  calling := by
    rintro closure _ ⟨-, ⟨⟩⟩ count m hm
    exact .ok hm rfl
  inScope := by
    rintro closure _ vs ws x y ⟨wellFormed, ⟨⟩⟩ arguments body m hm
    obtain ⟨values, rfl⟩ := Correspondence.wellFormed_list arguments
    have inside := body { m with env := m.env.push (closure.bindings vs) }
      (hm.push (Closure.bindings_wellFormed wellFormed values))
    unfold Eval.inScope
    generalize x { m with env := m.env.push (closure.bindings vs) } = first,
      y { m with env := m.env.push (closure.bindings vs) } = second at inside
    cases inside with
    | ok env related => exact .ok env.pop related
    | error env regular => exact .error env.pop regular
  binding unreserved := Safe.binding unreserved

/-- Safe computations do the same on a well-formed machine, keep the environment well-formed, and
have a regular outcome. -/
theorem Safe.outcome {x y : Eval Value} (h : Safe Correspondence.wellFormed.values x y)
    {m : Machine} (hm : m.env.WellFormed) :
    y m = x m ∧ (x m).2.env.WellFormed ∧ Regular Value.WellFormed (x m).1 := by
  have agree := h m hm
  generalize x m = first, y m = second at agree
  cases agree with
  | ok env related =>
    obtain ⟨wellFormed, rfl⟩ := related
    exact ⟨rfl, env, wellFormed⟩
  | error env regular => exact ⟨rfl, env, regular⟩

/-! ## Safety under watch -/

variable
  (hp : ∀ env values, env.WellFormed → (∀ v ∈ values, Value.WellFormed v) → passes env values)

include hp

theorem Safe.checked {x y : Eval α} (hx : Safe R x y) {values : List Value}
    (hv : ∀ v ∈ values, v.WellFormed) : Safe R x (checked passes alarm values y) := by
  intro m hm
  rw [checked_of_passes (hp m.env values hm hv)]
  exact hx m hm

theorem Safe.concluded {x y : Eval Value} (hx : Safe Correspondence.wellFormed.values x y) :
    Safe Correspondence.wellFormed.values x (concluded passes alarm y) := by
  intro m hm
  have agree := hx m hm
  -- What the evaluation came to passes, and so the check leaves it alone.
  have unchecked {result : Except EvalFault Value} {m' : Machine} (came : y m = (result, m'))
      (env : m'.env.WellFormed) (values : ∀ v ∈ valuesIn result, v.WellFormed) :
      Eval.concluded passes alarm y m = (result, m') := by
    unfold Eval.concluded
    rw [came]
    exact checked_of_passes (hp _ _ env values)
  generalize x m = first at agree
  cases came : y m with
  | mk result m' =>
    rw [came] at agree
    cases agree with
    | ok env related =>
      rw [unchecked came env (List.forall_mem_singleton.2 (related.2 ▸ related.1))]
      exact .ok env related
    | error env regular =>
      rw [unchecked came env (by simp [valuesIn])]
      exact .error env regular

theorem safe_step {eval eval' : Tree → Eval Value}
    (h : ∀ tree, tree.WellFormed → Safe Correspondence.wellFormed.values (eval tree) (eval' tree))
    {tree : Tree} (ht : tree.WellFormed) :
    Safe Correspondence.wellFormed.values (step eval tree)
      (watchedStep passes alarm eval' tree) := by
  match tree with
  | .leaf token => exact safe_simulation.atom (Tree.wellFormed_leaf.1 ht)
  | .list [] => exact safe_simulation.fail (.same rfl rfl)
  | .list (head :: tail) =>
    obtain ⟨first, rest⟩ := List.forall_mem_cons.1 (Tree.wellFormed_list.1 ht)
    refine (h head first).bind ?_
    rintro function _ ⟨hf, rfl⟩
    have same : Correspondence.wellFormed.values function function := ⟨hf, rfl⟩
    split_ifs with stuck isLazy
    · exact safe_simulation.fail (.notFunction same _)
    · exact safe_simulation.apply_trees h isLazy same rest
    · refine (safe_simulation.valuesOf h rest).bind fun values values' arguments => ?_
      have applied := safe_simulation.apply_values h (by simpa using stuck)
        (by simpa using isLazy) same arguments
      obtain ⟨hv, rfl⟩ := Correspondence.wellFormed_list arguments
      exact applied.checked hp (List.forall_mem_cons.2 ⟨hf, hv⟩)

/-- A watch that well-formed environments and values pass changes nothing on well-formed trees and
machines: these evaluations only come to what is well-formed. -/
theorem safe_evaluate (depth : Nat) {tree : Tree} (ht : tree.WellFormed) :
    Safe Correspondence.wellFormed.values (evaluate depth tree)
      (watched passes alarm depth tree) := by
  induction depth generalizing tree with
  | zero => exact safe_simulation.fail (.same rfl rfl)
  | succ depth ih =>
    exact ((safe_step hp (fun _ => ih) ht).concluded hp).checked hp (by simp)

omit hp

/-- Well-formed trees keep the environment well-formed, and have a regular outcome. -/
theorem evaluate_regular (depth : Nat) {tree : Tree} (ht : tree.WellFormed) {m : Machine}
    (hm : m.env.WellFormed) :
    (evaluate depth tree m).2.env.WellFormed ∧
      Regular Value.WellFormed (evaluate depth tree m).1 :=
  (safe_simulation.evaluate depth ht).outcome hm |>.2

/-- A well-formed tree that is evaluated on a well-formed machine encounters well-formed
environments and values only. -/
theorem encounters_wellFormed {depth : Nat} {tree : Tree} {m : Machine} {env : Environment}
    {values : List Value} (ht : tree.WellFormed) (hm : m.env.WellFormed)
    (h : Encounters depth tree m env values) :
    env.WellFormed ∧ ∀ v ∈ values, v.WellFormed := by
  by_contra illFormed
  obtain ⟨alarm, differs⟩ := h
  refine differs (safe_evaluate (fun e vs he hvs => ?_) depth ht |>.outcome hm).1
  rintro ⟨rfl, rfl⟩
  exact illFormed ⟨he, hvs⟩

end Eval

end Lisplet
