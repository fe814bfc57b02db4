import Lisplet.Proofs.Frame
import Lisplet.Session

/-!
# Raising the limit

An evaluation that is nested too deeply is cut off with a fault, and nothing on the way out of it
catches that fault.  So with a higher limit an evaluation either does exactly what it did before,
or it goes on where it was cut off, and then the lines that it had printed stay in front of those
that follow.  `Eval.Outlasts` says this of two computations.  It is a congruence, and so, by
induction on the lower limit, it holds of all evaluations (`outlasts_evaluate`).
-/

namespace Lisplet

namespace Eval

variable {α β : Type}

/-- The second computation ends as the first one does, unless the first one is cut off; then it
has printed what the first one has printed, and maybe more. -/
structure Outlasts (x y : Eval α) : Prop where
  same : ∀ m, (x m).1 ≠ .error .tooDeep → y m = x m
  output : ∀ m, ∃ lines, (y m).2.output = (x m).2.output ++ lines
  framed : Keeps Machine.Framed y

theorem Outlasts.refl {x : Eval α} (framed : Keeps Machine.Framed x) : Outlasts x x :=
  ⟨fun _ _ => rfl, fun _ => ⟨#[], by rw [Array.append_empty]⟩, framed⟩

/-- Whatever comes after a computation that was cut off cannot take back what was printed. -/
theorem Outlasts.bind {x y : Eval α} {f g : α → Eval β} (first : Outlasts x y)
    (next : ∀ a, Outlasts (f a) (g a)) : Outlasts (x >>= f) (y >>= g) := by
  refine ⟨fun m done => ?_, fun m => ?_,
    framed_discipline.keeps_bind first.framed fun a => (next a).framed⟩
  · have same := first.same m
    rw [bind_apply] at done
    rw [bind_apply, bind_apply]
    cases hx : x m with
    | mk result m' =>
      rw [hx] at done same
      cases result with
      | error fault => rw [same (by simpa using done)]
      | ok a =>
        rw [same (by simp)]
        exact (next a).same m' done
  · by_cases cut : (x m).1 = .error .tooDeep
    · have left : (x >>= f) m = (.error .tooDeep, (x m).2) := by
        apply bind_error
        rw [← cut]
      obtain ⟨lines, printed⟩ := first.output m
      rw [left, bind_apply]
      cases hy : y m with
      | mk result m' =>
        rw [hy] at printed
        cases result with
        | error fault => exact ⟨lines, printed⟩
        | ok a =>
          obtain ⟨more, later⟩ := ((next a).framed m').output
          exact ⟨lines ++ more, by rw [later, printed, Array.append_assoc]⟩
    · rw [bind_apply, bind_apply, first.same m cut]
      cases x m with
      | mk result m' =>
        cases result with
        | error fault => exact ⟨#[], by rw [Array.append_empty]⟩
        | ok a => exact (next a).output m'

theorem Outlasts.inScope {x y : Eval α} (h : Outlasts x y) (scope : Scope Value) :
    Outlasts (inScope scope x) (inScope scope y) := by
  refine ⟨fun m done => ?_, fun m => ?_, framed_discipline.keeps_inScope h.framed scope⟩
  · have same := h.same { m with env := m.env.push scope } done
    simp only [Eval.inScope, same]
  · exact h.output { m with env := m.env.push scope }

theorem Outlasts.defining {x y : Eval α} (h : Outlasts x y) (name : String) :
    Outlasts (defining name x) (defining name y) := by
  refine ⟨fun m done => ?_, fun m => ?_, fun m => ?_⟩
  · cases hd : m.env.defining with
    | some current => rw [defining_of_some hd, defining_of_some hd]
    | none =>
      rw [defining_of_none hd] at done
      rw [defining_of_none hd, defining_of_none hd, h.same (m.begun name) done]
  · cases hd : m.env.defining with
    | some current =>
      rw [defining_of_some hd, defining_of_some hd]
      exact ⟨#[], by rw [Array.append_empty]⟩
    | none =>
      rw [defining_of_none hd, defining_of_none hd]
      exact h.output (m.begun name)
  · cases hd : m.env.defining with
    | some current =>
      rw [defining_of_some hd]
      exact framed_discipline.refl m
    | none =>
      rw [defining_of_none hd]
      have inside := h.framed (m.begun name)
      exact ⟨inside.env.endDefine hd, inside.output⟩

/-- Nothing that evaluation is made of catches the fault of being cut off. -/
theorem outlasts_congruence : Congruence Outlasts where
  pure a := .refl (framed_discipline.congruence.pure a)
  fail fault := .refl (framed_discipline.congruence.fail fault)
  bind := Outlasts.bind
  environment := .refl framed_discipline.congruence.environment
  freshMark := .refl framed_discipline.congruence.freshMark
  print line := .refl (framed_discipline.congruence.print line)
  calling closure count := .refl (framed_discipline.congruence.calling closure count)
  inScope := Outlasts.inScope
  binding {name x y} _ h := by
    have assigned (value : Value) : Outlasts (assign name value) (assign name value) :=
      .refl fun m => .of_output (m.env.framed_set name value) rfl
    have noted (entry : Entry) : Outlasts (note entry) (note entry) :=
      .refl fun m => .of_output (.refl m.env) rfl
    have seen : Outlasts environment environment := .refl framed_discipline.congruence.environment
    refine ((h.bind assigned).defining name).bind fun _ => seen.bind fun env => ?_
    exact (noted _).bind fun _ => .refl (framed_discipline.congruence.pure _)

/-- An evaluation that may be nested deeper outlasts one that may be nested less deeply. -/
theorem outlasts_evaluate {low high : Nat} (h : low ≤ high) (tree : Tree) :
    Outlasts (evaluate low tree) (evaluate high tree) := by
  induction low generalizing high tree with
  | zero =>
    -- Nothing at all was done before the cut.
    refine ⟨fun m done => absurd rfl done, fun m => ?_, framed_discipline.keeps_evaluate high tree⟩
    exact (framed_discipline.keeps_evaluate high tree m).output
  | succ low ih =>
    obtain ⟨high, rfl⟩ : ∃ n, high = n + 1 := ⟨high - 1, by omega⟩
    exact outlasts_congruence.step (fun inner => ih (by omega) inner) tree

end Eval

/-- A higher limit allows at least as many nested evaluations. -/
theorem nestingUnder_mono {low high : Nat} (h : low ≤ high) :
    nestingUnder low ≤ nestingUnder high := by
  unfold nestingUnder
  omega

/-- Raising the limit changes nothing about an evaluation that was not cut off: it ends in the same
value or fault, in the same machine and with the same lines printed.  Of an evaluation that was cut
off it keeps the printed lines, in front of those that follow.  This holds of all depths of
nesting, and of the limits that a session puts in force for an evaluation. -/
theorem evaluate_limit_raised {low high : Nat} (h : low ≤ high) (tree : Tree) (m : Machine)
    (s : Session) :
    let cut : Except EvalFault Value := .error .tooDeep
    let under (limit : Nat) := s.underLimit limit (·.evaluateNow tree)
    ((evaluate low tree m).1 ≠ cut → evaluate high tree m = evaluate low tree m) ∧
      ((evaluate low tree m).1 = cut →
        ∃ lines, (evaluate high tree m).2.output = (evaluate low tree m).2.output ++ lines) ∧
      ((under low).1 ≠ cut → under high = under low) ∧
      ((under low).1 = cut → ∃ lines,
        (under high).2.machine.output = (under low).2.machine.output ++ lines) := by
  intro cut under
  have deeper := Eval.outlasts_evaluate h tree
  have raised := Eval.outlasts_evaluate (nestingUnder_mono h) tree
  refine ⟨deeper.same m, fun _ => deeper.output m, fun done => ?_, fun _ => raised.output s.machine⟩
  have same := raised.same s.machine done
  simp only [under, Session.underLimit, Session.evaluateNow, same]

/-- `(block (write "a") (block (block #t)))` is cut off after its first line under the limit 9, and
prints that line first under the limit 12. -/
theorem evaluate_limit_raised_nested :
    let block : Tree := .leaf ⟨0, .identifier "block"⟩
    let tree : Tree := .list [block, .list [.leaf ⟨0, .identifier "write"⟩, .leaf ⟨0, .string "a"⟩],
      .list [block, .list [block, .leaf ⟨0, .boolean true⟩]]]
    let under (limit : Nat) := ({} : Session).underLimit limit (·.evaluateNow tree)
    (under 9).1 = .error .tooDeep ∧ (under 9).2.machine.output = #["a"] ∧
      ∃ lines, (under 12).2.machine.output = #["a"] ++ lines := by
  intro block tree under
  have cut : (under 9).1 = .error .tooDeep := rfl
  have printed : (under 9).2.machine.output = #["a"] := rfl
  have raised := (evaluate_limit_raised (show 9 ≤ 12 by decide) tree {} {}).2.2.2 cut
  exact ⟨cut, printed, raised⟩

end Lisplet
