import Lisplet.Proofs.Reading
import Lisplet.Proofs.Session

/-!
# Runs, step by step

A run answers every time it is asked for its next result, and its last answer is that it has ended
or what its fault is.  `Session.steps` lists these answers, each with the session after it, the form
that was evaluated for it and the rows that were fetched until then.  Pulling results
(`steps_followOne`) and following a whole script (`follow_eq_conclude`) are two ways to go through
the same steps.

The rows of a program are read one after the other, so the script of some rows that are followed by
more rows begins with events that the later rows have no part in (`Script.through`).
-/

namespace Lisplet

namespace Session

/-- One answer of a run. -/
structure Step where
  /-- The rows up to the last one that was fetched and is not blank. -/
  fetched : Nat
  /-- The form that was evaluated, if one was. -/
  form : Option Tree
  pulled : Pulled
  session : Session

namespace Step

/-- What is seen of a step from outside. -/
def answer (step : Step) : Option Tree × Pulled × Session := (step.form, step.pulled, step.session)

/-- The step ends the run because there is no more input. -/
def AtEnd (step : Step) : Prop :=
  step.form = none ∧
    (step.pulled = .ended ∨ ∃ line, step.pulled = .fault (.reading (.unclosed line)))

end Step

/-- All answers of a run that follows a script, up to the one that ends it.  After a result the
session is in other hands (`emit`) before the run goes on. -/
def steps (emit : Value → Session → Session) : Script → Nat → Session → List Step
  | [], fetched, s => [⟨fetched, none, .ended, s⟩]
  | .row line text :: rest, _, s => steps emit rest (line + 1) (s.note (.scanning line text))
  | .fault fault :: _, fetched, s => [⟨fetched, none, .fault (.reading fault), s⟩]
  | .form tree :: rest, fetched, s =>
    match s.evaluateForm tree with
    | (.error fault, s) => [⟨fetched, some tree, .fault fault, s⟩]
    | (.ok value, s) =>
      ⟨fetched, some tree, .result value, s⟩ :: steps emit rest fetched (emit value s)

variable {emit : Value → Session → Session}

theorem steps_form_error {tree : Tree} {s s' : Session} {fault : Fault}
    (h : s.evaluateForm tree = (.error fault, s')) (rest : Script) (fetched : Nat) :
    steps emit (.form tree :: rest) fetched s = [⟨fetched, some tree, .fault fault, s'⟩] := by
  rw [steps, h]

theorem steps_form_ok {tree : Tree} {s s' : Session} {value : Value}
    (h : s.evaluateForm tree = (.ok value, s')) (rest : Script) (fetched : Nat) :
    steps emit (.form tree :: rest) fetched s =
      ⟨fetched, some tree, .result value, s'⟩ :: steps emit rest fetched (emit value s') := by
  rw [steps, h]

theorem steps_ne_nil (script : Script) (fetched : Nat) (s : Session) :
    steps emit script fetched s ≠ [] := by
  induction script generalizing fetched s with
  | nil => simp [steps]
  | cons event rest ih =>
    cases event with
    | row line text => exact ih _ _
    | fault fault => simp [steps]
    | form tree =>
      cases hr : s.evaluateForm tree with
      | mk result s' =>
        cases result with
        | error fault => simp [steps_form_error hr]
        | ok value => simp [steps_form_ok hr]

/-- How many rows were fetched before has no influence on what a run does. -/
theorem map_answer_steps_fetched (emit : Value → Session → Session) (script : Script)
    (fetched fetched' : Nat) (s : Session) :
    (steps emit script fetched s).map Step.answer =
      (steps emit script fetched' s).map Step.answer := by
  induction script generalizing fetched fetched' s with
  | nil => rfl
  | cons event rest ih =>
    cases event with
    | row line text => rfl
    | fault fault => rfl
    | form tree =>
      cases hr : s.evaluateForm tree with
      | mk result s' =>
        cases result with
        | error fault =>
          rw [steps_form_error hr, steps_form_error hr]
          rfl
        | ok value =>
          rw [steps_form_ok hr, steps_form_ok hr, List.map_cons, List.map_cons,
            ih fetched fetched']
          rfl

/-! ## Pulling and following -/

/-- Asking for one result at a time goes through the steps. -/
theorem steps_followOne (script : Script) (fetched : Nat) (s : Session) :
    (steps emit script fetched s).map (fun step => (step.pulled, step.session)) =
      match followOne script s with
      | (.result value, rest, s') =>
        (.result value, s') ::
          (steps emit rest fetched (emit value s')).map fun step => (step.pulled, step.session)
      | (pulled, _, s') => [(pulled, s')] := by
  have irrelevant (rest : Script) (fetched' : Nat) (s : Session) :
      (steps emit rest fetched' s).map (fun step => (step.pulled, step.session)) =
        (steps emit rest fetched s).map fun step => (step.pulled, step.session) := by
    have same := congrArg (List.map Prod.snd)
      (map_answer_steps_fetched emit rest fetched' fetched s)
    rw [List.map_map, List.map_map] at same
    exact same
  induction script generalizing s with
  | nil => rfl
  | cons event rest ih =>
    cases event with
    | row line text =>
      rw [steps, followOne, irrelevant]
      exact ih _
    | fault fault => rfl
    | form tree =>
      rw [followOne]
      cases hr : s.evaluateForm tree with
      | mk result s' =>
        cases result with
        | error fault =>
          rw [steps_form_error hr]
          rfl
        | ok value =>
          rw [steps_form_ok hr]
          rfl

/-- What the steps of a run come to: the values of the results, or the fault. -/
def conclude : List Step → Except Fault (List Value) × Session
  | [] => (.ok [], {})
  | step :: rest =>
    match step.pulled with
    | .ended => (.ok [], step.session)
    | .fault fault => (.error fault, step.session)
    | .result value =>
      match conclude rest with
      | (.error fault, s) => (.error fault, s)
      | (.ok values, s) => (.ok (value :: values), s)

/-- Following a script to its end goes through the steps. -/
theorem follow_eq_conclude (script : Script) (fetched : Nat) (s : Session) :
    follow emit script s = conclude (steps emit script fetched s) := by
  induction script generalizing fetched s with
  | nil => rfl
  | cons event rest ih =>
    cases event with
    | row line text => exact ih _ _
    | fault fault => rfl
    | form tree =>
      rw [follow]
      cases hr : s.evaluateForm tree with
      | mk result s' =>
        cases result with
        | error fault =>
          rw [steps_form_error hr]
          rfl
        | ok value =>
          have later := ih fetched (emit value s')
          rw [steps_form_ok hr, conclude]
          dsimp only
          generalize follow emit rest (emit value s') = outcome at later ⊢
          subst later
          rfl

/-! ## Scripts one after the other -/

/-- The rows that are fetched when a script has been followed. -/
def fetchedAfter : Nat → Script → Nat
  | fetched, [] => fetched
  | _, .row line _ :: rest => fetchedAfter (line + 1) rest
  | fetched, _ :: rest => fetchedAfter fetched rest

theorem follow_append (first rest : Script) (s : Session) :
    follow emit (first ++ rest) s =
      match follow emit first s with
      | (.error fault, s') => (.error fault, s')
      | (.ok values, s') =>
        match follow emit rest s' with
        | (.error fault, s'') => (.error fault, s'')
        | (.ok more, s'') => (.ok (values ++ more), s'') := by
  induction first generalizing s with
  | nil =>
    rw [List.nil_append, follow]
    dsimp only
    cases follow emit rest s with
    | mk result s' => cases result <;> rfl
  | cons event first ih =>
    cases event with
    | row line text => exact ih _
    | fault fault => rfl
    | form tree =>
      rw [List.cons_append, follow, follow]
      cases s.evaluateForm tree with
      | mk result s' =>
        cases result with
        | error fault => rfl
        | ok value =>
          simp only [ih]
          cases follow emit first (emit value s') with
          | mk result s₁ =>
            cases result with
            | error fault => rfl
            | ok values =>
              dsimp only
              cases follow emit rest s₁ with
              | mk result s₂ => cases result <;> rfl

/-- The steps of two scripts one after the other: if the first is followed to its end, its last
step gives way to the steps of the second. -/
theorem steps_append (first rest : Script) (fetched : Nat) (s : Session) :
    steps emit (first ++ rest) fetched s =
      match follow emit first s with
      | (.error _, _) => steps emit first fetched s
      | (.ok _, s') =>
        (steps emit first fetched s).dropLast ++
          steps emit rest (fetchedAfter fetched first) s' := by
  induction first generalizing fetched s with
  | nil => rfl
  | cons event first ih =>
    cases event with
    | row line text => exact ih _ _
    | fault fault => rfl
    | form tree =>
      rw [List.cons_append, follow]
      cases hr : s.evaluateForm tree with
      | mk result s' =>
        cases result with
        | error fault => rw [steps_form_error hr, steps_form_error hr]
        | ok value =>
          rw [steps_form_ok hr, steps_form_ok hr, ih]
          dsimp only
          cases follow emit first (emit value s') with
          | mk result s₁ =>
            cases result with
            | error fault => rfl
            | ok values =>
              dsimp only
              rw [List.dropLast_cons_of_ne_nil (steps_ne_nil _ _ _)]
              rfl

/-- The steps of a script that is followed to its end: the results, and then the end. -/
theorem steps_of_follow {script : Script} {s s' : Session} {values : List Value}
    (h : follow emit script s = (.ok values, s')) (fetched : Nat) :
    ∃ done, steps emit script fetched s =
        done ++ [⟨fetchedAfter fetched script, none, .ended, s'⟩] ∧
      done.map Step.pulled = values.map .result := by
  induction script generalizing fetched s values with
  | nil =>
    cases h
    exact ⟨[], rfl, rfl⟩
  | cons event rest ih =>
    cases event with
    | row line text => exact ih h (line + 1)
    | fault fault => cases h
    | form tree =>
      rw [follow] at h
      cases hr : s.evaluateForm tree with
      | mk result s₁ =>
        rw [hr] at h
        cases result with
        | error fault => cases h
        | ok value =>
          dsimp only at h
          cases hf : follow emit rest (emit value s₁) with
          | mk result s₂ =>
            rw [hf] at h
            cases result with
            | error fault => cases h
            | ok more =>
              cases h
              obtain ⟨done, all, pulled⟩ := ih hf fetched
              refine ⟨⟨fetched, some tree, .result value, s₁⟩ :: done, ?_, ?_⟩
              · rw [steps_form_ok hr, all]
                rfl
              · rw [List.map_cons, List.map_cons, pulled]

end Session

/-! ## Rows one after the other -/

namespace Script

/-- The events of some rows, whatever follows them, and the lists that are open after them; none
if there was a fault. -/
def through (limit : Nat) (p : Partial) (line : Nat) : List (List Char) → Script × Option Partial
  | [] => ([], some p)
  | row :: rows =>
    match scanRow line row with
    | (_, some fault) => (rowEvents line row ++ [.fault (.scan fault)], none)
    | (tokens, none) =>
      match formsOf limit p tokens with
      | (trees, .error fault) => (rowEvents line row ++ (trees.map .form ++ [.fault fault]), none)
      | (trees, .ok p') =>
        (rowEvents line row ++ (trees.map .form ++ (through limit p' (line + 1) rows).1),
          (through limit p' (line + 1) rows).2)

/-- Rows that are followed by more rows are read as by themselves. -/
theorem ofRowsFrom_append (limit : Nat) (p : Partial) (line : Nat) (rows more : List (List Char)) :
    ofRowsFrom limit p line (rows ++ more) =
      (through limit p line rows).1 ++
        match (through limit p line rows).2 with
        | some p' => ofRowsFrom limit p' (line + rows.length) more
        | none => [] := by
  induction rows generalizing p line with
  | nil => rfl
  | cons row rows ih =>
    rw [List.cons_append, ofRowsFrom, through]
    cases scanRow line row with
    | mk tokens fault =>
      cases fault with
      | some fault => simp
      | none =>
        dsimp only
        cases formsOf limit p tokens with
        | mk trees outcome =>
          cases outcome with
          | error fault => simp
          | ok p' =>
            simp only [ih, List.append_assoc, List.length_cons, Nat.add_assoc, Nat.add_comm 1]

end Script

end Lisplet
