import Lisplet.Proofs.Lines
import Lisplet.Proofs.Run
import Lisplet.Proofs.Unread

/-!
# Files and texts

A file is run as its text is evaluated.  The breaks of its lines are unified when it is read, which
gives the same lines and so the same script (`Session.scriptOf_unifyBreaks`), and the results that
are printed between its forms are never read by them.  So both runs go through the same forms,
results and environments, and the lines of a file are those of the text with every result that is
not nothing after the lines of its form (`Session.Echoes`, `Session.runFile_echoes_eval`).
-/

namespace Lisplet

theorem fromUTF8?_toUTF8 (text : String) : String.fromUTF8? text.toUTF8 = some text := by
  simp only [String.fromUTF8?, String.toUTF8_eq_toByteArray, dif_pos text.isValidUTF8]
  rfl

namespace Session

/-- Both the text of a file and the file as it is read have one script. -/
theorem scriptOf_unifyBreaks (s : Session) (text : String) :
    s.scriptOf (String.ofList (Text.unifyBreaks text.toList)) = s.scriptOf text := by
  rw [scriptOf, scriptOf, Script.ofText, Script.ofText, String.toList_ofList,
    Text.lines_unifyBreaks]

/-! ## One form -/

/-- Sessions that differ only in what was printed and noted, and in the runs that were started. -/
structure SamePresent (s s' : Session) : Prop where
  machine : s.machine.SamePresent s'.machine
  limit : s.limit = s'.limit
  settings : s.settings = s'.settings

theorem SamePresent.note {s s' : Session} (h : s.SamePresent s') (entry entry' : Entry) :
    (s.note entry).SamePresent (s'.note entry') :=
  ⟨⟨h.machine.env, h.machine.fresh⟩, h.limit, h.settings⟩

/-- A form comes to the same whatever was printed and noted before it. -/
theorem evaluateForm_same {s s' : Session} (h : s.SamePresent s') (tree : Tree) :
    (s.evaluateForm tree).1 = (s'.evaluateForm tree).1 ∧
      (s.evaluateForm tree).2.SamePresent (s'.evaluateForm tree).2 ∧
      ∃ lines, (s.evaluateForm tree).2.machine.output = s.machine.output ++ lines ∧
        (s'.evaluateForm tree).2.machine.output = s'.machine.output ++ lines := by
  have noted := h.note (.evaluating tree) (.evaluating tree)
  have limits : (s.note (.evaluating tree)).limitFrom none =
      (s'.note (.evaluating tree)).limitFrom none := by
    unfold limitFrom
    rw [noted.settings]
  rw [evaluateForm_apply, evaluateForm_apply, limits]
  cases (s'.note (.evaluating tree)).limitFrom none with
  | error fault => exact ⟨rfl, noted, #[], by simp [note], by simp [note]⟩
  | ok n =>
    obtain ⟨results, machines, lines, printed, printed'⟩ :=
      (Eval.unreading_evaluate (nestingUnder n) tree).same noted.machine
    exact ⟨congrArg (Except.mapError Fault.evaluation) results,
      ⟨machines, h.limit, h.settings⟩, lines, printed, printed'⟩

/-! ## Results after their forms -/

/-- The lines that are printed for a result. -/
def resultLines : Value → Array String
  | .null => #[]
  | value => #[value.display]

theorem printResult_output (value : Value) (s : Session) :
    (printResult value s).machine.output = s.machine.output ++ resultLines value := by
  cases value with
  | null => exact Array.append_empty.symm
  | _ => rfl

theorem SamePresent.printResult {s s' : Session} (h : s.SamePresent s') (value : Value) :
    s.SamePresent (printResult value s') := by
  cases value with
  | null => exact h
  | _ => exact ⟨⟨h.machine.env, h.machine.fresh⟩, h.limit, h.settings⟩

/-- Steps of two runs that evaluate the same form, with the same answer, to the same environment,
and that print the same lines after `out` and `out'`. -/
structure Step.Matches (out out' lines : Array String) (step step' : Step) : Prop where
  form : step.form = step'.form
  pulled : step.pulled = step'.pulled
  env : step.session.machine.env = step'.session.machine.env
  printed : step.session.machine.output = out ++ lines
  printed' : step'.session.machine.output = out' ++ lines

/-- A step in which no form is evaluated prints nothing. -/
theorem matches_of_no_form {s s' : Session} (h : s.SamePresent s') (fetched : Nat)
    (pulled : Pulled) :
    Step.Matches s.machine.output s'.machine.output #[] ⟨fetched, none, pulled, s⟩
      ⟨fetched, none, pulled, s'⟩ :=
  ⟨rfl, rfl, h.machine.env, by simp, by simp⟩

/-- The steps of two runs match one by one up to the ends of both, and directly after the lines of a
form that has a result the second run prints that result.  Before the first step `out` and `out'`
were printed. -/
inductive Echoes : Array String → Array String → List Step → List Step → Prop where
  | last {out out' lines : Array String} {step step' : Step}
      (same : step.Matches out out' lines step') (ends : ∀ value, step.pulled ≠ .result value) :
      Echoes out out' [step] [step']
  | result {out out' lines : Array String} {step step' : Step} {tree : Tree} {value : Value}
      {rest rest' : List Step} (same : step.Matches out out' lines step')
      (form : step.form = some tree) (pulled : step.pulled = .result value)
      (later : Echoes (out ++ lines) (out' ++ lines ++ resultLines value) rest rest') :
      Echoes out out' (step :: rest) (step' :: rest')

/-- Printing the results changes nothing else about the steps of a run. -/
theorem echoes_steps (script : Script) (fetched : Nat) {s s' : Session} (h : s.SamePresent s') :
    Echoes s.machine.output s'.machine.output (steps (fun _ s => s) script fetched s)
      (steps printResult script fetched s') := by
  induction script generalizing fetched s s' with
  | nil => exact .last (matches_of_no_form h fetched .ended) (by simp)
  | cons event rest ih =>
    cases event with
    | row line text => exact ih (line + 1) (h.note _ _)
    | fault fault => exact .last (matches_of_no_form h fetched _) (by simp)
    | form tree =>
      obtain ⟨results, present, lines, printed, printed'⟩ := evaluateForm_same h tree
      cases hr : s.evaluateForm tree with
      | mk result s₁ =>
        cases hr' : s'.evaluateForm tree with
        | mk result' s₁' =>
          simp only [hr, hr'] at results present printed printed'
          cases results
          have same (pulled : Pulled) : Step.Matches s.machine.output s'.machine.output lines
              ⟨fetched, some tree, pulled, s₁⟩ ⟨fetched, some tree, pulled, s₁'⟩ :=
            ⟨rfl, rfl, present.machine.env, printed, printed'⟩
          cases result with
          | error fault =>
            rw [steps_form_error hr, steps_form_error hr']
            exact .last (same (.fault fault)) (by simp)
          | ok value =>
            have later := ih fetched (present.printResult value)
            rw [printResult_output, printed, printed'] at later
            rw [steps_form_ok hr, steps_form_ok hr']
            exact .result (same (.result value)) rfl rfl later

/-- Runs that differ in what is printed after a form come to the same. -/
theorem Echoes.conclude {out out' : Array String} {all all' : List Step}
    (h : Echoes out out' all all') :
    (conclude all).1 = (Session.conclude all').1 ∧
      (Session.conclude all).2.machine.env = (Session.conclude all').2.machine.env := by
  induction h with
  | @last out out' lines step step' same ends =>
    simp only [Session.conclude, ← same.pulled]
    cases hp : step.pulled with
    | ended => exact ⟨rfl, same.env⟩
    | fault fault => exact ⟨rfl, same.env⟩
    | result value => exact absurd hp (ends value)
  | @result out out' lines step step' tree value rest rest' same form pulled later ih =>
    obtain ⟨results, envs⟩ := ih
    simp only [Session.conclude, ← same.pulled, pulled]
    generalize Session.conclude rest = first, Session.conclude rest' = second at results envs
    obtain ⟨result, s⟩ := first
    obtain ⟨result', s'⟩ := second
    cases results
    cases result with
    | error fault => exact ⟨rfl, envs⟩
    | ok values => exact ⟨rfl, envs⟩

/-! ## Whole files -/

theorem eval_eq_conclude (s : Session) (text : String) :
    let evaluated := conclude (steps (fun _ s => s) (s.scriptOf text) 0 s)
    s.eval text = (evaluated.1.map combine, evaluated.2) := by
  unfold eval
  rw [follow_eq_conclude _ 0 s]
  generalize conclude (steps (fun _ s => s) (s.scriptOf text) 0 s) = outcome
  obtain ⟨result, s'⟩ := outcome
  cases result <;> rfl

theorem runFile_eq_conclude (s : Session) (path text : String) :
    let ran := conclude (steps printResult (s.scriptOf text) 0 (s.note (.running path)))
    s.runFile path text.toUTF8 = (ran.1.map fun _ => (), ran.2) := by
  have script : (s.note (.running path)).scriptOf
      (String.ofList (Text.unifyBreaks text.toList)) = s.scriptOf text :=
    s.scriptOf_unifyBreaks text
  unfold runFile runBytes
  rw [fromUTF8?_toUTF8]
  unfold runText
  dsimp only
  rw [script, follow_eq_conclude _ 0]
  generalize conclude (steps printResult (s.scriptOf text) 0 (s.note (.running path))) = outcome
  obtain ⟨result, s'⟩ := outcome
  cases result <;> rfl

/-- A script that is followed to its end has one result for each of its forms. -/
theorem forms_of_follow {emit : Value → Session → Session} {script : Script} {s s' : Session}
    {values : List Value} (h : follow emit script s = (.ok values, s')) (fetched : Nat) :
    ∃ trees, script.forms = .ok trees ∧ (steps emit script fetched s).filterMap Step.form = trees ∧
      values.length = trees.length := by
  induction script generalizing fetched s values with
  | nil =>
    cases h
    exact ⟨[], rfl, rfl, rfl⟩
  | cons event rest ih =>
    cases event with
    | row line text => exact ih h (line + 1)
    | fault fault => cases h
    | form tree =>
      rw [follow] at h
      cases hr : s.evaluateForm tree with
      | mk result s₁ =>
        rw [hr] at h
        cases result with
        | error fault => cases h
        | ok value =>
          dsimp only at h
          cases hf : follow emit rest (emit value s₁) with
          | mk result s₂ =>
            rw [hf] at h
            cases result with
            | error fault => cases h
            | ok more =>
              cases h
              obtain ⟨trees, forms, evaluated, count⟩ := ih hf fetched
              refine ⟨tree :: trees, ?_, ?_, by rw [List.length_cons, List.length_cons, count]⟩
              · rw [Script.forms, forms]
                rfl
              · rw [steps_form_ok hr, ← evaluated]
                rfl

/-- A file is run as its text is evaluated: through the same forms with the same results, to the
same environment, and to the same fault or to the end.  The only difference is that directly after
the lines of a form the file prints the result of that form, unless it is nothing.  The value of the
text is nothing if it has no form, the result of its form if it has one, and else the list of all
results. -/
theorem runFile_echoes_eval (s : Session) (path text : String) :
    let begun := s.note (.running path)
    let asRead := String.ofList (Text.unifyBreaks text.toList)
    let evaluated := steps (fun _ s => s) (s.scriptOf text) 0 s
    let ran := steps printResult (begun.scriptOf asRead) 0 begun
    let file := s.runFile path text.toUTF8
    Echoes s.machine.output s.machine.output evaluated ran ∧
      s.eval text = ((conclude evaluated).1.map combine, (conclude evaluated).2) ∧
      file = ((conclude ran).1.map fun _ => (), (conclude ran).2) ∧
      file.1 = (s.eval text).1.map (fun _ => ()) ∧
      file.2.machine.env = (s.eval text).2.machine.env ∧
      ∀ values, (conclude evaluated).1 = .ok values →
        ∃ trees, (s.scriptOf text).forms = .ok trees ∧ evaluated.filterMap Step.form = trees ∧
          values.length = trees.length ∧
          (s.eval text).1 = .ok
            (match values with
            | [] => .null
            | [value] => value
            | values => .list values) := by
  intro begun asRead evaluated ran file
  have script : begun.scriptOf asRead = s.scriptOf text := s.scriptOf_unifyBreaks text
  have present : s.SamePresent begun := ⟨⟨rfl, rfl⟩, rfl, rfl⟩
  have echoes : Echoes s.machine.output s.machine.output evaluated ran := by
    simp only [evaluated, ran, script]
    exact echoes_steps (s.scriptOf text) 0 present
  have whole : s.eval text = ((conclude evaluated).1.map combine, (conclude evaluated).2) :=
    s.eval_eq_conclude text
  have filed : file = ((conclude ran).1.map fun _ => (), (conclude ran).2) := by
    simp only [ran, script]
    exact s.runFile_eq_conclude path text
  have followed (values : List Value) (done : (conclude evaluated).1 = .ok values) :
      follow (fun _ s => s) (s.scriptOf text) s = (.ok values, (conclude evaluated).2) := by
    rw [follow_eq_conclude _ 0 s, ← done]
  have forms (values : List Value) (done : (conclude evaluated).1 = .ok values) :
      ∃ trees, (s.scriptOf text).forms = .ok trees ∧ evaluated.filterMap Step.form = trees ∧
        values.length = trees.length := forms_of_follow (followed values done) 0
  obtain ⟨results, envs⟩ := echoes.conclude
  -- From here on only what the two runs come to counts.
  clear_value evaluated ran file
  refine ⟨echoes, whole, filed, ?_, ?_, fun values done => ?_⟩
  · rw [filed, whole, ← results]
    cases (conclude evaluated).1 <;> rfl
  · rw [filed, whole]
    exact envs.symm
  · obtain ⟨trees, read, all, count⟩ := forms values done
    refine ⟨trees, read, all, count, ?_⟩
    rw [whole, done]
    cases values with
    | nil => rfl
    | cons value more => cases more <;> rfl

/-- A text with all three kinds of line breaks: its first form prints a line and has no result, and
the results of the two others are printed by the file only. -/
theorem runFile_echoes_eval_mixed :
    let text := "(write \"a\")\r\n#t\r\"b\"\n"
    let evaluated := steps (fun _ s => s) (({} : Session).scriptOf text) 0 {}
    let whole := ({} : Session).eval text
    let file := ({} : Session).runFile "program" text.toUTF8
    ∃ values, (conclude evaluated).1 = .ok values ∧ values.length = 3 ∧
      whole.1 = .ok (.list values) ∧ file.1 = whole.1.map (fun _ => ()) ∧
      whole.2.machine.output = #["a"] ∧ file.2.machine.output = #["a", "true", "b"] := by
  intro text evaluated whole file
  have count : (match (conclude evaluated).1 with
      | .ok values => values.length
      | .error _ => 0) = 3 := by decide +kernel
  have printed : whole.2.machine.output = #["a"] := by decide +kernel
  have echoed : file.2.machine.output = #["a", "true", "b"] := by decide +kernel
  obtain ⟨-, -, -, results, -, forms⟩ := runFile_echoes_eval {} "program" text
  cases done : (conclude evaluated).1 with
  | error fault =>
    rw [done] at count
    cases count
  | ok values =>
    rw [done] at count
    obtain ⟨trees, -, -, -, listed⟩ := forms values done
    refine ⟨values, rfl, count, ?_, results, printed, echoed⟩
    match values, count with
    | [_, _, _], _ => exact listed

end Session

end Lisplet
