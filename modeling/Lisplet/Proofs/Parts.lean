import Lisplet.Proofs.Lines
import Lisplet.Proofs.Run

/-!
# Programs in parts

A program may be cut between its forms.  When a text has been run to its end no list is open, so
what follows it in one text is read as if it began there (`Script.ofRows_append_of_follow`), except
for the line numbers.  Empty lines in front make up for these: they are read without a trace
(`Script.ofRowsFrom_empty`).  So running two texts as one is running the first, and then the second
after as many empty lines (`Session.eval_in_parts`).
-/

namespace Lisplet

namespace Script

variable {limit : Nat} {p : Partial} {line : Nat}

/-- An empty row does nothing but count. -/
theorem ofRowsFrom_empty (k : Nat) (rows : List (List Char)) :
    ofRowsFrom limit p line (List.replicate k [] ++ rows) = ofRowsFrom limit p (line + k) rows := by
  induction k generalizing line with
  | zero => rfl
  | succ k ih =>
    have skip (rows : List (List Char)) :
        ofRowsFrom limit p line ([] :: rows) = ofRowsFrom limit p (line + 1) rows := rfl
    rw [List.replicate_succ, List.cons_append, skip, ih, Nat.add_assoc, Nat.add_comm 1]

/-- What stops the reading of some rows is a fault. -/
theorem through_of_none {rows : List (List Char)} (h : (through limit p line rows).2 = none) :
    ∃ before fault, (through limit p line rows).1 = before ++ [.fault fault] := by
  induction rows generalizing p line with
  | nil => cases h
  | cons row rows ih =>
    rw [through] at h ⊢
    cases hs : scanRow line row with
    | mk tokens fault =>
      rw [hs] at h
      cases fault with
      | some fault => exact ⟨rowEvents line row, .scan fault, rfl⟩
      | none =>
        dsimp only at h ⊢
        cases hf : formsOf limit p tokens with
        | mk trees outcome =>
          rw [hf] at h
          cases outcome with
          | error fault =>
            exact ⟨rowEvents line row ++ trees.map .form, fault, by rw [List.append_assoc]⟩
          | ok p' =>
            obtain ⟨before, fault, all⟩ := ih h
            refine ⟨rowEvents line row ++ (trees.map .form ++ before), fault, ?_⟩
            simp only [all, List.append_assoc]

end Script

namespace Session

variable {emit : Value → Session → Session}

/-- A script with a fault at its end is not followed to its end. -/
theorem follow_fault (before : Script) (fault : ReadFault) (s s' : Session)
    (values : List Value) :
    follow emit (before ++ [.fault fault]) s ≠ (.ok values, s') := by
  rw [follow_append]
  cases follow emit before s with
  | mk result s₁ => cases result <;> simp [follow]

/-- Rows that are followed to their end leave no list open, so that their script is the front of
every script that begins with them. -/
theorem ofRows_append_of_follow {limit : Nat} {rows : List (List Char)} {s s' : Session}
    {values : List Value} (h : follow emit (Script.ofRows limit rows) s = (.ok values, s'))
    (more : List (List Char)) :
    Script.ofRows limit (rows ++ more) =
      Script.ofRows limit rows ++ Script.ofRowsFrom limit [] rows.length more := by
  have alone := Script.ofRowsFrom_append limit [] 0 rows []
  have together := Script.ofRowsFrom_append limit [] 0 rows more
  rw [List.append_nil] at alone
  rw [Script.ofRows] at h ⊢
  rw [Script.ofRows]
  cases hr : (Script.through limit [] 0 rows).2 with
  | none =>
    obtain ⟨before, fault, all⟩ := Script.through_of_none hr
    rw [hr, List.append_nil, all] at alone
    rw [alone] at h
    exact absurd h (follow_fault before fault s s' values)
  | some p =>
    rw [hr] at alone together
    cases p with
    | nil =>
      rw [together, alone, Nat.zero_add]
      simp [Script.ofRowsFrom, Script.endEvents]
    | cons inner outer =>
      rw [alone] at h
      exact absurd h (follow_fault _ (.unclosed inner.line) s s' values)

/-- Two texts in one, if the first is followed to its end: the script of the second begins where
that of the first ends, as it does after as many empty lines. -/
theorem scriptOf_append {first : String} {s s' : Session} {values : List Value}
    (last : first.toList.getLast? ≠ some '\r') (same : s'.limit = s.limit)
    (h : follow emit (s.scriptOf first) s = (.ok values, s')) (second : String) :
    s.scriptOf (first ++ "\n" ++ second) =
      s.scriptOf first ++ s'.scriptOf
        (String.ofList (List.replicate (Text.lines first.toList).length '\n') ++ second) := by
  have text : (first ++ "\n" ++ second).toList = first.toList ++ '\n' :: second.toList := by simp
  unfold scriptOf Script.ofText at h ⊢
  rw [text, Text.lines_append_lineFeed last, ofRows_append_of_follow h, String.toList_append,
    String.toList_ofList, Text.lines_replicate_append, Script.ofRows, Script.ofRows,
    Script.ofRowsFrom_empty, Nat.zero_add, same]

/-- A program may be cut between its forms: if a text that does not end in a carriage return is
evaluated without a fault, then running it with a second text after it, on a new line, goes through
the same forms, results, faults and sessions as running first it and then, on the same session, the
second text with as many empty lines before it as the first one has lines. -/
theorem eval_in_parts {s s₁ : Session} {first : String} {value : Value}
    (h : s.eval first = (.ok value, s₁)) (last : first.toList.getLast? ≠ some '\r')
    (second : String) :
    let keep : Value → Session → Session := fun _ s => s
    let run (s : Session) (text : String) := (steps keep (s.scriptOf text) 0 s).map Step.answer
    let lines := String.ofList (List.replicate (Text.lines first.toList).length '\n')
    ∃ values done,
      value = combine values ∧ done.map (·.2.1) = values.map .result ∧
        run s first = done ++ [(none, .ended, s₁)] ∧
        run s (first ++ "\n" ++ second) = done ++ run s₁ (lines ++ second) ∧
        follow keep (s.scriptOf (first ++ "\n" ++ second)) s =
          match follow keep (s₁.scriptOf (lines ++ second)) s₁ with
          | (.ok more, s₂) => (.ok (values ++ more), s₂)
          | (.error fault, s₂) => (.error fault, s₂) := by
  intro keep run lines
  have limit : s₁.limit = s.limit := by
    have steady := s.eval_steady first
    rw [h] at steady
    exact steady.limit
  rw [eval] at h
  cases hf : follow keep (s.scriptOf first) s with
  | mk result s' =>
    rw [hf] at h
    cases result with
    | error fault => cases h
    | ok values =>
      cases h
      obtain ⟨done, all, results⟩ := steps_of_follow hf 0
      have script := scriptOf_append last limit hf second
      have front : run s first = done.map Step.answer ++ [(none, .ended, s₁)] := by
        simp only [run, all, List.map_append, List.map_singleton]
        rfl
      refine ⟨values, done.map Step.answer, rfl, ?_, front, ?_, ?_⟩
      · rw [List.map_map, ← results]
        rfl
      · simp only [run, script, steps_append, hf, all, List.dropLast_concat, List.map_append]
        rw [map_answer_steps_fetched keep _ _ 0]
      · rw [script, follow_append, hf]
        dsimp only
        cases follow keep (s₁.scriptOf (lines ++ second)) s₁ with
        | mk result s₂ => cases result <;> rfl

/-- A definition, and after it a parenthesis that closes nothing: both ways to run the two find it
on the same line. -/
theorem eval_in_parts_stray :
    ∃ value s₁ fault s₂, ({} : Session).eval "(define x #t)" = (.ok value, s₁) ∧
      fault.message = "Unexpected right parenthesis on line 2" ∧
      follow (fun _ s => s) (({} : Session).scriptOf ("(define x #t)" ++ "\n" ++ "x\n)")) {} =
        (.error fault, s₂) ∧
      follow (fun _ s => s) (s₁.scriptOf "\nx\n)") s₁ = (.error fault, s₂) := by
  have evaluated : (match (({} : Session).eval "(define x #t)").1 with
      | .ok _ => true
      | .error _ => false) = true := by decide +kernel
  have failed : (match (follow (fun _ s => s)
        (({} : Session).scriptOf ("(define x #t)" ++ "\n" ++ "x\n)")) {}).1 with
      | .ok _ => ""
      | .error fault => fault.message) = "Unexpected right parenthesis on line 2" := by
    decide +kernel
  have blank : String.ofList (List.replicate (Text.lines "(define x #t)".toList).length '\n') ++
      "x\n)" = "\nx\n)" := by decide +kernel
  generalize done : ({} : Session).eval "(define x #t)" = outcome at evaluated
  obtain ⟨fault | value, s₁⟩ := outcome
  · cases evaluated
  obtain ⟨values, -, -, -, -, -, whole⟩ := eval_in_parts done (by decide) "x\n)"
  rw [blank] at whole
  -- The two runs are named, so that nothing below evaluates them.
  generalize follow (fun _ s => s)
    (({} : Session).scriptOf ("(define x #t)" ++ "\n" ++ "x\n)")) {} = together at failed whole
  generalize back : follow (fun _ s => s) (s₁.scriptOf "\nx\n)") s₁ = second at whole
  obtain ⟨fault | more, s₂⟩ := second
  · cases whole
    exact ⟨value, s₁, fault, s₂, rfl, failed, rfl, back⟩
  · rw [whole] at failed
    exact absurd failed (show ¬ "" = "Unexpected right parenthesis on line 2" by decide)

end Session

end Lisplet
