import Lisplet.Proofs.Frame
import Lisplet.Session

/-!
# Sessions between requests

Whatever a session is asked for, and however that ends, the environment stays in the frame of
evaluation, and the limit that was put in force for a form is taken back (`Steady`).  A session
starts without local scopes and without a definition in progress, so it has none after any request
(`perform_clean`), whichever texts, files and runs were followed before, and in whatever order.
-/

namespace Lisplet

namespace Session

/-- The environment stays in the frame of evaluation, and the limit in force stays the same. -/
structure Steady (before after : Session) : Prop where
  env : before.machine.env.Framed after.machine.env
  limit : after.limit = before.limit

theorem Steady.refl (s : Session) : Steady s s := ⟨.refl s.machine.env, rfl⟩

theorem Steady.trans {s₁ s₂ s₃ : Session} (h₁ : Steady s₁ s₂) (h₂ : Steady s₂ s₃) : Steady s₁ s₃ :=
  ⟨h₁.env.trans h₂.env, h₂.limit.trans h₁.limit⟩

theorem steady_note (s : Session) (entry : Entry) : Steady s (s.note entry) :=
  ⟨.refl s.machine.env, rfl⟩

theorem steady_print (s : Session) (line : String) : Steady s (s.print line) :=
  ⟨.refl s.machine.env, rfl⟩

/-! ## One form -/

theorem evaluateNow_framed (s : Session) (tree : Tree) :
    s.machine.env.Framed (s.evaluateNow tree).2.machine.env :=
  (framed_discipline.keeps_evaluate (nestingUnder s.limit) tree s.machine).env

/-- The old limit is put back whatever was done under the new one, and it stays in force when the
new one cannot be. -/
theorem withLimit_steady {α : Type} {act : Session → α × Session}
    (framed : ∀ s : Session, s.machine.env.Framed (act s).2.machine.env) (limit : Option Int)
    (s : Session) : Steady s (s.withLimit limit act).2 := by
  unfold withLimit
  cases s.limitFrom limit with
  | error fault => exact .refl s
  | ok n => exact ⟨framed { s with limit := n }, rfl⟩

theorem evaluateForm_snd (s : Session) (tree : Tree) :
    (s.evaluateForm tree).2 =
      ((s.note (.evaluating tree)).withLimit none (·.evaluateNow tree)).2 := by
  unfold evaluateForm
  split <;> simp_all

/-- A form is evaluated under the limit of the settings, if that can be put in force. -/
theorem evaluateForm_apply (s : Session) (tree : Tree) :
    s.evaluateForm tree =
      match (s.note (.evaluating tree)).limitFrom none with
      | .error fault => (.error fault, s.note (.evaluating tree))
      | .ok n =>
        ((evaluate (nestingUnder n) tree (s.note (.evaluating tree)).machine).1.mapError
            .evaluation,
          { s.note (.evaluating tree) with
            machine :=
              (evaluate (nestingUnder n) tree (s.note (.evaluating tree)).machine).2 }) := by
  unfold evaluateForm withLimit
  cases (s.note (.evaluating tree)).limitFrom none with
  | error fault => rfl
  | ok n =>
    simp only [underLimit, evaluateNow]
    cases (evaluate (nestingUnder n) tree (s.note (.evaluating tree)).machine).1 <;> rfl

theorem evaluateForm_steady (s : Session) (tree : Tree) : Steady s (s.evaluateForm tree).2 := by
  rw [evaluateForm_snd]
  refine (s.steady_note (.evaluating tree)).trans ?_
  exact withLimit_steady (fun s => s.evaluateNow_framed tree) none _

/-! ## Scripts -/

theorem follow_steady {emit : Value → Session → Session}
    (emits : ∀ value s, Steady s (emit value s)) (script : Script) (s : Session) :
    Steady s (follow emit script s).2 := by
  induction script generalizing s with
  | nil => exact .refl s
  | cons event rest ih =>
    cases event with
    | row line text => exact (s.steady_note _).trans (ih _)
    | fault fault => exact .refl s
    | form tree =>
      have evaluated := s.evaluateForm_steady tree
      unfold follow
      cases hr : s.evaluateForm tree with
      | mk result s₁ =>
        rw [hr] at evaluated
        cases result with
        | error fault => exact evaluated
        | ok value =>
          have rested := (evaluated.trans (emits value s₁)).trans (ih (emit value s₁))
          dsimp only
          cases hf : follow emit rest (emit value s₁) with
          | mk result s₂ =>
            rw [hf] at rested
            cases result with
            | error fault => exact rested
            | ok values => exact rested

theorem followOne_steady (script : Script) (s : Session) : Steady s (followOne script s).2.2 := by
  induction script generalizing s with
  | nil => exact .refl s
  | cons event rest ih =>
    cases event with
    | row line text => exact (s.steady_note _).trans (ih _)
    | fault fault => exact .refl s
    | form tree =>
      have evaluated := s.evaluateForm_steady tree
      unfold followOne
      cases hr : s.evaluateForm tree with
      | mk result s₁ =>
        rw [hr] at evaluated
        cases result with
        | error fault => exact evaluated
        | ok value => exact evaluated

theorem printResult_steady (value : Value) (s : Session) : Steady s (printResult value s) := by
  unfold printResult
  split
  · exact .refl s
  · exact s.steady_print _

/-! ## Requests -/

theorem eval_steady (s : Session) (text : String) : Steady s (s.eval text).2 := by
  have followed := follow_steady (fun _ s => .refl s) (s.scriptOf text) s
  unfold eval
  split <;> simp_all

theorem runText_steady (s : Session) (text : String) : Steady s (s.runText text).2 := by
  have followed := follow_steady printResult_steady
    (s.scriptOf (String.ofList (Text.unifyBreaks text.toList))) s
  unfold runText
  dsimp only
  split <;> simp_all

theorem runFile_steady (s : Session) (path : String) (bytes : ByteArray) :
    Steady s (s.runFile path bytes).2 := by
  refine (s.steady_note (.running path)).trans ?_
  unfold runFile runBytes
  cases String.fromUTF8? bytes with
  | none => exact .refl _
  | some text => exact runText_steady _ text

theorem pull_steady (s : Session) (run : Nat) : Steady s (s.pull run).2 := by
  unfold pull
  cases s.runs[run]? with
  | none => exact .refl s
  | some script =>
    have followed := followOne_steady script s
    exact ⟨followed.env, followed.limit⟩

/-- Every request, whether it succeeds or fails, keeps a session steady. -/
theorem perform_steady (request : Request) (s : Session) : Steady s (perform request s).2 := by
  cases request with
  | eval text => exact s.eval_steady text
  | file path content => exact s.runFile_steady path content
  | start text => exact ⟨.refl s.machine.env, rfl⟩
  | pull run => exact s.pull_steady run
  | configure settings => exact ⟨.refl s.machine.env, rfl⟩
  | print line => exact s.steady_print line

/-- The session after some requests. -/
def after (s : Session) (requests : List Request) : Session :=
  requests.foldl (fun s request => (perform request s).2) s

theorem after_steady (requests : List Request) (s : Session) : Steady s (s.after requests) := by
  induction requests generalizing s with
  | nil => exact .refl s
  | cons request rest ih => exact (perform_steady request s).trans (ih (perform request s).2)

/-! ## Between requests -/

/-- No local scope is entered, and no definition is in progress. -/
structure Clean (s : Session) : Prop where
  locals : s.machine.env.locals = []
  defining : s.machine.env.defining = none

theorem Clean.steady {s s' : Session} (clean : Clean s) (h : Steady s s') : Clean s' where
  locals := by
    rw [← List.length_eq_zero_iff, h.env.depth, clean.locals, List.length_nil]
  defining := h.env.defining.trans clean.defining

/-- Without local scopes the globals are the active scope, and keep their names. -/
theorem Clean.globals_has {s s' : Session} (clean : Clean s) (h : Steady s s') {name : String}
    (bound : s.machine.env.globals.has name = true) : s'.machine.env.globals.has name = true := by
  have active (s : Session) (clean : Clean s) :
      s.machine.env.has name = s.machine.env.globals.has name := by
    simp [Environment.has, Environment.active, clean.locals]
  rw [← active s' (clean.steady h)]
  rw [← active s clean] at bound
  exact h.env.active name bound

/-- After every request of every session no local scope is left, no definition is in progress, the
limit is the one that was in force before the request, and all global names are still bound. -/
theorem perform_clean (limit : Nat) (settings : Settings) (earlier : List Request)
    (request : Request) :
    let before : Session := after { limit := limit, settings := settings } earlier
    let after := (perform request before).2
    after.machine.env.locals = [] ∧ after.machine.env.defining = none ∧
      after.limit = before.limit ∧
      ∀ name, before.machine.env.globals.has name = true →
        after.machine.env.globals.has name = true := by
  intro before after
  have fresh : Clean { limit := limit, settings := settings } := ⟨rfl, rfl⟩
  have clean : Clean before := fresh.steady (after_steady earlier _)
  have step : Steady before after := perform_steady request before
  have still : Clean after := clean.steady step
  exact ⟨still.locals, still.defining, step.limit, fun name => clean.globals_has step⟩

end Session

end Lisplet
