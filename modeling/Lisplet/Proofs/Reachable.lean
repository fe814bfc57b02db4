import Lisplet.Proofs.Session
import Lisplet.Proofs.Watch

/-!
# What sessions can reach

A session starts well-formed, and stays so whatever it is asked for (`Session.perform_sound`): the
forms of all texts are well-formed, and evaluating them keeps the environment well-formed.  So all
values that a session can ever reach are proper, also those that only exist while a form is
evaluated (`Session.Encounters`), and the faults that are internal to the evaluator are never
reported (`Session.reached_proper`).
-/

namespace Lisplet

def Fault.isInternal : Fault → Bool
  | evaluation fault => fault.isInternal
  | _ => false

namespace Session

/-- The fault that a reply reports. -/
def Reply.fault? : Reply → Option Fault
  | finished (.error fault) => some fault
  | pulled (.fault fault) => some fault
  | _ => none

theorem Reply.fault?_finished {result : Except Fault Value} {fault : Fault} :
    (Reply.finished result).fault? = some fault ↔ result = .error fault := by
  cases result <;> simp [fault?]

theorem Reply.fault?_pulled {pulled : Pulled} {fault : Fault} :
    (Reply.pulled pulled).fault? = some fault ↔ pulled = .fault fault := by
  cases pulled <;> simp [fault?]

/-! ## Forms of a request -/

/-- A script that is followed from a session comes to a form, on another session and after the
results of the forms before it. -/
def ComesTo (emit : Value → Session → Session) (script : Script) (s : Session)
    (results : List Value) (tree : Tree) (s' : Session) : Prop :=
  ∃ earlier later, script = earlier ++ .form tree :: later ∧
    follow emit earlier s = (.ok results, s')

/-- A request makes a session evaluate a form, on the session that it has become by then. -/
def Evaluates (request : Request) (s : Session) (tree : Tree) (s' : Session) : Prop :=
  match request with
  | .eval text => ∃ results, ComesTo (fun _ s => s) (s.scriptOf text) s results tree s'
  | .file path content =>
    ∃ text results, String.fromUTF8? content = some text ∧
      ComesTo printResult (s.scriptOf (String.ofList (Text.unifyBreaks text.toList)))
        (s.note (.running path)) results tree s'
  | .pull run =>
    -- One form only: no result comes before it.
    ∃ script, s.runs[run]? = some script ∧ ComesTo (fun _ s => s) script s [] tree s'
  | .start _ | .configure _ | .print _ => False

/-- What a session encounters while it evaluates the forms of a request. -/
def Encounters (request : Request) (s : Session) (env : Environment) (values : List Value) :
    Prop :=
  ∃ tree s' limit, Evaluates request s tree s' ∧
    (s'.note (.evaluating tree)).limitFrom none = .ok limit ∧
    Eval.Encounters (nestingUnder limit) tree (s'.note (.evaluating tree)).machine env values

/-! ## Well-formed sessions -/

structure WellFormed (s : Session) : Prop where
  env : s.machine.env.WellFormed
  runs : ∀ script ∈ s.runs, script.WellFormed

/-- A well-formed session, and a result that is no internal fault. -/
structure Sound {α : Type} (result : Except Fault α) (s : Session) : Prop where
  session : s.WellFormed
  fault : ∀ fault, result = .error fault → fault.isInternal = false

theorem sound_ok {α : Type} {s : Session} (h : s.WellFormed) (a : α) :
    Sound (.ok a : Except Fault α) s := ⟨h, fun _ hf => by cases hf⟩

theorem sound_error {α : Type} {s : Session} (h : s.WellFormed) {fault : Fault}
    (external : fault.isInternal = false) : Sound (.error fault : Except Fault α) s := by
  refine ⟨h, fun _ hf => ?_⟩
  cases hf
  exact external

variable {s : Session}

theorem scriptOf_wellFormed (s : Session) (text : String) : (s.scriptOf text).WellFormed :=
  Script.wellFormed_ofText s.limit text

theorem WellFormed.note (h : s.WellFormed) (entry : Entry) : (s.note entry).WellFormed :=
  ⟨h.env, h.runs⟩

theorem WellFormed.printResult (h : s.WellFormed) (value : Value) :
    (printResult value s).WellFormed := by
  unfold Session.printResult
  split
  · exact h
  · exact ⟨h.env, h.runs⟩

/-- The limit that a form is evaluated under is no matter of the evaluator. -/
theorem limitFrom_isInternal (s : Session) (limit : Option Int) {fault : Fault}
    (h : s.limitFrom limit = .error fault) : fault.isInternal = false := by
  have of_number (n : Int) (h : limitOf n = .error fault) : fault.isInternal = false := by
    unfold limitOf at h
    split_ifs at h <;> cases h <;> rfl
  unfold limitFrom at h
  split at h
  · exact of_number _ h
  · exact of_number _ h
  · cases h
    rfl

theorem evaluateForm_sound (h : s.WellFormed) {tree : Tree} (ht : tree.WellFormed) :
    Sound (s.evaluateForm tree).1 (s.evaluateForm tree).2 := by
  have noted := h.note (.evaluating tree)
  rw [evaluateForm_apply]
  cases hl : (s.note (.evaluating tree)).limitFrom none with
  | error fault => exact sound_error noted (limitFrom_isInternal _ _ hl)
  | ok n =>
    obtain ⟨env, regular⟩ := Eval.evaluate_regular (nestingUnder n) ht noted.env
    dsimp only
    generalize evaluate (nestingUnder n) tree (s.note (.evaluating tree)).machine = outcome
      at env regular ⊢
    obtain ⟨result, m⟩ := outcome
    have session : WellFormed { s.note (.evaluating tree) with machine := m } := ⟨env, noted.runs⟩
    cases result with
    | error fault =>
      have external : (Fault.evaluation fault).isInternal = false := regular
      exact sound_error session external
    | ok value => exact sound_ok session value

/-! ## Scripts -/

theorem follow_sound {emit : Value → Session → Session}
    (emits : ∀ value s, s.WellFormed → (emit value s).WellFormed) {script : Script}
    (hs : script.WellFormed) (h : s.WellFormed) :
    Sound (follow emit script s).1 (follow emit script s).2 := by
  induction script generalizing s with
  | nil => exact sound_ok h []
  | cons event rest ih =>
    have later : Script.WellFormed rest := fun tree mem => hs tree (List.mem_cons_of_mem _ mem)
    cases event with
    | row line text => exact ih later (h.note _)
    | fault fault => exact sound_error h rfl
    | form tree =>
      have form := evaluateForm_sound h (hs tree List.mem_cons_self)
      unfold follow
      cases hr : s.evaluateForm tree with
      | mk result s₁ =>
        rw [hr] at form
        cases result with
        | error fault => exact sound_error form.session (form.fault fault rfl)
        | ok value =>
          have rested := ih later (emits value s₁ form.session)
          dsimp only
          cases hf : follow emit rest (emit value s₁) with
          | mk result s₂ =>
            rw [hf] at rested
            cases result with
            | error fault => exact rested
            | ok values => exact sound_ok rested.session _

theorem followOne_sound {script : Script} (hs : script.WellFormed) (h : s.WellFormed) :
    (followOne script s).2.1.WellFormed ∧ (followOne script s).2.2.WellFormed ∧
      ∀ fault, (followOne script s).1 = .fault fault → fault.isInternal = false := by
  induction script generalizing s with
  | nil => exact ⟨hs, h, fun _ hf => by cases hf⟩
  | cons event rest ih =>
    have later : Script.WellFormed rest := fun tree mem => hs tree (List.mem_cons_of_mem _ mem)
    have none : Script.WellFormed [] := by simp [Script.WellFormed]
    cases event with
    | row line text => exact ih later (h.note _)
    | fault fault =>
      refine ⟨none, h, fun _ hf => ?_⟩
      cases hf
      rfl
    | form tree =>
      have form := evaluateForm_sound h (hs tree List.mem_cons_self)
      unfold followOne
      cases hr : s.evaluateForm tree with
      | mk result s₁ =>
        rw [hr] at form
        cases result with
        | error fault =>
          refine ⟨none, form.session, fun _ hf => ?_⟩
          cases hf
          exact form.fault fault rfl
        | ok value => exact ⟨later, form.session, fun _ hf => by cases hf⟩

/-- Both the form that a well-formed script comes to and the session there are well-formed. -/
theorem ComesTo.wellFormed {emit : Value → Session → Session}
    (emits : ∀ value s, s.WellFormed → (emit value s).WellFormed) {script : Script}
    {results : List Value} {tree : Tree} {s' : Session}
    (hc : ComesTo emit script s results tree s') (hs : script.WellFormed) (h : s.WellFormed) :
    tree.WellFormed ∧ s'.WellFormed := by
  obtain ⟨earlier, later, rfl, followed⟩ := hc
  have first : Script.WellFormed earlier := fun tree mem => hs tree (List.mem_append_left _ mem)
  have sound := follow_sound emits first h
  rw [followed] at sound
  exact ⟨hs tree (by simp), sound.session⟩

/-! ## Requests -/

theorem evaluates_wellFormed {request : Request} {tree : Tree} {s' : Session}
    (he : Evaluates request s tree s') (h : s.WellFormed) : tree.WellFormed ∧ s'.WellFormed := by
  cases request with
  | eval text =>
    obtain ⟨results, comes⟩ := he
    exact comes.wellFormed (fun _ _ h => h) (s.scriptOf_wellFormed text) h
  | file path content =>
    obtain ⟨text, results, -, comes⟩ := he
    exact comes.wellFormed (fun value _ h => h.printResult value) (s.scriptOf_wellFormed _)
      (h.note _)
  | pull run =>
    obtain ⟨script, found, comes⟩ := he
    exact comes.wellFormed (fun _ _ h => h) (h.runs script (List.mem_of_getElem? found)) h
  | start text => exact he.elim
  | configure settings => exact he.elim
  | print line => exact he.elim

theorem eval_sound (h : s.WellFormed) (text : String) : Sound (s.eval text).1 (s.eval text).2 := by
  have followed := follow_sound (fun _ _ h => h) (s.scriptOf_wellFormed text) h
  unfold eval
  cases hf : follow (fun _ s => s) (s.scriptOf text) s with
  | mk result s' =>
    rw [hf] at followed
    cases result with
    | error fault => exact sound_error followed.session (followed.fault fault rfl)
    | ok values => exact sound_ok followed.session _

theorem runFile_sound (h : s.WellFormed) (path : String) (bytes : ByteArray) :
    Sound (s.runFile path bytes).1 (s.runFile path bytes).2 := by
  have noted := h.note (.running path)
  unfold runFile runBytes
  cases String.fromUTF8? bytes with
  | none => exact sound_error noted rfl
  | some text =>
    have followed := follow_sound (fun value _ h => h.printResult value)
      ((s.note (.running path)).scriptOf_wellFormed
        (String.ofList (Text.unifyBreaks text.toList))) noted
    unfold runText
    dsimp only
    generalize follow printResult _ _ = outcome at followed ⊢
    obtain ⟨result, s'⟩ := outcome
    cases result with
    | error fault => exact sound_error followed.session (followed.fault fault rfl)
    | ok values => exact sound_ok followed.session _

theorem pull_sound (h : s.WellFormed) (run : Nat) :
    (s.pull run).2.WellFormed ∧
      ∀ fault, (s.pull run).1 = .fault fault → fault.isInternal = false := by
  unfold pull
  cases found : s.runs[run]? with
  | none => exact ⟨h, fun _ hf => by cases hf⟩
  | some script =>
    have wellFormed := h.runs script (List.mem_of_getElem? found)
    obtain ⟨rest, session, external⟩ := followOne_sound wellFormed h
    refine ⟨⟨session.env, fun script' mem => ?_⟩, external⟩
    rcases List.mem_or_eq_of_mem_set mem with kept | rfl
    · exact session.runs script' kept
    · exact rest

/-- Every request leaves a well-formed session well-formed, and reports no internal fault. -/
theorem perform_sound (request : Request) (h : s.WellFormed) :
    (perform request s).2.WellFormed ∧
      ∀ fault, (perform request s).1.fault? = some fault → fault.isInternal = false := by
  cases request with
  | eval text =>
    have answer : perform (.eval text) s = (.finished (s.eval text).1, (s.eval text).2) := rfl
    have sound := eval_sound h text
    rw [answer]
    exact ⟨sound.session, fun fault hf => sound.fault fault (Reply.fault?_finished.1 hf)⟩
  | file path content =>
    have answer : perform (.file path content) s =
        (.finished ((s.runFile path content).1.map fun _ => .null),
          (s.runFile path content).2) := rfl
    have sound := runFile_sound h path content
    rw [answer]
    refine ⟨sound.session, fun fault hf => sound.fault fault ?_⟩
    have failed := Reply.fault?_finished.1 hf
    cases hr : (s.runFile path content).1 with
    | error fault' =>
      rw [hr] at failed
      cases failed
      rfl
    | ok done =>
      rw [hr] at failed
      cases failed
  | pull run =>
    have answer : perform (.pull run) s = (.pulled (s.pull run).1, (s.pull run).2) := rfl
    obtain ⟨session, external⟩ := pull_sound h run
    rw [answer]
    exact ⟨session, fun fault hf => external fault (Reply.fault?_pulled.1 hf)⟩
  | start text =>
    refine ⟨⟨h.env, fun script mem => ?_⟩, fun _ hf => by cases hf⟩
    rcases List.mem_append.1 mem with old | new
    · exact h.runs script old
    · rw [List.mem_singleton.1 new]
      exact s.scriptOf_wellFormed text
  | configure settings => exact ⟨⟨h.env, h.runs⟩, fun _ hf => by cases hf⟩
  | print line => exact ⟨⟨h.env, h.runs⟩, fun _ hf => by cases hf⟩

theorem after_wellFormed (requests : List Request) (h : s.WellFormed) :
    (s.after requests).WellFormed := by
  induction requests generalizing s with
  | nil => exact h
  | cons request rest ih => exact ih (perform_sound request h).1

theorem wellFormed_fresh (limit : Nat) (settings : Settings) :
    WellFormed { limit := limit, settings := settings } :=
  ⟨Environment.wellFormed_initial, by simp⟩

/-- What is encountered while a well-formed session answers a request is well-formed. -/
theorem encounters_wellFormed {request : Request} {env : Environment} {values : List Value}
    (he : Encounters request s env values) (h : s.WellFormed) :
    env.WellFormed ∧ ∀ v ∈ values, v.WellFormed := by
  obtain ⟨tree, s', limit, evaluates, -, encounters⟩ := he
  obtain ⟨form, session⟩ := evaluates_wellFormed evaluates h
  exact Eval.encounters_wellFormed form (session.note _).env encounters

/-- All values that any session can reach are proper: between requests those that its environment
holds, and while a request is answered those of the environments that are encountered and the values
that are passed there.  No request is ever answered with an internal fault. -/
theorem reached_proper (limit : Nat) (settings : Settings) (earlier : List Request)
    (request : Request) :
    let before : Session := after { limit := limit, settings := settings } earlier
    (∀ part, before.machine.env.Reaches part → part.Proper) ∧
      (∀ env values, Encounters request before env values →
        (∀ part, env.Reaches part → part.Proper) ∧
          ∀ v ∈ values, ∀ part, v.Reaches part → part.Proper) ∧
      ∀ fault, (perform request before).1.fault? = some fault → fault.isInternal = false := by
  intro before
  have session : before.WellFormed := after_wellFormed earlier (wellFormed_fresh limit settings)
  refine ⟨fun part => session.env.proper, fun env values encounters => ?_,
    (perform_sound request session).2⟩
  obtain ⟨wellFormed, passed⟩ := encounters_wellFormed encounters session
  exact ⟨fun part => wellFormed.proper, passed⟩

/-- After a function `f` was defined the environment holds a closure, and `(f #t)` is evaluated
where that closure can be reached. -/
theorem reached_proper_identity :
    let before : Session := after {} [.eval "(define f (lambda (x) x))"]
    let request : Request := .eval "(f #t)"
    (∃ c, before.machine.env.Reaches (.closure c) ∧ (Value.closure c).Proper) ∧
      (∃ env, Encounters request before env [] ∧ ∀ part, env.Reaches part → part.Proper) ∧
      ∀ fault, (perform request before).1.fault? = some fault → fault.isInternal = false := by
  intro before request
  have bound : (before.machine.env.globals.get? "f").map Value.typeName = some "Closure" := by
    decide +kernel
  have settings : before.settings = {} := by decide +kernel
  have reading : before.limit = 1000 := by decide +kernel
  have all := reached_proper defaultLimit {} [.eval "(define f (lambda (x) x))"] request
  have same : after { limit := defaultLimit, settings := {} }
      [.eval "(define f (lambda (x) x))"] = before := rfl
  simp only [same] at all
  -- From here on it does not count how the session was reached.
  clear_value before
  obtain ⟨held, encountered, external⟩ := all
  refine ⟨?_, ?_, external⟩
  · obtain ⟨v, get, shown⟩ := Option.map_eq_some_iff.1 bound
    cases v with
    | closure c =>
      have reaches : before.machine.env.Reaches (.closure c) :=
        ⟨_, List.mem_cons_self, "f", _, get, .refl _⟩
      exact ⟨c, reaches, held _ reaches⟩
    | primitive p => cases p <;> simp [Value.typeName, Primitive.typeName] at shown
    | _ => simp [Value.typeName] at shown
  · let line : Event := .row 0 ['(', 'f', ' ', '#', 't', ')']
    let tree : Tree := .list [.leaf ⟨0, .identifier "f"⟩, .leaf ⟨0, .boolean true⟩]
    have script : before.scriptOf "(f #t)" = [line, .form tree] := by
      rw [scriptOf, reading]
      rfl
    have comes : ComesTo (fun _ s => s) (before.scriptOf "(f #t)") before [] tree _ :=
      ⟨[line], [], script, rfl⟩
    have limit : before.limitFrom none = .ok 10000 := by
      unfold limitFrom
      rw [settings]
      rfl
    have encounters : Encounters request before before.machine.env [] :=
      ⟨tree, _, 10000, ⟨[], comes⟩, limit, Eval.encounters_start 3332 tree _⟩
    exact ⟨_, encounters, (encountered _ _ encounters).1⟩

end Session

end Lisplet
