import Lisplet.Proofs.Run

/-!
# The loop of a run

A run looks whether a token is left, reads the form that it begins, evaluates that form, and looks
again (`Session.turn`, `Session.loop`).  It takes rows from its source while it looks and while it
reads, and notes each one.  Sessions follow scripts instead, and that is the same: what is left of a
stream has a script (`TokenStream.script`), one turn of the loop is what following this script up to
the next result does (`Session.followOne_script`), and the whole loop is what following it to the
end does (`Session.follow_script`), with the same results and faults and on equal sessions.
-/

namespace Lisplet

namespace Session

/-- Notes that rows are fetched, but for the blank ones. -/
def noteRows (line : Nat) : List (List Char) → Session → Session
  | [], s => s
  | row :: rows, s =>
    noteRows (line + 1) rows (if isBlankRow row then s else s.note (.scanning line row))

/-- Notes the rows that were taken from one state of a stream to a later one. -/
def noteTaken (s : Session) (t t' : TokenStream) : Session :=
  noteRows t.taken (t.rows.take (t'.taken - t.taken)) s

/-- One turn of the loop: looks at the next token, and if there is one, reads a form and evaluates
it. -/
def turn (limit : Nat) (t : TokenStream) (s : Session) : Pulled × TokenStream × Session :=
  match t.peek with
  | (.error fault, t₁) => (.fault (.reading (.scan fault)), t₁, s.noteTaken t t₁)
  | (.ok none, t₁) => (.ended, t₁, s.noteTaken t t₁)
  | (.ok (some _), t₁) =>
    match t₁.read limit with
    | (.error fault, t₂) => (.fault (.reading fault), t₂, (s.noteTaken t t₁).noteTaken t₁ t₂)
    | (.ok tree, t₂) =>
      match ((s.noteTaken t t₁).noteTaken t₁ t₂).evaluateForm tree with
      | (.error fault, s') => (.fault fault, t₂, s')
      | (.ok value, s') => (.result value, t₂, s')

variable {limit : Nat} {t t' : TokenStream} {s s' : Session}

/-- A turn that has a result has read a token. -/
theorem pending_lt_of_turn {value : Value} (h : turn limit t s = (.result value, t', s')) :
    t'.pending.length < t.pending.length := by
  unfold turn at h
  split at h
  · cases h
  · cases h
  · next token t₁ peeked =>
    split at h
    · cases h
    · next tree t₂ read =>
      split at h
      · cases h
      · cases h
        exact TokenStream.pending_lt_of_read peeked read

/-- Takes turns until one has no result.  Every result is handed to `emit` before the next turn. -/
def loop (emit : Value → Session → Session) (limit : Nat) (t : TokenStream) (s : Session) :
    Except Fault (List Value) × Session :=
  match _h : turn limit t s with
  | (.ended, _, s') => (.ok [], s')
  | (.fault fault, _, s') => (.error fault, s')
  | (.result value, t', s') =>
    match loop emit limit t' (emit value s') with
    | (.error fault, s'') => (.error fault, s'')
    | (.ok values, s'') => (.ok (value :: values), s'')
termination_by t.pending.length
decreasing_by exact pending_lt_of_turn _h

/-! ## Turns and scripts -/

theorem followOne_fetches (line : Nat) (rows : List (List Char)) (rest : Script) (s : Session) :
    followOne (Script.fetches line rows ++ rest) s = followOne rest (noteRows line rows s) := by
  induction rows generalizing line s with
  | nil => rfl
  | cons row rows ih =>
    rw [Script.fetches, Script.rowEvents, noteRows]
    split_ifs
    · exact ih (line + 1) s
    · exact ih (line + 1) _

theorem followOne_fetched (t t' : TokenStream) (rest : Script) (s : Session) :
    followOne (t.fetched t' ++ rest) s = followOne rest (s.noteTaken t t') :=
  followOne_fetches _ _ rest s

/-- One turn is what following the script of the stream up to the next result does. -/
theorem followOne_script (limit : Nat) (t : TokenStream) (s : Session) :
    followOne (t.script limit) s =
      match turn limit t s with
      | (.result value, t', s') => (.result value, t'.script limit, s')
      | (pulled, _, s') => (pulled, [], s') := by
  rw [turn]
  rcases hp : t.peek with ⟨fault | _ | token, t₁⟩
  · rw [TokenStream.script_peek, hp, followOne_fetched]
    rfl
  · rw [TokenStream.script_peek_none limit hp, ← List.append_nil (t.fetched t₁), followOne_fetched]
    rfl
  · -- The rows that are taken by looking, and then those that are taken by reading, are noted
    -- before the form is evaluated.
    rw [TokenStream.script_peek_some limit hp, followOne_fetched, followOne_fetched]
    rcases hr : t₁.read limit with ⟨fault | tree, t₂⟩
    · simp only [hr, followOne]
    · simp only [hr, followOne]
      rcases evaluateForm _ tree with ⟨fault | value, s'⟩ <;> rfl

/-- A script is followed to its end by following it from result to result. -/
theorem follow_eq_followOne (emit : Value → Session → Session) (script : Script) (s : Session) :
    follow emit script s =
      match followOne script s with
      | (.ended, _, s') => (.ok [], s')
      | (.fault fault, _, s') => (.error fault, s')
      | (.result value, rest, s') =>
        match follow emit rest (emit value s') with
        | (.error fault, s'') => (.error fault, s'')
        | (.ok values, s'') => (.ok (value :: values), s'') := by
  induction script generalizing s with
  | nil => rfl
  | cons event rest ih =>
    cases event with
    | row line text => exact ih _
    | fault fault => rfl
    | form tree =>
      rw [follow, followOne]
      rcases s.evaluateForm tree with ⟨fault | value, s'⟩ <;> rfl

/-- The loop is what following the script of the stream to the end does. -/
theorem follow_script (emit : Value → Session → Session) (limit : Nat) (t : TokenStream)
    (s : Session) : follow emit (t.script limit) s = loop emit limit t s := by
  fun_induction loop emit limit t s with
  | case1 t s t' s' h => rw [follow_eq_followOne, followOne_script, h]
  | case2 t s fault t' s' h => rw [follow_eq_followOne, followOne_script, h]
  | case3 t s value t' s' h fault s'' later ih =>
    rw [follow_eq_followOne, followOne_script, h]
    simp only [ih, later]
  | case4 t s value t' s' h values s'' later ih =>
    rw [follow_eq_followOne, followOne_script, h]
    simp only [ih, later]

/-- The forms of a text are evaluated by the loop over its token stream. -/
theorem follow_ofText (emit : Value → Session → Session) (limit : Nat) (text : String)
    (s : Session) :
    follow emit (Script.ofText limit text) s = loop emit limit (TokenStream.ofText text) s :=
  follow_script emit limit (TokenStream.ofText text) s

end Session

end Lisplet
