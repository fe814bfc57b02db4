import Lisplet.Proofs.Run

/-!
# Later rows

A run fetches a row only when it has nothing left to do with the rows before, so rows that are not
fetched yet have no influence on what it has done.  Two programs that begin with the same rows
therefore go through the same steps up to the first one for which a further row is fetched or the
input ends (`Session.steps_shared`).  A form is evaluated when the row of its last token is fetched,
and before the next row is (`Script.formsAt_segments`), and a row that cannot be scanned ends the
run before any form that has a token on it (`Session.steps_unscannable`).
-/

namespace Lisplet

/-! ## Rows without tokens, and rows with faults -/

/-- A row of blanks has no pieces. -/
theorem pieces_of_isBlankRow {row : List Char} (h : isBlankRow row = true) : pieces row = [] := by
  rw [isBlankRow, List.all_eq_true] at h
  rw [pieces]
  induction row with
  | nil => rfl
  | cons c cs ih =>
    obtain ⟨first, rest⟩ := List.forall_mem_cons.1 h
    have gap : isGap c = true := by simp [isGap, first]
    rw [piecesFrom, if_pos gap, ih rest]
    rfl

theorem scanRow_of_isBlankRow {row : List Char} (h : isBlankRow row = true) (line : Nat) :
    scanRow line row = ([], none) := by
  rw [scanRow, pieces_of_isBlankRow h, scanPieces]

/-- The fault of a row names the line of the row. -/
theorem line?_of_scanRow {line : Nat} {row : List Char} {tokens : List Token} {fault : ScanFault}
    (h : scanRow line row = (tokens, some fault)) : fault.line? = some line := by
  rw [scanRow] at h
  generalize pieces row = parts at h
  induction parts generalizing tokens with
  | nil => cases h
  | cons piece rest ih =>
    cases piece with
    | openQuote =>
      cases h
      rfl
    | lexeme text =>
      rw [scanPieces] at h
      cases ht : Token.ofLexeme text line with
      | error fault' =>
        rw [ht] at h
        cases h
        exact Token.line?_of_ofLexeme ht
      | ok token =>
        rw [ht] at h
        cases hs : scanPieces line rest with
        | mk more fault' =>
          rw [hs] at h
          cases h
          exact ih hs

/-! ## The rows of a script -/

/-- The form of an event, if it is one. -/
def Event.tree? : Event → Option Tree
  | .form tree => some tree
  | _ => none

namespace Script

variable {limit : Nat} {p : Partial} {line : Nat} {rows : List (List Char)}

theorem mem_rowEvents {row text : List Char} {l : Nat} (h : .row l text ∈ rowEvents line row) :
    l = line := by
  unfold rowEvents at h
  split_ifs at h
  · cases h
  · rw [List.mem_singleton] at h
    cases h
    rfl

theorem row_notMem_map_form (trees : List Tree) (l : Nat) (text : List Char) :
    Event.row l text ∉ trees.map Event.form := by
  simp

/-- The rows of the events of some rows. -/
theorem row_mem_through {l : Nat} {text : List Char}
    (h : .row l text ∈ (through limit p line rows).1) : line ≤ l ∧ l < line + rows.length := by
  induction rows generalizing p line with
  | nil => cases h
  | cons row rows ih =>
    rw [List.length_cons]
    rw [through] at h
    cases hs : scanRow line row with
    | mk tokens fault =>
      rw [hs] at h
      cases fault with
      | some fault =>
        rcases List.mem_append.1 h with first | last
        · have same := mem_rowEvents first
          omega
        · simp at last
      | none =>
        dsimp only at h
        cases hf : formsOf limit p tokens with
        | mk trees outcome =>
          rw [hf] at h
          cases outcome with
          | error fault =>
            rcases List.mem_append.1 h with first | later
            · have same := mem_rowEvents first
              omega
            · simp at later
          | ok p' =>
            rcases List.mem_append.1 h with first | later
            · have same := mem_rowEvents first
              omega
            · rcases List.mem_append.1 later with forms | rest
              · exact absurd forms (row_notMem_map_form trees l text)
              · have inside := ih rest
                omega

/-- A blank row is passed over. -/
theorem ofRowsFrom_blank {row : List Char} (h : isBlankRow row = true) :
    ofRowsFrom limit p line (row :: rows) = ofRowsFrom limit p (line + 1) rows := by
  rw [ofRowsFrom, scanRow_of_isBlankRow h, rowEvents, if_pos h]
  rfl

/-- Any other row is fetched before its tokens are read. -/
theorem ofRowsFrom_nonblank {row : List Char} (h : ¬ isBlankRow row = true) :
    ofRowsFrom limit p line (row :: rows) =
      .row line row ::
        match scanRow line row with
        | (_, some fault) => [.fault (.scan fault)]
        | (tokens, none) =>
          match formsOf limit p tokens with
          | (trees, .ok p') => trees.map .form ++ ofRowsFrom limit p' (line + 1) rows
          | (trees, .error fault) => trees.map .form ++ [.fault fault] := by
  rw [ofRowsFrom, rowEvents, if_neg h]
  rfl

theorem row_notMem_endEvents (l : Nat) (text : List Char) : .row l text ∉ endEvents p := by
  cases p <;> simp [endEvents]

/-- A script has no row before the first one that it is the script of. -/
theorem row_mem_ofRowsFrom {l : Nat} {text : List Char}
    (h : .row l text ∈ ofRowsFrom limit p line rows) : line ≤ l := by
  have whole := ofRowsFrom_append limit p line rows []
  rw [List.append_nil] at whole
  rw [whole] at h
  rcases List.mem_append.1 h with inside | last
  · exact (row_mem_through inside).1
  · cases hr : (through limit p line rows).2 with
    | none => simp [hr] at last
    | some p' =>
      rw [hr] at last
      exact absurd last (row_notMem_endEvents l text)

end Script

/-! ## The rows that a step has fetched -/

namespace Session

variable {emit : Value → Session → Session} {limit : Nat}

/-- What holds of the rows fetched so far and of every row of a script holds of the rows that its
steps have fetched. -/
theorem fetched_of_mem_steps (holds : Nat → Prop) {script : Script} {fetched : Nat}
    (rows : ∀ l text, .row l text ∈ script → holds (l + 1)) (h : holds fetched) (s : Session) :
    ∀ step ∈ steps emit script fetched s, holds step.fetched := by
  induction script generalizing fetched s with
  | nil => simpa [steps] using h
  | cons event rest ih =>
    have later : ∀ l text, .row l text ∈ rest → holds (l + 1) := fun l text mem =>
      rows l text (List.mem_cons_of_mem _ mem)
    cases event with
    | row line text => exact ih later (rows line text List.mem_cons_self) _
    | fault fault => simpa [steps] using h
    | form tree =>
      cases hr : s.evaluateForm tree with
      | mk result s' =>
        cases result with
        | error fault => simpa [steps_form_error hr] using h
        | ok value =>
          rw [steps_form_ok hr]
          exact List.forall_mem_cons.2 ⟨h, ih later h _⟩

/-- With some rows to read, every step fetches one of them, unless the input ends. -/
theorem fetched_or_atEnd {p : Partial} {line : Nat} {rows : List (List Char)} {fetched : Nat}
    {s : Session} :
    ∀ step ∈ steps emit (Script.ofRowsFrom limit p line rows) fetched s,
      line < step.fetched ∨ step.AtEnd := by
  induction rows generalizing p line fetched s with
  | nil =>
    cases p with
    | nil =>
      intro step mem
      obtain rfl := List.mem_singleton.1 mem
      exact .inr ⟨rfl, .inl rfl⟩
    | cons inner outer =>
      intro step mem
      obtain rfl := List.mem_singleton.1 mem
      exact .inr ⟨rfl, .inr ⟨inner.line, rfl⟩⟩
  | cons row rows ih =>
    by_cases blank : isBlankRow row = true
    · intro step mem
      rw [Script.ofRowsFrom_blank blank] at mem
      rcases ih step mem with more | ended
      · exact .inl (by omega)
      · exact .inr ended
    · intro step mem
      obtain ⟨rest, whole⟩ : ∃ rest, Script.ofRowsFrom limit p line (row :: rows) =
          .row line row :: rest := ⟨_, Script.ofRowsFrom_nonblank blank⟩
      have later : ∀ l text, .row l text ∈ rest → line < l + 1 := by
        intro l text inside
        have member : .row l text ∈ Script.ofRowsFrom limit p line (row :: rows) := by
          rw [whole]
          exact List.mem_cons_of_mem _ inside
        exact Nat.lt_succ_of_le (Script.row_mem_ofRowsFrom member)
      rw [whole, steps] at mem
      exact .inl (fetched_of_mem_steps (line < ·) later (Nat.lt_succ_self line) _ step mem)

/-- Runs of programs that begin with the same rows have the same steps, up to the first one for
which a further row is fetched or the input ends. -/
theorem steps_shared (limit : Nat) (shared more more' : List (List Char)) (s : Session) :
    ∃ common late late',
      steps emit (Script.ofRows limit (shared ++ more)) 0 s = common ++ late ∧
      steps emit (Script.ofRows limit (shared ++ more')) 0 s = common ++ late' ∧
      (∀ step ∈ common, step.fetched ≤ shared.length) ∧
      ∀ step ∈ late ++ late', shared.length < step.fetched ∨ step.AtEnd := by
  have rows : ∀ l text, .row l text ∈ (Script.through limit [] 0 shared).1 →
      l + 1 ≤ shared.length := by
    intro l text mem
    have inside := Script.row_mem_through mem
    omega
  have bounded : ∀ step ∈ steps emit (Script.through limit [] 0 shared).1 0 s,
      step.fetched ≤ shared.length :=
    fetched_of_mem_steps (· ≤ shared.length) rows (Nat.zero_le _) s
  simp only [Script.ofRows, Script.ofRowsFrom_append limit [] 0 shared]
  cases hr : (Script.through limit [] 0 shared).2 with
  | none =>
    refine ⟨_, [], [], ?_, ?_, bounded, by simp⟩ <;> simp
  | some p =>
    simp only [steps_append]
    cases hf : follow emit (Script.through limit [] 0 shared).1 s with
    | mk result s' =>
      cases result with
      | error fault => exact ⟨_, [], [], by simp, by simp, bounded, by simp⟩
      | ok values =>
        refine ⟨_, _, _, rfl, rfl, fun step mem => bounded step (List.dropLast_subset _ mem), ?_⟩
        intro step mem
        rw [Nat.zero_add] at mem
        rcases List.mem_append.1 mem with first | second
        · exact fetched_or_atEnd step first
        · exact fetched_or_atEnd step second

end Session

/-! ## The lines of forms -/

namespace Script

variable {limit : Nat} {p : Partial}

/-- The forms of a script up to its fault, each with the rows that are fetched before it. -/
def formsAt : Nat → Script → List (Nat × Tree)
  | _, [] => []
  | _, .row line _ :: rest => formsAt (line + 1) rest
  | _, .fault _ :: _ => []
  | fetched, .form tree :: rest => (fetched, tree) :: formsAt fetched rest

theorem formsAt_append_forms (fetched : Nat) (trees : List Tree) (rest : Script) :
    formsAt fetched (trees.map .form ++ rest) =
      trees.map (fetched, ·) ++ formsAt fetched rest := by
  induction trees with
  | nil => rfl
  | cons tree trees ih => rw [List.map_cons, List.cons_append, formsAt, ih]; rfl

/-- The tokens of a form, the last of which is the one that finishes it. -/
def Finishes (segment : List Token) (last : Token) (tree : Tree) : Prop :=
  written segment = tree.written ∧ segment.getLast? = some last

/-- The forms that tokens finish are read from them one after the other. -/
theorem formsOf_segments {before tokens : List Token} {trees : List Tree}
    {outcome : Except ReadFault Partial} (h : p.Reads before)
    (hf : formsOf limit p tokens = (trees, outcome)) :
    ∃ segments rest, before ++ tokens = segments.flatten ++ rest ∧
      List.Forall₂ (fun segment tree => ∃ last ∈ tokens, Finishes segment last tree) segments
        trees ∧
      ∀ p', outcome = .ok p' → p'.Reads rest := by
  induction tokens generalizing p before trees with
  | nil =>
    cases hf
    exact ⟨[], before, List.append_nil _, .nil, fun p' same => by cases same; exact h⟩
  | cons token tokens ih =>
    have fed : (p.feed limit token).Reads (before ++ [token]) := h.feed token
    have widen {segments : List (List Token)} {trees : List Tree}
        (all : List.Forall₂ (fun segment tree => ∃ last ∈ tokens, Finishes segment last tree)
          segments trees) :
        List.Forall₂ (fun segment tree => ∃ last ∈ token :: tokens, Finishes segment last tree)
          segments trees := by
      refine all.imp ?_
      rintro segment tree ⟨last, mem, ends⟩
      exact ⟨last, List.mem_cons_of_mem _ mem, ends⟩
    rw [formsOf] at hf
    cases hr : p.feed limit token with
    | fault fault =>
      rw [hr] at hf
      cases hf
      exact ⟨[], before ++ token :: tokens, rfl, .nil, by simp⟩
    | more p₁ =>
      rw [hr] at hf fed
      obtain ⟨segments, rest, same, all, open'⟩ := ih fed hf
      exact ⟨segments, rest, by simpa using same, widen all, open'⟩
    | form tree =>
      rw [hr] at hf fed
      cases hl : formsOf limit [] tokens with
      | mk later outcome' =>
        simp only [hl] at hf
        cases hf
        obtain ⟨segments, rest, same, all, open'⟩ := ih .nil hl
        refine ⟨(before ++ [token]) :: segments, rest, ?_, .cons ?_ (widen all), open'⟩
        · rw [List.nil_append] at same
          simp [same]
        · exact ⟨token, List.mem_cons_self, fed, by simp⟩

/-- The tokens of a form, with as many rows fetched as its last token needs. -/
def Places (segment : List Token) (form : Nat × Tree) : Prop :=
  ∃ last, Finishes segment last form.2 ∧ last.line + 1 = form.1

/-- The forms of a script are read from the tokens of its rows one after the other, and when a form
is finished the rows that are fetched are those up to the line of its last token. -/
theorem formsAt_segments (limit : Nat) {before : List Token} (h : p.Reads before)
    (line fetched : Nat) (rows : List (List Char)) :
    ∃ segments rest,
      before.map .token ++ rowsHanded line rows = segments.flatten.map .token ++ rest ∧
      List.Forall₂ Places segments (formsAt fetched (ofRowsFrom limit p line rows)) := by
  induction rows generalizing p before line fetched with
  | nil =>
    refine ⟨[], before.map .token ++ rowsHanded line [], rfl, ?_⟩
    cases p <;> exact .nil
  | cons row rows ih =>
    rw [rowsHanded_cons, rowHanded]
    by_cases blank : isBlankRow row = true
    · rw [ofRowsFrom_blank blank, scanRow_of_isBlankRow blank]
      exact ih h (line + 1) fetched
    rw [ofRowsFrom_nonblank blank, formsAt]
    cases hs : scanRow line row with
    | mk tokens fault =>
      cases fault with
      | some fault => exact ⟨[], _, rfl, .nil⟩
      | none =>
        have lines : ∀ token ∈ tokens, token.line = line := by
          intro token mem
          have scanned : token ∈ (scanRow line row).1 := by rwa [hs]
          exact line_of_mem_scanRow scanned
        cases hf : formsOf limit p tokens with
        | mk trees outcome =>
          obtain ⟨segments, rest, same, all, open'⟩ := formsOf_segments h hf
          have here : List.Forall₂ Places segments (trees.map (line + 1, ·)) := by
            rw [List.forall₂_map_right_iff]
            refine all.imp ?_
            rintro segment tree ⟨last, mem, ends⟩
            exact ⟨last, ends, by rw [lines last mem]⟩
          have front : before.map Handed.token ++ tokens.map .token =
              segments.flatten.map .token ++ rest.map .token := by
            rw [← List.map_append, same, List.map_append]
          dsimp only
          rw [hf, Option.toList_none, List.map_nil, List.nil_append, ← List.append_assoc, front,
            List.append_assoc]
          cases outcome with
          | error fault =>
            refine ⟨segments, _, rfl, ?_⟩
            dsimp only
            rw [formsAt_append_forms, formsAt, List.append_nil]
            exact here
          | ok p' =>
            obtain ⟨segments', rest', same', later⟩ := ih (open' p' rfl) (line + 1) (line + 1)
            refine ⟨segments ++ segments', rest', ?_, ?_⟩
            · rw [same', List.flatten_append, List.map_append, List.append_assoc]
            · dsimp only
              rw [formsAt_append_forms]
              exact List.rel_append here later

/-- Rows that can be scanned are read into the forms of their tokens; a fault comes after these. -/
theorem through_of_tokens (limit : Nat) (p : Partial) {line : Nat} {rows : List (List Char)}
    {ts : List Token} (h : rowsHanded line rows = ts.map .token) :
    ∃ events : Script, (∀ fault, .fault fault ∉ events) ∧
      events.filterMap Event.tree? = (formsOf limit p ts).1 ∧
      through limit p line rows =
        match (formsOf limit p ts).2 with
        | .ok p' => (events, some p')
        | .error fault => (events ++ [.fault fault], none) := by
  induction rows generalizing p line ts with
  | nil =>
    obtain rfl : ts = [] := List.map_eq_nil_iff.1 h.symm
    exact ⟨[], by simp, rfl, rfl⟩
  | cons row rows ih =>
    obtain ⟨tokens, hs⟩ := TokenStream.scanRow_of_rowsHanded h
    rw [rowsHanded_cons, rowHanded, hs] at h
    obtain ⟨more, rfl, later⟩ := TokenStream.exists_tokens h
    have clean : ∀ fault, .fault fault ∉ rowEvents line row := by
      intro fault mem
      unfold rowEvents at mem
      split_ifs at mem <;> simp at mem
    have formless : (rowEvents line row).filterMap Event.tree? = [] := by
      unfold rowEvents
      split_ifs <;> rfl
    have own (trees : List Tree) : (trees.map Event.form).filterMap Event.tree? = trees := by
      rw [List.filterMap_map]
      exact List.filterMap_some
    rw [formsOf_append, through, hs]
    cases hf : formsOf limit p tokens with
    | mk trees outcome =>
      cases outcome with
      | error fault =>
        refine ⟨rowEvents line row ++ trees.map .form, ?_, ?_, ?_⟩
        · intro fault mem
          rcases List.mem_append.1 mem with first | forms
          · exact clean fault first
          · simp at forms
        · rw [List.filterMap_append, formless, own]
          rfl
        · simp only [hf, List.append_assoc]
      | ok p' =>
        obtain ⟨events, faultless, forms, all⟩ := ih p' later
        refine ⟨rowEvents line row ++ (trees.map .form ++ events), ?_, ?_, ?_⟩
        · intro fault mem
          rcases List.mem_append.1 mem with first | rest
          · exact clean fault first
          rcases List.mem_append.1 rest with forms | rest
          · simp at forms
          · exact faultless fault rest
        · rw [List.filterMap_append, List.filterMap_append, formless, own, forms]
          rfl
        · simp only [hf, all]
          cases (formsOf limit p' more).2 with
          | ok p'' => rfl
          | error fault => simp only [List.append_assoc]

/-- The script of rows that can be scanned and a row after them that cannot: the forms of the tokens
before that row, and then the fault of the row, unless these tokens have a fault of their own. -/
theorem ofRows_unscannable (limit : Nat) {shared : List (List Char)} {ts left : List Token}
    {bad : List Char} {fault : ScanFault} (h : rowsHanded 0 shared = ts.map .token)
    (hb : scanRow shared.length bad = (left, some fault)) (rest : List (List Char)) :
    ∃ events : Script, (∀ fault, .fault fault ∉ events) ∧
      (∀ l text, .row l text ∈ events → l + 1 ≤ shared.length) ∧
      events.filterMap Event.tree? = (formsOf limit [] ts).1 ∧
      ofRows limit (shared ++ bad :: rest) =
        match (formsOf limit [] ts).2 with
        | .ok _ => events ++ [.row shared.length bad, .fault (.scan fault)]
        | .error fault => events ++ [.fault fault] := by
  obtain ⟨events, faultless, forms, all⟩ := through_of_tokens limit [] h
  have busy : ¬ isBlankRow bad = true := by
    intro blank
    rw [scanRow_of_isBlankRow blank] at hb
    cases hb
  have whole := ofRowsFrom_append limit [] 0 shared (bad :: rest)
  rw [Nat.zero_add] at whole
  refine ⟨events, faultless, ?_, forms, ?_⟩
  · intro l text mem
    have inside : .row l text ∈ (through limit [] 0 shared).1 := by
      rw [all]
      cases (formsOf limit [] ts).2 with
      | ok p => exact mem
      | error fault => exact List.mem_append_left _ mem
    have bounds := row_mem_through inside
    omega
  · rw [ofRows, whole, all]
    cases (formsOf limit [] ts).2 with
    | ok p =>
      dsimp only
      rw [ofRowsFrom_nonblank busy, hb]
    | error fault => exact List.append_nil _

end Script

namespace Session

variable {emit : Value → Session → Session}

/-- The form that was evaluated in a step, with the rows that were fetched for it. -/
def Step.read (step : Step) : Option (Nat × Tree) := step.form.map (step.fetched, ·)

/-- A run evaluates forms of its script from the first one on. -/
theorem filterMap_read_prefix (emit : Value → Session → Session) (script : Script) (fetched : Nat)
    (s : Session) :
    (steps emit script fetched s).filterMap Step.read <+: Script.formsAt fetched script := by
  induction script generalizing fetched s with
  | nil => exact List.nil_prefix
  | cons event rest ih =>
    cases event with
    | row line text => exact ih _ _
    | fault fault => exact List.nil_prefix
    | form tree =>
      cases hr : s.evaluateForm tree with
      | mk result s' =>
        cases result with
        | error fault =>
          rw [steps_form_error hr, Script.formsAt]
          exact List.cons_prefix_cons.2 ⟨rfl, List.nil_prefix⟩
        | ok value =>
          rw [steps_form_ok hr, Script.formsAt]
          exact List.cons_prefix_cons.2 ⟨rfl, ih _ _⟩

/-- The last step of a run evaluates a form that fails. -/
def Step.Fails (step : Step) : Prop :=
  ∃ tree fault, step.form = some tree ∧ step.pulled = .fault fault

/-- A script without faults is followed to its end, and so are the events after it, unless one of
its forms fails. -/
theorem steps_faultless_append (emit : Value → Session → Session) {events : Script}
    (faultless : ∀ fault, .fault fault ∉ events) {n : Nat}
    (rows : ∀ l text, .row l text ∈ events → l + 1 ≤ n) (rest : Script) {fetched : Nat}
    (h : fetched ≤ n) (s : Session) :
    ∃ done, (∀ step ∈ done, step.fetched ≤ n ∧ ∃ value, step.pulled = .result value) ∧
      ((∃ last, steps emit (events ++ rest) fetched s = done ++ [last] ∧ last.Fails ∧
          last.fetched ≤ n ∧
          (done ++ [last]).filterMap Step.form <+: events.filterMap Event.tree?) ∨
        ∃ fetched' s', steps emit (events ++ rest) fetched s =
            done ++ steps emit rest fetched' s' ∧
          done.filterMap Step.form = events.filterMap Event.tree?) := by
  induction events generalizing fetched s with
  | nil => exact ⟨[], by simp, .inr ⟨fetched, s, rfl, rfl⟩⟩
  | cons event events ih =>
    have faultless' : ∀ fault, .fault fault ∉ events := fun fault mem =>
      faultless fault (List.mem_cons_of_mem _ mem)
    have rows' : ∀ l text, .row l text ∈ events → l + 1 ≤ n := fun l text mem =>
      rows l text (List.mem_cons_of_mem _ mem)
    cases event with
    | row line text => exact ih faultless' rows' (rows line text List.mem_cons_self) _
    | fault fault => exact absurd List.mem_cons_self (faultless fault)
    | form tree =>
      rw [List.cons_append]
      cases hr : s.evaluateForm tree with
      | mk result s' =>
        cases result with
        | error fault =>
          refine ⟨[], by simp, .inl ⟨_, steps_form_error hr _ _, ⟨tree, fault, rfl, rfl⟩, h, ?_⟩⟩
          exact List.cons_prefix_cons.2 ⟨rfl, List.nil_prefix⟩
        | ok value =>
          obtain ⟨done, results, ends⟩ := ih faultless' rows' h (emit value s')
          refine ⟨⟨fetched, some tree, .result value, s'⟩ :: done,
            List.forall_mem_cons.2 ⟨⟨h, value, rfl⟩, results⟩, ?_⟩
          rw [steps_form_ok hr]
          rcases ends with ⟨last, all, fails, early, forms⟩ | ⟨fetched', s₁, all, forms⟩
          · refine .inl ⟨last, ?_, fails, early, List.cons_prefix_cons.2 ⟨rfl, forms⟩⟩
            rw [all, List.cons_append]
          · refine .inr ⟨fetched', s₁, ?_, congrArg (tree :: ·) forms⟩
            rw [all, List.cons_append]

/-- The step in which a run ends with a fault of its text. -/
def Step.Stops (step : Step) (fault : ReadFault) : Prop :=
  step.form = none ∧ step.pulled = .fault (.reading fault)

/-- A row that cannot be scanned ends a run: before it the forms of the rows that come first are
evaluated, and no others, unless one of them fails or their tokens have a fault. -/
theorem steps_unscannable (limit : Nat) {shared : List (List Char)} {ts left : List Token}
    {bad : List Char} {fault : ScanFault} (h : rowsHanded 0 shared = ts.map .token)
    (hb : scanRow shared.length bad = (left, some fault)) (rest : List (List Char)) (s : Session) :
    ∃ done last, steps emit (Script.ofRows limit (shared ++ bad :: rest)) 0 s = done ++ [last] ∧
      (∀ step ∈ done, step.fetched ≤ shared.length ∧ ∃ value, step.pulled = .result value) ∧
      ((last.Fails ∧ last.fetched ≤ shared.length ∧
          (done ++ [last]).filterMap Step.form <+: (Script.formsOf limit [] ts).1) ∨
        done.filterMap Step.form = (Script.formsOf limit [] ts).1 ∧
          match (Script.formsOf limit [] ts).2 with
          | .error early => last.Stops early
          | .ok _ => last.Stops (.scan fault)) := by
  obtain ⟨events, faultless, rows, forms, all⟩ := Script.ofRows_unscannable limit h hb rest
  rw [all, ← forms]
  cases (Script.formsOf limit [] ts).2 with
  | ok p =>
    obtain ⟨done, results, ends⟩ := steps_faultless_append emit faultless rows
      [.row shared.length bad, .fault (.scan fault)] (Nat.zero_le _) s
    rcases ends with ⟨last, all, fails⟩ | ⟨fetched, s', all, whole⟩
    · exact ⟨done, last, all, results, .inl fails⟩
    · exact ⟨done, _, all, results, .inr ⟨whole, rfl, rfl⟩⟩
  | error early =>
    obtain ⟨done, results, ends⟩ := steps_faultless_append emit faultless rows
      [.fault early] (Nat.zero_le _) s
    rcases ends with ⟨last, all, fails⟩ | ⟨fetched, s', all, whole⟩
    · exact ⟨done, last, all, results, .inl fails⟩
    · exact ⟨done, _, all, results, .inr ⟨whole, rfl, rfl⟩⟩

/-- The forms that a run evaluates, one after the other, and the tokens that they are read from. -/
theorem read_segments (limit : Nat) (rows : List (List Char)) (s : Session) :
    ∃ segments rest, rowsHanded 0 rows = segments.flatten.map .token ++ rest ∧
      List.Forall₂ Script.Places segments
        ((steps emit (Script.ofRows limit rows) 0 s).filterMap Step.read) := by
  obtain ⟨segments, rest, same, all⟩ := Script.formsAt_segments limit .nil 0 0 rows
  obtain ⟨more, whole⟩ := filterMap_read_prefix emit (Script.ofRows limit rows) 0 s
  rw [← Script.ofRows, ← whole] at all
  generalize (steps emit (Script.ofRows limit rows) 0 s).filterMap Step.read = reads at all
  refine ⟨segments.take reads.length,
    (segments.drop reads.length).flatten.map .token ++ rest, ?_,
    List.forall₂_take_append segments reads more all⟩
  rw [← List.append_assoc, ← List.map_append, ← List.flatten_append, List.take_append_drop]
  exact same

/-- Rows that come later have no influence.  A run goes through its steps, and the forms that it
evaluates are read one after the other from the tokens of its rows, each when the rows up to that of
its last token are fetched.  Runs of programs that begin with the same rows have the same steps, up
to the first one for which a further row is fetched or the input ends.  If the next row is the first
that cannot be scanned, then the forms that the tokens before it finish are evaluated, and no
others, and the run ends with the fault of that row, unless one of these forms fails or the tokens
before it have a fault. -/
theorem later_rows_irrelevant (emit : Value → Session → Session) (s : Session)
    (shared : List (List Char)) :
    let run (rest : List (List Char)) := steps emit (Script.ofRows s.limit (shared ++ rest)) 0 s
    (∀ rest, follow emit (Script.ofRows s.limit (shared ++ rest)) s = conclude (run rest) ∧
      ∃ segments tail, rowsHanded 0 (shared ++ rest) = segments.flatten.map .token ++ tail ∧
        List.Forall₂ Script.Places segments ((run rest).filterMap Step.read)) ∧
    (∀ more more', ∃ common late late',
      run more = common ++ late ∧ run more' = common ++ late' ∧
      (∀ step ∈ common, step.fetched ≤ shared.length) ∧
      ∀ step ∈ late ++ late', shared.length < step.fetched ∨ step.AtEnd) ∧
    ∀ ts left bad fault rest, rowsHanded 0 shared = ts.map .token →
      scanRow shared.length bad = (left, some fault) →
      fault.line? = some shared.length ∧
      ∃ done last, run (bad :: rest) = done ++ [last] ∧
        (∀ step ∈ done, step.fetched ≤ shared.length ∧ ∃ value, step.pulled = .result value) ∧
        ((last.Fails ∧ last.fetched ≤ shared.length ∧
            (done ++ [last]).filterMap Step.form <+: (Script.formsOf s.limit [] ts).1) ∨
          done.filterMap Step.form = (Script.formsOf s.limit [] ts).1 ∧
            match (Script.formsOf s.limit [] ts).2 with
            | .error early => last.Stops early
            | .ok _ => last.Stops (.scan fault)) := by
  intro run
  refine ⟨fun rest => ⟨follow_eq_conclude _ 0 s, read_segments s.limit _ s⟩,
    fun more more' => steps_shared s.limit shared more more' s, ?_⟩
  intro ts left bad fault rest h hb
  exact ⟨line?_of_scanRow hb, steps_unscannable s.limit h hb rest s⟩

/-- A form is evaluated, then a list is open, and the next row closes it but cannot be scanned: the
list is not evaluated, and the run ends with the fault of that row. -/
theorem later_rows_irrelevant_unterminated :
    let rows := ["#t (write".toList, "#f) #t \"".toList, "#t".toList]
    ∃ done last, steps (fun _ s => s) (Script.ofRows defaultLimit rows) 0 {} = done ++ [last] ∧
      done.filterMap Step.form = [.leaf ⟨0, .boolean true⟩] ∧
      last.Stops (.scan (.unterminatedString 1)) := by
  intro rows
  have unfailing : (steps (fun _ s => s) (Script.ofRows defaultLimit rows) 0 {}).getLast?.all
      (·.form.isNone) = true := by decide +kernel
  obtain ⟨-, -, scan⟩ := later_rows_irrelevant (fun _ s => s) {} ["#t (write".toList]
  obtain ⟨-, done, last, all, -, ends⟩ :=
    scan [⟨0, .boolean true⟩, ⟨0, .leftParen⟩, ⟨0, .identifier "write"⟩]
      [⟨1, .boolean false⟩, ⟨1, .rightParen⟩, ⟨1, .boolean true⟩] "#f) #t \"".toList
      (.unterminatedString 1) ["#t".toList] rfl rfl
  refine ⟨done, last, all, ?_⟩
  rcases ends with ⟨⟨tree, fault, form, -⟩, -⟩ | ends
  · have same : steps (fun _ s => s) (Script.ofRows defaultLimit rows) 0 {} = done ++ [last] := all
    rw [same, List.getLast?_concat, Option.all_some, form] at unfailing
    cases unfailing
  · exact ends

end Session

end Lisplet
