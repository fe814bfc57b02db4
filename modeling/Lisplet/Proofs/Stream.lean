import Lisplet.Proofs.Row
import Lisplet.Token.Stream

/-!
# What token streams hand out

The rows of a program say by themselves what a token stream hands out: for every row its fault, if
it has one, and then its tokens (`rowsHanded`).  A stream holds what is still to come
(`TokenStream.pending`), and every call hands out the front of it or nothing (`call_pending`).
Together with the count of the rows taken this is an invariant of all calls (`Follows`), so what
was handed out after some calls is always a first part of the same list, in whatever order the
calls were made (`run_handed`).
-/

namespace Lisplet

/-- What a token stream hands out: a token that is taken out of it, or a fault. -/
inductive Handed where
  | token (token : Token)
  | fault (fault : ScanFault)

/-- What a row hands out: its fault first, and then the tokens to the left of that. -/
def rowHanded (line : Nat) (row : List Char) : List Handed :=
  (scanRow line row).2.toList.map .fault ++ (scanRow line row).1.map .token

/-- What rows hand out, counted from some line on. -/
def rowsHanded (first : Nat) (rows : List (List Char)) : List Handed :=
  (rows.zipIdx first).flatMap fun (row, line) => rowHanded line row

theorem rowsHanded_cons (first : Nat) (row : List Char) (rows : List (List Char)) :
    rowsHanded first (row :: rows) = rowHanded first row ++ rowsHanded (first + 1) rows := by
  rw [rowsHanded, List.zipIdx_cons, List.flatMap_cons]
  rfl

/-- Every token of a row is on the line of that row. -/
theorem line_of_mem_scanRow {line : Nat} {row : List Char} {token : Token}
    (h : token ∈ (scanRow line row).1) : token.line = line := by
  obtain ⟨text, -, scanned⟩ := exists_lexeme_of_mem_scanPieces h
  exact Token.line_of_ofLexeme scanned

namespace TokenStream

/-- What is still to be handed out. -/
def pending (s : TokenStream) : List Handed :=
  s.cache.map .token ++ rowsHanded s.taken s.rows

/-- What can be asked of a token stream. -/
inductive Call where
  | peek
  | next
  | atEnd

/-- What a call hands out, and the stream after it. -/
def call (s : TokenStream) : Call → List Handed × TokenStream
  | .peek =>
    match s.peek with
    | (.error fault, s) => ([.fault fault], s)
    | (.ok _, s) => ([], s)
  | .next =>
    match s.next with
    | (.error fault, s) => ([.fault fault], s)
    | (.ok token, s) => (token.toList.map .token, s)
  | .atEnd => ([], s)

/-- What some calls hand out, one after the other, and the stream after them. -/
def run (s : TokenStream) : List Call → List Handed × TokenStream
  | [] => ([], s)
  | c :: calls => ((s.call c).1 ++ ((s.call c).2.run calls).1, ((s.call c).2.run calls).2)

/-! ## Taking rows -/

/-- A stream takes some rows, one by one: each only while it holds no token. -/
structure Takes (s s' : TokenStream) (took : List (List Char)) : Prop where
  rows : s.rows = took ++ s'.rows
  taken : s'.taken = s.taken + took.length
  /-- No row is taken while there are tokens left. -/
  empty : took ≠ [] → s.cache = []
  /-- No row is taken after one that hands out anything. -/
  idle : ∀ before row after, took = before ++ row :: after → after ≠ [] →
    scanRow (s.taken + before.length) row = ([], none)

theorem Takes.refl (s : TokenStream) : Takes s s [] :=
  ⟨rfl, rfl, fun h => absurd rfl h, by simp⟩

theorem fillFrom_takes (taken : Nat) (rows : List (List Char)) :
    ∃ took, Takes ⟨rows, taken, []⟩ (fillFrom taken rows).2 took := by
  fun_induction fillFrom taken rows with
  | case1 taken => exact ⟨[], .refl _⟩
  | case2 taken row rows scanned ih =>
    obtain ⟨took, h⟩ := ih
    refine ⟨row :: took, congrArg _ h.rows, ?_, fun _ => rfl, ?_⟩
    · rw [h.taken, List.length_cons, Nat.add_right_comm, Nat.add_assoc]
    · intro before row' after split nonempty
      cases before with
      | nil =>
        obtain ⟨rfl, -⟩ := List.cons.inj split
        exact scanned
      | cons first before =>
        have later := h.idle before row' after (List.cons.inj split).2 nonempty
        rw [List.length_cons]
        rwa [Nat.add_right_comm, Nat.add_assoc] at later
  | case3 taken row rows tokens fault busy scanned =>
    refine ⟨[row], rfl, rfl, fun _ => rfl, ?_⟩
    -- One row is taken, so none is taken after it.
    intro before row' after split nonempty
    have lengths := congrArg List.length split
    simp only [List.length_cons, List.length_append, List.length_nil] at lengths
    have positive := List.length_pos_iff.2 nonempty
    omega

theorem fillFrom_pending (taken : Nat) (rows : List (List Char)) :
    (fillFrom taken rows).1.toList.map .fault ++ (fillFrom taken rows).2.pending =
      rowsHanded taken rows := by
  fun_induction fillFrom taken rows with
  | case1 taken => rfl
  | case2 taken row rows scanned ih =>
    rw [ih, rowsHanded_cons, rowHanded, scanned]
    rfl
  | case3 taken row rows tokens fault busy scanned =>
    rw [rowsHanded_cons, rowHanded, scanned, List.append_assoc]
    rfl

theorem fillFrom_cached (taken : Nat) (rows : List (List Char)) :
    ∀ token ∈ (fillFrom taken rows).2.cache, token.line + 1 = (fillFrom taken rows).2.taken := by
  fun_induction fillFrom taken rows with
  | case1 taken => simp
  | case2 taken row rows scanned ih => exact ih
  | case3 taken row rows tokens fault busy scanned =>
    intro token h
    have mem : token ∈ (scanRow taken row).1 := by
      rw [scanned]
      exact h
    rw [line_of_mem_scanRow mem]

theorem fillFrom_end {taken : Nat} {rows : List (List Char)}
    (none : (fillFrom taken rows).1 = none) (empty : (fillFrom taken rows).2.cache = []) :
    (fillFrom taken rows).2.rows = [] := by
  fun_induction fillFrom taken rows with
  | case1 taken => rfl
  | case2 taken row rows scanned ih => exact ih none empty
  | case3 taken row rows tokens fault busy scanned =>
    exact (busy empty none).elim

/-- What filling a stream hands out is the front of what is to come. -/
theorem fill_pending (s : TokenStream) :
    s.fill.1.toList.map .fault ++ s.fill.2.pending = s.pending := by
  unfold fill
  split_ifs with empty
  · rw [fillFrom_pending, pending, List.isEmpty_iff.1 empty]
    rfl
  · rfl

theorem fill_takes (s : TokenStream) : ∃ took, Takes s s.fill.2 took := by
  unfold fill
  split_ifs with empty
  · obtain ⟨took, h⟩ := fillFrom_takes s.taken s.rows
    exact ⟨took, h.rows, h.taken, fun _ => List.isEmpty_iff.1 empty, h.idle⟩
  · exact ⟨[], .refl s⟩

theorem fill_cached {s : TokenStream} (h : ∀ token ∈ s.cache, token.line + 1 = s.taken) :
    ∀ token ∈ s.fill.2.cache, token.line + 1 = s.fill.2.taken := by
  unfold fill
  split_ifs
  · exact fillFrom_cached s.taken s.rows
  · exact h

/-- A stream that holds no token after it was filled is at its end. -/
theorem fill_end {s : TokenStream} (none : s.fill.1 = none) (empty : s.fill.2.cache = []) :
    s.fill.2.rows = [] := by
  unfold fill at *
  split_ifs at * with idle
  · exact fillFrom_end none empty
  · exact absurd (List.isEmpty_iff.2 empty) idle

/-! ## Calls -/

theorem call_peek (s : TokenStream) :
    s.call .peek = (s.fill.1.toList.map .fault, s.fill.2) := by
  rw [call, peek]
  cases hf : s.fill with
  | mk fault s' => cases fault <;> rfl

/-- A token is taken out where there is no fault. -/
theorem call_next (s : TokenStream) :
    s.call .next =
      match s.fill with
      | (some fault, s') => ([.fault fault], s')
      | (none, s') => (s'.cache.head?.toList.map .token, { s' with cache := s'.cache.tail }) := by
  rw [call, next, peek]
  cases hf : s.fill with
  | mk fault s' => cases fault <;> rfl

/-- A call hands out the front of what is to come, or nothing. -/
theorem call_pending (s : TokenStream) (c : Call) :
    (s.call c).1 ++ (s.call c).2.pending = s.pending := by
  have filled := s.fill_pending
  cases c with
  | peek => rw [call_peek, filled]
  | atEnd => rfl
  | next =>
    rw [call_next, ← filled]
    cases hf : s.fill with
    | mk fault s' =>
      obtain ⟨rows, taken, cache⟩ := s'
      cases fault with
      | some fault => rfl
      | none => cases cache <;> rfl

theorem call_takes (s : TokenStream) (c : Call) : ∃ took, Takes s (s.call c).2 took := by
  obtain ⟨took, h⟩ := s.fill_takes
  cases c with
  | peek =>
    rw [call_peek]
    exact ⟨took, h⟩
  | atEnd => exact ⟨[], .refl s⟩
  | next =>
    rw [call_next]
    cases hf : s.fill with
    | mk fault s' =>
      rw [hf] at h
      cases fault with
      | some fault => exact ⟨took, h⟩
      | none => exact ⟨took, h.rows, h.taken, h.empty, h.idle⟩

theorem call_cached {s : TokenStream} (h : ∀ token ∈ s.cache, token.line + 1 = s.taken)
    (c : Call) : ∀ token ∈ (s.call c).2.cache, token.line + 1 = (s.call c).2.taken := by
  have filled := fill_cached h
  cases c with
  | peek =>
    rw [call_peek]
    exact filled
  | atEnd => exact h
  | next =>
    rw [call_next]
    cases hf : s.fill with
    | mk fault s' =>
      rw [hf] at filled
      cases fault with
      | some fault => exact filled
      | none => exact fun token mem => filled token (List.mem_of_mem_tail mem)

/-! ## Sequences of calls -/

/-- A stream stands in the rows of a program: some rows are taken, the tokens that it holds are
those of the last of these, and with what was handed out before nothing is lost. -/
structure Follows (lines : List (List Char)) (handed : List Handed) (s : TokenStream) : Prop where
  taken : s.taken ≤ lines.length
  rows : s.rows = lines.drop s.taken
  cached : ∀ token ∈ s.cache, token.line + 1 = s.taken
  handed : handed ++ s.pending = rowsHanded 0 lines

theorem follows_start (lines : List (List Char)) : Follows lines [] ⟨lines, 0, []⟩ :=
  ⟨Nat.zero_le _, rfl, by simp, rfl⟩

variable {lines : List (List Char)} {handed : List Handed} {s : TokenStream}

theorem Follows.call (h : Follows lines handed s) (c : Call) :
    Follows lines (handed ++ (s.call c).1) (s.call c).2 := by
  obtain ⟨took, takes⟩ := s.call_takes c
  have rows := h.rows.symm.trans takes.rows
  have lengths := congrArg List.length rows
  have bound := h.taken
  simp only [List.length_drop, List.length_append] at lengths
  refine ⟨?_, ?_, call_cached h.cached c, ?_⟩
  · rw [takes.taken]
    omega
  · rw [takes.taken, ← List.drop_drop, rows, List.drop_left]
  · rw [List.append_assoc, s.call_pending c, h.handed]

theorem Follows.run (h : Follows lines handed s) (calls : List Call) :
    Follows lines (handed ++ (s.run calls).1) (s.run calls).2 := by
  induction calls generalizing handed s with
  | nil =>
    rw [TokenStream.run, List.append_nil]
    exact h
  | cons c calls ih =>
    rw [TokenStream.run, ← List.append_assoc]
    exact ih (h.call c)

/-! ## The end -/

theorem atEnd_iff (s : TokenStream) : s.atEnd = true ↔ s.rows = [] ∧ s.cache = [] := by
  rw [atEnd, Bool.and_eq_true, List.isEmpty_iff, List.isEmpty_iff]

theorem Follows.atEnd_iff (h : Follows lines handed s) :
    s.atEnd = true ↔ s.taken = lines.length ∧ s.cache = [] := by
  have bound := h.taken
  rw [TokenStream.atEnd_iff, h.rows, List.drop_eq_nil_iff]
  exact and_congr_left fun _ => ⟨fun all => by omega, fun all => by omega⟩

/-- At its end a stream has no token and stays as it is. -/
theorem peek_of_atEnd (h : s.atEnd = true) : s.peek = (.ok none, s) := by
  obtain ⟨rows, taken, cache⟩ := s
  obtain ⟨rfl, rfl⟩ := (atEnd_iff _).1 h
  rfl

theorem next_of_atEnd (h : s.atEnd = true) : s.next = (.ok none, s) := by
  obtain ⟨rows, taken, cache⟩ := s
  obtain ⟨rfl, rfl⟩ := (atEnd_iff _).1 h
  rfl

theorem run_of_atEnd (h : s.atEnd = true) (calls : List Call) : s.run calls = ([], s) := by
  induction calls with
  | nil => rfl
  | cons c calls ih =>
    have stays : s.call c = ([], s) := by
      cases c with
      | peek => rw [TokenStream.call, peek_of_atEnd h]
      | next => rw [TokenStream.call, next_of_atEnd h]; rfl
      | atEnd => rfl
    rw [TokenStream.run, stays, ih]
    rfl

/-- A stream without a next token is at its end, and everything was handed out. -/
theorem next_end (h : s.next.1 = .ok none) : s.next.2.atEnd = true ∧ s.pending = [] := by
  have filled := s.fill_pending
  have ended := fill_end (s := s)
  rw [next, peek] at *
  cases hf : s.fill with
  | mk fault s' =>
    obtain ⟨rows, taken, cache⟩ := s'
    rw [hf] at h filled ended
    cases fault with
    | some fault => cases h
    | none =>
      obtain rfl : cache = [] := List.head?_eq_none_iff.1 (Except.ok.inj h)
      obtain rfl : rows = [] := ended rfl rfl
      exact ⟨rfl, filled.symm⟩

/-- In whatever order a token stream is asked for tokens and for its end, and also after faults,
it hands out the faults and tokens of the rows one after the other, until everything is handed
out.  All the while it counts the rows that it has taken, holds tokens of the last of these only,
and takes no row while it holds a token. -/
theorem run_handed (lines : List (List Char)) (calls : List Call) :
    let handed := (run ⟨lines, 0, []⟩ calls).1
    let s := (run ⟨lines, 0, []⟩ calls).2
    handed <+: rowsHanded 0 lines ∧
      (∀ line row token, .token token ∈ rowHanded line row → token.line = line) ∧
      (∀ calls', handed <+: (run ⟨lines, 0, []⟩ calls').1 ∨
        (run ⟨lines, 0, []⟩ calls').1 <+: handed) ∧
      (s.next.1 = .ok none → handed = rowsHanded 0 lines ∧
        ∀ later, (s.next.2.run later).2.peek.1 = .ok none ∧
          (s.next.2.run later).2.next.1 = .ok none) ∧
      (s.taken ≤ lines.length ∧ s.rows = lines.drop s.taken) ∧
      (∀ token ∈ s.cache, token.line + 1 = s.taken) ∧
      (∀ c, ∃ took, Takes s (s.call c).2 took) ∧
      (s.atEnd = true ↔ s.taken = lines.length ∧ s.cache = []) := by
  intro handed s
  have first (calls : List Call) : (run ⟨lines, 0, []⟩ calls).1 <+: rowsHanded 0 lines :=
    ⟨_, ((follows_start lines).run calls).handed⟩
  have follows : Follows lines handed s := (follows_start lines).run calls
  refine ⟨first calls, ?_, fun calls' => List.prefix_or_prefix_of_prefix (first calls)
    (first calls'), fun h => ?_, ⟨follows.taken, follows.rows⟩, follows.cached, s.call_takes,
    follows.atEnd_iff⟩
  · intro line row token mem
    simp only [rowHanded, List.mem_append, List.mem_map, reduceCtorEq, and_false, exists_false,
      false_or, Handed.token.injEq, exists_eq_right] at mem
    exact line_of_mem_scanRow mem
  · obtain ⟨ended, nothing⟩ := next_end h
    have all := follows.handed
    rw [nothing, List.append_nil] at all
    refine ⟨all, fun later => ?_⟩
    rw [run_of_atEnd ended later, peek_of_atEnd ended, next_of_atEnd ended]
    exact ⟨rfl, rfl⟩

end TokenStream

end Lisplet
