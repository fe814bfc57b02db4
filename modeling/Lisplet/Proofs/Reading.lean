import Lisplet.Proofs.Brackets
import Lisplet.Proofs.Stream

/-!
# Reading a text

Forms can be read from a token stream one at a time (`TokenStream.readAll`), or all at once from
the rows of a text (`Script.ofRows`).  Looking at the next token and reading the next form take
events off the front of a script (`TokenStream.script_peek`, `TokenStream.script_peek_some`), so
both ways come to the same forms and then to the same fault, if there is one, whatever the rows are
(`TokenStream.readAll_ofRows`, `parse_eq_readAll`).  If the rows can be scanned that is what their
tokens say (`Script.upToFault_ofRowsFrom`).  A stream takes no row that a form does not reach into
(`TokenStream.readFrom_spends`).
-/

namespace Lisplet

/-! ## One form at a time -/

namespace Partial

variable {limit : Nat} {p : Partial} {before tokens rest : List Token}

theorem add_ne_more_nil (tree : Tree) (p : Partial) : add tree p ≠ .more [] := by
  cases p <;> simp [add]

/-- Lists stay open until a form is finished. -/
theorem feed_ne_more_nil (limit : Nat) (p : Partial) (token : Token) :
    feed limit p token ≠ .more [] := by
  rcases token.written_cases with ⟨kind, -⟩ | ⟨kind, -⟩ | ⟨leaf, -⟩
  · rw [feed_left kind]
    split_ifs <;> simp
  · cases p with
    | nil => simp [feed_right_nil kind]
    | cons inner outer =>
      rw [feed_right_cons kind]
      exact add_ne_more_nil _ _
  · rw [feed_leaf leaf]
    exact add_ne_more_nil _ _

theorem feedAll_ne_more_nil (h : p ≠ [] ∨ tokens ≠ []) :
    feedAll limit p tokens ≠ (.more [], rest) := by
  induction tokens generalizing p with
  | nil =>
    have nonempty : p ≠ [] := h.resolve_right fun none => none rfl
    simp [feedAll, nonempty]
  | cons token tokens ih =>
    have open' := feed_ne_more_nil limit p token
    rw [feedAll]
    cases hf : feed limit p token with
    | more p' =>
      rw [hf] at open'
      exact ih (.inl fun empty => open' (by rw [empty]))
    | form tree => simp
    | fault fault => simp

/-- Tokens that finish no form are all read into the open lists. -/
theorem Reads.feedAll_more {p' : Partial} (h : p.Reads before)
    (hf : feedAll limit p tokens = (.more p', rest)) : rest = [] ∧ p'.Reads (before ++ tokens) := by
  induction tokens generalizing p before with
  | nil =>
    cases hf
    exact ⟨rfl, by simpa using h⟩
  | cons token tokens ih =>
    have fed : (p.feed limit token).Reads (before ++ [token]) := h.feed token
    rw [feedAll] at hf
    cases hr : p.feed limit token with
    | more p₁ =>
      rw [hr] at hf fed
      obtain ⟨none, reads⟩ := ih fed hf
      exact ⟨none, by simpa using reads⟩
    | form tree =>
      rw [hr] at hf
      cases hf
    | fault fault =>
      rw [hr] at hf
      cases hf

/-- A form is finished by the last of the tokens that are read for it. -/
theorem Reads.feedAll_form {tree : Tree} (h : p.Reads before)
    (hf : feedAll limit p tokens = (.form tree, rest)) :
    ∃ used last, tokens = used ++ [last] ++ rest ∧
      written (before ++ used ++ [last]) = tree.written := by
  induction tokens generalizing p before with
  | nil => cases hf
  | cons token tokens ih =>
    have fed : (p.feed limit token).Reads (before ++ [token]) := h.feed token
    rw [feedAll] at hf
    cases hr : p.feed limit token with
    | more p₁ =>
      rw [hr] at hf fed
      obtain ⟨used, last, rfl, reads⟩ := ih fed hf
      exact ⟨token :: used, last, rfl, by simpa using reads⟩
    | form tree' =>
      rw [hr] at hf fed
      cases hf
      exact ⟨[], token, rfl, by rw [List.append_nil]; exact fed⟩
    | fault fault =>
      rw [hr] at hf
      cases hf

end Partial

namespace Script

/-- The forms of tokens are read one after the other. -/
theorem formsOf_feedAll (limit : Nat) (p : Partial) (tokens : List Token) :
    formsOf limit p tokens =
      match p.feedAll limit tokens with
      | (.form tree, rest) => (tree :: (formsOf limit [] rest).1, (formsOf limit [] rest).2)
      | (.fault fault, _) => ([], .error fault)
      | (.more p', _) => ([], .ok p') := by
  induction tokens generalizing p with
  | nil => rfl
  | cons token tokens ih =>
    rw [formsOf, Partial.feedAll]
    cases p.feed limit token with
    | more p' => exact ih p'
    | form tree => rfl
    | fault fault => rfl

/-- What reading comes to if the input ends here: the forms, and a fault if there is one. -/
def ended : List Tree × Except ReadFault Partial → List Tree × Option ReadFault
  | (trees, .ok []) => (trees, none)
  | (trees, .ok (inner :: _)) => (trees, some (.unclosed inner.line))
  | (trees, .error fault) => (trees, some fault)

theorem ended_append (trees : List Tree) (later : List Tree × Except ReadFault Partial) :
    ended (trees ++ later.1, later.2) = (trees ++ (ended later).1, (ended later).2) := by
  rcases later with ⟨more, fault | (_ | ⟨inner, outer⟩)⟩ <;> rfl

/-- The forms that were read, unless there was a fault. -/
def result : List Tree × Option ReadFault → Except ReadFault (List Tree)
  | (trees, none) => .ok trees
  | (_, some fault) => .error fault

theorem result_eq_ok_iff {read : List Tree × Option ReadFault} {trees : List Tree} :
    result read = .ok trees ↔ read = (trees, none) := by
  rcases read with ⟨forms, _ | fault⟩ <;> simp [result]

/-- The forms of a script before its first fault, and that fault. -/
def upToFault : Script → List Tree × Option ReadFault
  | [] => ([], none)
  | .row _ _ :: rest => upToFault rest
  | .form tree :: rest => (tree :: (upToFault rest).1, (upToFault rest).2)
  | .fault fault :: _ => ([], some fault)

theorem forms_eq_result (script : Script) : script.forms = result script.upToFault := by
  induction script with
  | nil => rfl
  | cons event rest ih =>
    cases event with
    | row line text => exact ih
    | fault fault => rfl
    | form tree =>
      rw [forms, upToFault, ih]
      rcases upToFault rest with ⟨trees, _ | fault⟩ <;> rfl

theorem upToFault_append (trees : List Tree) (rest : Script) :
    upToFault (trees.map .form ++ rest) = (trees ++ (upToFault rest).1, (upToFault rest).2) := by
  induction trees with
  | nil => rfl
  | cons tree trees ih =>
    rw [List.map_cons, List.cons_append, upToFault, ih]
    rfl

theorem upToFault_rowEvents (line : Nat) (row : List Char) (rest : Script) :
    upToFault (rowEvents line row ++ rest) = upToFault rest := by
  rw [rowEvents]
  split_ifs <;> rfl

/-- The events of fetching some rows, and nothing else. -/
def fetches (line : Nat) : List (List Char) → Script
  | [] => []
  | row :: rows => rowEvents line row ++ fetches (line + 1) rows

theorem upToFault_fetches (line : Nat) (rows : List (List Char)) (rest : Script) :
    upToFault (fetches line rows ++ rest) = upToFault rest := by
  induction rows generalizing line with
  | nil => rfl
  | cons row rows ih => rw [fetches, List.append_assoc, upToFault_rowEvents, ih]

end Script

/-! ## Rows that can be scanned -/

namespace TokenStream

/-- What is left after some tokens of a stream without faults are tokens too. -/
theorem exists_tokens {cache ts : List Token} {rest : List Handed}
    (h : cache.map .token ++ rest = ts.map .token) :
    ∃ more, ts = cache ++ more ∧ rest = more.map .token := by
  obtain ⟨front, more, rfl, same, rfl⟩ := List.map_eq_append_iff.1 h.symm
  have injective : Function.Injective Handed.token := fun _ _ => Handed.token.inj
  obtain rfl := (List.map_inj_right injective).1 same
  exact ⟨more, rfl, rfl⟩

theorem fault_notMem {ts : List Token} (fault : ScanFault) :
    .fault fault ∉ ts.map Handed.token := by
  simp

/-- The first of some rows without faults has none. -/
theorem scanRow_of_rowsHanded {row : List Char} {rows : List (List Char)} {taken : Nat}
    {ts : List Token} (h : rowsHanded taken (row :: rows) = ts.map .token) :
    ∃ tokens, scanRow taken row = (tokens, none) := by
  cases hs : scanRow taken row with
  | mk tokens fault =>
    cases fault with
    | none => exact ⟨tokens, rfl⟩
    | some fault =>
      have handed : Handed.fault fault ∈ rowsHanded taken (row :: rows) := by
        rw [rowsHanded_cons, rowHanded, hs]
        simp
      rw [h] at handed
      exact absurd handed (fault_notMem fault)

/-- A text that can be scanned is a stream of its tokens. -/
theorem drainRows_pending {taken : Nat} {rows : List (List Char)} {ts : List Token}
    (h : (drainRows taken rows).1 = .ok ts) : rowsHanded taken rows = ts.map .token := by
  induction rows generalizing taken ts with
  | nil =>
    cases h
    rfl
  | cons row rows ih =>
    rw [drainRows] at h
    rw [rowsHanded_cons, rowHanded]
    cases hs : scanRow taken row with
    | mk tokens fault =>
      rw [hs] at h
      cases fault with
      | some fault => cases h
      | none =>
        cases hd : drainRows (taken + 1) rows with
        | mk result s' =>
          rw [hd] at h
          cases result with
          | error fault => cases h
          | ok more =>
            cases h
            rw [ih (congrArg Prod.fst hd), List.map_append]
            rfl

theorem pending_ofText {text : String} {ts : List Token} (h : tokens text = .ok ts) :
    (ofText text).pending = ts.map .token := by
  apply drainRows_pending
  rw [tokens, drain] at h
  cases hd : drainRows (ofText text).taken (ofText text).rows with
  | mk result s' =>
    rw [hd] at h
    cases result with
    | error fault => cases h
    | ok more => exact h

end TokenStream

/-- The script of rows that can be scanned has the forms of their tokens, and ends as these do. -/
theorem Script.upToFault_ofRowsFrom {limit : Nat} {p : Partial} {line : Nat}
    {rows : List (List Char)} {ts : List Token} (h : rowsHanded line rows = ts.map .token) :
    (ofRowsFrom limit p line rows).upToFault = ended (formsOf limit p ts) := by
  induction rows generalizing p line ts with
  | nil =>
    obtain rfl : ts = [] := List.map_eq_nil_iff.1 h.symm
    cases p <;> rfl
  | cons row rows ih =>
    obtain ⟨tokens, hs⟩ := TokenStream.scanRow_of_rowsHanded h
    rw [rowsHanded_cons, rowHanded, hs] at h
    obtain ⟨more, rfl, later⟩ := TokenStream.exists_tokens h
    rw [ofRowsFrom, upToFault_rowEvents, hs, formsOf_append]
    cases hf : formsOf limit p tokens with
    | mk trees outcome =>
      cases outcome with
      | error fault =>
        simp only [hf, upToFault_append, upToFault, List.append_nil]
        rfl
      | ok p' => simp only [hf, upToFault_append, ih later, ended_append]

/-! ## Token streams -/

namespace TokenStream

/-- A stream hands out some tokens, and takes no row beyond that of the last one. -/
structure Spends (s s' : TokenStream) (used : List Token) (took : List (List Char)) : Prop where
  pending : s.pending = used.map .token ++ s'.pending
  rows : s.rows = took ++ s'.rows
  taken : s'.taken = s.taken + took.length
  needed : took ≠ [] → ∃ last, used.getLast? = some last ∧ last.line + 1 = s'.taken

variable {limit : Nat} {s s' : TokenStream} {tree : Tree}

/-- Tokens that the stream holds are handed out without a row being taken. -/
theorem Spends.of_cache (rows : List (List Char)) (taken : Nat) (used rest : List Token) :
    Spends ⟨rows, taken, used ++ rest⟩ ⟨rows, taken, rest⟩ used [] :=
  ⟨by simp [TokenStream.pending], rfl, rfl, fun none => absurd rfl none⟩

theorem pending_cons (row : List Char) (rows : List (List Char)) (taken : Nat)
    (tokens : List Token) (h : scanRow taken row = (tokens, none)) (cache : List Token) :
    pending ⟨row :: rows, taken, cache⟩ =
      cache.map .token ++ pending ⟨rows, taken + 1, tokens⟩ := by
  rw [pending, rowsHanded_cons, rowHanded, h]
  rfl

/-- A row is taken for tokens that follow: the last one is then in that row or in a later one. -/
theorem Spends.take_row {row : List Char} {rows took : List (List Char)} {taken : Nat}
    {cache tokens used : List Token} {last : Token} (hs : scanRow taken row = (tokens, none))
    (h : Spends ⟨rows, taken + 1, tokens⟩ s' (used ++ [last]) took)
    (inside : took = [] → last ∈ tokens) :
    Spends ⟨row :: rows, taken, cache⟩ s' (cache ++ used ++ [last]) (row :: took) := by
  refine ⟨?_, congrArg _ h.rows, ?_, fun _ => ⟨last, by simp, ?_⟩⟩
  · rw [pending_cons row rows taken tokens hs, h.pending]
    simp
  · rw [h.taken, List.length_cons, Nat.add_assoc, Nat.add_comm 1]
  · by_cases none : took = []
    · have mem : last ∈ (scanRow taken row).1 := by
        rw [hs]
        exact inside none
      rw [h.taken, none, line_of_mem_scanRow mem]
      rfl
    · obtain ⟨last', same, count⟩ := h.needed none
      rw [List.getLast?_append] at same
      cases same
      exact count

/-- With some lists open, finishing the form takes the rest of its tokens out of the stream, and no
row beyond that of the last one. -/
theorem readFrom_spends {p : Partial} {before cache : List Token} {taken : Nat}
    {rows : List (List Char)} (h : p.Reads before)
    (hr : readFrom limit p cache taken rows = (.ok tree, s')) :
    ∃ used last took, Spends ⟨rows, taken, cache⟩ s' (used ++ [last]) took ∧
      written (before ++ used ++ [last]) = tree.written ∧ (took = [] → last ∈ cache) := by
  -- That `last` is in the cache if no row was taken is what `Spends.take_row` needs of the row
  -- before.
  induction rows generalizing p before cache taken with
  | nil =>
    rw [readFrom] at hr
    cases hf : p.feedAll limit cache with
    | mk fed rest =>
      rw [hf] at hr
      cases fed with
      | more p' => cases hr
      | fault fault => cases hr
      | form tree' =>
        cases hr
        obtain ⟨used, last, rfl, reads⟩ := h.feedAll_form hf
        exact ⟨used, last, [], .of_cache _ _ _ _, reads, fun _ => by simp⟩
  | cons row rows ih =>
    rw [readFrom] at hr
    cases hf : p.feedAll limit cache with
    | mk fed rest =>
      rw [hf] at hr
      cases fed with
      | fault fault => cases hr
      | form tree' =>
        cases hr
        obtain ⟨used, last, rfl, reads⟩ := h.feedAll_form hf
        exact ⟨used, last, [], .of_cache _ _ _ _, reads, fun _ => by simp⟩
      | more p' =>
        obtain ⟨-, reads⟩ := h.feedAll_more hf
        cases hs : scanRow taken row with
        | mk tokens fault =>
          simp only [hs] at hr
          cases fault with
          | some fault => cases hr
          | none =>
            obtain ⟨used, last, took, spends, whole, inside⟩ := ih reads hr
            exact ⟨cache ++ used, last, row :: took, spends.take_row hs inside,
              by simpa using whole, by simp⟩

/-- Reading a form takes its tokens out of the stream, no others, and no row that holds none of
them. -/
theorem read_spends (h : s.read limit = (.ok tree, s')) :
    ∃ used took, used ≠ [] ∧ written used = tree.written ∧ Spends s s' used took := by
  obtain ⟨used, last, took, spends, reads, -⟩ := readFrom_spends .nil h
  exact ⟨used ++ [last], took, by simp, by simpa using reads, spends⟩

/-- Looking at the next token hands out nothing but a fault. -/
theorem peek_pending {token : Option Token} (h : s.peek = (.ok token, s')) :
    s'.pending = s.pending ∧ s'.cache.head? = token := by
  have filled := s.fill_pending
  rw [peek] at h
  cases hf : s.fill with
  | mk fault s₁ =>
    rw [hf] at h filled
    cases fault with
    | some fault => cases h
    | none =>
      cases h
      exact ⟨filled, rfl⟩

/-- A form that is read takes a token out of the stream. -/
theorem pending_lt_of_read {token : Option Token} {s₁ : TokenStream}
    (hp : s.peek = (.ok token, s₁)) (hr : s₁.read limit = (.ok tree, s')) :
    s'.pending.length < s.pending.length := by
  obtain ⟨used, took, nonempty, -, spends⟩ := read_spends hr
  have some := List.length_pos_iff.2 nonempty
  rw [← (peek_pending hp).1, spends.pending, List.length_append, List.length_map]
  omega

/-- Reads forms as long as there is a token to read, up to the first fault. -/
def readAll (limit : Nat) (s : TokenStream) : List Tree × Option ReadFault :=
  match _hp : s.peek with
  | (.error fault, _) => ([], some (.scan fault))
  | (.ok none, _) => ([], none)
  | (.ok (some _), s₁) =>
    match _hr : s₁.read limit with
    | (.error fault, _) => ([], some fault)
    | (.ok tree, s₂) => (tree :: (readAll limit s₂).1, (readAll limit s₂).2)
termination_by s.pending.length
decreasing_by all_goals exact pending_lt_of_read _hp _hr

/-! ## The script of a stream -/

/-- The script of what is left of a stream in the middle of a form: its tokens, then its rows. -/
def scriptFrom (limit : Nat) (p : Partial) (cache : List Token) (taken : Nat)
    (rows : List (List Char)) : Script :=
  match Script.formsOf limit p cache with
  | (trees, .ok p') => trees.map .form ++ Script.ofRowsFrom limit p' taken rows
  | (trees, .error fault) => trees.map .form ++ [.fault fault]

/-- The script of what is left of a stream. -/
def script (limit : Nat) (s : TokenStream) : Script :=
  scriptFrom limit [] s.cache s.taken s.rows

theorem scriptFrom_feedAll (limit : Nat) (p : Partial) (cache : List Token) (taken : Nat)
    (rows : List (List Char)) :
    scriptFrom limit p cache taken rows =
      match p.feedAll limit cache with
      | (.form tree, rest) => .form tree :: scriptFrom limit [] rest taken rows
      | (.fault fault, _) => [.fault fault]
      | (.more p', _) => Script.ofRowsFrom limit p' taken rows := by
  rw [scriptFrom, Script.formsOf_feedAll]
  cases p.feedAll limit cache with
  | mk fed rest =>
    cases fed with
    | more p' => rfl
    | fault fault => rfl
    | form tree =>
      dsimp only
      rw [scriptFrom]
      rcases Script.formsOf limit [] rest with ⟨trees, fault | p'⟩ <;> rfl

/-- A row is fetched, and the rest of the script is that of its tokens, unless it has a fault. -/
theorem ofRowsFrom_cons (limit : Nat) (p : Partial) (line : Nat) (row : List Char)
    (rows : List (List Char)) :
    Script.ofRowsFrom limit p line (row :: rows) =
      Script.rowEvents line row ++
        match scanRow line row with
        | (_, some fault) => [.fault (.scan fault)]
        | (tokens, none) => scriptFrom limit p tokens (line + 1) rows := by
  rw [Script.ofRowsFrom]
  rcases scanRow line row with ⟨tokens, _ | fault⟩
  · unfold scriptFrom
    rcases Script.formsOf limit p tokens with ⟨trees, fault | p'⟩ <;> rfl
  · rfl

/-- The events of the rows that were taken from one state of a stream to a later one. -/
def fetched (s s' : TokenStream) : Script :=
  Script.fetches s.taken (s.rows.take (s'.taken - s.taken))

theorem fetched_stay (rows rows' : List (List Char)) (taken : Nat) (cache cache' : List Token) :
    fetched ⟨rows, taken, cache⟩ ⟨rows', taken, cache'⟩ = [] := by
  rw [fetched, Nat.sub_self]
  rfl

theorem fetched_cons {taken : Nat} (h : taken + 1 ≤ s'.taken) (row : List Char)
    (rows : List (List Char)) (cache tokens : List Token) :
    fetched ⟨row :: rows, taken, cache⟩ s' =
      Script.rowEvents taken row ++ fetched ⟨rows, taken + 1, tokens⟩ s' := by
  obtain ⟨more, later⟩ := Nat.exists_eq_add_of_le h
  rw [fetched, fetched, later, Nat.add_sub_cancel_left, Nat.add_assoc, Nat.add_sub_cancel_left,
    Nat.add_comm 1, List.take_succ_cons, Script.fetches]

theorem readFrom_taken (limit : Nat) (p : Partial) (cache : List Token) (taken : Nat)
    (rows : List (List Char)) : taken ≤ (readFrom limit p cache taken rows).2.taken := by
  fun_induction readFrom limit p cache taken rows with
  | case7 p cache taken row rows p' rest fed tokens scanned ih => exact Nat.le_of_succ_le ih
  | _ => simp

/-- With a list open or a token at hand, the script begins with the rows that are taken for the next
form.  That form follows, and the script of what is then left of the stream, or the fault of reading
it. -/
theorem scriptFrom_readFrom (limit : Nat) (p : Partial) (cache : List Token) (taken : Nat)
    (rows : List (List Char)) (h : p ≠ [] ∨ cache ≠ []) :
    scriptFrom limit p cache taken rows =
      fetched ⟨rows, taken, cache⟩ (readFrom limit p cache taken rows).2 ++
        match readFrom limit p cache taken rows with
        | (.ok tree, s') => .form tree :: s'.script limit
        | (.error fault, _) => [.fault fault] := by
  fun_induction readFrom limit p cache taken rows with
  | case1 p cache taken tree rest fed =>
    rw [scriptFrom_feedAll, fed, fetched_stay]
    rfl
  | case2 p cache taken fault rest fed =>
    rw [scriptFrom_feedAll, fed, fetched_stay]
    rfl
  | case3 p cache taken p' rest fed =>
    rw [scriptFrom_feedAll, fed, fetched_stay]
    cases p' with
    | nil => exact absurd fed (Partial.feedAll_ne_more_nil h)
    | cons inner outer => rfl
  | case4 p cache taken row rows tree rest fed =>
    rw [scriptFrom_feedAll, fed, fetched_stay]
    rfl
  | case5 p cache taken row rows fault rest fed =>
    rw [scriptFrom_feedAll, fed, fetched_stay]
    rfl
  | case6 p cache taken row rows p' rest fed tokens fault scanned =>
    rw [scriptFrom_feedAll, fed, fetched_cons (Nat.le_refl _) row rows cache tokens, fetched_stay]
    dsimp only
    rw [ofRowsFrom_cons, scanned, List.append_nil]
  | case7 p cache taken row rows p' rest fed tokens scanned ih =>
    -- The lists stay open over the end of the row.
    have open' : p' ≠ [] := fun none => Partial.feedAll_ne_more_nil h (none ▸ fed)
    have later := readFrom_taken limit p' tokens (taken + 1) rows
    rw [scriptFrom_feedAll, fed, fetched_cons later row rows cache tokens, List.append_assoc,
      ← ih (.inl open')]
    dsimp only
    rw [ofRowsFrom_cons, scanned]

theorem fillFrom_taken (taken : Nat) (rows : List (List Char)) :
    taken ≤ (fillFrom taken rows).2.taken := by
  obtain ⟨took, takes⟩ := fillFrom_takes taken rows
  exact takes.taken ▸ Nat.le_add_right _ _

/-- Rows are taken up to the first token or fault of their script. -/
theorem ofRowsFrom_fillFrom (limit taken : Nat) (rows : List (List Char)) :
    Script.ofRowsFrom limit [] taken rows =
      fetched ⟨rows, taken, []⟩ (fillFrom taken rows).2 ++
        match fillFrom taken rows with
        | (some fault, _) => [.fault (.scan fault)]
        | (none, s') => s'.script limit := by
  induction rows generalizing taken with
  | nil =>
    rw [fillFrom, fetched_stay]
    rfl
  | cons row rows ih =>
    have later := fillFrom_taken (taken + 1) rows
    rw [ofRowsFrom_cons, fillFrom]
    rcases scanRow taken row with ⟨_ | ⟨token, tokens⟩, _ | fault⟩
    · dsimp only
      rw [fetched_cons later row rows [] [], List.append_assoc, ← ih]
      rfl
    · rw [fetched_cons (Nat.le_refl _) row rows [] [], fetched_stay, List.append_nil]
    · rw [fetched_cons (Nat.le_refl _) row rows [] (token :: tokens), fetched_stay,
        List.append_nil]
      rfl
    · rw [fetched_cons (Nat.le_refl _) row rows [] (token :: tokens), fetched_stay,
        List.append_nil]

/-- Looking at the next token takes the rows that come first in the script.  Then there is a fault,
or the script goes on with what is left of the stream. -/
theorem script_peek (limit : Nat) (s : TokenStream) :
    s.script limit = fetched s s.peek.2 ++
      match s.peek with
      | (.error fault, _) => [.fault (.scan fault)]
      | (.ok _, s') => s'.script limit := by
  obtain ⟨rows, taken, cache⟩ := s
  cases cache with
  | cons token cache =>
    have same : peek ⟨rows, taken, token :: cache⟩ =
        (.ok (some token), ⟨rows, taken, token :: cache⟩) := rfl
    rw [same, fetched_stay]
    rfl
  | nil =>
    have filled : script limit ⟨rows, taken, []⟩ = _ := ofRowsFrom_fillFrom limit taken rows
    have same : fill ⟨rows, taken, []⟩ = fillFrom taken rows := rfl
    rw [filled, peek, same]
    rcases fillFrom taken rows with ⟨_ | fault, s'⟩ <;> rfl

/-- A stream without a next token has no script but the rows that are left. -/
theorem script_peek_none (limit : Nat) (h : s.peek = (.ok none, s')) :
    s.script limit = fetched s s' := by
  obtain ⟨rows, taken, cache⟩ := s'
  have next : s.next = (.ok none, ⟨rows, taken, cache.tail⟩) := by rw [TokenStream.next, h]
  have ended := (next_end (by rw [next])).1
  rw [next, atEnd, Bool.and_eq_true] at ended
  obtain rfl : rows = [] := List.isEmpty_iff.1 ended.1
  obtain rfl : cache = [] := List.head?_eq_none_iff.1 (peek_pending h).2
  rw [script_peek, h]
  exact List.append_nil _

/-- Where there is a next token, the script goes on with the rows that are taken for the next form,
and then with that form or the fault of reading it. -/
theorem script_peek_some (limit : Nat) {token : Token} (h : s.peek = (.ok (some token), s')) :
    s.script limit = fetched s s' ++ (fetched s' (s'.read limit).2 ++
      match s'.read limit with
      | (.ok tree, s₂) => .form tree :: s₂.script limit
      | (.error fault, _) => [.fault fault]) := by
  have held : s'.cache ≠ [] := by
    intro empty
    have first := (peek_pending h).2
    rw [empty] at first
    cases first
  rw [script_peek, h]
  exact congrArg _ (scriptFrom_readFrom limit [] s'.cache s'.taken s'.rows (.inr held))

theorem upToFault_fetched (s s' : TokenStream) (rest : Script) :
    (fetched s s' ++ rest).upToFault = rest.upToFault := Script.upToFault_fetches _ _ rest

/-- Reading a stream form by form comes to the forms of its script before the first fault, and to
that fault. -/
theorem readAll_eq (limit : Nat) (s : TokenStream) :
    readAll limit s = (s.script limit).upToFault := by
  fun_induction readAll limit s with
  | case1 s fault s' hp =>
    rw [script_peek, hp, upToFault_fetched]
    rfl
  | case2 s s' hp =>
    rw [script_peek_none limit hp, ← List.append_nil (fetched s s'), upToFault_fetched]
    rfl
  | case3 s token s₁ hp fault s₂ hr =>
    rw [script_peek_some limit hp, upToFault_fetched, upToFault_fetched, hr]
    rfl
  | case4 s token s₁ hp tree s₂ hr ih =>
    rw [script_peek_some limit hp, upToFault_fetched, upToFault_fetched, hr, ih]
    rfl

/-- Rows are read form by form into what their script says: its forms before the first fault, and
that fault, be it one of scanning or of reading. -/
theorem readAll_ofRows (limit : Nat) (rows : List (List Char)) :
    readAll limit ⟨rows, 0, []⟩ = (Script.ofRows limit rows).upToFault := readAll_eq limit _

end TokenStream

/-- The forms of a text, or its fault, are what is read from its token stream form by form. -/
theorem parse_eq_readAll (text : String) :
    parse text = Script.result ((TokenStream.ofText text).readAll defaultLimit) := by
  rw [parse, Script.forms_eq_result]
  exact congrArg Script.result (TokenStream.readAll_ofRows _ _).symm

end Lisplet
