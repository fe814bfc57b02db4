import Lisplet.Proofs.Reading
import Lisplet.Proofs.Source

/-!
# Reading sources

The forms of a text can be written out again, one on each line, and what is read from that are the
same forms (`parse_source`).  Reading a text looks at nothing but the kinds of its tokens
(`Script.formsOf_same`), the tokens of a form stand together (`Script.formsOf_cons`), and its source
is a row with the same tokens again, so every form is read from a row of its own
(`Script.exists_reread`).
-/

namespace Lisplet

/-! ## The same forms -/

/-- Trees of the same shape with the same tokens at their leaves, on whatever lines. -/
inductive Tree.Same : Tree → Tree → Prop where
  | leaf {token token' : Token} (h : token.kind.Same token'.kind) :
      Same (.leaf token) (.leaf token')
  | list {items items' : List Tree} (h : List.Forall₂ Same items items') :
      Same (.list items) (.list items')

/-- Open lists with the same items. -/
def Partial.Same : Partial → Partial → Prop :=
  List.Forall₂ fun l l' => List.Forall₂ Tree.Same l.items l'.items

inductive Fed.Same : Fed → Fed → Prop where
  | more {p p' : Partial} (h : p.Same p') : Same (.more p) (.more p')
  | form {tree tree' : Tree} (h : tree.Same tree') : Same (.form tree) (.form tree')
  | fault (fault fault' : ReadFault) : Same (.fault fault) (.fault fault')

namespace Token

theorem Kind.Same.eq_of_ne {kind kind' : Kind} (h : kind.Same kind')
    (other : ∀ x, kind ≠ .number x) : kind' = kind := by
  cases kind with
  | number x => exact absurd rfl (other x)
  | leftParen | rightParen | identifier | symbol | string | boolean => exact h.symm

theorem Kind.Same.isParen_eq {token token' : Token} (h : token.kind.Same token'.kind) :
    token'.isParen = token.isParen := by
  cases hk : token.kind with
  | number x =>
    rw [hk] at h
    cases hk' : token'.kind with
    | number y => simp [isParen, hk, hk']
    | leftParen | rightParen | identifier | symbol | string | boolean =>
      rw [hk'] at h
      cases h
  | leftParen | rightParen | identifier | symbol | string | boolean =>
    have same := h.eq_of_ne (by simp [hk])
    simp [isParen, same, hk]

end Token

namespace Partial

variable {limit : Nat} {p p' : Partial}

theorem Same.add {tree tree' : Tree} (h : tree.Same tree') (hp : p.Same p') :
    (add tree p).Same (add tree' p') := by
  cases hp with
  | nil => exact .form h
  | cons inner outer => exact .more (.cons (.cons h inner) outer)

/-- What a token makes of the open lists depends on its kind only. -/
theorem Same.feed {token token' : Token} (h : token.kind.Same token'.kind) (hp : p.Same p') :
    (feed limit p token).Same (feed limit p' token') := by
  rcases token.written_cases with ⟨kind, -⟩ | ⟨kind, -⟩ | ⟨leaf, -⟩
  · have kind' := (h.eq_of_ne (by simp [kind])).trans kind
    have depth : p.length = p'.length := List.Forall₂.length_eq hp
    rw [feed_left kind, feed_left kind', depth]
    split_ifs
    · exact .more (.cons .nil hp)
    · exact .fault _ _
  · have kind' := (h.eq_of_ne (by simp [kind])).trans kind
    cases hp with
    | nil =>
      rw [feed_right_nil kind, feed_right_nil kind']
      exact .fault _ _
    | cons inner outer =>
      rw [feed_right_cons kind, feed_right_cons kind']
      exact Same.add (.list (List.forall₂_reverse_iff.2 inner)) outer
  · rw [feed_leaf leaf, feed_leaf (h.isParen_eq.trans leaf)]
    exact Same.add (.leaf h) hp

end Partial

namespace Script

variable {limit : Nat} {p p' q : Partial} {ts ts' : List Token} {forms : List Tree}

/-- Tokens of the same kinds are read into the same forms. -/
theorem formsOf_same (h : List.Forall₂ (fun t t' => t.kind.Same t'.kind) ts ts') (hp : p.Same p')
    (hf : formsOf limit p ts = (forms, .ok q)) :
    ∃ forms' q', formsOf limit p' ts' = (forms', .ok q') ∧ List.Forall₂ Tree.Same forms forms' ∧
      q.Same q' := by
  induction h generalizing p p' forms with
  | nil =>
    cases hf
    exact ⟨[], p', rfl, .nil, hp⟩
  | @cons token token' ts ts' kind rest ih =>
    have fed : (p.feed limit token).Same (p'.feed limit token') := hp.feed kind
    rw [formsOf] at hf ⊢
    generalize p.feed limit token = step at fed hf
    generalize p'.feed limit token' = step' at fed
    cases fed with
    | fault fault fault' => cases hf
    | more same => exact ih same hf
    | form same =>
      cases hl : formsOf limit [] ts with
      | mk later outcome =>
        simp only [hl] at hf
        cases hf
        obtain ⟨later', q', hl', all, last⟩ := ih .nil hl
        exact ⟨_ :: later', q', by simp only [hl'], .cons same all, last⟩

/-- The tokens of the first form, and those after it. -/
theorem formsOf_cons {tree : Tree} {outcome : Except ReadFault Partial}
    (hf : formsOf limit p ts = (tree :: forms, outcome)) :
    ∃ first rest, ts = first ++ rest ∧ formsOf limit p first = ([tree], .ok []) ∧
      formsOf limit [] rest = (forms, outcome) := by
  induction ts generalizing p with
  | nil => cases hf
  | cons token ts ih =>
    rw [formsOf] at hf
    cases hr : p.feed limit token with
    | fault fault =>
      rw [hr] at hf
      cases hf
    | more p₁ =>
      rw [hr] at hf
      obtain ⟨first, rest, rfl, own, later⟩ := ih hf
      exact ⟨token :: first, rest, rfl, by rw [formsOf, hr]; exact own, later⟩
    | form tree' =>
      cases hl : formsOf limit [] ts with
      | mk later outcome' =>
        simp only [hr, hl] at hf
        cases hf
        exact ⟨[token], ts, rfl, by rw [formsOf, hr]; rfl, hl⟩

/-- Tokens that leave no list open are those of their forms. -/
theorem written_of_formsOf (hf : formsOf limit [] ts = (forms, .ok [])) :
    written ts = Tree.writtenAll forms := by
  obtain ⟨done, rest, split, same, reads⟩ := formsOf_reads .nil hf
  cases reads
  rw [← same, ← List.append_nil done, ← split, List.nil_append]

theorem written_of_formsOf_singleton {tree : Tree}
    (hf : formsOf limit [] ts = ([tree], .ok [])) : written ts = tree.written := by
  rw [written_of_formsOf hf, Tree.writtenAll, Tree.writtenAll, List.append_nil]

end Script

/-! ## Leaves -/

namespace Tree

theorem mem_leaves_of_mem_written_aux (token : Token) :
    (∀ tree : Tree, .leaf token ∈ tree.written → token ∈ tree.leaves) ∧
      ∀ trees : List Tree, .leaf token ∈ writtenAll trees → token ∈ leavesAll trees := by
  apply written.mutual_induct
  · intro token' h
    cases List.mem_singleton.1 h
    exact List.mem_singleton.2 rfl
  · intro items inside h
    exact inside (by simpa [written] using h)
  · intro h
    cases h
  · intro tree trees first later h
    rw [leavesAll, List.mem_append]
    exact (List.mem_append.1 h).imp first later

end Tree

/-- The leaves of a form are tokens that it was read from. -/
theorem mem_of_mem_leaves {tree : Tree} {ts : List Token} {token : Token}
    (hw : written ts = tree.written) (h : token ∈ tree.leaves) : token ∈ ts := by
  have leaf := Tree.mem_written_of_mem_leaves h
  rw [← hw] at leaf
  obtain ⟨token', mem, same⟩ := List.mem_map.1 leaf
  rcases token'.written_cases with ⟨-, hw⟩ | ⟨-, hw⟩ | ⟨-, hw⟩
  · cases hw.symm.trans same
  · cases hw.symm.trans same
  · cases hw.symm.trans same
    exact mem

/-- If the leaves of some forms are finite, so are the tokens that they were read from. -/
theorem isFinite_of_leaves {forms : List Tree} {ts : List Token}
    (hw : written ts = Tree.writtenAll forms)
    (finite : ∀ token ∈ Tree.leavesAll forms, token.IsFinite) : ∀ token ∈ ts, token.IsFinite := by
  intro token mem
  have inside : token.written ∈ Tree.writtenAll forms := by
    rw [← hw]
    exact List.mem_map_of_mem mem
  rcases token.written_cases with ⟨kind, -⟩ | ⟨kind, -⟩ | ⟨-, hw⟩
  · intro x number
    cases kind.symm.trans number
  · intro x number
    cases kind.symm.trans number
  · rw [hw] at inside
    exact finite token ((Tree.mem_leaves_of_mem_written_aux token).2 forms inside)

/-! ## The tokens of a text -/

/-- The lexemes that a row is cut into are parts of it. -/
theorem isLexeme_of_mem_pieces {row text : List Char} (h : .lexeme text ∈ pieces row) :
    IsLexeme text ∧ text ⊆ row := by
  obtain ⟨d, divides, -⟩ := Division.existsUnique_divides row
  rw [divides.pieces, Division.pieces] at h
  rcases List.mem_append.1 h with lexeme | quote
  · obtain ⟨text', mem, same⟩ := List.mem_map.1 lexeme
    cases same
    obtain ⟨part, inside, rfl⟩ := List.mem_map.1 mem
    refine ⟨divides.valid.lexemes part inside, fun c hc => ?_⟩
    rw [← divides.text, Division.text]
    exact List.mem_append_left _ (List.mem_flatMap.2 ⟨part, inside, List.mem_append_right _ hc⟩)
  · split_ifs at quote
    · cases List.mem_singleton.1 quote
    · cases quote

/-- The tokens of a text are scanned again from their sources, if their numbers are finite. -/
theorem rereads_of_rowsHanded {text : List Char} {ts : List Token} {first : Nat}
    (h : rowsHanded first (Text.lines text) = ts.map .token)
    (finite : ∀ token ∈ ts, token.IsFinite) : ∀ token ∈ ts, token.Rereads := by
  intro token mem
  have handed : .token token ∈ rowsHanded first (Text.lines text) := by
    rw [h]
    exact List.mem_map_of_mem mem
  obtain ⟨⟨row, line⟩, inside, own⟩ := List.mem_flatMap.1 handed
  have unbroken := Text.isLine_of_mem_lines (List.fst_mem_of_mem_zipIdx inside)
  have scanned : token ∈ (scanRow line row).1 := by simpa [rowHanded] using own
  obtain ⟨lexeme, piece, read⟩ := exists_lexeme_of_mem_scanPieces scanned
  obtain ⟨isLexeme, part⟩ := isLexeme_of_mem_pieces piece
  exact Token.rereads_of_ofLexeme isLexeme
    ⟨fun feed => unbroken.1 (part feed), fun back => unbroken.2 (part back)⟩ read
    (finite token mem)

namespace Script

variable {limit : Nat} {p : Partial} {ts : List Token} {forms : List Tree}

/-- A script without a fault was made from tokens. -/
theorem exists_tokens_of_upToFault {line : Nat} {rows : List (List Char)}
    (h : (ofRowsFrom limit p line rows).upToFault = (forms, none)) :
    ∃ ts, rowsHanded line rows = ts.map .token ∧ formsOf limit p ts = (forms, .ok []) := by
  induction rows generalizing p line forms with
  | nil =>
    cases p with
    | nil =>
      cases h
      exact ⟨[], rfl, rfl⟩
    | cons inner outer => cases h
  | cons row rows ih =>
    rw [ofRowsFrom, upToFault_rowEvents] at h
    cases hs : scanRow line row with
    | mk tokens fault =>
      cases fault with
      | some fault =>
        rw [hs] at h
        cases h
      | none =>
        cases hf : formsOf limit p tokens with
        | mk trees outcome =>
          simp only [hs, hf] at h
          cases outcome with
          | error fault =>
            rw [upToFault_append] at h
            cases h
          | ok p' =>
            simp only [upToFault_append, Prod.mk.injEq] at h
            obtain ⟨rfl, none⟩ := h
            obtain ⟨ts, handed, read⟩ := ih (Prod.ext rfl none)
            refine ⟨tokens ++ ts, ?_, ?_⟩
            · rw [rowsHanded_cons, rowHanded, hs, handed, List.map_append]
              rfl
            · rw [formsOf_append, hf]
              simp only [read]

/-! ## One form on each line -/

/-- Forms whose sources are rows are read again from these, each from its own row. -/
theorem exists_reread (hf : formsOf limit [] ts = (forms, .ok []))
    (h : ∀ token ∈ ts, token.Rereads) (first : Nat) :
    ∃ ts' forms', rowsHanded first (forms.map (·.source.toList)) = ts'.map .token ∧
      formsOf limit [] ts' = (forms', .ok []) ∧ List.Forall₂ Tree.Same forms forms' ∧
      ∀ i tree, forms'[i]? = some tree → ∀ token ∈ tree.leaves, token.line = first + i := by
  induction forms generalizing ts first with
  | nil => exact ⟨[], [], rfl, rfl, .nil, by simp⟩
  | cons tree forms ih =>
    obtain ⟨own, rest, rfl, read, later⟩ := formsOf_cons hf
    obtain ⟨mine, others⟩ := List.forall_mem_append.1 h
    obtain ⟨own', scanned, kinds⟩ :=
      scanRow_source (written_of_formsOf_singleton read) mine first
    obtain ⟨trees', p', read', alike, closed⟩ := formsOf_same kinds .nil read
    obtain ⟨tree', _, same, none, rfl⟩ := List.forall₂_cons_left_iff.1 alike
    cases none
    cases closed
    obtain ⟨rest', forms', handed, later', all, lines⟩ := ih later others (first + 1)
    refine ⟨own' ++ rest', tree' :: forms', ?_, ?_, .cons same all, ?_⟩
    · rw [List.map_cons, rowsHanded_cons, rowHanded, scanned, handed, List.map_append]
      rfl
    · rw [formsOf_append, read']
      simp only [later', List.singleton_append]
    · rintro (_ | i) tree₁ found token mem
      · cases found
        have row : token ∈ (scanRow first tree.source.toList).1 := by
          rw [scanned]
          exact mem_of_mem_leaves (written_of_formsOf_singleton read') mem
        exact line_of_mem_scanRow row
      · have line := lines i tree₁ found token mem
        omega

theorem isLine_of_mem_forms (hf : formsOf limit [] ts = (forms, .ok []))
    (h : ∀ token ∈ ts, token.Rereads) : ∀ tree ∈ forms, Text.IsLine tree.source.toList := by
  induction forms generalizing ts with
  | nil => simp
  | cons tree forms ih =>
    obtain ⟨own, rest, rfl, read, later⟩ := formsOf_cons hf
    obtain ⟨mine, others⟩ := List.forall_mem_append.1 h
    exact List.forall_mem_cons.2
      ⟨isLine_source (written_of_formsOf_singleton read) mine, ih later others⟩

end Script

/-- Sources that are lines, joined by line feeds, are the rows of the text that they make. -/
theorem rowsHanded_joined {forms : List Tree}
    (h : ∀ tree ∈ forms, Text.IsLine tree.source.toList) (first : Nat) :
    rowsHanded first (Text.lines ("\n".intercalate (forms.map Tree.source)).toList) =
      rowsHanded first (forms.map (·.source.toList)) := by
  rw [String.toList_intercalate, List.map_map]
  cases forms with
  | nil => rfl
  | cons tree forms =>
    refine congrArg (rowsHanded first) (Text.lines_intercalate (by simp) ?_)
    simpa using h

end Lisplet
