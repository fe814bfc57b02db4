import Lisplet.Proofs.Brackets
import Lisplet.Proofs.Lines
import Lisplet.Proofs.NumberText
import Lisplet.Proofs.Row
import Mathlib.Tactic.IntervalCases

/-!
# Sources

The source of a token that was scanned is a lexeme, and it is scanned again as the same token
(`Token.Rereads`): names, strings and booleans are written as they stood in the program, and finite
numbers as numerals that are read back as equal numbers.  In the source of a tree every token is a
lexeme of its own (`Tree.pieces_source`), so the row that it makes is scanned as the tokens that the
tree is written with (`scanRow_source`).
-/

namespace Lisplet

/-! ## Numerals -/

/-- The ASCII digits. -/
def asciiDigits : List Char := ['0', '1', '2', '3', '4', '5', '6', '7', '8', '9']

theorem mem_asciiDigits {c : Char} (h : c.isDigit = true) : c ∈ asciiDigits := by
  obtain ⟨low, high⟩ := Text.toNat_of_isDigit h
  rw [← Char.ofNat_toNat c]
  generalize c.toNat = k at low high
  interval_cases k <;> decide

namespace Numeral

variable (n : Numeral)

/-- The characters of numerals. -/
def chars : List Char := asciiDigits ++ ['-', '+', '.', 'e']

theorem mem_chars_of_isDigit {c : Char} (h : c.isDigit = true) : c ∈ chars :=
  List.mem_append_left _ (mem_asciiDigits h)

theorem mem_fractionText {c : Char} (h : c ∈ n.fractionText) : c ∈ chars := by
  have digits := n.fraction_digits
  rw [fractionText] at h
  cases hf : n.fraction with
  | none => simp [hf] at h
  | some ds =>
    rw [hf] at h digits
    rcases List.mem_cons.1 h with rfl | mem
    · decide
    · exact mem_chars_of_isDigit (digits c mem)

theorem mem_exponentText {c : Char} (h : c ∈ n.exponentText) : c ∈ chars := by
  rw [exponentText] at h
  cases he : n.exponent with
  | none => simp [he] at h
  | some e =>
    have digits := (n.exponentDigits e he).2
    rw [he] at h
    rcases List.mem_cons.1 h with rfl | mem
    · decide
    rcases List.mem_cons.1 mem with rfl | mem
    · cases e.1 <;> decide
    · exact mem_chars_of_isDigit (digits c mem)

theorem mem_text {c : Char} (h : c ∈ n.text) : c ∈ chars := by
  have body {c : Char} (h : c ∈ n.body) : c ∈ chars := by
    rcases List.mem_append.1 h with whole | rest
    · exact mem_chars_of_isDigit (n.whole_digits c whole)
    rcases List.mem_append.1 rest with fraction | exponent
    · exact n.mem_fractionText fraction
    · exact n.mem_exponentText exponent
  rw [text] at h
  split_ifs at h
  · rcases List.mem_cons.1 h with rfl | inside
    · decide
    · exact body inside
  · exact body h

/-- A numeral begins with a minus sign or a digit. -/
theorem exists_text : ∃ c cs, n.text = c :: cs ∧ c ∈ '-' :: asciiDigits := by
  obtain ⟨c, cs, body, digit⟩ := n.exists_body
  rw [text]
  split_ifs
  · exact ⟨'-', n.body, rfl, List.mem_cons_self⟩
  · exact ⟨c, cs, body, List.mem_cons_of_mem _ (mem_asciiDigits digit)⟩

/-- A numeral is a run. -/
theorem isRun_text : IsRun n.text := by
  obtain ⟨c, cs, same, -⟩ := n.exists_text
  have plain : chars.all isPlain = true := by decide
  exact ⟨by simp [same], fun c mem => List.all_eq_true.1 plain c (n.mem_text mem)⟩

theorem isLine_text : Text.IsLine n.text := by
  have feed : '\n' ∉ chars := by decide
  have back : '\r' ∉ chars := by decide
  exact ⟨fun mem => feed (n.mem_text mem), fun mem => back (n.mem_text mem)⟩

theorem isSymbolText_text : isSymbolText n.text = false := by
  obtain ⟨c, cs, body, digit⟩ := n.exists_body
  have mem : c ∈ n.text := by
    rw [text, body]
    split_ifs <;> simp
  have other : asciiDigits.all (!symbolChars.contains ·) = true := by decide
  have own := List.all_eq_true.1 other c (mem_asciiDigits digit)
  rw [isSymbolText, Bool.and_eq_false_iff, List.all_eq_false]
  exact .inr ⟨c, mem, by simpa using own⟩

/-- A numeral is scanned as the machine number of its rank. -/
theorem ofLexeme_text (line : Nat) :
    Token.ofLexeme n.text line =
      .ok ⟨line, .number ⟨Binary64.ofRank n.negative n.decimal.rank, 0⟩⟩ := by
  have symbol := n.isSymbolText_text
  have numeral := n.isNumeral_text
  have read := n.read_text
  obtain ⟨c, cs, same, first⟩ := n.exists_text
  -- The first character rules out every other kind of token but a symbol.
  have other : ('-' :: asciiDigits).all (fun c => decide (c ≠ '(' ∧ c ≠ ')' ∧ c ≠ '"' ∧ c ≠ '#' ∧
      isIdentifierStart c = false)) = true := by decide
  obtain ⟨left, right, quote, hash, start⟩ := of_decide_eq_true (List.all_eq_true.1 other c first)
  rw [same] at symbol numeral read ⊢
  simp [Token.ofLexeme, Token.numberOfLexeme, isStringText, isBooleanText, isIdentifierText, left,
    right, quote, hash, start, symbol, numeral, read]

end Numeral

/-! ## Tokens -/

namespace Token

/-- The same kind of token with the same content; numbers have to be equal as numbers. -/
def Kind.Same : Kind → Kind → Prop
  | .number x, .number y => (x.value == y.value) = true
  | kind, kind' => kind = kind'

theorem Kind.same_of_ne {kind : Kind} (h : ∀ x, kind ≠ .number x) : kind.Same kind := by
  cases kind with
  | number x => exact absurd rfl (h x)
  | leftParen | rightParen | identifier | symbol | string | boolean => rfl

/-- The kind of a token does not depend on its line. -/
theorem ofLexeme_line {text : List Char} {line : Nat} {token : Token}
    (h : ofLexeme text line = .ok token) (line' : Nat) :
    ofLexeme text line' = .ok ⟨line', token.kind⟩ := by
  unfold ofLexeme at h ⊢
  split_ifs at h ⊢
  · cases h
    rfl
  · cases h
    rfl
  · cases h
    rfl
  · unfold booleanOfLexeme at h ⊢
    split_ifs at h ⊢ <;> cases h <;> rfl
  · cases h
    rfl
  · cases h
    rfl
  · unfold numberOfLexeme at h ⊢
    cases hr : Binary64.read? text with
    | none => simp [hr] at h
    | some x =>
      rw [hr] at h
      cases h
      rfl

/-- The lexeme of a string is the string between quotes. -/
theorem quoted_of_isStringText {text : List Char} (hl : IsLexeme text)
    (h : isStringText text = true) : text = '"' :: ((text.drop 1).dropLast ++ ['"']) := by
  rw [isStringText, beq_iff_eq] at h
  cases hl with
  | paren hp => rcases hp with rfl | rfl <;> cases h
  | quoted hq => simp
  | run hr =>
    have plain := hr.plain '"' (List.mem_of_mem_head? h)
    exact absurd plain (by decide)

/-- A token that is not a number is written as it was scanned. -/
theorem source_of_ofLexeme {text : List Char} {line : Nat} {token : Token} (hl : IsLexeme text)
    (h : ofLexeme text line = .ok token) (number : ∀ x, token.kind ≠ .number x) :
    token.source.toList = text := by
  unfold ofLexeme at h
  split_ifs at h with left right string boolean identifier symbol numeral
  · cases h
    simp [source, left]
  · cases h
    simp [source, right]
  · cases h
    rw [quoted_of_isStringText hl string]
    simp [source]
  · unfold booleanOfLexeme at h
    split_ifs at h with yes no
    · cases h
      simp [source, yes]
    · cases h
      simp [source, no]
  · cases h
    exact String.toList_ofList
  · cases h
    exact String.toList_ofList
  · unfold numberOfLexeme at h
    cases hr : Binary64.read? text with
    | none => simp [hr] at h
    | some x =>
      rw [hr] at h
      cases h
      exact absurd rfl (number _)

/-- A token whose source is a lexeme that is scanned as the same token again. -/
structure Rereads (token : Token) : Prop where
  lexeme : IsLexeme token.source.toList
  isLine : Text.IsLine token.source.toList
  read : ∀ line, ∃ kind, ofLexeme token.source.toList line = .ok ⟨line, kind⟩ ∧
    token.kind.Same kind

/-- A number that is finite, if the token is a number. -/
def IsFinite (token : Token) : Prop := ∀ x, token.kind = .number x → x.value.isFinite = true

instance (token : Token) : Decidable token.IsFinite :=
  decidable_of_iff ((match token.kind with
    | .number x => x.value.isFinite
    | _ => true) = true) (by cases h : token.kind <;> simp [IsFinite, h])

theorem rereads_number {x : Number} (line : Nat) (h : x.value.isFinite = true) :
    Rereads ⟨line, .number x⟩ := by
  obtain ⟨n, text, rank, sign⟩ := Number.exists_numeral h
  have source : (Token.mk line (.number x)).source.toList = n.text := text.symm
  have same := Binary64.beq_ofRank h sign
  rw [← rank] at same
  refine ⟨?_, ?_, fun line' => ⟨.number ⟨Binary64.ofRank n.negative n.decimal.rank, 0⟩, ?_, same⟩⟩
  · rw [source]
    exact .run n.isRun_text
  · rw [source]
    exact n.isLine_text
  · rw [source]
    exact n.ofLexeme_text line'

/-- A token that was scanned is scanned again from its source. -/
theorem rereads_of_ofLexeme {text : List Char} {line : Nat} {token : Token} (hl : IsLexeme text)
    (unbroken : Text.IsLine text) (h : ofLexeme text line = .ok token) (finite : token.IsFinite) :
    token.Rereads := by
  by_cases number : ∃ x, token.kind = .number x
  · obtain ⟨x, hx⟩ := number
    obtain ⟨line, kind⟩ := token
    cases hx
    exact rereads_number line (finite x rfl)
  · have other : ∀ x, token.kind ≠ .number x := fun x hx => number ⟨x, hx⟩
    have source := source_of_ofLexeme hl h other
    refine ⟨?_, ?_, fun line' => ⟨token.kind, ?_, Kind.same_of_ne other⟩⟩
    · rwa [source]
    · rwa [source]
    · rw [source]
      exact ofLexeme_line h line'

end Token

/-! ## Rows -/

theorem pieces_gap {c : Char} (h : isGap c = true) (cs : List Char) :
    pieces (c :: cs) = pieces cs := by
  rw [pieces, piecesFrom, if_pos h]
  rfl

/-- A lexeme at the front of a row is its first piece; a run has to end there. -/
theorem pieces_lexeme {lexeme rest : List Char} (hl : IsLexeme lexeme)
    (ends : IsRun lexeme → ∀ c ∈ rest.head?, isPlain c = false) :
    pieces (lexeme ++ rest) = .lexeme lexeme :: pieces rest := by
  obtain ⟨d, divides, -⟩ := Division.existsUnique_divides rest
  have pushed := divides.push hl fun run =>
    Division.apart_of_head divides.valid (by rw [divides.text]; exact ends run)
  rw [pushed.pieces, Division.pieces_push, divides.pieces]

theorem pieces_paren {c : Char} (h : c = '(' ∨ c = ')') (rest : List Char) :
    pieces (c :: rest) = .lexeme [c] :: pieces rest := by
  refine pieces_lexeme (.paren h) fun run => ?_
  have plain := run.plain c List.mem_cons_self
  rcases h with rfl | rfl <;> exact absurd plain (by decide)

/-! ## Trees -/

/-- The lexeme of a written token. -/
def Written.lexeme : Written → List Char
  | opening => ['(']
  | closing => [')']
  | leaf token => token.source.toList

theorem Token.lexeme_written (token : Token) : token.written.lexeme = token.source.toList := by
  rcases token.written_cases with ⟨kind, hw⟩ | ⟨kind, hw⟩ | ⟨-, hw⟩
  · simp [hw, Written.lexeme, Token.source, kind]
  · simp [hw, Written.lexeme, Token.source, kind]
  · rw [hw, Written.lexeme]

namespace Tree

/-- The pieces of some written tokens. -/
def piecesOf (ws : List Written) : List Piece := ws.map fun w => .lexeme w.lexeme

theorem pieces_source_aux :
    (∀ tree : Tree, (∀ w ∈ tree.written, IsLexeme w.lexeme) → ∀ rest : List Char,
      (∀ c ∈ rest.head?, isPlain c = false) →
        pieces (tree.source.toList ++ rest) = piecesOf tree.written ++ pieces rest) ∧
      ∀ trees : List Tree, (∀ w ∈ writtenAll trees, IsLexeme w.lexeme) → ∀ rest : List Char,
        (∀ c ∈ rest.head?, isPlain c = false) →
          pieces ((" ".intercalate (sources trees)).toList ++ rest) =
            piecesOf (writtenAll trees) ++ pieces rest := by
  apply written.mutual_induct
  · intro token h rest ends
    exact pieces_lexeme (h _ List.mem_cons_self) fun _ => ends
  · intro items inside h rest ends
    have text : (Tree.list items).source.toList ++ rest =
        '(' :: ((" ".intercalate (sources items)).toList ++ ')' :: rest) := by
      simp [source]
    have lexemes : ∀ w ∈ writtenAll items, IsLexeme w.lexeme := fun w mem =>
      h w (by simp [written, mem])
    rw [text, pieces_paren (.inl rfl), inside lexemes _ (by simp; decide), pieces_paren (.inr rfl)]
    simp [piecesOf, written, Written.lexeme]
  · intro h rest ends
    rfl
  · intro tree trees first later h rest ends
    obtain ⟨own, others⟩ : (∀ w ∈ tree.written, IsLexeme w.lexeme) ∧
        ∀ w ∈ writtenAll trees, IsLexeme w.lexeme :=
      List.forall_mem_append.1 h
    rw [writtenAll, piecesOf, List.map_append, List.append_assoc]
    cases trees with
    | nil => exact first own rest ends
    | cons next trees =>
      have text : (" ".intercalate (sources (tree :: next :: trees))).toList ++ rest =
          tree.source.toList ++
            ' ' :: ((" ".intercalate (sources (next :: trees))).toList ++ rest) := by
        simp [sources, String.intercalate_cons_cons]
      rw [text, first own _ (by simp; decide), pieces_gap (by decide), later others rest ends]
      rfl

/-- In the source of a tree every token is a lexeme of its own. -/
theorem pieces_source {tree : Tree} (h : ∀ w ∈ tree.written, IsLexeme w.lexeme) :
    pieces tree.source.toList = piecesOf tree.written := by
  have whole := pieces_source_aux.1 tree h [] (by simp)
  rw [List.append_nil] at whole
  rw [whole]
  exact List.append_nil _

/-- The source of a tree is one line. -/
theorem isLine_source_aux :
    (∀ tree : Tree, (∀ w ∈ tree.written, Text.IsLine w.lexeme) →
      Text.IsLine tree.source.toList) ∧
      ∀ trees : List Tree, (∀ w ∈ writtenAll trees, Text.IsLine w.lexeme) →
        Text.IsLine (" ".intercalate (sources trees)).toList := by
  apply written.mutual_induct
  · intro token h
    exact h _ List.mem_cons_self
  · intro items inside h
    have text : (Tree.list items).source.toList =
        '(' :: ((" ".intercalate (sources items)).toList ++ [')']) := by
      simp [source]
    have items := inside fun w mem => h w (by simp [written, mem])
    rw [text, Text.isLine_cons, Text.isLine_append]
    exact ⟨by decide, items, by simp [Text.IsLine]⟩
  · intro h
    simp [sources, Text.IsLine]
  · intro tree trees first later h
    obtain ⟨own, others⟩ : (∀ w ∈ tree.written, Text.IsLine w.lexeme) ∧
        ∀ w ∈ writtenAll trees, Text.IsLine w.lexeme :=
      List.forall_mem_append.1 h
    cases trees with
    | nil => exact first own
    | cons next trees =>
      have text : (" ".intercalate (sources (tree :: next :: trees))).toList =
          tree.source.toList ++ ' ' :: (" ".intercalate (sources (next :: trees))).toList := by
        simp [sources, String.intercalate_cons_cons]
      rw [text, Text.isLine_append, Text.isLine_cons]
      exact ⟨first own, by decide, later others⟩

end Tree

/-- Tokens that are scanned again from their sources, on another line. -/
theorem exists_reads_sources {ts : List Token} (h : ∀ token ∈ ts, token.Rereads) (line : Nat) :
    ∃ ts', Reads line (ts.map (·.source.toList)) ts' ∧
      List.Forall₂ (fun t t' => t.kind.Same t'.kind) ts ts' := by
  induction ts with
  | nil => exact ⟨[], .nil, .nil⟩
  | cons token ts ih =>
    obtain ⟨first, later⟩ := List.forall_mem_cons.1 h
    obtain ⟨kind, read, same⟩ := first.read line
    obtain ⟨ts', reads, rest⟩ := ih later
    exact ⟨⟨line, kind⟩ :: ts', .cons read reads, .cons same rest⟩

section

variable {tree : Tree} {ts : List Token}

theorem forall_mem_written {p : List Char → Prop} (hw : written ts = tree.written)
    (h : ∀ token ∈ ts, p token.source.toList) : ∀ w ∈ tree.written, p w.lexeme := by
  rw [← hw]
  intro w mem
  obtain ⟨token, inside, rfl⟩ := List.mem_map.1 mem
  rw [Token.lexeme_written]
  exact h token inside

theorem isLine_source (hw : written ts = tree.written) (h : ∀ token ∈ ts, token.Rereads) :
    Text.IsLine tree.source.toList :=
  Tree.isLine_source_aux.1 tree (forall_mem_written hw fun token mem => (h token mem).isLine)

/-- The row that the source of a tree makes is scanned as the tokens that the tree is written
with. -/
theorem scanRow_source (hw : written ts = tree.written) (h : ∀ token ∈ ts, token.Rereads)
    (line : Nat) :
    ∃ ts', scanRow line tree.source.toList = (ts', none) ∧
      List.Forall₂ (fun t t' => t.kind.Same t'.kind) ts ts' := by
  have lexemes := forall_mem_written hw fun token mem => (h token mem).lexeme
  have own : Tree.piecesOf tree.written = (ts.map (·.source.toList)).map .lexeme ++ [] := by
    simp [← hw, Tree.piecesOf, written, Token.lexeme_written]
  obtain ⟨ts', reads, same⟩ := exists_reads_sources h line
  refine ⟨ts', ?_, same⟩
  rw [scanRow, Tree.pieces_source lexemes, own, scanPieces_append reads, scanPieces,
    List.append_nil]

end

end Lisplet
