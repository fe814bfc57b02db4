import Lisplet.Proofs.Numeral
import Lisplet.Token.Row
import Mathlib.Data.List.Chain

/-!
# The grammar of rows

A row is a list of lexemes with gaps before, between and after them, and ends in a comment or in a
quote that is not closed; either may be missing.  Taking a row apart in this way is a `Division`,
and every row has exactly one (`existsUnique_divides`): a gap ends where a lexeme or the rest of
the row begins, and a lexeme ends where its first character says.  The pieces that a row is cut
into are the lexemes of its division (`Division.Divides.pieces`), so scanning a row gives the
tokens of all its lexemes, or the fault of the leftmost one that has no token
(`scanRow_grammar`).
-/

namespace Lisplet

/-- A character of a run. -/
def isPlain (c : Char) : Bool := !isGap c && !(['(', ')', ';', '"'].contains c)

/-- A run: characters that neither separate nor stand for themselves. -/
structure IsRun (text : List Char) : Prop where
  nonempty : text ≠ []
  plain : ∀ c ∈ text, isPlain c = true

/-- The texts that lexemes can be. -/
inductive IsLexeme : List Char → Prop where
  | paren {c : Char} (h : c = '(' ∨ c = ')') : IsLexeme [c]
  | quoted {inner : List Char} (h : '"' ∉ inner) : IsLexeme ('"' :: (inner ++ ['"']))
  | run {text : List Char} (h : IsRun text) : IsLexeme text

/-- A comment, or no more characters. -/
def IsComment (rest : List Char) : Prop := ∀ c ∈ rest.head?, c = ';'

/-- A quote that is not closed. -/
def IsOpenQuote (rest : List Char) : Prop := ∃ text, rest = '"' :: text ∧ '"' ∉ text

/-- A row taken apart: every lexeme with the gap before it, the gap after the last lexeme, and the
rest of the row. -/
structure Division where
  parts : List (List Char × List Char)
  gap : List Char
  rest : List Char

namespace Division

def lexemes (d : Division) : List (List Char) := d.parts.map (·.2)

/-- The row that was taken apart. -/
def text (d : Division) : List Char :=
  d.parts.flatMap (fun part => part.1 ++ part.2) ++ (d.gap ++ d.rest)

/-- Two runs that follow each other have a gap between them. -/
def Apart (part next : List Char × List Char) : Prop :=
  IsRun part.2 → IsRun next.2 → next.1 ≠ []

structure Valid (d : Division) : Prop where
  gaps : ∀ part ∈ d.parts, ∀ c ∈ part.1, isGap c = true
  lexemes : ∀ part ∈ d.parts, IsLexeme part.2
  apart : d.parts.IsChain Apart
  gap : ∀ c ∈ d.gap, isGap c = true
  rest : IsComment d.rest ∨ IsOpenQuote d.rest

/-- The division takes the row apart by the rules. -/
structure Divides (d : Division) (row : List Char) : Prop where
  valid : d.Valid
  text : d.text = row

/-- The division with a part in front. -/
def push (d : Division) (gap lexeme : List Char) : Division :=
  { d with parts := (gap, lexeme) :: d.parts }

/-- Divisions are built from the end of the row to its front. -/
@[elab_as_elim, induction_eliminator]
theorem pushInduction {motive : Division → Prop} (last : ∀ gap rest, motive ⟨[], gap, rest⟩)
    (push : ∀ (d : Division) gap lexeme, motive d → motive (d.push gap lexeme)) : ∀ d, motive d
  | ⟨[], gap, rest⟩ => last gap rest
  | ⟨(gap', lexeme) :: parts, gap, rest⟩ =>
    push ⟨parts, gap, rest⟩ gap' lexeme (pushInduction last push ⟨parts, gap, rest⟩)
termination_by d => d.parts.length

@[elab_as_elim, cases_eliminator]
theorem pushCases {motive : Division → Prop} (d : Division)
    (last : ∀ gap rest, motive ⟨[], gap, rest⟩)
    (push : ∀ (d : Division) gap lexeme, motive (d.push gap lexeme)) : motive d :=
  pushInduction last (fun d gap lexeme _ => push d gap lexeme) d

theorem text_last (gap rest : List Char) : text ⟨[], gap, rest⟩ = gap ++ rest := rfl

theorem text_push (d : Division) (gap lexeme : List Char) :
    (d.push gap lexeme).text = gap ++ (lexeme ++ d.text) := by
  simp [push, text]

theorem valid_push {d : Division} {gap lexeme : List Char} :
    (d.push gap lexeme).Valid ↔
      (∀ c ∈ gap, isGap c = true) ∧ IsLexeme lexeme ∧
        (∀ next ∈ d.parts.head?, Apart (gap, lexeme) next) ∧ d.Valid := by
  constructor
  · intro h
    have chain := List.isChain_cons.1 h.apart
    exact ⟨h.gaps _ List.mem_cons_self, h.lexemes _ List.mem_cons_self, chain.1,
      fun part mem => h.gaps part (List.mem_cons_of_mem _ mem),
      fun part mem => h.lexemes part (List.mem_cons_of_mem _ mem), chain.2, h.gap, h.rest⟩
  · rintro ⟨hg, hl, first, h⟩
    exact ⟨List.forall_mem_cons.2 ⟨hg, h.gaps⟩, List.forall_mem_cons.2 ⟨hl, h.lexemes⟩,
      List.isChain_cons.2 ⟨first, h.apart⟩, h.gap, h.rest⟩

end Division

/-! ## First characters -/

theorem isPlain_of_isGap {c : Char} (h : isGap c = true) : isPlain c = false := by
  simp [isPlain, h]

theorem isGap_of_isPlain {c : Char} (h : isPlain c = true) : isGap c = false := by
  simp only [isPlain, Bool.and_eq_true, Bool.not_eq_true'] at h
  exact h.1

/-- How a lexeme begins tells it from gaps and comments. -/
theorem IsLexeme.exists_cons {lexeme : List Char} (h : IsLexeme lexeme) :
    ∃ c cs, lexeme = c :: cs ∧ isGap c = false ∧ c ≠ ';' := by
  cases h with
  | paren h =>
    refine ⟨_, [], rfl, ?_⟩
    rcases h with rfl | rfl <;> decide
  | quoted h => exact ⟨'"', _, rfl, by decide, by decide⟩
  | run h =>
    obtain ⟨c, cs, rfl⟩ := List.exists_cons_of_ne_nil h.nonempty
    have plain := h.plain c List.mem_cons_self
    refine ⟨c, cs, rfl, isGap_of_isPlain plain, ?_⟩
    rintro rfl
    revert plain
    decide

theorem IsLexeme.head_isGap {lexeme : List Char} (h : IsLexeme lexeme) (rest : List Char) :
    ∀ c ∈ (lexeme ++ rest).head?, isGap c = false := by
  obtain ⟨c, cs, rfl, gap, -⟩ := h.exists_cons
  rintro c' ⟨⟩
  exact gap

/-- Two ways to split a list after a stretch of one class, where the next item is not of that
class, are the same. -/
theorem append_inj_of_class {α : Type} {p : α → Bool} {a a' b b' : List α} (h : a ++ b = a' ++ b')
    (ha : ∀ x ∈ a, p x = true) (ha' : ∀ x ∈ a', p x = true) (hb : ∀ x ∈ b.head?, p x = false)
    (hb' : ∀ x ∈ b'.head?, p x = false) : a = a' ∧ b = b' := by
  have stretch {a b : List α} (ha : ∀ x ∈ a, p x = true) (hb : ∀ x ∈ b.head?, p x = false) :
      (a ++ b).takeWhile p = a := by
    cases b with
    | nil => rw [List.append_nil, List.takeWhile_eq_self_iff.2 ha]
    | cons x xs =>
      rw [List.takeWhile_append_of_pos ha, List.takeWhile_cons_of_neg (by simp [hb x rfl]),
        List.append_nil]
  have same : a = a' := by rw [← stretch ha hb, h, stretch ha' hb']
  subst same
  exact ⟨rfl, List.append_cancel_left h⟩

theorem Division.Valid.rest_head {d : Division} (h : d.Valid) :
    ∀ c ∈ d.rest.head?, c = ';' ∨ c = '"' := by
  intro c hc
  rcases h.rest with comment | ⟨text, hr, -⟩
  · exact Or.inl (comment c hc)
  · rw [hr] at hc
    exact Or.inr (Option.some.inj hc).symm

theorem isGap_of_rest {c : Char} (h : c = ';' ∨ c = '"') : isGap c = false := by
  rcases h with rfl | rfl <;> decide

theorem isPlain_of_rest {c : Char} (h : c = ';' ∨ c = '"') : isPlain c = false := by
  rcases h with rfl | rfl <;> decide

/-- A lexeme that is no run begins with a character that is not plain. -/
theorem IsLexeme.head_of_not_isRun {lexeme : List Char} (h : IsLexeme lexeme)
    (hr : ¬ IsRun lexeme) (rest : List Char) :
    ∀ c ∈ (lexeme ++ rest).head?, isPlain c = false := by
  cases h with
  | paren h =>
    rintro c ⟨⟩
    rcases h with rfl | rfl <;> decide
  | quoted h =>
    rintro c ⟨⟩
    decide
  | run h => exact absurd h hr

namespace Division

/-- After a run there is no further character of a run. -/
theorem head_of_apart {d : Division} (h : d.Valid) {part : List Char × List Char}
    (run : IsRun part.2) (apart : ∀ next ∈ d.parts.head?, Apart part next) :
    ∀ c ∈ d.text.head?, isPlain c = false := by
  cases d with
  | last gap rest =>
    cases gap with
    | nil => exact fun c hc => isPlain_of_rest (h.rest_head c hc)
    | cons c cs =>
      rintro c' ⟨⟩
      exact isPlain_of_isGap (h.gap c List.mem_cons_self)
  | push d gap lexeme =>
    obtain ⟨hg, hl, -, -⟩ := valid_push.1 h
    rw [text_push]
    cases gap with
    | nil => exact hl.head_of_not_isRun (fun next => apart _ rfl run next rfl) _
    | cons c cs =>
      rintro c' ⟨⟩
      exact isPlain_of_isGap (hg c List.mem_cons_self)

/-! ## Uniqueness -/

/-- The first lexeme of a text is determined by the text. -/
theorem lexeme_unique {lexeme lexeme' tail tail' : List Char}
    (h : lexeme ++ tail = lexeme' ++ tail') (hl : IsLexeme lexeme) (hl' : IsLexeme lexeme')
    (ends : IsRun lexeme → ∀ c ∈ tail.head?, isPlain c = false)
    (ends' : IsRun lexeme' → ∀ c ∈ tail'.head?, isPlain c = false) :
    lexeme = lexeme' ∧ tail = tail' := by
  by_cases run : IsRun lexeme <;> by_cases run' : IsRun lexeme'
  · exact append_inj_of_class h run.plain run'.plain (ends run) (ends' run')
  · obtain ⟨c, cs, rfl⟩ := List.exists_cons_of_ne_nil run.nonempty
    have plain := run.plain c List.mem_cons_self
    have other := hl'.head_of_not_isRun run' tail' c (by simp [← h])
    simp [plain] at other
  · obtain ⟨c, cs, rfl⟩ := List.exists_cons_of_ne_nil run'.nonempty
    have plain := run'.plain c List.mem_cons_self
    have other := hl.head_of_not_isRun run tail c (by simp [h])
    simp [plain] at other
  · cases hl with
    | run hr => exact absurd hr run
    | paren hp =>
      cases hl' with
      | run hr => exact absurd hr run'
      | paren hp' => simpa using h
      | quoted hq' =>
        simp only [List.cons_append, List.nil_append, List.cons.injEq] at h
        rcases hp with rfl | rfl <;> simp at h
    | quoted hq =>
      cases hl' with
      | run hr => exact absurd hr run'
      | paren hp' =>
        simp only [List.cons_append, List.nil_append, List.cons.injEq] at h
        rcases hp' with rfl | rfl <;> simp at h
      | quoted hq' =>
        simp only [List.cons_append, List.append_assoc, List.nil_append, List.cons.injEq,
          true_and] at h
        have inside {inner : List Char} (hq : '"' ∉ inner) : ∀ c ∈ inner, (c != '"') = true := by
          intro c hc
          rw [bne_iff_ne]
          rintro rfl
          exact hq hc
        obtain ⟨rfl, same⟩ :=
          append_inj_of_class h (inside hq) (inside hq') (by simp) (by simp)
        simpa using same

/-- No lexeme begins where the rest of a row does. -/
theorem rest_ne_lexeme {rest lexeme tail : List Char} (hr : IsComment rest ∨ IsOpenQuote rest)
    (hl : IsLexeme lexeme) : rest ≠ lexeme ++ tail := by
  rintro rfl
  obtain ⟨c, cs, hc, -, notComment⟩ := hl.exists_cons
  rcases hr with comment | ⟨text, ht, unclosed⟩
  · exact notComment (comment c (by simp [hc]))
  · cases hl with
    | paren h => rcases h with rfl | rfl <;> simp at ht
    | quoted h =>
      simp only [List.cons_append, List.append_assoc, List.nil_append, List.cons.injEq,
        true_and] at ht
      exact unclosed (by simp [← ht])
    | run h =>
      have quote : c = '"' := by simpa [hc] using congrArg List.head? ht
      have plain := h.plain c (by simp [hc])
      rw [quote] at plain
      revert plain
      decide

/-- A row without lexemes is no row with one. -/
theorem end_ne_push {d : Division} {gap rest gap' lexeme : List Char}
    (h : Valid ⟨[], gap, rest⟩) (h' : (d.push gap' lexeme).Valid) :
    gap ++ rest ≠ gap' ++ (lexeme ++ d.text) := by
  intro same
  obtain ⟨hg, hl, -, -⟩ := valid_push.1 h'
  obtain ⟨-, clash⟩ := append_inj_of_class same h.gap hg
    (fun c hc => isGap_of_rest (h.rest_head c hc)) (hl.head_isGap _)
  exact rest_ne_lexeme h.rest hl clash

/-- A row can be taken apart in one way only. -/
theorem Valid.unique {d d' : Division} (h : d.Valid) (h' : d'.Valid) (same : d.text = d'.text) :
    d = d' := by
  induction d generalizing d' with
  | last gap rest =>
    cases d' with
    | last gap' rest' =>
      rw [text_last, text_last] at same
      obtain ⟨rfl, rfl⟩ := append_inj_of_class same h.gap h'.gap
        (fun c hc => isGap_of_rest (h.rest_head c hc))
        fun c hc => isGap_of_rest (h'.rest_head c hc)
      rfl
    | push d' gap' lexeme' =>
      rw [text_last, text_push] at same
      exact absurd same (end_ne_push h h')
  | push d gap lexeme ih =>
    cases d' with
    | last gap' rest' =>
      rw [text_last, text_push] at same
      exact absurd same.symm (end_ne_push h' h)
    | push d' gap' lexeme' =>
      -- First the gaps are the same, then the lexemes, and what remains is shorter.
      rw [text_push, text_push] at same
      obtain ⟨hg, hl, apart, valid⟩ := valid_push.1 h
      obtain ⟨hg', hl', apart', valid'⟩ := valid_push.1 h'
      obtain ⟨rfl, later⟩ := append_inj_of_class same hg hg' (hl.head_isGap _) (hl'.head_isGap _)
      obtain ⟨rfl, tails⟩ := lexeme_unique later hl hl'
        (fun run => head_of_apart valid run apart) fun run => head_of_apart valid' run apart'
      rw [ih valid valid' tails]

end Division

/-! ## Existence -/

/-- What a cut through a row has read and not yet put into a piece. -/
def Cut.text : Cut → List Char
  | .run seen => seen.reverse
  | .quoted seen => '"' :: seen.reverse

/-- The characters of a run are plain, and no quote stands inside a string. -/
def Cut.Valid : Cut → Prop
  | .run seen => ∀ c ∈ seen, isPlain c = true
  | .quoted seen => '"' ∉ seen

namespace Division

/-- The lexemes, and the quote that is not closed. -/
def pieces (d : Division) : List Piece :=
  d.lexemes.map .lexeme ++ if d.rest.head? = some '"' then [.openQuote] else []

theorem pieces_push (d : Division) (gap lexeme : List Char) :
    (d.push gap lexeme).pieces = .lexeme lexeme :: d.pieces := rfl

theorem Divides.push {d : Division} {row lexeme : List Char} (h : d.Divides row)
    (hl : IsLexeme lexeme)
    (apart : IsRun lexeme → ∀ next ∈ d.parts.head?, IsRun next.2 → next.1 ≠ []) :
    (d.push [] lexeme).Divides (lexeme ++ row) := by
  refine ⟨valid_push.2 ⟨by simp, hl, fun next mem run => apart run next mem, h.valid⟩, ?_⟩
  rw [text_push, h.text, List.nil_append]

/-- A lexeme that begins with a mark of its own can stand in front of anything. -/
theorem Divides.push_marked {d : Division} {row : List Char} {c : Char} {cs : List Char}
    (h : d.Divides row) (hl : IsLexeme (c :: cs)) (mark : isPlain c = false) :
    (d.push [] (c :: cs)).Divides (c :: cs ++ row) := by
  refine h.push hl fun run => ?_
  have plain := run.plain c List.mem_cons_self
  simp [mark] at plain

/-- A run can stand in front of what does not begin with a plain character. -/
theorem apart_of_head {d : Division} (h : d.Valid) (head : ∀ c ∈ d.text.head?, isPlain c = false) :
    ∀ next ∈ d.parts.head?, IsRun next.2 → next.1 ≠ [] := by
  cases d with
  | last gap rest => simp
  | push d gap lexeme =>
    rintro _ ⟨⟩ run rfl
    obtain ⟨c, cs, rfl⟩ := List.exists_cons_of_ne_nil run.nonempty
    have plain := run.plain c List.mem_cons_self
    have first := head c (by rw [text_push]; rfl)
    simp [plain] at first

theorem Divides.exists_gap {d : Division} {row : List Char} {c : Char} (h : d.Divides row)
    (hc : isGap c = true) : ∃ d' : Division, d'.Divides (c :: row) ∧ d'.pieces = d.pieces := by
  obtain ⟨valid, rfl⟩ := h
  cases d with
  | last gap rest =>
    exact ⟨⟨[], c :: gap, rest⟩, ⟨⟨valid.gaps, valid.lexemes, valid.apart,
      List.forall_mem_cons.2 ⟨hc, valid.gap⟩, valid.rest⟩, rfl⟩, rfl⟩
  | push d gap lexeme =>
    obtain ⟨hg, hl, apart, valid⟩ := valid_push.1 valid
    refine ⟨d.push (c :: gap) lexeme, ⟨valid_push.2 ⟨List.forall_mem_cons.2 ⟨hc, hg⟩, hl, apart,
      valid⟩, ?_⟩, rfl⟩
    rw [text_push, text_push, List.cons_append]

theorem Divides.exists_run {d : Division} {row seen : List Char} (h : d.Divides row)
    (plain : ∀ c ∈ seen, isPlain c = true) (head : ∀ c ∈ row.head?, isPlain c = false) :
    ∃ d' : Division, d'.Divides (seen.reverse ++ row) ∧ d'.pieces = runPiece seen ++ d.pieces := by
  cases seen with
  | nil => exact ⟨d, h, rfl⟩
  | cons c cs =>
    have run : IsRun (c :: cs).reverse :=
      ⟨by simp, fun x hx => plain x (List.mem_reverse.1 hx)⟩
    refine ⟨d.push [] (c :: cs).reverse, h.push (.run run) fun _ => ?_, rfl⟩
    exact apart_of_head h.valid (by rwa [h.text])

/-- What is cut from some place on is the division of the row from there, what was seen and not
yet cut being put in front again. -/
theorem exists_divides_piecesFrom (cut : Cut) (row : List Char) (valid : cut.Valid) :
    ∃ d : Division, d.Divides (cut.text ++ row) ∧ d.pieces = piecesFrom cut row := by
  -- Where a run ends, `exists_run` puts it in front of the division of the rest, which begins with
  -- a character that is not plain.
  fun_induction piecesFrom cut row with
  | case1 seen =>
    have empty : Divides ⟨[], [], []⟩ [] :=
      ⟨⟨by simp, by simp, List.isChain_nil, by simp, Or.inl (by simp [IsComment])⟩, rfl⟩
    simpa [pieces, lexemes, Cut.text] using empty.exists_run valid (by simp)
  | case2 seen =>
    have unclosed : IsOpenQuote ('"' :: seen.reverse) := ⟨_, rfl, by simpa [Cut.Valid] using valid⟩
    refine ⟨⟨[], [], '"' :: seen.reverse⟩, ⟨⟨by simp, by simp, List.isChain_nil, by simp,
      Or.inr unclosed⟩, ?_⟩, rfl⟩
    simp [text, Cut.text]
  | case3 seen cs ih =>
    obtain ⟨d, h, hp⟩ := ih (by simp [Cut.Valid])
    have quoted : IsLexeme ('"' :: (seen.reverse ++ ['"'])) :=
      .quoted (by simpa [Cut.Valid] using valid)
    have pushed := h.push_marked quoted (by decide)
    exact ⟨_, by simpa [Cut.text] using pushed, congrArg _ hp⟩
  | case4 seen c cs hc ih =>
    obtain ⟨d, h, hp⟩ := ih (by simpa [Cut.Valid, Ne.symm hc] using valid)
    exact ⟨d, by simpa [Cut.text] using h, hp⟩
  | case5 seen c cs hc ih =>
    obtain ⟨d, h, hp⟩ := ih (by simp [Cut.Valid])
    obtain ⟨d₁, h₁, hp₁⟩ := h.exists_gap hc
    have outer : isPlain c = false := isPlain_of_isGap hc
    simpa [hp₁, hp, Cut.text] using h₁.exists_run valid (by simp [outer])
  | case6 seen cs =>
    have comment : Divides ⟨[], [], ';' :: cs⟩ (';' :: cs) :=
      ⟨⟨by simp, by simp, List.isChain_nil, by simp, Or.inl (by simp [IsComment])⟩, rfl⟩
    simpa [pieces, lexemes, Cut.text] using comment.exists_run valid (by simp; decide)
  | case7 seen c cs hg hs hc ih =>
    obtain ⟨d, h, hp⟩ := ih (by simp [Cut.Valid])
    have outer : isPlain c = false := by rcases hc with rfl | rfl <;> decide
    have pushed := h.push_marked (.paren hc) outer
    simpa [hp, pieces_push, Cut.text] using pushed.exists_run valid (by simp [outer])
  | case8 seen cs _ _ _ ih =>
    obtain ⟨d, h, hp⟩ := ih (by simp [Cut.Valid])
    simpa [hp, Cut.text] using h.exists_run valid (by simp [Cut.text]; decide)
  | case9 seen c cs hg hs hp hq ih =>
    have plain : isPlain c = true := by simp_all [isPlain]
    obtain ⟨d, h, hp⟩ := ih (List.forall_mem_cons.2 ⟨plain, valid⟩)
    exact ⟨d, by simpa [Cut.text] using h, hp⟩

/-- Every row can be taken apart, and in one way only. -/
theorem existsUnique_divides (row : List Char) : ∃! d : Division, d.Divides row := by
  obtain ⟨d, h, -⟩ := exists_divides_piecesFrom (.run []) row (by simp [Cut.Valid])
  refine ⟨d, h, fun d' h' => ?_⟩
  exact h'.valid.unique h.valid (h'.text.trans h.text.symm)

theorem Divides.pieces {d : Division} {row : List Char} (h : d.Divides row) :
    Lisplet.pieces row = d.pieces := by
  obtain ⟨d', h', hp⟩ := exists_divides_piecesFrom (.run []) row (by simp [Cut.Valid])
  have same : d = d' := h.valid.unique h'.valid (h.text.trans h'.text.symm)
  rw [same, hp, Lisplet.pieces]

end Division

/-! ## Tokens -/

namespace Token

/-- A lexeme has a token on its line, or is a fault that names its line: the one fault that names
none does not arise, because every numeral can be read. -/
theorem ofLexeme_outcome (text : List Char) (line : Nat) :
    (∃ kind, ofLexeme text line = .ok ⟨line, kind⟩) ∨
      ∃ fault, ofLexeme text line = .error fault ∧ fault.line? = some line := by
  unfold ofLexeme
  split_ifs with left right string boolean identifier symbol numeral
  · exact Or.inl ⟨_, rfl⟩
  · exact Or.inl ⟨_, rfl⟩
  · exact Or.inl ⟨_, rfl⟩
  · unfold booleanOfLexeme
    split_ifs
    · exact Or.inl ⟨_, rfl⟩
    · exact Or.inl ⟨_, rfl⟩
    · exact Or.inr ⟨_, rfl, rfl⟩
  · exact Or.inl ⟨_, rfl⟩
  · exact Or.inl ⟨_, rfl⟩
  · obtain ⟨x, hx⟩ := Binary64.read?_of_isNumeral numeral
    rw [numberOfLexeme, hx]
    exact Or.inl ⟨_, rfl⟩
  · exact Or.inr ⟨_, rfl, rfl⟩

theorem line_of_ofLexeme {text : List Char} {line : Nat} {token : Token}
    (h : ofLexeme text line = .ok token) : token.line = line := by
  rcases ofLexeme_outcome text line with ⟨kind, hk⟩ | ⟨fault, hf, -⟩
  · cases hk.symm.trans h
    rfl
  · cases hf.symm.trans h

theorem line?_of_ofLexeme {text : List Char} {line : Nat} {fault : ScanFault}
    (h : ofLexeme text line = .error fault) : fault.line? = some line := by
  rcases ofLexeme_outcome text line with ⟨kind, hk⟩ | ⟨fault', hf, named⟩
  · cases hk.symm.trans h
  · cases hf.symm.trans h
    exact named

/-- Parentheses and strings always have a token. -/
theorem isRun_of_ofLexeme {text : List Char} {line : Nat} {fault : ScanFault} (hl : IsLexeme text)
    (h : ofLexeme text line = .error fault) : IsRun text := by
  cases hl with
  | paren hp => rcases hp with rfl | rfl <;> cases h
  | quoted hq => simp [ofLexeme, isStringText] at h
  | run hr => exact hr

end Token

/-- The tokens of a row are those of its lexemes. -/
theorem exists_lexeme_of_mem_scanPieces {line : Nat} {parts : List Piece} {token : Token}
    (h : token ∈ (scanPieces line parts).1) :
    ∃ text, .lexeme text ∈ parts ∧ Token.ofLexeme text line = .ok token := by
  induction parts with
  | nil => cases h
  | cons piece parts ih =>
    cases piece with
    | openQuote => cases h
    | lexeme text =>
      rw [scanPieces] at h
      cases ht : Token.ofLexeme text line with
      | error fault =>
        rw [ht] at h
        cases h
      | ok first =>
        rw [ht] at h
        rcases List.mem_cons.1 h with rfl | later
        · exact ⟨text, List.mem_cons_self, ht⟩
        · obtain ⟨text', mem, read⟩ := ih later
          exact ⟨text', List.mem_cons_of_mem _ mem, read⟩

/-- The tokens of some lexemes, one for each. -/
def Reads (line : Nat) : List (List Char) → List Token → Prop :=
  List.Forall₂ fun lexeme token => Token.ofLexeme lexeme line = .ok token

theorem scanPieces_append {line : Nat} {lexemes : List (List Char)} {tokens : List Token}
    (h : Reads line lexemes tokens) (more : List Piece) :
    scanPieces line (lexemes.map .lexeme ++ more) =
      (tokens ++ (scanPieces line more).1, (scanPieces line more).2) := by
  induction h with
  | nil => rfl
  | cons first _ ih => rw [List.map_cons, List.cons_append, scanPieces, first, ih]; rfl

/-- Either all lexemes have a token, or there is a leftmost one that has none. -/
theorem reads_or_exists_fault (line : Nat) (lexemes : List (List Char)) :
    (∃ tokens, Reads line lexemes tokens) ∨
      ∃ left bad right tokens fault, lexemes = left ++ bad :: right ∧ Reads line left tokens ∧
        Token.ofLexeme bad line = .error fault := by
  induction lexemes with
  | nil => exact Or.inl ⟨[], .nil⟩
  | cons lexeme lexemes ih =>
    cases hl : Token.ofLexeme lexeme line with
    | error fault => exact Or.inr ⟨[], lexeme, lexemes, [], fault, rfl, .nil, hl⟩
    | ok token =>
      rcases ih with ⟨tokens, reads⟩ | ⟨left, bad, right, tokens, fault, rfl, reads, hb⟩
      · exact Or.inl ⟨token :: tokens, .cons hl reads⟩
      · exact Or.inr ⟨lexeme :: left, bad, right, token :: tokens, fault, rfl, .cons hl reads, hb⟩

namespace Division

/-- The leftmost place where a division has no token, with the tokens to the left of it: a run
that is no lexeme of any token, or a quote that is not closed. -/
inductive Fails (d : Division) (line : Nat) : List Token → ScanFault → Prop where
  | run {left right : List (List Char)} {bad : List Char} {tokens : List Token}
      {fault : ScanFault} (split : d.lexemes = left ++ bad :: right) (run : IsRun bad)
      (reads : Reads line left tokens) (rejected : Token.ofLexeme bad line = .error fault) :
      Fails d line tokens fault
  | quote {tokens : List Token} (unclosed : IsOpenQuote d.rest)
      (reads : Reads line d.lexemes tokens) : Fails d line tokens (.unterminatedString line)

theorem reads_or_fails {d : Division} (h : d.Valid) (line : Nat) :
    (∃ tokens, IsComment d.rest ∧ Reads line d.lexemes tokens) ∨
      ∃ tokens fault, d.Fails line tokens fault := by
  rcases reads_or_exists_fault line d.lexemes with
    ⟨tokens, reads⟩ | ⟨left, bad, right, tokens, fault, split, reads, rejected⟩
  · rcases h.rest with comment | unclosed
    · exact Or.inl ⟨tokens, comment, reads⟩
    · exact Or.inr ⟨tokens, _, .quote unclosed reads⟩
  · have mem : bad ∈ d.lexemes := by simp [split]
    obtain ⟨part, inside, rfl⟩ := List.mem_map.1 mem
    have run := Token.isRun_of_ofLexeme (h.lexemes part inside) rejected
    exact Or.inr ⟨tokens, fault, .run split run reads rejected⟩

variable {d : Division} {row : List Char} {line : Nat} {tokens : List Token}

theorem Divides.scanRow_of_reads (h : d.Divides row) (comment : IsComment d.rest)
    (reads : Reads line d.lexemes tokens) : scanRow line row = (tokens, none) := by
  have closed : ¬ d.rest.head? = some '"' := fun quote => absurd (comment _ quote) (by decide)
  rw [scanRow, h.pieces, Division.pieces, if_neg closed, scanPieces_append reads, scanPieces,
    List.append_nil]

theorem Divides.scanRow_of_fails {fault : ScanFault} (h : d.Divides row)
    (fails : d.Fails line tokens fault) : scanRow line row = (tokens, some fault) := by
  rw [scanRow, h.pieces, Division.pieces]
  cases fails with
  | run split _ reads rejected =>
    rw [split, List.map_append, List.append_assoc, scanPieces_append reads, List.map_cons,
      List.cons_append, scanPieces, rejected, List.append_nil]
  | quote unclosed reads =>
    obtain ⟨text, hr, -⟩ := unclosed
    rw [if_pos (by rw [hr]; rfl), scanPieces_append reads, scanPieces, List.append_nil]

theorem Fails.line? {fault : ScanFault} (h : d.Fails line tokens fault) :
    fault.line? = some line := by
  cases h with
  | run _ _ _ rejected => exact Token.line?_of_ofLexeme rejected
  | quote _ _ => rfl

end Division

/-- Scanning a row gives tokens without a fault exactly if the row is lexemes with gaps between
them and a comment at most, and the tokens are those of the lexemes.  Otherwise it gives the fault
of the leftmost lexeme that has no token, which names the line, and the tokens to the left of it.
There is one way only to take a row apart. -/
theorem scanRow_grammar (line : Nat) (row : List Char) :
    (∃! d : Division, d.Divides row) ∧
      (∀ tokens, scanRow line row = (tokens, none) ↔
        ∃ d : Division, d.Divides row ∧ IsComment d.rest ∧ Reads line d.lexemes tokens) ∧
      (∀ tokens fault, scanRow line row = (tokens, some fault) ↔
        ∃ d : Division, d.Divides row ∧ d.Fails line tokens fault) ∧
      ∀ tokens fault, scanRow line row = (tokens, some fault) → fault.line? = some line := by
  obtain ⟨d, h, -⟩ := Division.existsUnique_divides row
  have outcome := Division.reads_or_fails h.valid line
  have failure (tokens : List Token) (fault : ScanFault)
      (hs : scanRow line row = (tokens, some fault)) : d.Fails line tokens fault := by
    rcases outcome with ⟨tokens', comment, reads⟩ | ⟨tokens', fault', fails⟩
    · rw [h.scanRow_of_reads comment reads] at hs
      cases hs
    · rw [h.scanRow_of_fails fails] at hs
      cases hs
      exact fails
  refine ⟨Division.existsUnique_divides row, fun tokens => ⟨fun hs => ?_, ?_⟩,
    fun tokens fault => ⟨fun hs => ⟨d, h, failure tokens fault hs⟩, ?_⟩,
    fun tokens fault hs => (failure tokens fault hs).line?⟩
  · rcases outcome with ⟨tokens', comment, reads⟩ | ⟨tokens', fault', fails⟩
    · rw [h.scanRow_of_reads comment reads] at hs
      cases hs
      exact ⟨d, h, comment, reads⟩
    · rw [h.scanRow_of_fails fails] at hs
      cases hs
  · rintro ⟨d', h', comment, reads⟩
    exact h'.scanRow_of_reads comment reads
  · rintro ⟨d', h', fails⟩
    exact h'.scanRow_of_fails fails

end Lisplet
