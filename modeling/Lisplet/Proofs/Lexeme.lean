import Lisplet.Proofs.Numeral
import Lisplet.Token.Lexeme
import Lisplet.Value.Equality
import Mathlib.Computability.Language

/-!
# Classes of lexemes

A lexeme is classified by rules that are tried one after the other.  The texts that a rule applies
to are a regular language (`Rule.texts`); identifiers, symbols and numerals are built from classes
of characters (`identifiers`, `symbols`, `numerals`), and the tests of the scanner decide these
languages (`isIdentifierText_iff`, `isSymbolText_iff`, `isNumeral_iff`).

No text is in two of the languages (`Rule.eq_of_applies`): the first character tells all rules
apart but those for symbols and numerals, and a numeral has a digit somewhere, which no symbol has.
So the rules may be tried in any order (`Rule.classify_eq_ofLexeme`).
-/

namespace Lisplet.Lexeme

open Computability

/-! ## Languages -/

/-- The texts of one character of a class. -/
def oneOf (p : Char → Bool) : Language Char := {s | ∃ c, p c = true ∧ s = [c]}

/-- The texts of one or more digits of any scripts. -/
def someDigits : Language Char := oneOf Text.isDigit * (oneOf Text.isDigit)∗

/-- The texts of a language, with or without a sign. -/
def withSign (l : Language Char) : Language Char := (1 + oneOf fun c => c == '+' || c == '-') * l

def identifiers : Language Char := oneOf isIdentifierStart * (oneOf isIdentifierRest)∗

def symbols : Language Char := oneOf symbolChars.contains * (oneOf symbolChars.contains)∗

/-- Digits with at most one point before, among or after them. -/
def coefficients : Language Char :=
  someDigits * (1 + oneOf (· == '.')) * (oneOf Text.isDigit)∗ + oneOf (· == '.') * someDigits

/-- Nothing, or an exponent. -/
def exponents : Language Char := 1 + oneOf (fun c => c == 'e' || c == 'E') * withSign someDigits

def numerals : Language Char := withSign (coefficients * exponents)

variable {p : Char → Bool} {s : List Char} {l : Language Char}

theorem mem_oneOf_mul : s ∈ oneOf p * l ↔ ∃ c rest, s = c :: rest ∧ p c = true ∧ rest ∈ l := by
  rw [Language.mem_mul]
  constructor
  · rintro ⟨_, ⟨c, hc, rfl⟩, rest, mem, rfl⟩
    exact ⟨c, rest, rfl, hc, mem⟩
  · rintro ⟨c, rest, rfl, hc, mem⟩
    exact ⟨[c], ⟨c, hc, rfl⟩, rest, mem, rfl⟩

theorem mem_kstar_oneOf : s ∈ (oneOf p)∗ ↔ ∀ c ∈ s, p c = true := by
  rw [Language.mem_kstar]
  constructor
  · rintro ⟨parts, rfl, single⟩ c mem
    obtain ⟨part, hp, hc⟩ := List.mem_flatten.1 mem
    obtain ⟨c', class', rfl⟩ := single part hp
    rwa [List.mem_singleton.1 hc]
  · intro all
    refine ⟨s.map fun c => [c], ?_, fun part mem => ?_⟩
    · rw [← List.flatMap_def, List.flatMap_singleton']
    · obtain ⟨c, hc, rfl⟩ := List.mem_map.1 mem
      exact ⟨c, all c hc, rfl⟩

theorem mem_someDigits : s ∈ someDigits ↔ s ≠ [] ∧ ∀ c ∈ s, Text.isDigit c = true := by
  rw [someDigits, mem_oneOf_mul]
  cases s with
  | nil => simp
  | cons c cs => simp [mem_kstar_oneOf]

/-- A sign in front is dropped, if no text of the language begins with a sign. -/
theorem mem_withSign_iff (unsigned : ∀ c ∈ ['+', '-'], ∀ rest, c :: rest ∉ l) :
    s ∈ withSign l ↔ dropSign s ∈ l := by
  rw [withSign, add_mul, one_mul, Language.mem_add, mem_oneOf_mul]
  cases s with
  | nil => simp [dropSign]
  | cons c cs =>
    rw [dropSign]
    split_ifs with sign
    · have outside : c :: cs ∉ l := unsigned c (by simpa using sign) cs
      simp [outside, sign]
    · simp [sign]

/-! ## Identifiers and symbols -/

theorem isIdentifierText_iff : isIdentifierText s = true ↔ s ∈ identifiers := by
  rw [identifiers, mem_oneOf_mul]
  cases s with
  | nil => simp [isIdentifierText]
  | cons c cs => simp [isIdentifierText, mem_kstar_oneOf]

theorem isSymbolText_iff : isSymbolText s = true ↔ s ∈ symbols := by
  rw [symbols, mem_oneOf_mul]
  cases s with
  | nil => simp [isSymbolText]
  | cons c cs => simp [isSymbolText, mem_kstar_oneOf]

/-! ## Numerals -/

theorem isDigit_sign {c : Char} (h : c ∈ ['+', '-']) : Text.isDigit c = false := by
  have noDigit : ['+', '-'].any Text.isDigit = false := by decide
  exact Bool.not_eq_true _ ▸ List.any_eq_false.1 noDigit c h

theorem isExponentPart_iff : isExponentPart s = true ↔ s ∈ exponents := by
  have unsigned : ∀ c ∈ ['+', '-'], ∀ rest, c :: rest ∉ someDigits := by
    intro c sign rest mem
    have digit := (mem_someDigits.1 mem).2 c List.mem_cons_self
    rw [isDigit_sign sign] at digit
    cases digit
  rw [exponents, Language.mem_add, Language.mem_one, mem_oneOf_mul]
  cases s with
  | nil => simp [isExponentPart]
  | cons c cs => simp [isExponentPart, mem_withSign_iff unsigned, mem_someDigits, and_assoc]

/-- What follows the digits of a numeral is no digit. -/
theorem isDigit_of_isExponentPart (h : isExponentPart s = true) :
    ∀ c ∈ s.head?, Text.isDigit c = false := by
  cases s with
  | nil => simp
  | cons c cs =>
    simp only [isExponentPart, Bool.and_eq_true, Bool.or_eq_true, beq_iff_eq] at h
    rintro _ ⟨⟩
    rcases h.1.1 with rfl | rfl <;> decide

theorem isUnsignedNumeral_point {ds r : List Char} (digits : ∀ c ∈ ds, Text.isDigit c = true) :
    isUnsignedNumeral (ds ++ '.' :: r) =
      (!(ds.isEmpty && (r.takeWhile Text.isDigit).isEmpty) &&
        isExponentPart (r.dropWhile Text.isDigit)) := by
  have point : ∀ c ∈ ('.' :: r).head?, Text.isDigit c = false := by
    rintro _ ⟨⟩
    decide
  have span := Text.span_digits digits point
  simp only [isUnsignedNumeral, span]

theorem isUnsignedNumeral_plain {ds r : List Char} (digits : ∀ c ∈ ds, Text.isDigit c = true)
    (exponent : isExponentPart r = true) : isUnsignedNumeral (ds ++ r) = !ds.isEmpty := by
  have span := Text.span_digits digits (isDigit_of_isExponentPart exponent)
  simp only [isUnsignedNumeral, span]
  split
  · simp [isExponentPart] at exponent
  · simp [exponent]

theorem mem_coefficients : s ∈ coefficients ↔
    s ∈ someDigits ∨ ∃ ds ds', s = ds ++ '.' :: ds' ∧ ds ++ ds' ∈ someDigits := by
  rw [coefficients, Language.mem_add]
  constructor
  · rintro (⟨_, ⟨ds, hds, point, hp, rfl⟩, ds', hds', rfl⟩ | point)
    · have both : ds ++ ds' ∈ someDigits := by
        obtain ⟨nonempty, digits⟩ := mem_someDigits.1 hds
        refine mem_someDigits.2 ⟨by simp [nonempty], fun c mem => ?_⟩
        exact (List.mem_append.1 mem).elim (digits c) (mem_kstar_oneOf.1 hds' c)
      rcases hp with rfl | ⟨c, class', rfl⟩
      · exact .inl (by simpa using both)
      · exact .inr ⟨ds, ds', by simpa using class', both⟩
    · obtain ⟨c, ds, rfl, class', hds⟩ := mem_oneOf_mul.1 point
      exact .inr ⟨[], ds, by simpa using class', hds⟩
  · rintro (hds | ⟨ds, ds', rfl, both⟩)
    · refine .inl ⟨s, ⟨s, hds, [], .inl rfl, List.append_nil s⟩, [], ?_, List.append_nil s⟩
      exact mem_kstar_oneOf.2 (by simp)
    · obtain ⟨nonempty, digits⟩ := mem_someDigits.1 both
      -- Only a point without digits before it must have digits after it.
      rcases eq_or_ne ds [] with rfl | some
      · exact .inr (mem_oneOf_mul.2 ⟨'.', ds', rfl, rfl, both⟩)
      · refine .inl ⟨ds ++ ['.'], ⟨ds, ?_, ['.'], .inr ⟨'.', rfl, rfl⟩, rfl⟩, ds', ?_, by simp⟩
        · exact mem_someDigits.2 ⟨some, fun c mem => digits c (List.mem_append_left _ mem)⟩
        · exact mem_kstar_oneOf.2 fun c mem => digits c (List.mem_append_right _ mem)

theorem isUnsignedNumeral_iff : isUnsignedNumeral s = true ↔ s ∈ coefficients * exponents := by
  rw [Language.mem_mul]
  constructor
  · intro h
    have split (t : List Char) := List.takeWhile_append_dropWhile (p := Text.isDigit) (l := t)
    rcases isUnsignedNumeral_cases h with ⟨r, hr, digits, exponent⟩ | ⟨digits, exponent, -⟩
    · refine ⟨s.takeWhile Text.isDigit ++ '.' :: r.takeWhile Text.isDigit, ?_, _,
        isExponentPart_iff.1 exponent, ?_⟩
      · refine mem_coefficients.2 (.inr ⟨_, _, rfl, mem_someDigits.2 ⟨?_, fun c mem => ?_⟩⟩)
        · rintro empty
          simp [List.append_eq_nil_iff.1 empty] at digits
        · exact (List.mem_append.1 mem).elim List.mem_takeWhile_imp List.mem_takeWhile_imp
      · rw [List.append_assoc, List.cons_append, split r, ← hr, split s]
    · refine ⟨s.takeWhile Text.isDigit, ?_, _, isExponentPart_iff.1 exponent, split s⟩
      refine mem_coefficients.2 (.inl (mem_someDigits.2 ⟨?_, fun c => List.mem_takeWhile_imp⟩))
      simpa using digits
  · rintro ⟨coefficient, hc, exponent, he, rfl⟩
    have exponent' := isExponentPart_iff.2 he
    rcases mem_coefficients.1 hc with plain | ⟨ds, ds', rfl, both⟩
    · obtain ⟨nonempty, digits⟩ := mem_someDigits.1 plain
      rw [isUnsignedNumeral_plain digits exponent']
      simpa using nonempty
    · obtain ⟨nonempty, digits⟩ := mem_someDigits.1 both
      have whole : ∀ c ∈ ds, Text.isDigit c = true :=
        fun c mem => digits c (List.mem_append_left _ mem)
      have span := Text.span_digits (fun c mem => digits c (List.mem_append_right ds mem))
        (isDigit_of_isExponentPart exponent')
      rw [List.append_assoc, List.cons_append, isUnsignedNumeral_point whole, span.1, span.2,
        exponent']
      cases ds with
      | nil => simpa using nonempty
      | cons c cs => rfl

theorem isNumeral_iff : isNumeral s = true ↔ s ∈ numerals := by
  have unsigned : ∀ c ∈ ['+', '-'], ∀ rest, c :: rest ∉ coefficients * exponents := by
    intro c sign rest mem
    have numeral := isUnsignedNumeral_iff.2 mem
    have noDigit := isDigit_sign sign
    rw [isUnsignedNumeral, List.takeWhile_cons_of_neg (by simp [noDigit]),
      List.dropWhile_cons_of_neg (by simp [noDigit])] at numeral
    split at numeral
    · next r front =>
      cases front
      simp at sign
    · cases numeral
  rw [isNumeral, isUnsignedNumeral_iff, numerals, mem_withSign_iff unsigned]

theorem mem_of_mem_dropSign {c : Char} (h : c ∈ dropSign s) : c ∈ s := by
  cases s with
  | nil => exact h
  | cons d ds =>
    rw [dropSign] at h
    split_ifs at h
    · exact List.mem_cons_of_mem d h
    · exact h

/-- Every numeral has a digit. -/
theorem exists_digit_of_isNumeral (h : isNumeral s = true) : ∃ c ∈ s, Text.isDigit c = true := by
  have first {ds : List Char} (hds : ds ∈ someDigits) : ∃ c ∈ ds, Text.isDigit c = true := by
    obtain ⟨nonempty, digits⟩ := mem_someDigits.1 hds
    obtain ⟨c, mem⟩ := List.exists_mem_of_ne_nil ds nonempty
    exact ⟨c, mem, digits c mem⟩
  obtain ⟨coefficient, hc, exponent, -, same⟩ := Language.mem_mul.1 (isUnsignedNumeral_iff.1 h)
  obtain ⟨c, mem, digit⟩ : ∃ c ∈ coefficient, Text.isDigit c = true := by
    rcases mem_coefficients.1 hc with plain | ⟨ds, ds', rfl, both⟩
    · exact first plain
    · obtain ⟨c, mem, digit⟩ := first both
      exact ⟨c, by rcases List.mem_append.1 mem with mem | mem <;> simp [mem], digit⟩
  exact ⟨c, mem_of_mem_dropSign (same ▸ List.mem_append_left exponent mem), digit⟩

/-- A numeral begins with a sign, a point or a digit. -/
theorem exists_front_of_isNumeral (h : isNumeral s = true) :
    ∃ c cs, s = c :: cs ∧ (c ∈ ['+', '-', '.'] ∨ Text.isDigit c = true) := by
  cases s with
  | nil => cases h
  | cons c cs =>
    refine ⟨c, cs, rfl, ?_⟩
    -- With another character in front a text has neither digits nor a point to begin with.
    by_contra other
    simp only [List.mem_cons, List.not_mem_nil, or_false, not_or, Bool.not_eq_true] at other
    obtain ⟨⟨plus, minus, point⟩, digit⟩ := other
    simp [isNumeral, dropSign, plus, minus, isUnsignedNumeral, digit, point] at h

/-! ## Rules -/

/-- The rules by which a lexeme is classified. -/
inductive Rule where
  | paren
  | string
  | boolean
  | identifier
  | symbol
  | numeral
deriving DecidableEq, Repr

namespace Rule

/-- The texts that a rule applies to. -/
def texts : Rule → Language Char
  | paren => {['('], [')']}
  | string => {s | s.head? = some '"'}
  | boolean => {s | s.head? = some '#'}
  | identifier => identifiers
  | symbol => symbols
  | numeral => numerals

/-- Whether a rule applies to a text. -/
def applies (text : List Char) : Rule → Bool
  | paren => decide (text = ['('] ∨ text = [')'])
  | string => isStringText text
  | boolean => isBooleanText text
  | identifier => isIdentifierText text
  | symbol => isSymbolText text
  | numeral => isNumeral text

/-- The token, or the fault, of a text that a rule applies to. -/
def token (text : List Char) (line : Nat) : Rule → Except ScanFault Token
  | paren => .ok ⟨line, if text = ['('] then .leftParen else .rightParen⟩
  | string => .ok ⟨line, .string (String.ofList (text.drop 1).dropLast)⟩
  | boolean => Token.booleanOfLexeme text line
  | identifier => .ok ⟨line, .identifier (String.ofList text)⟩
  | symbol => .ok ⟨line, .symbol (String.ofList text)⟩
  | numeral => Token.numberOfLexeme text line

/-- Tries rules one after the other. -/
def classify (order : List Rule) (text : List Char) (line : Nat) : Except ScanFault Token :=
  match order.find? (applies text) with
  | some rule => rule.token text line
  | none => .error (.unreadable (String.ofList text) line)

/-- The order in which the scanner tries the rules. -/
def inOrder : List Rule := [paren, string, boolean, identifier, symbol, numeral]

theorem mem_inOrder (rule : Rule) : rule ∈ inOrder := by
  cases rule <;> decide

variable {rule rule' : Rule} {text : List Char}

theorem applies_iff : rule.applies text = true ↔ text ∈ rule.texts := by
  cases rule with
  | paren => exact decide_eq_true_iff
  | string => exact beq_iff_eq
  | boolean => exact beq_iff_eq
  | identifier => exact isIdentifierText_iff
  | symbol => exact isSymbolText_iff
  | numeral => exact isNumeral_iff

/-! ## First characters -/

/-- The rule that is told by the first character of a text.  Symbols and numerals are not told in
this way. -/
def leading (c : Char) : Option Rule :=
  if c = '(' ∨ c = ')' then some paren
  else if c = '"' then some string
  else if c = '#' then some boolean
  else if isIdentifierStart c then some identifier
  else none

/-- What the first character of a text can tell of the rule that applies to it. -/
def toldByFirst : Rule → Option Rule
  | symbol | numeral => none
  | rule => some rule

theorem isDigit_of_isIdentifierStart {c : Char} (h : isIdentifierStart c = true) :
    Text.isDigit c = false := by
  have range : 58 ≤ c.toNat ∧ c.toNat < 0x660 := by
    rcases Bool.or_eq_true_iff.1 h with letter | underscore
    · have ranges : (decide (65 ≤ c.val ∧ c.val ≤ 90) ||
          decide (97 ≤ c.val) && decide (c.val ≤ 122)) = true := letter
      simp only [Bool.or_eq_true, Bool.and_eq_true, decide_eq_true_eq, UInt32.le_iff_toNat_le,
        Char.toNat_val, UInt32.reduceToNat] at ranges
      omega
    · rw [beq_iff_eq.1 underscore]
      decide
  rw [Text.isDigit, Text.digit?, Text.digitZeros, Text.digitAmong, if_neg (by omega),
    if_neg (by omega), Text.digitAmong, if_pos range.2]
  rfl

/-- A class of characters without parentheses, quotes and hashes. -/
theorem leading_of_class {p : Char → Bool} (without : ['(', ')', '"', '#'].any p = false)
    {c : Char} (h : p c = true) :
    leading c = if isIdentifierStart c then some identifier else none := by
  have other : ∀ d ∈ ['(', ')', '"', '#'], c ≠ d := by
    rintro d mem rfl
    exact List.any_eq_false.1 without c mem h
  simp only [List.forall_mem_cons] at other
  simp [leading, other]

theorem leading_of_isDigit {c : Char} (h : Text.isDigit c = true) : leading c = none := by
  rw [leading_of_class (by decide) h, if_neg]
  intro start
  rw [isDigit_of_isIdentifierStart start] at h
  cases h

theorem exists_leading (h : rule.applies text = true) :
    ∃ c cs, text = c :: cs ∧ leading c = rule.toldByFirst := by
  cases rule with
  | paren =>
    rcases of_decide_eq_true h with left | right
    · exact ⟨'(', [], left, rfl⟩
    · exact ⟨')', [], right, rfl⟩
  | string => exact ⟨'"', text.tail, List.eq_cons_of_mem_head? (beq_iff_eq.1 h), rfl⟩
  | boolean => exact ⟨'#', text.tail, List.eq_cons_of_mem_head? (beq_iff_eq.1 h), rfl⟩
  | identifier =>
    obtain ⟨c, cs, rfl, start, -⟩ := mem_oneOf_mul.1 (isIdentifierText_iff.1 h)
    exact ⟨c, cs, rfl, by rw [leading_of_class (by decide) start, if_pos start]; rfl⟩
  | symbol =>
    have untold : symbolChars.all (leading · == none) = true := by decide
    obtain ⟨c, cs, rfl, symbol, -⟩ := mem_oneOf_mul.1 (isSymbolText_iff.1 h)
    exact ⟨c, cs, rfl, beq_iff_eq.1 (List.all_eq_true.1 untold c (by simpa using symbol))⟩
  | numeral =>
    have untold : ['+', '-', '.'].all (leading · == none) = true := by decide
    obtain ⟨c, cs, rfl, mark | digit⟩ := exists_front_of_isNumeral h
    · exact ⟨c, cs, rfl, beq_iff_eq.1 (List.all_eq_true.1 untold c mark)⟩
    · exact ⟨c, cs, rfl, leading_of_isDigit digit⟩

theorem eq_or_of_toldByFirst (h : rule.toldByFirst = rule'.toldByFirst) :
    rule = rule' ∨ (rule = symbol ∧ rule' = numeral) ∨ (rule = numeral ∧ rule' = symbol) := by
  revert h
  cases rule <;> cases rule' <;> simp [toldByFirst]

/-- No symbol has a digit, and every numeral has one. -/
theorem not_symbol_and_numeral (h : isSymbolText text = true) (h' : isNumeral text = true) :
    False := by
  have noDigit : symbolChars.any Text.isDigit = false := by decide
  obtain ⟨c, mem, digit⟩ := exists_digit_of_isNumeral h'
  rw [isSymbolText, Bool.and_eq_true, List.all_eq_true] at h
  exact List.any_eq_false.1 noDigit c (by simpa using h.2 c mem) digit

/-- At most one rule applies to a text. -/
theorem eq_of_applies (h : rule.applies text = true) (h' : rule'.applies text = true) :
    rule = rule' := by
  obtain ⟨c, cs, rfl, told⟩ := exists_leading h
  obtain ⟨_, _, ⟨⟩, told'⟩ := exists_leading h'
  -- One first character tells both rules, so only symbols and numerals are left to tell apart.
  rcases eq_or_of_toldByFirst (told.symm.trans told') with same | ⟨rfl, rfl⟩ | ⟨rfl, rfl⟩
  · exact same
  · exact (not_symbol_and_numeral h h').elim
  · exact (not_symbol_and_numeral h' h).elim

/-! ## Any order -/

theorem classify_of_applies {order : List Rule} (mem : rule ∈ order)
    (h : rule.applies text = true) (line : Nat) :
    classify order text line = rule.token text line := by
  have found : order.find? (applies text) = some rule := by
    cases hf : order.find? (applies text) with
    | none => exact absurd h (List.find?_eq_none.1 hf rule mem)
    | some rule' => rw [eq_of_applies h (List.find?_some hf)]
  rw [classify, found]

theorem classify_of_none {order : List Rule} (h : ∀ rule : Rule, rule.applies text = false)
    (line : Nat) : classify order text line = .error (.unreadable (String.ofList text) line) := by
  have none : order.find? (applies text) = none :=
    List.find?_eq_none.2 fun rule _ => by simp [h rule]
  rw [classify, none]

theorem classify_cons (rule : Rule) (order : List Rule) (text : List Char) (line : Nat) :
    classify (rule :: order) text line =
      if rule.applies text then rule.token text line else classify order text line := by
  unfold classify
  split_ifs with h
  · rw [List.find?_cons_of_pos h]
  · rw [List.find?_cons_of_neg h]

theorem ofLexeme_eq_classify (text : List Char) (line : Nat) :
    Token.ofLexeme text line = classify inOrder text line := by
  have last : classify [] text line = .error (.unreadable (String.ofList text) line) := rfl
  simp only [Token.ofLexeme, inOrder, classify_cons, last, applies, token, decide_eq_true_eq]
  by_cases left : text = ['(']
  · simp only [left, true_or, if_true]
  · simp only [left, false_or, if_false]

/-- The rules may be tried in any order. -/
theorem classify_eq_ofLexeme {order : List Rule} (all : ∀ rule, rule ∈ order) (text : List Char)
    (line : Nat) : classify order text line = Token.ofLexeme text line := by
  rw [ofLexeme_eq_classify]
  by_cases some : ∃ rule : Rule, rule.applies text = true
  · obtain ⟨rule, h⟩ := some
    rw [classify_of_applies (all rule) h, classify_of_applies (mem_inOrder rule) h]
  · have none : ∀ rule : Rule, rule.applies text = false := by simpa using some
    rw [classify_of_none none, classify_of_none none]

/-! ## Faults -/

/-- A rule that applies has a token for the text, unless this is a boolean other than the two that
there are. -/
theorem token_eq_error_iff (h : rule.applies text = true) {line : Nat} {fault : ScanFault} :
    rule.token text line = .error fault ↔
      rule = boolean ∧ text ≠ ['#', 't'] ∧ text ≠ ['#', 'f'] ∧
        fault = .badBoolean (String.ofList text) line := by
  cases rule with
  | boolean =>
    simp only [token, Token.booleanOfLexeme, true_and]
    split_ifs with isTrue isFalse
    · simp [isTrue]
    · simp [isFalse]
    · simp only [Except.error.injEq, ne_eq, isTrue, isFalse, not_false_eq_true, true_and]
      exact eq_comm
  | numeral =>
    obtain ⟨x, read⟩ := Binary64.read?_of_isNumeral h
    simp [token, Token.numberOfLexeme, read]
  | paren | string | identifier | symbol => simp [token]

theorem ofLexeme_eq_error_iff {line : Nat} {fault : ScanFault} :
    Token.ofLexeme text line = .error fault ↔
      (text ∈ boolean.texts ∧ text ≠ ['#', 't'] ∧ text ≠ ['#', 'f'] ∧
        fault = .badBoolean (String.ofList text) line) ∨
      ((∀ rule : Rule, text ∉ rule.texts) ∧ fault = .unreadable (String.ofList text) line) := by
  simp only [← applies_iff, Bool.not_eq_true]
  rw [ofLexeme_eq_classify]
  by_cases some : ∃ rule : Rule, rule.applies text = true
  · obtain ⟨rule, h⟩ := some
    have told : rule = boolean ↔ boolean.applies text = true :=
      ⟨fun same => same ▸ h, eq_of_applies h⟩
    have readable : ¬ ∀ rule : Rule, rule.applies text = false := fun none => by simp [none] at h
    rw [classify_of_applies (mem_inOrder rule) h, token_eq_error_iff h, told]
    simp only [readable, false_and, or_false]
  · have none : ∀ rule : Rule, rule.applies text = false := by simpa using some
    simp only [classify_of_none none, Except.error.injEq, none, Bool.false_eq_true, false_and,
      false_or, implies_true, true_and]
    exact eq_comm

end Rule

/-- A string stands for a number if it is blank or a numeral between blanks; a numeral always has
its number. -/
theorem asNumber?_string (text : String) :
    let numeral := Text.trim text.toList
    (numeral = [] → Value.asNumber? (.string text) = some 0) ∧
      (numeral ∈ numerals →
        ∃ x, Binary64.read? numeral = some x ∧ Value.asNumber? (.string text) = some x) ∧
      (numeral ≠ [] → numeral ∉ numerals → Value.asNumber? (.string text) = none) := by
  intro numeral
  have answer : Value.asNumber? (.string text) =
      if numeral.isEmpty then some 0
      else if isNumeral numeral then Binary64.read? numeral else none := rfl
  rw [answer]
  refine ⟨fun blank => by simp [blank], fun mem => ?_, fun some other => ?_⟩
  · have isNumeral := isNumeral_iff.2 mem
    obtain ⟨x, read⟩ := Binary64.read?_of_isNumeral isNumeral
    obtain ⟨c, cs, front, -⟩ := exists_front_of_isNumeral isNumeral
    refine ⟨x, read, ?_⟩
    rw [if_neg (by simp [front]), if_pos isNumeral, read]
  · rw [if_neg (by simpa using some), if_neg (mt isNumeral_iff.1 other)]

/-- At most one rule applies to a text, and the rules may be tried in any order.  Every numeral can
be read as a machine number; so the only faults of a lexeme are a bad boolean and a text that no
rule applies to, both with their line, and a string that is compared with a number is either blank,
or a numeral that can be read, or no number at all. -/
theorem lexemes_unambiguous :
    (∀ (text : List Char) (rule rule' : Rule), text ∈ rule.texts → text ∈ rule'.texts →
      rule = rule') ∧
    (∀ order : List Rule, (∀ rule, rule ∈ order) → ∀ text line,
      Rule.classify order text line = Token.ofLexeme text line) ∧
    (∀ text ∈ numerals, ∃ x, Binary64.read? text = some x) ∧
    (∀ text line fault, Token.ofLexeme text line = .error fault ↔
      (text ∈ Rule.boolean.texts ∧ text ≠ ['#', 't'] ∧ text ≠ ['#', 'f'] ∧
        fault = .badBoolean (String.ofList text) line) ∨
      ((∀ rule : Rule, text ∉ rule.texts) ∧ fault = .unreadable (String.ofList text) line)) ∧
    ∀ text : String,
      let numeral := Text.trim text.toList
      (numeral = [] → Value.asNumber? (.string text) = some 0) ∧
        (numeral ∈ numerals →
          ∃ x, Binary64.read? numeral = some x ∧ Value.asNumber? (.string text) = some x) ∧
        (numeral ≠ [] → numeral ∉ numerals → Value.asNumber? (.string text) = none) := by
  refine ⟨fun text rule rule' h h' => ?_, fun order all => Rule.classify_eq_ofLexeme all,
    fun text mem => Binary64.read?_of_isNumeral (isNumeral_iff.2 mem),
    fun text line fault => Rule.ofLexeme_eq_error_iff, asNumber?_string⟩
  exact Rule.eq_of_applies (Rule.applies_iff.2 h) (Rule.applies_iff.2 h')

/-- A numeral with digits of two scripts, a sign that is also a symbol, and the rules in reverse. -/
theorem lexemes_unambiguous_scripts :
    let text : List Char := ['+', '٣', '.', 'e', '-', '٤', '5']
    (∃ x, Binary64.read? text = some x) ∧ text ∉ symbols ∧
      Rule.classify Rule.inOrder.reverse text 0 = Token.ofLexeme text 0 := by
  intro text
  have numeral : text ∈ numerals := isNumeral_iff.1 (by decide)
  obtain ⟨unique, anyOrder, readable, -⟩ := lexemes_unambiguous
  refine ⟨readable text numeral, fun symbol => ?_, ?_⟩
  · cases unique text .numeral .symbol numeral symbol
  · exact anyOrder _ (fun rule => List.mem_reverse.2 rule.mem_inOrder) text 0

end Lisplet.Lexeme
