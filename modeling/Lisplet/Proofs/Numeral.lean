import Lisplet.Number
import Mathlib.Data.List.TakeWhile

/-!
# Reading numerals

Every numeral can be read as a machine number (`Binary64.read?_of_isNumeral`).  The reader takes
more than numerals: it trims blanks, and a group of digits may have underscores.  A numeral has no
blanks, because no digit of any script is one, and no underscore can follow one of its groups of
digits, so the reader cuts it into the same parts as `isNumeral` does.
-/

namespace Lisplet

namespace Text

/-! ## Digits and blanks -/

theorem exists_range_of_inRanges {ranges : List (Nat × Nat)} {n : Nat}
    (h : inRanges ranges n = true) : ∃ range ∈ ranges, range.1 ≤ n ∧ n ≤ range.2 := by
  induction ranges with
  | nil => cases h
  | cons range rest ih =>
    simp only [inRanges, Bool.and_eq_true, Bool.or_eq_true, decide_eq_true_eq] at h
    obtain ⟨low, high | later⟩ := h
    · exact ⟨range, List.mem_cons_self, low, high⟩
    · obtain ⟨range', mem, inside⟩ := ih later
      exact ⟨range', List.mem_cons_of_mem _ mem, inside⟩

/-- No digit of any script is a blank. -/
theorem isBlank_of_isDigit {c : Char} (h : isDigit c = true) : isBlank c = false := by
  have apart : ∀ range ∈ blankRanges, ∀ n ∈ List.range' range.1 (range.2 + 1 - range.1),
      digitAmong digitZeros n = none := by decide
  by_contra blank
  obtain ⟨range, mem, low, high⟩ := exists_range_of_inRanges (Bool.of_not_eq_false blank)
  have none := apart range mem c.toNat (by rw [List.mem_range'_1]; omega)
  rw [isDigit, digit?, none] at h
  cases h

theorem trim_eq_self {s : List Char} (h : ∀ c ∈ s, isBlank c = false) : trim s = s := by
  have drop (t : List Char) (ht : ∀ c ∈ t, isBlank c = false) : t.dropWhile isBlank = t := by
    cases t with
    | nil => rfl
    | cons c cs => rw [List.dropWhile_cons_of_neg (by simp [ht c List.mem_cons_self])]
  rw [trim, drop s h, drop s.reverse fun c hc => h c (List.mem_reverse.1 hc), List.reverse_reverse]

/-! ## Groups of digits -/

/-- The digits at the front of a text are all taken. -/
theorem span_digits {ds rest : List Char} (h : ∀ c ∈ ds, isDigit c = true)
    (hr : ∀ c ∈ rest.head?, isDigit c = false) :
    (ds ++ rest).takeWhile isDigit = ds ∧ (ds ++ rest).dropWhile isDigit = rest := by
  rw [List.takeWhile_append_of_pos h, List.dropWhile_append_of_pos h]
  cases rest with
  | nil => simp
  | cons c cs => simp [hr c rfl]

/-- Where no underscore follows the digits, a group of digits is all the digits at the front. -/
theorem digitGroupTail_eq {s : List Char} (h : (s.dropWhile isDigit).head? ≠ some '_') :
    digitGroupTail s = ((s.takeWhile isDigit).filterMap digit?, s.dropWhile isDigit) := by
  induction s with
  | nil => rfl
  | cons c cs ih =>
    cases hd : digit? c with
    | some d =>
      have digit : isDigit c = true := by simp [isDigit, hd]
      rw [List.dropWhile_cons_of_pos digit] at h ⊢
      rw [List.takeWhile_cons_of_pos digit, digitGroupTail, hd, ih h, List.filterMap_cons, hd]
    | none =>
      have digit : ¬ isDigit c = true := by simp [isDigit, hd]
      rw [List.dropWhile_cons_of_neg digit] at h ⊢
      have plain : ¬ (c = '_' ∧ startsWithDigit cs = true) := fun both => h (by simp [both.1])
      rw [List.takeWhile_cons_of_neg digit, digitGroupTail, hd]
      simp only [if_neg plain, List.filterMap_nil]

theorem digitGroup_eq {s : List Char} (h : (s.dropWhile isDigit).head? ≠ some '_') :
    digitGroup s = ((s.takeWhile isDigit).filterMap digit?, s.dropWhile isDigit) := by
  cases s with
  | nil => rfl
  | cons c cs =>
    unfold digitGroup
    split_ifs with digit
    · exact digitGroupTail_eq h
    · have digit : ¬ isDigit c = true := digit
      rw [List.takeWhile_cons_of_neg digit, List.dropWhile_cons_of_neg digit, List.filterMap_nil]

/-- Digits have values. -/
theorem isEmpty_filterMap_digit? (s : List Char) :
    ((s.takeWhile isDigit).filterMap digit?).isEmpty = (s.takeWhile isDigit).isEmpty := by
  cases s with
  | nil => rfl
  | cons c cs =>
    by_cases digit : isDigit c = true
    · obtain ⟨d, hd⟩ := Option.isSome_iff_exists.1 digit
      simp [List.takeWhile_cons_of_pos digit, hd]
    · simp [List.takeWhile_cons_of_neg digit]

end Text

/-! ## Numerals -/

theorem head?_ne_underscore_of_isExponentPart {s : List Char} (h : isExponentPart s = true) :
    s.head? ≠ some '_' := by
  cases s with
  | nil => simp
  | cons c cs =>
    simp only [isExponentPart, Bool.and_eq_true, Bool.or_eq_true, beq_iff_eq] at h
    rintro ⟨⟩
    simp at h

theorem readExponent?_isSome {s : List Char} (h : isExponentPart s = true) :
    (readExponent? s).isSome = true := by
  cases s with
  | nil => rfl
  | cons c cs =>
    simp only [isExponentPart, Bool.and_eq_true, Bool.or_eq_true, beq_iff_eq] at h
    obtain ⟨⟨letter, nonempty⟩, digits⟩ := h
    have take : (dropSign cs).takeWhile Text.isDigit = dropSign cs :=
      List.takeWhile_eq_self_iff.2 (List.all_eq_true.1 digits)
    have drop : (dropSign cs).dropWhile Text.isDigit = [] :=
      List.dropWhile_eq_nil_iff.2 (List.all_eq_true.1 digits)
    have group := Text.digitGroup_eq (s := dropSign cs) (by simp [drop])
    have values := Text.isEmpty_filterMap_digit? (dropSign cs)
    rw [drop] at group
    rw [take] at group values
    rw [readExponent?, if_pos letter, group]
    cases hd : (dropSign cs).filterMap Text.digit? with
    | nil =>
      rw [hd] at values
      simp [← values] at nonempty
    | cons d ds => rfl

/-- What stands after the whole digits of a numeral: a point, or at once an exponent or nothing. -/
theorem isUnsignedNumeral_cases {s : List Char} (h : isUnsignedNumeral s = true) :
    (∃ r, s.dropWhile Text.isDigit = '.' :: r ∧
      ((s.takeWhile Text.isDigit).isEmpty && (r.takeWhile Text.isDigit).isEmpty) = false ∧
      isExponentPart (r.dropWhile Text.isDigit) = true) ∨
    ((s.takeWhile Text.isDigit).isEmpty = false ∧
      isExponentPart (s.dropWhile Text.isDigit) = true ∧
      ∀ r, s.dropWhile Text.isDigit ≠ '.' :: r) := by
  unfold isUnsignedNumeral at h
  dsimp only at h
  split at h
  next r hr =>
    rw [Bool.and_eq_true, Bool.not_eq_true'] at h
    exact Or.inl ⟨r, hr, h.1, h.2⟩
  next hr =>
    rw [Bool.and_eq_true, Bool.not_eq_true'] at h
    exact Or.inr ⟨h.1, h.2, hr⟩

theorem Decimal.read?_isSome {s : List Char} (h : isNumeral s = true) :
    (Decimal.read? s).isSome = true := by
  unfold Decimal.read?
  rcases isUnsignedNumeral_cases h with ⟨r, hr, digits, exponent⟩ | ⟨digits, exponent, point⟩
  · have whole := Text.digitGroup_eq (s := dropSign s) (by simp [hr])
    have fraction := Text.digitGroup_eq (head?_ne_underscore_of_isExponentPart exponent)
    rw [hr] at whole
    simp only [whole, readFraction, fraction, Text.isEmpty_filterMap_digit?, digits,
      Bool.false_eq_true, if_false, Option.isSome_map]
    exact readExponent?_isSome exponent
  · have whole := Text.digitGroup_eq (head?_ne_underscore_of_isExponentPart exponent)
    have fraction : readFraction ((dropSign s).dropWhile Text.isDigit) =
        ([], (dropSign s).dropWhile Text.isDigit) := by
      unfold readFraction
      split
      next r hr => exact absurd hr (point r)
      next => rfl
    simp only [whole, fraction, Text.isEmpty_filterMap_digit?, digits, Bool.false_and,
      Bool.false_eq_true, if_false, Option.isSome_map]
    exact readExponent?_isSome exponent

/-! ## Blanks in numerals -/

theorem isBlank_of_mem_dropSign {s : List Char} (h : ∀ c ∈ dropSign s, Text.isBlank c = false) :
    ∀ c ∈ s, Text.isBlank c = false := by
  cases s with
  | nil => simp
  | cons c cs =>
    simp only [dropSign] at h
    split_ifs at h with sign
    · have front : Text.isBlank c = false := by rcases sign with rfl | rfl <;> decide
      simpa [front] using h
    · exact h

/-- The digits at the front of a text are no blanks. -/
theorem isBlank_of_dropWhile {s : List Char}
    (h : ∀ c ∈ s.dropWhile Text.isDigit, Text.isBlank c = false) :
    ∀ c ∈ s, Text.isBlank c = false := by
  intro c hc
  rw [← List.takeWhile_append_dropWhile (p := Text.isDigit) (l := s), List.mem_append] at hc
  rcases hc with hc | hc
  · exact Text.isBlank_of_isDigit (List.mem_takeWhile_imp hc)
  · exact h c hc

theorem isBlank_of_isExponentPart {s : List Char} (h : isExponentPart s = true) :
    ∀ c ∈ s, Text.isBlank c = false := by
  cases s with
  | nil => simp
  | cons c cs =>
    simp only [isExponentPart, Bool.and_eq_true, Bool.or_eq_true, beq_iff_eq] at h
    obtain ⟨⟨letter, -⟩, digits⟩ := h
    have front : Text.isBlank c = false := by rcases letter with rfl | rfl <;> decide
    have rest : ∀ c ∈ cs, Text.isBlank c = false :=
      isBlank_of_mem_dropSign fun c hc =>
        Text.isBlank_of_isDigit (List.all_eq_true.1 digits c hc)
    simpa [front] using rest

theorem isBlank_of_isNumeral {s : List Char} (h : isNumeral s = true) :
    ∀ c ∈ s, Text.isBlank c = false := by
  refine isBlank_of_mem_dropSign (isBlank_of_dropWhile ?_)
  rcases isUnsignedNumeral_cases h with ⟨r, hr, -, exponent⟩ | ⟨-, exponent, -⟩
  · have point : Text.isBlank '.' = false := by decide
    have rest := isBlank_of_dropWhile (isBlank_of_isExponentPart exponent)
    rw [hr]
    simpa [point] using rest
  · exact isBlank_of_isExponentPart exponent

/-- Every numeral can be read. -/
theorem Binary64.read?_of_isNumeral {s : List Char} (h : isNumeral s = true) :
    ∃ x, Binary64.read? s = some x := by
  rw [← Option.isSome_iff_exists, Binary64.read?, Text.trim_eq_self (isBlank_of_isNumeral h)]
  split_ifs
  · rfl
  · rfl
  · rw [Option.isSome_map]
    exact Decimal.read?_isSome h

end Lisplet
