import Lisplet.Proofs.Magnitude
import Lisplet.Proofs.NumberText

/-!
# Displayed numbers

The text that shows a number to readers (`Number.displayText`) beside its exact text
(`Number.exactText`).  Both write the digits of the same shortest decimal, so what is shown is the
same number with the same digits (`Layout.exists_read?`, `Layout.significantDigits_write`), except
for whole numbers below `10 ^ 21`, which are shown with all their digits.  An exponent is shown
exactly below `1e-6` and from `1e21` on (`Number.displayText_faithful`).
-/

namespace Lisplet

/-! ## Digits and exponents of texts -/

namespace Text

/-- The mark between a number and its exponent. -/
def isExponentMark (c : Char) : Bool := c == 'e' || c == 'E'

/-- Whether a numeral has an exponent. -/
def hasExponent (text : List Char) : Bool := text.any isExponentMark

/-- The digits of a numeral from the first that is not zero, without those of its exponent. -/
def significantDigits (text : List Char) : List Char :=
  ((text.takeWhile fun c => !isExponentMark c).filter Char.isDigit).dropWhile (· == '0')

/-- A text ends in an exponent that is a sign and the digits `ds`. -/
def EndsInExponent (text ds : List Char) : Prop :=
  ∃ front sign, text = front ++ 'e' :: sign :: ds ∧ hasExponent front = false ∧
    (sign = '+' ∨ sign = '-') ∧ ds ≠ [] ∧ ∀ c ∈ ds, c.isDigit = true

/-- A text without an exponent in which stand the digits `ds`, perhaps with other characters between
them. -/
structure Plain (text ds : List Char) : Prop where
  unmarked : hasExponent text = false
  digits : text.filter Char.isDigit = ds

theorem Plain.append {text text' ds ds' : List Char} (h : Plain text ds) (h' : Plain text' ds') :
    Plain (text ++ text') (ds ++ ds') := by
  constructor
  · rw [hasExponent, List.any_append]
    exact Bool.or_eq_false_iff.2 ⟨h.unmarked, h'.unmarked⟩
  · rw [List.filter_append, h.digits, h'.digits]

theorem plain_of_digits {ds : List Char} (h : ∀ c ∈ ds, c.isDigit = true) : Plain ds ds := by
  refine ⟨List.any_eq_false.2 fun c mem => ?_, List.filter_eq_self.2 h⟩
  have digit := h c mem
  simp only [isExponentMark, Bool.or_eq_true, beq_iff_eq]
  rintro (rfl | rfl) <;> revert digit <;> decide

theorem plain_sign (negative : Bool) : Plain (if negative then ['-'] else []) [] := by
  cases negative <;> exact ⟨rfl, rfl⟩

theorem plain_point : Plain ['.'] [] := ⟨rfl, rfl⟩

theorem Plain.significantDigits {text ds : List Char} (h : Plain text ds) :
    significantDigits text = ds.dropWhile (· == '0') := by
  have unmarked := List.any_eq_false.1 h.unmarked
  have all : text.takeWhile (fun c => !isExponentMark c) = text :=
    List.takeWhile_eq_self_iff.2 fun c mem => by simpa using unmarked c mem
  rw [Text.significantDigits, all, h.digits]

theorem Plain.significantDigits_exponent {text ds : List Char} (h : Plain text ds)
    (rest : List Char) :
    Text.significantDigits (text ++ 'e' :: rest) = ds.dropWhile (· == '0') := by
  have unmarked := List.any_eq_false.1 h.unmarked
  have front : (text ++ 'e' :: rest).takeWhile (fun c => !isExponentMark c) = text := by
    rw [List.takeWhile_append_of_pos fun c mem => by simpa using unmarked c mem]
    simp [isExponentMark]
  rw [Text.significantDigits, front, h.digits]

end Text

/-! ## The digits of layouts -/

/-- The first digit of a number is not zero. -/
theorem Decimal.head?_toDigits {n : Nat} (h : n ≠ 0) : (Nat.toDigits 10 n).head? ≠ some '0' := by
  induction n using Nat.strongRecOn with
  | ind n ih =>
    rw [Nat.toDigits_eq_if (by decide)]
    split_ifs with small
    · have single : ∀ n < 10, n ≠ 0 → [n.digitChar].head? ≠ some '0' := by decide
      exact single n small h
    · rw [List.head?_append_of_ne_nil _ Nat.toDigits_ne_nil]
      exact ih (n / 10) (by omega) (by omega)

theorem Decimal.dropWhile_toDigits {n : Nat} (h : n ≠ 0) :
    (Nat.toDigits 10 n).dropWhile (· == '0') = Nat.toDigits 10 n := by
  have first := head?_toDigits h
  cases digits : Nat.toDigits 10 n with
  | nil => rfl
  | cons c cs =>
    rw [digits, List.head?_cons] at first
    exact List.dropWhile_cons_of_neg (by simpa using first)

namespace Layout

variable (layout : Layout) {ds : List Char} {e : Int}

/-- Whether a decimal number is written without an exponent. -/
def IsPositional (d : Decimal) : Prop := layout.least < d.size ∧ d.size ≤ layout.bound

/-- The text of a number before its exponent. -/
def mantissa (ds : List Char) : List Char :=
  ds.take 1 ++ if ds.length ≤ 1 then [] else '.' :: ds.drop 1

/-- The text of a decimal number, by the place of its first digit. -/
theorem write_eq (d : Decimal) [Decidable (layout.IsPositional d)] :
    layout.write d = (if d.negative then ['-'] else []) ++
      if layout.IsPositional d then layout.positional (Nat.toDigits 10 d.coefficient) (d.size - 1)
      else mantissa (Nat.toDigits 10 d.coefficient) ++ layout.exponent (d.size - 1) := by
  have place : d.exponent + (Nat.toDigits 10 d.coefficient).length - 1 = d.size - 1 := by
    rw [Decimal.size, Decimal.digitCount]
    omega
  have range : layout.IsPositional d ↔ layout.least ≤ d.size - 1 ∧ d.size - 1 < layout.bound := by
    rw [IsPositional]
    omega
  simp only [write, place, range]
  split_ifs <;> rfl

theorem plain_mantissa (digits : ∀ c ∈ ds, c.isDigit = true) : Text.Plain (mantissa ds) ds := by
  have front := Text.plain_of_digits fun c mem => digits c (List.mem_of_mem_take (i := 1) mem)
  have back := Text.plain_of_digits fun c mem => digits c (List.mem_of_mem_drop (i := 1) mem)
  rw [mantissa]
  split_ifs with short
  · rwa [List.append_nil, List.take_of_length_le short] at *
  · have both := front.append (Text.plain_point.append back)
    rwa [List.nil_append, List.take_append_drop] at both

theorem plain_zeros (n : Nat) : Text.Plain (List.replicate n '0') (List.replicate n '0') :=
  Text.plain_of_digits isDigit_of_mem_zeros

/-- A positional number has its digits, zeros before them if they are small, and zeros after them if
they do not reach the point. -/
theorem plain_positional (digits : ∀ c ∈ ds, c.isDigit = true) :
    ∃ before after, Text.Plain (layout.positional ds e)
      (List.replicate before '0' ++ ds ++ List.replicate after '0') ∧
        (e + 1 < ds.length → after = 0) := by
  have all := Text.plain_of_digits digits
  rw [positional]
  dsimp only
  split_ifs with small short point
  · refine ⟨(-e - 1).toNat + 1, 0, ?_, fun _ => rfl⟩
    have parts := (plain_zeros 1).append
      (Text.plain_point.append ((plain_zeros (-e - 1).toNat).append all))
    simpa [List.replicate_succ] using parts
  · refine ⟨0, e.toNat + 1 - ds.length + 1, ?_, by omega⟩
    have parts := (all.append (plain_zeros (e.toNat + 1 - ds.length))).append
      (Text.plain_point.append (plain_zeros 1))
    simpa [List.replicate_succ'] using parts
  · refine ⟨0, e.toNat + 1 - ds.length, ?_, by omega⟩
    simpa using all.append (plain_zeros (e.toNat + 1 - ds.length))
  · refine ⟨0, 0, ?_, fun _ => rfl⟩
    have front := Text.plain_of_digits fun c mem =>
      digits c (List.mem_of_mem_take (i := e.toNat + 1) mem)
    have back := Text.plain_of_digits fun c mem =>
      digits c (List.mem_of_mem_drop (i := e.toNat + 1) mem)
    simpa using front.append (Text.plain_point.append back)

theorem isDigit_of_mem_toDigits {n : Nat} : ∀ c ∈ Nat.toDigits 10 n, c.isDigit = true :=
  fun _ mem => Nat.isDigit_of_mem_toDigits (by decide) (by decide) mem

theorem plain_write {d : Decimal} (h : layout.IsPositional d) :
    ∃ before after, Text.Plain (layout.write d)
      (List.replicate before '0' ++ Nat.toDigits 10 d.coefficient ++ List.replicate after '0') ∧
        (d.exponent < 0 → after = 0) := by
  classical
  obtain ⟨before, after, plain, none⟩ :=
    layout.plain_positional (e := d.size - 1) (isDigit_of_mem_toDigits (n := d.coefficient))
  refine ⟨before, after, ?_, fun fraction => none ?_⟩
  · rw [write_eq, if_pos h]
    exact (Text.plain_sign d.negative).append plain
  · rw [Decimal.size, Decimal.digitCount]
    omega

theorem write_of_not_isPositional {d : Decimal} (h : ¬ layout.IsPositional d) :
    ∃ front, Text.Plain front (Nat.toDigits 10 d.coefficient) ∧
      layout.write d = front ++ layout.exponent (d.size - 1) := by
  classical
  have digits : Text.Plain (mantissa (Nat.toDigits 10 d.coefficient)) _ :=
    plain_mantissa isDigit_of_mem_toDigits
  refine ⟨_, (Text.plain_sign d.negative).append digits, ?_⟩
  rw [write_eq, if_neg h, List.append_assoc]

/-- A number has an exponent exactly if it is not positional. -/
theorem hasExponent_write (d : Decimal) :
    Text.hasExponent (layout.write d) = true ↔ ¬ layout.IsPositional d := by
  by_cases h : layout.IsPositional d
  · obtain ⟨before, after, plain, -⟩ := layout.plain_write h
    simp [plain.unmarked, h]
  · obtain ⟨front, -, written⟩ := layout.write_of_not_isPositional h
    simp [written, h, exponent, Text.hasExponent, Text.isExponentMark]

/-- The significant digits are those of the coefficient, if a number that is written positionally
has digits after the point. -/
theorem significantDigits_write {d : Decimal} (nonzero : d.coefficient ≠ 0)
    (fraction : layout.IsPositional d → d.exponent < 0) :
    Text.significantDigits (layout.write d) = Nat.toDigits 10 d.coefficient := by
  have own := Decimal.dropWhile_toDigits nonzero
  by_cases h : layout.IsPositional d
  · obtain ⟨before, after, plain, none⟩ := layout.plain_write h
    rw [plain.significantDigits, none (fraction h)]
    simp [own]
  · obtain ⟨front, plain, written⟩ := layout.write_of_not_isPositional h
    rw [written]
    exact (plain.significantDigits_exponent _).trans own

/-- An exponent has a sign and no fewer digits than its width; if one digit is enough, it does not
begin with a zero. -/
theorem endsInExponent_write {d : Decimal} (h : ¬ layout.IsPositional d) :
    ∃ ds, Text.EndsInExponent (layout.write d) ds ∧ layout.exponentWidth ≤ ds.length ∧
      (layout.exponentWidth ≤ 1 → d.size ≠ 1 → ds.head? ≠ some '0') := by
  obtain ⟨front, plain, written⟩ := layout.write_of_not_isPositional h
  have positive : 0 < (Nat.toDigits 10 (d.size - 1).natAbs).length := Nat.length_toDigits_pos
  let zeros := layout.exponentWidth - (Nat.toDigits 10 (d.size - 1).natAbs).length
  refine ⟨List.replicate zeros '0' ++ Nat.toDigits 10 (d.size - 1).natAbs,
    ⟨front, if d.size - 1 < 0 then '-' else '+', written, plain.unmarked, ?_, ?_, ?_⟩, ?_, ?_⟩
  · split_ifs <;> simp
  · simp
  · exact isDigit_of_mem_append isDigit_of_mem_zeros isDigit_of_mem_toDigits
  · rw [List.length_append, List.length_replicate]
    omega
  · intro narrow large
    have none : zeros = 0 := by omega
    rw [none]
    exact Decimal.head?_toDigits (by omega)

end Layout

/-! ## The number that a text stands for -/

/-- The number that a finite machine number is. -/
def Binary64.value (x : Float) : ℚ :=
  if isNegative x then -magnitude (rank x) else magnitude (rank x)

/-- The number that a decimal number is. -/
def Decimal.value (d : Decimal) : ℚ := if d.negative then -d.magnitude else d.magnitude

theorem abs_signed (negative : Bool) {q : ℚ} (h : 0 ≤ q) :
    |if negative then -q else q| = q := by
  split_ifs
  · rw [abs_neg, abs_of_nonneg h]
  · exact abs_of_nonneg h

theorem Binary64.abs_value (x : Float) : |value x| = magnitude (rank x) :=
  abs_signed _ (magnitude_nonneg _)

theorem Decimal.abs_value (d : Decimal) : |d.value| = d.magnitude :=
  abs_signed _ d.magnitude_nonneg

/-- A decimal number is written with an exponent exactly below the least power of ten of a layout
and from its bound on. -/
theorem Layout.hasExponent_write_iff (layout : Layout) {d : Decimal}
    (zero : d.coefficient = 0 → layout.IsPositional d) :
    Text.hasExponent (layout.write d) = true ↔
      d.value ≠ 0 ∧ (|d.value| < 10 ^ layout.least ∨ 10 ^ layout.bound ≤ |d.value|) := by
  rw [hasExponent_write, ← abs_ne_zero, d.abs_value, Ne, ← d.coefficient_eq_zero_iff]
  by_cases none : d.coefficient = 0
  · exact ⟨fun far => absurd (zero none) far, fun h => absurd none h.1⟩
  · rw [and_iff_right none, ← not_le, ← Decimal.lt_size_iff none, ← Decimal.lt_size_iff none,
      IsPositional]
    omega

/-- The text of a decimal number is a numeral that is read as the same number. -/
theorem Layout.exists_read? (layout : Layout) (d : Decimal) :
    isNumeral (layout.write d) = true ∧ ∃ d', Decimal.read? (layout.write d) = some d' ∧
      d'.value = d.value ∧ d'.negative = d.negative ∧ d'.rank = d.rank := by
  obtain ⟨n, written, sign, magnitude⟩ := layout.exists_numeral d
  have negative : n.decimal.negative = d.negative := sign
  rw [← written]
  refine ⟨n.isNumeral_text, n.decimal, n.read?_text, ?_, negative, Decimal.rank_congr magnitude⟩
  rw [Decimal.value, Decimal.value, negative, magnitude]

namespace Number

variable {x : Float}

/-! ## The two texts of a number -/

/-- Whether a number is shown with all its digits, as a whole number. -/
def IsShownWhole (x : Float) : Prop := isWhole x = true ∧ wholePart x < Nat.pow 10 21

theorem magnitude_of_value {k : ℤ} (h : Binary64.value x = k) :
    Binary64.magnitude (Binary64.rank x) = k.natAbs := by
  rw [← Binary64.abs_value, h, Nat.cast_natAbs, Int.cast_abs]

theorem value_of_isWhole (h : isWhole x = true) :
    Binary64.value x = ((if Binary64.isNegative x then -wholePart x else wholePart x : ℤ) : ℚ) := by
  rw [Binary64.value, magnitude_of_isWhole h]
  split_ifs <;> push_cast <;> rfl

theorem isShownWhole_iff : IsShownWhole x ↔ ∃ k : ℤ, Binary64.value x = k ∧ |k| < 10 ^ 21 := by
  constructor
  · rintro ⟨whole, small⟩
    refine ⟨_, value_of_isWhole whole, ?_⟩
    rw [Nat.pow_eq] at small
    split_ifs
    · rw [abs_neg, Nat.abs_cast]
      exact_mod_cast small
    · rw [Nat.abs_cast]
      exact_mod_cast small
  · rintro ⟨k, same, small⟩
    obtain ⟨whole, part⟩ := isWhole_of_magnitude (magnitude_of_value same)
    refine ⟨whole, ?_⟩
    rw [part, Nat.pow_eq]
    rw [Int.abs_eq_natAbs] at small
    exact_mod_cast small

theorem displayText_of_isShownWhole (finite : Binary64.rank x < Binary64.infinityRank)
    (h : IsShownWhole x) : (displayText x).toList =
      (Numeral.ofNat (Binary64.isNegative x && wholePart x != 0) (wholePart x)).text := by
  unfold displayText
  rw [if_neg (Nat.lt_asymm finite), if_neg finite.ne, if_pos (by simpa [IsShownWhole] using h),
    Numeral.text_ofNat]
  by_cases zero : wholePart x = 0
  · rw [if_pos zero, zero, bne_self_eq_false, Bool.and_false]
    rfl
  · have sign : (Binary64.isNegative x && wholePart x != 0) = Binary64.isNegative x := by
      simp [zero]
    rw [if_neg zero, sign, signed]
    split_ifs <;> simp

theorem displayText_of_not_isShownWhole (finite : Binary64.rank x < Binary64.infinityRank)
    (h : ¬ IsShownWhole x) :
    (displayText x).toList = displayLayout.write (Binary64.shortest x) := by
  unfold displayText
  rw [if_neg (Nat.lt_asymm finite), if_neg finite.ne, if_neg (by simpa [IsShownWhole] using h),
    String.toList_ofList]

theorem exactText_of_finite (finite : Binary64.rank x < Binary64.infinityRank) :
    (exactText x).toList = exactLayout.write (Binary64.shortest x) := by
  unfold exactText
  rw [if_neg (Nat.lt_asymm finite), if_neg finite.ne, String.toList_ofList]

/-! ## Where exponents begin -/

theorem value_of_rank {r : Nat} (sign : Binary64.isNegative x = false)
    (rank : Binary64.rank x = r) : Binary64.value x = Binary64.magnitude r := by
  rw [Binary64.value, sign, rank]
  rfl

theorem value_small : Binary64.value 1e-6 = Binary64.magnitude (Decimal.rank ⟨false, 1, -6⟩) :=
  value_of_rank (by decide +kernel) (by decide +kernel)

theorem value_large : Binary64.value 1e21 = Binary64.magnitude (Decimal.rank ⟨false, 1, 21⟩) :=
  value_of_rank (by decide +kernel) (by decide +kernel)

theorem isOwnShortest_small : Binary64.IsOwnShortest (-6) := by decide +kernel

theorem isOwnShortest_large : Binary64.IsOwnShortest 21 := by decide +kernel

theorem magnitude_large : Binary64.magnitude (Decimal.rank ⟨false, 1, 21⟩) = (Nat.pow 10 21 : ℕ) :=
  Binary64.magnitude_eq_natCast_iff.2 (by decide +kernel)

theorem magnitude_small_le : Binary64.magnitude (Decimal.rank ⟨false, 1, -6⟩) ≤ 1 := by
  have one : Binary64.magnitude (Decimal.rank ⟨false, 1, 0⟩) = (1 : ℕ) :=
    Binary64.magnitude_eq_natCast_iff.2 (by decide +kernel)
  calc Binary64.magnitude (Decimal.rank ⟨false, 1, -6⟩)
      ≤ Binary64.magnitude (Decimal.rank ⟨false, 1, 0⟩) :=
        Binary64.magnitude_le_iff.2 (by decide +kernel)
    _ = (1 : ℕ) := one
    _ = 1 := Nat.cast_one

theorem rank_ne_zero (h : ¬ IsShownWhole x) : Binary64.rank x ≠ 0 := by
  intro zero
  have none : Binary64.magnitude (Binary64.rank x) = (0 : ℕ) :=
    Binary64.magnitude_eq_natCast_iff.2 (by rw [zero, Nat.zero_mul]; rfl)
  obtain ⟨whole, part⟩ := isWhole_of_magnitude none
  exact h ⟨whole, by rw [part]; exact Nat.pow_pos (by decide)⟩

/-- Where the first of the digits stands below `10 ^ 21`, a number that is not shown as a whole
number has digits after the point. -/
theorem exponent_shortest_neg (finite : Binary64.rank x < Binary64.infinityRank)
    (h : ¬ IsShownWhole x) (short : (Binary64.shortest x).size ≤ 21) :
    (Binary64.shortest x).exponent < 0 := by
  by_contra nonneg
  have whole := isWhole_of_shortest finite (Int.not_lt.1 nonneg)
  have large : Nat.pow 10 21 ≤ wholePart x := Nat.le_of_not_lt fun small => h ⟨whole, small⟩
  have rank : Decimal.rank ⟨false, 1, 21⟩ ≤ Binary64.rank x := by
    rw [← Binary64.magnitude_le_iff, magnitude_large, magnitude_of_isWhole whole]
    exact Nat.cast_le.2 large
  have long := (Binary64.lt_size_shortest_iff finite (rank_ne_zero h) isOwnShortest_large).2 rank
  omega

/-! ## What a displayed number says -/

/-- An exact text of a number stands for a decimal number that is rounded to it.  It has an exponent
if that is below `10 ^ -4` or from `10 ^ 16` on, with two digits or more. -/
structure Exact (x : Float) (text : List Char) : Prop where
  rounded : ∃ d, Decimal.read? text = some d ∧ d.toFloat = x ∧
    (Text.hasExponent text = true ↔
      d.value ≠ 0 ∧ (|d.value| < 10 ^ (-4 : ℤ) ∨ 10 ^ (16 : ℤ) ≤ |d.value|))
  exponent : Text.hasExponent text = true → ∃ ds, Text.EndsInExponent text ds ∧ 2 ≤ ds.length

/-- What the text of a number says, beside an exact text of the same number. -/
structure Faithful (x : Float) (text exact : List Char) : Prop where
  /-- The text can be read. -/
  isNumeral : isNumeral text = true
  /-- A whole number below `10 ^ 21` is shown as it is, and zero without a sign. -/
  whole : ∀ k : ℤ, Binary64.value x = k → |k| < 10 ^ 21 →
    ∃ d, Decimal.read? text = some d ∧ d.value = k ∧ (d.negative = true ↔ k < 0)
  /-- Any other number is shown as the number of its exact text, with the same digits. -/
  other : (∀ k : ℤ, Binary64.value x = k → 10 ^ 21 ≤ |k|) →
    (∃ d d', Decimal.read? text = some d ∧ Decimal.read? exact = some d' ∧ d.value = d'.value) ∧
      Text.significantDigits text = Text.significantDigits exact
  /-- Only numbers that are very small or very large are shown with an exponent. -/
  hasExponent_iff : Text.hasExponent text = true ↔ Binary64.value x ≠ 0 ∧
    (|Binary64.value x| < Binary64.value 1e-6 ∨ Binary64.value 1e21 ≤ |Binary64.value x|)
  /-- An exponent has a sign and does not begin with a zero. -/
  exponent : Text.hasExponent text = true →
    ∃ ds, Text.EndsInExponent text ds ∧ ds.head? ≠ some '0'

theorem isPositional_of_zero (finite : Binary64.rank x < Binary64.infinityRank)
    (h : (Binary64.shortest x).coefficient = 0) :
    exactLayout.IsPositional (Binary64.shortest x) := by
  have zero : Binary64.rank x = 0 := by
    by_contra nonzero
    exact Binary64.coefficient_shortest finite nonzero h
  have digit : Decimal.digitCount 0 = 1 := rfl
  rw [Binary64.shortest, if_pos zero, Layout.IsPositional]
  simp only [Decimal.size, digit]
  decide

theorem exactText_exact (finite : Binary64.rank x < Binary64.infinityRank) :
    Exact x (exactText x).toList := by
  obtain ⟨-, d, read, value, sign, rank⟩ := exactLayout.exists_read? (Binary64.shortest x)
  obtain ⟨own, negative⟩ := Binary64.rank_shortest finite
  rw [exactText_of_finite finite]
  refine ⟨⟨d, read, ?_, ?_⟩, fun marked => ?_⟩
  · rw [Decimal.toFloat, sign, rank, own, negative, Binary64.ofRank_rank]
  · rw [value]
    exact exactLayout.hasExponent_write_iff (isPositional_of_zero finite)
  · obtain ⟨ds, ends, wide, -⟩ :=
      exactLayout.endsInExponent_write ((exactLayout.hasExponent_write _).1 marked)
    exact ⟨ds, ends, wide⟩

theorem read?_displayText_of_isShownWhole (finite : Binary64.rank x < Binary64.infinityRank)
    (h : IsShownWhole x) {k : ℤ} (same : Binary64.value x = k) :
    ∃ d, Decimal.read? (displayText x).toList = some d ∧ d.value = k ∧
      (d.negative = true ↔ k < 0) := by
  have number : k = if Binary64.isNegative x then -(wholePart x : ℤ) else wholePart x :=
    Int.cast_injective (same.symm.trans (value_of_isWhole h.1))
  rw [displayText_of_isShownWhole finite h]
  refine ⟨_, Numeral.read?_text _, ?_, ?_⟩
  · rw [Decimal.value, Numeral.magnitude_ofNat, number]
    change (if (Binary64.isNegative x && wholePart x != 0) = true then _ else _) = _
    by_cases zero : wholePart x = 0 <;> cases Binary64.isNegative x <;> simp [zero]
  · change (Binary64.isNegative x && wholePart x != 0) = true ↔ k < 0
    rw [number]
    cases Binary64.isNegative x <;> simp [Nat.pos_iff_ne_zero]

theorem not_hasExponent_displayText (finite : Binary64.rank x < Binary64.infinityRank)
    (h : IsShownWhole x) : Text.hasExponent (displayText x).toList = false := by
  have digits := Text.plain_of_digits (Layout.isDigit_of_mem_toDigits (n := wholePart x))
  have plain := (Text.plain_sign (Binary64.isNegative x && wholePart x != 0)).append digits
  rw [displayText_of_isShownWhole finite h, Numeral.text_ofNat]
  have unmarked := plain.unmarked
  split_ifs at unmarked ⊢ <;> exact unmarked

theorem between_of_isShownWhole (h : IsShownWhole x) (nonzero : Binary64.value x ≠ 0) :
    Binary64.value 1e-6 ≤ |Binary64.value x| ∧ |Binary64.value x| < Binary64.value 1e21 := by
  obtain ⟨whole, small⟩ := h
  rw [← abs_ne_zero, Binary64.abs_value, magnitude_of_isWhole whole] at nonzero
  rw [Binary64.abs_value, magnitude_of_isWhole whole, value_small, value_large, magnitude_large]
  have positive : 1 ≤ wholePart x := Nat.one_le_iff_ne_zero.2 (Nat.cast_ne_zero.1 nonzero)
  exact ⟨magnitude_small_le.trans (Nat.one_le_cast.2 positive), Nat.cast_lt.2 small⟩

theorem faithful_of_isShownWhole (finite : Binary64.rank x < Binary64.infinityRank)
    (h : IsShownWhole x) : Faithful x (displayText x).toList (exactText x).toList := by
  have unmarked := not_hasExponent_displayText finite h
  refine ⟨?_, ?_, ?_, ?_, ?_⟩
  · rw [displayText_of_isShownWhole finite h]
    exact Numeral.isNumeral_text _
  · intro k same _
    exact read?_displayText_of_isShownWhole finite h same
  · intro large
    obtain ⟨k, same, small⟩ := isShownWhole_iff.1 h
    exact absurd small (not_lt.2 (large k same))
  · rw [unmarked]
    refine ⟨fun marked => absurd marked (by decide), ?_⟩
    rintro ⟨nonzero, outside⟩
    obtain ⟨least, most⟩ := between_of_isShownWhole h nonzero
    rcases outside with less | more
    · exact absurd less (not_lt.2 least)
    · exact absurd more (not_le.2 most)
  · intro marked
    rw [unmarked] at marked
    cases marked

theorem faithful_of_not_isShownWhole (finite : Binary64.rank x < Binary64.infinityRank)
    (h : ¬ IsShownWhole x) : Faithful x (displayText x).toList (exactText x).toList := by
  have nonzero := rank_ne_zero h
  have coefficient := Binary64.coefficient_shortest finite nonzero
  obtain ⟨numeral, d, read, value, -, -⟩ := displayLayout.exists_read? (Binary64.shortest x)
  obtain ⟨-, d', read', value', -, -⟩ := exactLayout.exists_read? (Binary64.shortest x)
  have small := Binary64.lt_size_shortest_iff finite nonzero isOwnShortest_small
  have large := Binary64.lt_size_shortest_iff finite nonzero isOwnShortest_large
  rw [displayText_of_not_isShownWhole finite h]
  refine ⟨numeral, ?_, ?_, ?_, ?_⟩
  · intro k same less
    exact absurd (isShownWhole_iff.2 ⟨k, same, less⟩) h
  · intro _
    rw [exactText_of_finite finite]
    refine ⟨⟨d, d', read, read', value.trans value'.symm⟩, ?_⟩
    rw [displayLayout.significantDigits_write coefficient,
      exactLayout.significantDigits_write coefficient]
    · rintro ⟨-, short⟩
      exact exponent_shortest_neg finite h (short.trans (by decide))
    · rintro ⟨-, short⟩
      exact exponent_shortest_neg finite h short
  · have nonzero : Binary64.value x ≠ 0 := by
      rw [← abs_ne_zero, Binary64.abs_value]
      exact Binary64.magnitude_ne_zero nonzero
    rw [displayLayout.hasExponent_write, Binary64.abs_value, value_small, value_large, ← not_le,
      Binary64.magnitude_le_iff, Binary64.magnitude_le_iff, ← small, ← large, and_iff_right nonzero]
    change ¬ (-6 < _ ∧ _ ≤ 21) ↔ _
    omega
  · intro marked
    have far := (displayLayout.hasExponent_write _).1 marked
    obtain ⟨ds, ends, -, first⟩ := displayLayout.endsInExponent_write far
    refine ⟨ds, ends, first le_rfl ?_⟩
    intro one
    exact far (by rw [Layout.IsPositional, one]; decide)

/-- Displayed numbers keep their value and can be read back: the displayed text is a numeral.  It
stands for the number itself if that is a whole number below `10 ^ 21`, and otherwise for the same
number as the exact text, with the same digits.  It has an exponent, with a sign and without leading
zeros, exactly if the number is not zero and below `1e-6` or not below `1e21`. -/
theorem displayText_faithful (finite : x.isFinite = true) :
    Exact x (exactText x).toList ∧ Faithful x (displayText x).toList (exactText x).toList := by
  have bound := Binary64.rank_lt_of_isFinite finite
  refine ⟨exactText_exact bound, ?_⟩
  by_cases h : IsShownWhole x
  · exact faithful_of_isShownWhole bound h
  · exact faithful_of_not_isShownWhole bound h

/-- Both texts of a small number have an exponent. -/
theorem displayText_faithful_small : (1.5e-7 : Float).isFinite = true ∧
    displayText 1.5e-7 = "1.5e-7" ∧ exactText 1.5e-7 = "1.5e-07" ∧
      Exact 1.5e-7 (exactText 1.5e-7).toList ∧
      Faithful 1.5e-7 (displayText 1.5e-7).toList (exactText 1.5e-7).toList := by
  have finite : (1.5e-7 : Float).isFinite = true := by decide +kernel
  exact ⟨finite, by decide +kernel, by decide +kernel, displayText_faithful finite⟩

end Number

end Lisplet
