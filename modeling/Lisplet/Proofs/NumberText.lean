import Lisplet.Proofs.Binary64
import Lisplet.Proofs.Numeral
import Lisplet.Proofs.Rounding

/-!
# Numbers as text

Numbers are written as numerals of a plain kind, with ASCII digits only (`Numeral`).  Such a numeral
is recognised as one and read as the decimal number that it stands for
(`Numeral.isNumeral_text`, `Numeral.read?_text`).  Every layout writes a decimal number as a numeral
of the same magnitude (`Layout.exists_numeral`), so the text of a finite machine number is read back
as a number that is equal to it (`Number.exists_numeral`).
-/

namespace Lisplet

namespace Text

/-! ## ASCII digits -/

theorem toNat_of_isDigit {c : Char} (h : c.isDigit = true) : 48 ≤ c.toNat ∧ c.toNat ≤ 57 := by
  simpa [Char.isDigit, UInt32.le_iff_toNat_le, ← Char.toNat_val] using h

theorem digit?_of_isDigit {c : Char} (h : c.isDigit = true) :
    digit? c = some (c.toNat - '0'.toNat) := by
  obtain ⟨low, high⟩ := toNat_of_isDigit h
  rw [digit?, digitZeros, digitAmong, if_neg (by omega), if_pos (by omega)]
  rfl

theorem isDigit_of_isDigit {c : Char} (h : c.isDigit = true) : isDigit c = true := by
  rw [isDigit, digit?_of_isDigit h]
  rfl

theorem filterMap_digit? {s : List Char} (h : ∀ c ∈ s, c.isDigit = true) :
    s.filterMap digit? = s.map fun c => c.toNat - '0'.toNat := by
  induction s with
  | nil => rfl
  | cons c cs ih =>
    obtain ⟨first, rest⟩ := List.forall_mem_cons.1 h
    rw [List.filterMap_cons, digit?_of_isDigit first, List.map_cons, ih rest]

theorem Digits.value_filterMap {s : List Char} (h : ∀ c ∈ s, c.isDigit = true) :
    Digits.value (s.filterMap digit?) = Nat.ofDigitChars 10 s 0 := by
  rw [filterMap_digit? h, Digits.value, List.foldl_map]
  rfl

theorem takeWhile_append {ds rest : List Char} (h : ∀ c ∈ ds, c.isDigit = true)
    (hr : ∀ c ∈ rest.head?, isDigit c = false) :
    (ds ++ rest).takeWhile isDigit = ds ∧ (ds ++ rest).dropWhile isDigit = rest :=
  span_digits (fun c mem => isDigit_of_isDigit (h c mem)) hr

theorem digitGroup_append {ds rest : List Char} (h : ∀ c ∈ ds, c.isDigit = true)
    (hr : ∀ c ∈ rest.head?, isDigit c = false) (plain : rest.head? ≠ some '_') :
    digitGroup (ds ++ rest) = (ds.filterMap digit?, rest) := by
  obtain ⟨take, drop⟩ := takeWhile_append h hr
  rw [digitGroup_eq (by rwa [drop]), take, drop]

end Text

/-! ## Plain numerals -/

/-- A plain numeral: a sign, ASCII digits, perhaps a point and more digits, and perhaps an exponent,
which is a sign and digits. -/
structure Numeral where
  negative : Bool
  whole : List Char
  fraction : Option (List Char)
  exponent : Option (Bool × List Char)
  nonempty : whole ≠ []
  digits : ∀ c ∈ whole ++ fraction.getD [], c.isDigit = true
  exponentDigits : ∀ e ∈ exponent, e.2 ≠ [] ∧ ∀ c ∈ e.2, c.isDigit = true

namespace Numeral

variable (n : Numeral)

def fractionText : List Char :=
  match n.fraction with
  | none => []
  | some ds => '.' :: ds

def exponentText : List Char :=
  match n.exponent with
  | none => []
  | some (negative, ds) => 'e' :: (if negative then '-' else '+') :: ds

/-- The numeral without its sign. -/
def body : List Char := n.whole ++ (n.fractionText ++ n.exponentText)

/-- The numeral as it is written. -/
def text : List Char := if n.negative then '-' :: n.body else n.body

def power : Int :=
  match n.exponent with
  | none => 0
  | some (negative, ds) =>
    if negative then -(Nat.ofDigitChars 10 ds 0 : Int) else Nat.ofDigitChars 10 ds 0

/-- The decimal number that a numeral stands for. -/
def decimal : Decimal :=
  ⟨n.negative, Nat.ofDigitChars 10 (n.whole ++ n.fraction.getD []) 0,
    n.power - (n.fraction.getD []).length⟩

theorem whole_digits : ∀ c ∈ n.whole, c.isDigit = true :=
  fun c mem => n.digits c (List.mem_append_left _ mem)

theorem fraction_digits : ∀ c ∈ n.fraction.getD [], c.isDigit = true :=
  fun c mem => n.digits c (List.mem_append_right _ mem)

theorem exists_body : ∃ c cs, n.body = c :: cs ∧ c.isDigit = true := by
  obtain ⟨c, cs, whole⟩ := List.exists_cons_of_ne_nil n.nonempty
  refine ⟨c, cs ++ (n.fractionText ++ n.exponentText), by rw [body, whole]; rfl, ?_⟩
  exact n.whole_digits c (by simp [whole])

theorem dropSign_text : dropSign n.text = n.body := by
  obtain ⟨c, cs, body, digit⟩ := n.exists_body
  rw [text]
  split_ifs
  · rfl
  · have plain : ¬ (c = '+' ∨ c = '-') := by
      rintro (rfl | rfl) <;> revert digit <;> decide
    rw [body, dropSign, if_neg plain]

theorem isMinus_text : isMinus n.text = n.negative := by
  obtain ⟨c, cs, body, digit⟩ := n.exists_body
  cases h : n.negative with
  | true => simp [text, h, isMinus]
  | false =>
    have plain : c ≠ '-' := by
      rintro rfl
      revert digit
      decide
    simp [text, h, body, isMinus, plain]

/-! ## Reading -/

theorem exponentText_head : ∀ c ∈ n.exponentText.head?, c = 'e' := by
  rw [exponentText]
  split <;> simp

/-- What follows the digits before the point begins with the point or with an exponent. -/
theorem rest_head : ∀ c ∈ (n.fractionText ++ n.exponentText).head?, c = '.' ∨ c = 'e' := by
  rw [fractionText]
  split
  · exact fun c mem => .inr (n.exponentText_head c mem)
  · simp

theorem exponentText_ne_point (cs : List Char) : n.exponentText ≠ '.' :: cs := by
  intro same
  have first := n.exponentText_head '.' (by rw [same]; rfl)
  revert first
  decide

theorem isDigit_of_exponentText : ∀ c ∈ n.exponentText.head?, Text.isDigit c = false := by
  intro c mem
  rw [n.exponentText_head c mem]
  decide

theorem isDigit_of_rest : ∀ c ∈ (n.fractionText ++ n.exponentText).head?,
    Text.isDigit c = false := by
  intro c mem
  rcases n.rest_head c mem with rfl | rfl <;> decide

theorem readExponent?_exponentText : readExponent? n.exponentText = some n.power := by
  rw [exponentText, power]
  cases h : n.exponent with
  | none => rfl
  | some e =>
    obtain ⟨negative, ds⟩ := e
    obtain ⟨nonempty, digits⟩ := n.exponentDigits _ h
    have group : Text.digitGroup ds = (ds.filterMap Text.digit?, []) := by
      simpa using Text.digitGroup_append digits (by simp) (by simp : ([] : List Char).head? ≠ _)
    have value := Text.Digits.value_filterMap digits
    have values : ds.filterMap Text.digit? ≠ [] := by
      rw [Text.filterMap_digit? digits]
      simpa using nonempty
    obtain ⟨d, values, hv⟩ := List.exists_cons_of_ne_nil values
    rw [hv] at group value
    cases negative <;> simp [readExponent?, dropSign, isMinus, group, value]

theorem readFraction_rest :
    readFraction (n.fractionText ++ n.exponentText) =
      ((n.fraction.getD []).filterMap Text.digit?, n.exponentText) := by
  have head := n.exponentText_head
  rw [fractionText]
  cases h : n.fraction with
  | none =>
    simp only [List.nil_append, Option.getD_none, List.filterMap_nil]
    unfold readFraction
    split
    · next cs same => exact absurd same (n.exponentText_ne_point cs)
    · rfl
  | some ds =>
    have plain : n.exponentText.head? ≠ some '_' := by
      intro same
      have first := head '_' same
      revert first
      decide
    have digits := n.fraction_digits
    rw [h] at digits
    exact Text.digitGroup_append digits n.isDigit_of_exponentText plain

/-- A numeral is read as the decimal number that it stands for. -/
theorem read?_text : Decimal.read? n.text = some n.decimal := by
  have plain : (n.fractionText ++ n.exponentText).head? ≠ some '_' := by
    intro same
    have first := n.rest_head '_' same
    revert first
    decide
  have whole := Text.digitGroup_append n.whole_digits n.isDigit_of_rest plain
  have value := Text.Digits.value_filterMap n.digits
  have nonempty : (n.whole.filterMap Text.digit?).isEmpty = false := by
    rw [Text.filterMap_digit? n.whole_digits]
    simpa using n.nonempty
  have fraction : ((n.fraction.getD []).filterMap Text.digit?).length =
      (n.fraction.getD []).length := by
    rw [Text.filterMap_digit? n.fraction_digits, List.length_map]
  rw [List.filterMap_append] at value
  simp only [Decimal.read?, dropSign_text, body, whole, readFraction_rest, nonempty, Bool.false_and,
    Bool.false_eq_true, if_false, readExponent?_exponentText, Option.map_some, isMinus_text, value,
    fraction]
  rfl

theorem isExponentPart_exponentText : isExponentPart n.exponentText = true := by
  rw [exponentText]
  cases h : n.exponent with
  | none => rfl
  | some e =>
    obtain ⟨negative, ds⟩ := e
    obtain ⟨nonempty, digits⟩ := n.exponentDigits _ h
    have all : ds.all Text.isDigit = true :=
      List.all_eq_true.2 fun c mem => Text.isDigit_of_isDigit (digits c mem)
    cases negative <;> simpa [isExponentPart, dropSign, all] using nonempty

theorem isNumeral_text : isNumeral n.text = true := by
  obtain ⟨take, drop⟩ := Text.takeWhile_append n.whole_digits n.isDigit_of_rest
  have nonempty : n.whole.isEmpty = false := by simpa using n.nonempty
  have exponent := n.isExponentPart_exponentText
  rw [isNumeral, dropSign_text, body, isUnsignedNumeral, take, drop, nonempty, fractionText]
  cases h : n.fraction with
  | none =>
    simp only [List.nil_append, Bool.false_and, Bool.not_false, Bool.true_and]
    split
    · next r same => exact absurd same (n.exponentText_ne_point r)
    · exact exponent
  | some ds =>
    have digits := n.fraction_digits
    rw [h, Option.getD_some] at digits
    obtain ⟨-, rest⟩ := Text.takeWhile_append digits n.isDigit_of_exponentText
    simpa [rest] using exponent

end Numeral

/-! ## Layouts -/

theorem isDigit_of_mem_zeros {k : Nat} : ∀ c ∈ List.replicate k '0', c.isDigit = true := by
  intro c mem
  rw [List.eq_of_mem_replicate mem]
  rfl

theorem isDigit_of_mem_append {ds es : List Char} (h : ∀ c ∈ ds, c.isDigit = true)
    (h' : ∀ c ∈ es, c.isDigit = true) : ∀ c ∈ ds ++ es, c.isDigit = true :=
  fun c mem => (List.mem_append.1 mem).elim (h c) (h' c)

/-- A numeral without an exponent. -/
def Numeral.fixed (negative : Bool) (whole : List Char) (fraction : Option (List Char))
    (nonempty : whole ≠ []) (digits : ∀ c ∈ whole ++ fraction.getD [], c.isDigit = true) :
    Numeral := ⟨negative, whole, fraction, none, nonempty, digits, by simp⟩

namespace Layout

variable (layout : Layout) (negative : Bool) {ds : List Char} {e : Int}

/-- The text of a numeral without its sign, which stands for some digits; the first of these is in
place `e`. -/
def Spells (negative : Bool) (ds : List Char) (e : Int) (text : List Char) : Prop :=
  ∃ n : Numeral, n.negative = negative ∧ n.body = text ∧
    n.decimal.magnitude = Nat.ofDigitChars 10 ds 0 * 10 ^ (e + 1 - ds.length)

/-- Digits after the point. -/
theorem spells_positional_small (digits : ∀ c ∈ ds, c.isDigit = true) (small : e < 0) :
    Spells negative ds e (layout.positional ds e) := by
  let zeros := List.replicate (-e - 1).toNat '0'
  have value : Nat.ofDigitChars 10 ('0' :: (zeros ++ ds)) 0 = Nat.ofDigitChars 10 ds 0 := by
    simp [zeros, Nat.ofDigitChars_cons, Nat.ofDigitChars_append]
  have place : (0 : Int) - (zeros ++ ds).length = e + 1 - ds.length := by
    simp only [zeros, List.length_append, List.length_replicate]
    omega
  refine ⟨.fixed negative ['0'] (some (zeros ++ ds)) (by simp) ?_, rfl, ?_, ?_⟩
  · exact isDigit_of_mem_append (by simp) (isDigit_of_mem_append isDigit_of_mem_zeros digits)
  · simp [zeros, Numeral.fixed, Numeral.body, Numeral.fractionText, Numeral.exponentText,
      positional, small]
  · rw [← value, ← place]
    rfl

/-- Digits before the point, and zeros between them and the point. -/
theorem spells_positional_whole (nonempty : ds ≠ []) (digits : ∀ c ∈ ds, c.isDigit = true)
    (large : ¬ e < 0) (short : ds.length ≤ e.toNat + 1) :
    Spells negative ds e (layout.positional ds e) := by
  let zeros := List.replicate (e.toNat + 1 - ds.length) '0'
  have place : e + 1 - ds.length = (e.toNat + 1 - ds.length : ℕ) := by omega
  have value : (Nat.ofDigitChars 10 (ds ++ zeros) 0 : ℚ) =
      Nat.ofDigitChars 10 ds 0 * 10 ^ (e + 1 - ds.length) := by
    rw [place, zpow_natCast, Nat.ofDigitChars_append, Nat.ofDigitChars_replicate_zero]
    push_cast
    ring
  have tenth : Nat.ofDigitChars 10 (ds ++ zeros ++ ['0']) 0 =
      10 * Nat.ofDigitChars 10 (ds ++ zeros) 0 := by
    rw [Nat.ofDigitChars_append, Nat.ofDigitChars_cons]
    rfl
  refine ⟨.fixed negative (ds ++ zeros) (if layout.point then some ['0'] else none)
    (by simp [nonempty]) ?_, rfl, ?_, ?_⟩
  · refine isDigit_of_mem_append (isDigit_of_mem_append digits isDigit_of_mem_zeros) ?_
    split_ifs <;> simp
  · cases h : layout.point <;>
      simp [zeros, Numeral.fixed, Numeral.body, Numeral.fractionText, Numeral.exponentText,
        positional, large, short, h]
  · rw [← value]
    cases layout.point with
    | false => simp [Numeral.fixed, Numeral.decimal, Numeral.power, Decimal.magnitude]
    | true =>
      change (Nat.ofDigitChars 10 (ds ++ zeros ++ ['0']) 0 : ℚ) * 10 ^ (-1 : ℤ) = _
      rw [tenth]
      push_cast
      ring

/-- Digits on both sides of the point. -/
theorem spells_positional_point (nonempty : ds ≠ []) (digits : ∀ c ∈ ds, c.isDigit = true)
    (large : ¬ e < 0) (long : ¬ ds.length ≤ e.toNat + 1) :
    Spells negative ds e (layout.positional ds e) := by
  let whole := e.toNat + 1
  have place : (0 : Int) - (ds.drop whole).length = e + 1 - ds.length := by
    simp only [whole, List.length_drop]
    omega
  have both : ds.take whole ++ (some (ds.drop whole)).getD [] = ds := List.take_append_drop whole ds
  refine ⟨.fixed negative (ds.take whole) (some (ds.drop whole)) (by simp [nonempty, whole])
    (by rwa [both]), rfl, ?_, ?_⟩
  · simp [whole, Numeral.fixed, Numeral.body, Numeral.fractionText, Numeral.exponentText,
      positional, large, long]
  · rw [← place]
    change (Nat.ofDigitChars 10 (ds.take whole ++ ds.drop whole) 0 : ℚ) * 10 ^ (_ : ℤ) = _
    rw [List.take_append_drop]
    rfl

/-- One digit, the others after the point, and an exponent. -/
theorem spells_scientific (nonempty : ds ≠ []) (digits : ∀ c ∈ ds, c.isDigit = true) (e : Int) :
    Spells negative ds e (layout.scientific ds e) := by
  let fraction : Option (List Char) := if ds.length ≤ 1 then none else some (ds.drop 1)
  let zeros := List.replicate (layout.exponentWidth - (Nat.toDigits 10 e.natAbs).length) '0'
  have rest : fraction.getD [] = ds.drop 1 := by
    simp only [fraction]
    split_ifs with short
    · exact (List.drop_eq_nil_of_le short).symm
    · rfl
  have both : ds.take 1 ++ fraction.getD [] = ds := by rw [rest, List.take_append_drop]
  have exponent : Nat.ofDigitChars 10 (zeros ++ Nat.toDigits 10 e.natAbs) 0 = e.natAbs := by
    simp [zeros, Nat.ofDigitChars_append]
  let n : Numeral := ⟨negative, ds.take 1, fraction,
    some (decide (e < 0), zeros ++ Nat.toDigits 10 e.natAbs), by simp [nonempty], by rwa [both], by
      rintro _ ⟨⟩
      exact ⟨by simp, isDigit_of_mem_append isDigit_of_mem_zeros fun c mem =>
        Nat.isDigit_of_mem_toDigits (by decide) (by decide) mem⟩⟩
  have power : n.power = e := by
    simp only [n, Numeral.power, exponent, decide_eq_true_eq]
    split_ifs <;> omega
  refine ⟨n, rfl, ?_, ?_⟩
  · simp only [n, fraction, zeros, Numeral.body, Numeral.fractionText, Numeral.exponentText,
      scientific, Layout.exponent]
    split_ifs <;> simp_all
  · have place : e - (fraction.getD []).length = e + 1 - ds.length := by
      have positive := List.length_pos_iff.2 nonempty
      rw [rest, List.length_drop]
      omega
    rw [← place]
    change (Nat.ofDigitChars 10 (ds.take 1 ++ fraction.getD []) 0 : ℚ) *
      10 ^ (n.power - (fraction.getD []).length) = _
    rw [both, power]

/-- Every layout writes a decimal number as a numeral of the same magnitude. -/
theorem exists_numeral (d : Decimal) :
    ∃ n : Numeral, n.text = layout.write d ∧ n.negative = d.negative ∧
      n.decimal.magnitude = d.magnitude := by
  have digits : ∀ c ∈ Nat.toDigits 10 d.coefficient, c.isDigit = true := fun c mem =>
    Nat.isDigit_of_mem_toDigits (by decide) (by decide) mem
  have nonempty : Nat.toDigits 10 d.coefficient ≠ [] := Nat.toDigits_ne_nil
  have value := Nat.ofDigitChars_ten_toDigits (n := d.coefficient)
  generalize hd : Nat.toDigits 10 d.coefficient = ds at digits nonempty value
  let e := d.exponent + ds.length - 1
  have body : Spells d.negative ds e (if layout.least ≤ e ∧ e < layout.bound then
      layout.positional ds e else layout.scientific ds e) := by
    split_ifs
    · by_cases small : e < 0
      · exact layout.spells_positional_small d.negative digits small
      by_cases short : ds.length ≤ e.toNat + 1
      · exact layout.spells_positional_whole d.negative nonempty digits small short
      · exact layout.spells_positional_point d.negative nonempty digits small short
    · exact layout.spells_scientific d.negative nonempty digits e
  obtain ⟨n, sign, body, magnitude⟩ := body
  refine ⟨n, ?_, sign, ?_⟩
  · rw [Numeral.text, sign, body, write, hd]
  · have place : e + 1 - ds.length = d.exponent := by
      simp only [e]
      omega
    rw [magnitude, place, value]
    rfl

end Layout

/-! ## Machine numbers -/

theorem toLower_of_isDigit {c : Char} (h : c.isDigit = true) : c.toLower = c := by
  have bounds := Text.toNat_of_isDigit h
  have upper : ¬ (c.val ≥ 'A'.val ∧ c.val ≤ 'Z'.val) := by
    simp only [UInt32.le_iff_toNat_le, ge_iff_le, Char.toNat_val]
    rintro ⟨low, -⟩
    have high : 65 ≤ c.toNat := low
    omega
  rw [Char.toLower, dif_neg upper]

namespace Numeral

variable (n : Numeral)

/-- The numeral of a whole number. -/
def ofNat (negative : Bool) (k : Nat) : Numeral :=
  .fixed negative (Nat.toDigits 10 k) none Nat.toDigits_ne_nil fun _ mem =>
    Nat.isDigit_of_mem_toDigits (by decide) (by decide) (List.append_nil _ ▸ mem)

theorem text_ofNat (negative : Bool) (k : Nat) :
    (ofNat negative k).text =
      if negative then '-' :: Nat.toDigits 10 k else Nat.toDigits 10 k := by
  simp [ofNat, fixed, text, body, fractionText, exponentText]

theorem magnitude_ofNat (negative : Bool) (k : Nat) :
    (ofNat negative k).decimal.magnitude = k := by
  simp [ofNat, fixed, decimal, power, Decimal.magnitude]

/-- A numeral is no name of a number. -/
theorem lower_ne {c : Char} (h : c.isDigit = false) (cs : List Char) :
    String.ofList (n.body.map Char.toLower) ≠ String.ofList (c :: cs) := by
  obtain ⟨c', cs', body, digit⟩ := n.exists_body
  intro same
  rw [String.ofList_inj, body, List.map_cons, toLower_of_isDigit digit] at same
  rw [(List.cons.inj same).1, h] at digit
  cases digit

/-- A numeral is read as the machine number of its rank. -/
theorem read_text : Binary64.read? n.text = some (Binary64.ofRank n.negative n.decimal.rank) := by
  have trimmed : Text.trim n.text = n.text :=
    Text.trim_eq_self (isBlank_of_isNumeral n.isNumeral_text)
  have inf : String.ofList (n.body.map Char.toLower) ≠ "inf" := n.lower_ne rfl _
  have infinity : String.ofList (n.body.map Char.toLower) ≠ "infinity" := n.lower_ne rfl _
  have nan : String.ofList (n.body.map Char.toLower) ≠ "nan" := n.lower_ne rfl _
  unfold Binary64.read?
  dsimp only
  rw [trimmed, n.dropSign_text, if_neg (by simp [inf, infinity]), if_neg nan, n.read?_text]
  rfl

end Numeral

namespace Number

/-- A finite number is written as a numeral that stands for it; a zero has no sign. -/
theorem exists_numeral {x : Float} (h : x.isFinite = true) :
    ∃ n : Numeral, n.text = (displayText x).toList ∧ n.decimal.rank = Binary64.rank x ∧
      (n.negative = Binary64.isNegative x ∨ Binary64.rank x = 0) := by
  have finite := Binary64.rank_lt_of_isFinite h
  unfold displayText
  rw [if_neg (Nat.lt_asymm finite), if_neg finite.ne]
  split_ifs with whole zero
  · have same := magnitude_of_isWhole (Bool.and_eq_true_iff.1 whole).1
    rw [zero, ← Numeral.magnitude_ofNat false] at same
    have rank := Decimal.rank_of_magnitude finite same.symm
    exact ⟨.ofNat false 0, rfl, rank, .inr rank.symm⟩
  · have same := magnitude_of_isWhole (Bool.and_eq_true_iff.1 whole).1
    rw [← Numeral.magnitude_ofNat (Binary64.isNegative x)] at same
    refine ⟨.ofNat (Binary64.isNegative x) (wholePart x), ?_,
      Decimal.rank_of_magnitude finite same.symm, .inl rfl⟩
    rw [Numeral.text_ofNat, signed]
    split_ifs <;> simp
  · obtain ⟨n, text, sign, magnitude⟩ := displayLayout.exists_numeral (Binary64.shortest x)
    obtain ⟨rank, negative⟩ := Binary64.rank_shortest finite
    exact ⟨n, by rw [text, String.toList_ofList], by rw [Decimal.rank_congr magnitude, rank],
      .inl (by rw [sign, negative])⟩

end Number

end Lisplet
