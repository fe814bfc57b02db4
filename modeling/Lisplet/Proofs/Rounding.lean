import Lisplet.Number
import Mathlib.Algebra.Order.Field.Power
import Mathlib.Data.List.TakeWhile
import Mathlib.Data.Nat.Log
import Mathlib.Data.Rat.Cast.Order
import Mathlib.Tactic.FieldSimp
import Mathlib.Tactic.NormNum
import Mathlib.Tactic.Positivity
import Mathlib.Tactic.Ring
import Mathlib.Tactic.SplitIfs

/-!
# Rounding decimal numbers

Decimal numbers and ranks both stand for magnitudes (`Decimal.magnitude`, `Binary64.magnitude`).
Rounding is monotone (`Decimal.rank_mono`), so the rank of a decimal number depends on its magnitude
only, and a decimal number that has the magnitude of a finite rank is rounded to it
(`Decimal.rank_of_magnitude`).
-/

namespace Lisplet

namespace Binary64

/-! ## Ranks and units -/

theorem mantissa_lt (r : Nat) : mantissa r < 2 ^ 53 := by
  simp only [mantissa, Nat.pow_eq]
  split_ifs <;> omega

theorem place_eq_zero_or (r : Nat) : place r = 0 ∨ 2 ^ 52 ≤ mantissa r := by
  simp only [place, mantissa, Nat.pow_eq]
  split_ifs <;> omega

/-- The leading bits of a magnitude are those that `mantissa` gives. -/
theorem excessBits_units (r : Nat) : excessBits (units r) = place r := by
  have below := mantissa_lt r
  simp only [excessBits, units, Nat.pow_eq]
  rcases place_eq_zero_or r with first | normal
  · have log : (mantissa r).log2 < 53 := by
      by_cases zero : mantissa r = 0
      · simp [zero]
      · exact (Nat.log2_lt zero).2 below
    rw [first, Nat.pow_zero, Nat.mul_one]
    omega
  · have positive : mantissa r * 2 ^ place r ≠ 0 :=
      Nat.mul_ne_zero (by omega) (Nat.pow_pos (by decide)).ne'
    have log : (mantissa r * 2 ^ place r).log2 = 52 + place r := by
      rw [Nat.log2_eq_iff positive, Nat.pow_add, Nat.add_right_comm, Nat.pow_add]
      exact ⟨Nat.mul_le_mul_right _ normal,
        Nat.mul_lt_mul_of_pos_right below (Nat.pow_pos (by decide))⟩
    omega

theorem units_div (r : Nat) : units r / Nat.pow 2 (place r) = mantissa r :=
  Nat.mul_div_cancel _ (Nat.pow_pos (by decide))

theorem floorRank_units (r : Nat) : floorRank (units r) = r := by
  rw [floorRank, excessBits_units, units_div]
  simp only [place, mantissa, Nat.pow_eq]
  split_ifs <;> omega

theorem units_lt {r n : Nat} (h : place r ≤ n) : units r < Nat.pow 2 53 * Nat.pow 2 n :=
  calc units r = mantissa r * Nat.pow 2 (place r) := rfl
    _ < Nat.pow 2 53 * Nat.pow 2 (place r) :=
      Nat.mul_lt_mul_of_pos_right (mantissa_lt r) (Nat.pow_pos (by decide))
    _ ≤ Nat.pow 2 53 * Nat.pow 2 n :=
      Nat.mul_le_mul_left _ (Nat.pow_le_pow_right (by decide) h)

theorem place_le {r : Nat} (h : r < infinityRank) : place r ≤ 2045 := by
  simp only [infinityRank, place, Nat.pow_eq] at h ⊢
  omega

theorem units_eq_zero {r : Nat} (h : units r = 0) : r = 0 := by
  have same := floorRank_units r
  rw [h] at same
  exact same.symm

/-! ## Leading bits -/

theorem leading_lt (u : Nat) : u / Nat.pow 2 (excessBits u) < Nat.pow 2 53 := by
  have positive : 0 < Nat.pow 2 (excessBits u) := Nat.pow_pos (by decide)
  rw [Nat.div_lt_iff_lt_mul positive]
  have width : u.log2 + 1 ≤ 53 + excessBits u := by
    rw [excessBits]
    omega
  calc u < 2 ^ (u.log2 + 1) := Nat.lt_log2_self
    _ ≤ 2 ^ (53 + excessBits u) := Nat.pow_le_pow_right (by decide) width
    _ = Nat.pow 2 53 * Nat.pow 2 (excessBits u) := Nat.pow_add ..

/-- Where bits are left out, 53 bits are kept. -/
theorem le_leading {u : Nat} (h : 0 < excessBits u) :
    Nat.pow 2 52 ≤ u / Nat.pow 2 (excessBits u) := by
  have nonzero : u ≠ 0 := by
    rintro rfl
    revert h
    decide
  have width : u.log2 = 52 + excessBits u := by
    rw [excessBits] at h ⊢
    omega
  have positive : 0 < Nat.pow 2 (excessBits u) := Nat.pow_pos (by decide)
  rw [Nat.le_div_iff_mul_le positive]
  calc Nat.pow 2 52 * Nat.pow 2 (excessBits u) = 2 ^ u.log2 := by rw [width, Nat.pow_add]; rfl
    _ ≤ u := Nat.log2_self_le nonzero

/-- More bits are left out only above all ranks with fewer. -/
theorem floorRank_lt_of_excessBits_lt {u v : Nat} (h : excessBits u < excessBits v) :
    floorRank u < floorRank v := by
  have low := leading_lt u
  have high := le_leading (Nat.zero_lt_of_lt h)
  simp only [floorRank, Nat.pow_eq] at low high ⊢
  omega

theorem excessBits_mono {u v : Nat} (h : u ≤ v) : excessBits u ≤ excessBits v := by
  have log : u.log2 ≤ v.log2 := by
    rw [Nat.log2_eq_log_two, Nat.log2_eq_log_two]
    exact Nat.log_mono_right h
  exact Nat.sub_le_sub_right log 52

theorem floorRank_mono {u v : Nat} (h : u ≤ v) : floorRank u ≤ floorRank v := by
  rcases Nat.lt_or_eq_of_le (excessBits_mono h) with fewer | same
  · exact (floorRank_lt_of_excessBits_lt fewer).le
  · rw [floorRank, floorRank, same]
    exact Nat.add_le_add_left (Nat.div_le_div_right h) _

/-- Numbers of units between the same two ranks have the same leading bits. -/
theorem leading_eq_of_floorRank_eq {u v : Nat} (h : u ≤ v) (same : floorRank u = floorRank v) :
    excessBits u = excessBits v ∧
      u / Nat.pow 2 (excessBits u) = v / Nat.pow 2 (excessBits v) := by
  have bits : excessBits u = excessBits v := by
    by_contra differ
    have less := floorRank_lt_of_excessBits_lt (Nat.lt_of_le_of_ne (excessBits_mono h) differ)
    omega
  refine ⟨bits, ?_⟩
  rw [floorRank, floorRank, bits] at same
  rw [bits]
  exact Nat.add_left_cancel same

/-! ## Quotients -/

/-- The units of the number one. -/
def unitsOfOne : Nat := Nat.pow 2 1074

theorem unitsOfOne_eq : unitsOfOne = Nat.pow 2 1074 := by
  delta unitsOfOne
  rfl

theorem unitsOfOne_pos : 0 < unitsOfOne := by decide +kernel

/-- A quotient that is the magnitude of a rank is rounded to that rank. -/
theorem nearestRank_of_units {num den r : Nat} (hd : 0 < den) (hr : r < infinityRank)
    (h : num * unitsOfOne = units r * den) : nearestRank num den = r := by
  rw [unitsOfOne_eq] at h
  have quotient : units r * den / den = units r := Nat.mul_div_cancel _ hd
  have whole : units r / Nat.pow 2 (place r) * Nat.pow 2 (place r) = units r := by
    rw [units_div]
    rfl
  have step : 0 < Nat.pow 2 (place r) * den := Nat.mul_pos (Nat.pow_pos (by decide)) hd
  have carry : ¬ (Nat.pow 2 (place r) * den < 0 ∨ (0 = Nat.pow 2 (place r) * den ∧ r % 2 = 1)) := by
    omega
  unfold nearestRank
  simp only [h, quotient, excessBits_units, floorRank_units, whole, Nat.sub_self, Nat.mul_zero,
    if_neg carry]
  omega

/-- Rounding is monotone. -/
theorem nearestRank_mono {num den num' den' : Nat} (hd : 0 < den) (hd' : 0 < den')
    (h : num * den' ≤ num' * den) : nearestRank num den ≤ nearestRank num' den' := by
  unfold nearestRank
  generalize Nat.pow 2 1074 = unit
  have cross : num * unit * den' ≤ num' * unit * den := by
    rw [Nat.mul_right_comm, Nat.mul_right_comm num']
    exact Nat.mul_le_mul_right _ h
  generalize num * unit = scaled at cross
  generalize num' * unit = scaled' at cross
  have quotient : scaled / den ≤ scaled' / den' := by
    rw [Nat.le_div_iff_mul_le hd']
    have below := Nat.div_mul_le_self scaled den
    refine Nat.le_of_mul_le_mul_right ?_ hd
    calc scaled / den * den' * den = scaled / den * den * den' := Nat.mul_right_comm ..
      _ ≤ scaled * den' := Nat.mul_le_mul_right _ below
      _ ≤ scaled' * den := cross
  dsimp only
  refine min_le_min_right _ ?_
  rcases Nat.lt_or_eq_of_le (floorRank_mono quotient) with less | same
  · split_ifs <;> omega
  -- Between the same two ranks, the larger quotient is carried where the smaller one is.
  obtain ⟨bits, leading⟩ := leading_eq_of_floorRank_eq quotient same
  rw [same, leading, bits]
  generalize scaled' / den' = u
  generalize u / Nat.pow 2 (excessBits u) * Nat.pow 2 (excessBits u) = low
  generalize Nat.pow 2 (excessBits u) = step
  have excess : 2 * (scaled - low * den) * den' ≤ 2 * (scaled' - low * den') * den := by
    rw [Nat.mul_assoc, Nat.mul_assoc, Nat.sub_mul, Nat.sub_mul, Nat.mul_right_comm low]
    exact Nat.mul_le_mul_left _ (Nat.sub_le_sub_right cross _)
  have reached (k : step * den ≤ 2 * (scaled - low * den)) :
      step * den' ≤ 2 * (scaled' - low * den') := by
    refine Nat.le_of_mul_le_mul_right ?_ hd
    calc step * den' * den = step * den * den' := Nat.mul_right_comm ..
      _ ≤ 2 * (scaled - low * den) * den' := Nat.mul_le_mul_right _ k
      _ ≤ 2 * (scaled' - low * den') * den := excess
  have passed (k : step * den < 2 * (scaled - low * den)) :
      step * den' < 2 * (scaled' - low * den') := by
    refine Nat.lt_of_mul_lt_mul_right (a := den) ?_
    calc step * den' * den = step * den * den' := Nat.mul_right_comm ..
      _ < 2 * (scaled - low * den) * den' := Nat.mul_lt_mul_of_pos_right k hd'
      _ ≤ 2 * (scaled' - low * den') * den := excess
  generalize 2 * (scaled - low * den) = above at reached passed ⊢
  generalize 2 * (scaled' - low * den') = above' at reached passed ⊢
  split_ifs with carry carry' carry'
  · exact le_rfl
  · exfalso
    rcases carry with less | ⟨tie, odd⟩
    · exact carry' (.inl (passed less))
    · rcases Nat.lt_or_eq_of_le (reached tie.ge) with less' | tie'
      · exact carry' (.inl less')
      · exact carry' (.inr ⟨tie'.symm, odd⟩)
  · omega
  · exact le_rfl

/-! ## Magnitudes -/

/-- The magnitude of a finite rank. -/
def magnitude (r : Nat) : ℚ := units r / (unitsOfOne : ℕ)

theorem cast_pow_ten (n : ℕ) : ((Nat.pow 10 n : ℕ) : ℚ) = 10 ^ (n : ℤ) := by simp

theorem magnitude_lt {r k n : Nat} (h : place r ≤ k)
    (large : Nat.pow 2 53 * Nat.pow 2 k ≤ Nat.pow 10 n * unitsOfOne) :
    magnitude r < 10 ^ (n : ℤ) := by
  have less := (units_lt h).trans_le large
  rw [magnitude, div_lt_iff₀ (Nat.cast_pos.2 unitsOfOne_pos), ← cast_pow_ten, ← Nat.cast_mul]
  exact Nat.cast_lt.2 less

theorem le_magnitude {r n : Nat} (h : units r ≠ 0) (small : unitsOfOne ≤ Nat.pow 10 n) :
    10 ^ (-n : ℤ) ≤ magnitude r := by
  have power : (0 : ℚ) < (Nat.pow 10 n : ℕ) := Nat.cast_pos.2 (Nat.pow_pos (by decide))
  have more := Nat.mul_le_mul (Nat.one_le_iff_ne_zero.2 h) small
  rw [magnitude, zpow_neg, ← cast_pow_ten, inv_eq_one_div, div_le_div_iff₀ power
    (Nat.cast_pos.2 unitsOfOne_pos), ← Nat.cast_one, ← Nat.cast_mul, ← Nat.cast_mul]
  exact Nat.cast_le.2 more

end Binary64

namespace Decimal

/-- The number that a decimal number stands for, without its sign. -/
def magnitude (d : Decimal) : ℚ := d.coefficient * 10 ^ d.exponent

theorem denominator_pos (d : Decimal) : 0 < d.denominator := Nat.pow_pos (by decide)

theorem magnitude_eq (d : Decimal) : d.magnitude = d.numerator / d.denominator := by
  obtain ⟨negative, c, e⟩ := d
  simp only [magnitude, numerator, denominator, Nat.pow_eq]
  rcases Int.le_total 0 e with whole | fraction
  · obtain ⟨n, rfl⟩ := Int.eq_ofNat_of_zero_le whole
    simp
  · obtain ⟨n, hn⟩ := Int.exists_eq_neg_ofNat fraction
    subst hn
    simp [div_eq_mul_inv]

theorem cross_of_div_eq {num den num' den' : ℕ} (hd : 0 < den) (hd' : 0 < den')
    (h : (num : ℚ) / den = num' / den') : num * den' = num' * den := by
  rw [div_eq_div_iff (Nat.cast_ne_zero.2 hd.ne') (Nat.cast_ne_zero.2 hd'.ne')] at h
  exact_mod_cast h

/-- The place of the first digit. -/
def size (d : Decimal) : Int := digitCount d.coefficient + d.exponent

theorem coefficient_lt (n : Nat) : n < 10 ^ digitCount n :=
  (Nat.length_toDigits_le_iff (by decide) Nat.length_toDigits_pos).1 le_rfl

theorem le_coefficient {n : Nat} (h : n ≠ 0) : 10 ^ (digitCount n - 1) ≤ n := by
  by_cases single : digitCount n - 1 = 0
  · rw [single]
    omega
  · by_contra short
    have fewer := (Nat.length_toDigits_le_iff (b := 10) (by decide) (Nat.pos_of_ne_zero single)).2
      (Nat.lt_of_not_le short)
    have positive : 0 < digitCount n := Nat.length_toDigits_pos
    rw [← digitCount] at fewer
    omega

/-- The first digit of a number says how large it is. -/
theorem magnitude_bounds {d : Decimal} (h : d.coefficient ≠ 0) :
    (10 : ℚ) ^ (d.size - 1) ≤ d.magnitude ∧ d.magnitude < 10 ^ d.size := by
  have positive : 1 ≤ digitCount d.coefficient := Nat.length_toDigits_pos
  have low : (10 : ℚ) ^ (digitCount d.coefficient - 1) ≤ d.coefficient := by
    exact_mod_cast le_coefficient h
  have high : (d.coefficient : ℚ) < 10 ^ digitCount d.coefficient := by
    exact_mod_cast coefficient_lt d.coefficient
  have first : d.size - 1 = (digitCount d.coefficient - 1 : ℕ) + d.exponent := by
    rw [size]
    omega
  have power : (0 : ℚ) < 10 ^ d.exponent := by positivity
  rw [first, size, magnitude, zpow_add₀ (by norm_num), zpow_add₀ (by norm_num), zpow_natCast,
    zpow_natCast]
  exact ⟨mul_le_mul_of_nonneg_right low power.le, mul_lt_mul_of_pos_right high power⟩

theorem coefficient_eq_zero_iff (d : Decimal) : d.coefficient = 0 ↔ d.magnitude = 0 := by
  have power : (10 : ℚ) ^ d.exponent ≠ 0 := by positivity
  simp [magnitude, power]

/-- A number has its first digit above a place if it is not below that power of ten. -/
theorem lt_size_iff {d : Decimal} (h : d.coefficient ≠ 0) {k : Int} :
    k < d.size ↔ (10 : ℚ) ^ k ≤ d.magnitude := by
  obtain ⟨low, high⟩ := magnitude_bounds h
  constructor
  · intro less
    have place : k ≤ d.size - 1 := by omega
    exact (zpow_le_zpow_right₀ (by norm_num) place).trans low
  · intro le
    exact (zpow_lt_zpow_iff_right₀ (by norm_num : (1 : ℚ) < 10)).1 (le.trans_lt high)

/-- Larger magnitudes do not have their first digits in a lower place. -/
theorem size_mono {d d' : Decimal} (h : d.coefficient ≠ 0) (h' : d'.coefficient ≠ 0)
    (le : d.magnitude ≤ d'.magnitude) : d.size ≤ d'.size := by
  have less : d.size - 1 < d'.size := (lt_size_iff h').2 ((magnitude_bounds h).1.trans le)
  omega

theorem rank_le_infinityRank (d : Decimal) : d.rank ≤ Binary64.infinityRank := by
  unfold rank
  dsimp only
  split_ifs
  · exact Nat.zero_le _
  · exact le_rfl
  · exact min_le_right _ _

theorem magnitude_nonneg (d : Decimal) : 0 ≤ d.magnitude := by
  rw [magnitude]
  positivity

/-- Decimal numbers of larger magnitudes have larger ranks. -/
theorem rank_mono {d d' : Decimal} (le : d.magnitude ≤ d'.magnitude) : d.rank ≤ d'.rank := by
  by_cases none : d.coefficient = 0 ∨ d.size < -330
  · have least : d.rank = 0 := if_pos none
    omega
  obtain ⟨zero, tiny⟩ := not_or.1 none
  have zero' : d'.coefficient ≠ 0 := by
    intro zero'
    rw [coefficient_eq_zero_iff] at zero zero'
    exact zero (le_antisymm (le.trans zero'.le) d.magnitude_nonneg)
  have place := size_mono zero zero' le
  by_cases large : 310 < d'.size
  · have most : d'.rank = Binary64.infinityRank := by
      rw [rank, if_neg (not_or.2 ⟨zero', by rw [← size]; omega⟩)]
      exact if_pos large
    rw [most]
    exact d.rank_le_infinityRank
  · have cross : d.numerator * d'.denominator ≤ d'.numerator * d.denominator := by
      rw [magnitude_eq, magnitude_eq, div_le_div_iff₀ (Nat.cast_pos.2 d.denominator_pos)
        (Nat.cast_pos.2 d'.denominator_pos)] at le
      exact_mod_cast le
    simp only [size] at tiny place large
    unfold rank
    dsimp only
    rw [if_neg (by omega), if_neg (by omega), if_neg (by omega), if_neg (by omega)]
    exact Binary64.nearestRank_mono d.denominator_pos d'.denominator_pos cross

/-- Decimal numbers of the same magnitude have the same rank. -/
theorem rank_congr {d d' : Decimal} (same : d.magnitude = d'.magnitude) : d.rank = d'.rank :=
  le_antisymm (rank_mono same.le) (rank_mono same.ge)

/-- A decimal number that is the magnitude of a finite rank is rounded to that rank. -/
theorem rank_of_magnitude {d : Decimal} {r : Nat} (hr : r < Binary64.infinityRank)
    (same : d.magnitude = Binary64.magnitude r) : d.rank = r := by
  by_cases zero : d.coefficient = 0
  · have none : Binary64.units r = 0 := by
      rw [coefficient_eq_zero_iff, same, Binary64.magnitude] at zero
      have one : (Binary64.unitsOfOne : ℚ) ≠ 0 := Nat.cast_ne_zero.2 Binary64.unitsOfOne_pos.ne'
      exact Nat.cast_eq_zero.1 ((div_eq_zero_iff.1 zero).resolve_right one)
    rw [Binary64.units_eq_zero none]
    simp only [rank, zero, true_or, if_true]
  · obtain ⟨low, high⟩ := magnitude_bounds zero
    rw [same] at low high
    have units : Binary64.units r ≠ 0 := by
      intro none
      rw [coefficient_eq_zero_iff, same, Binary64.magnitude, none, Nat.cast_zero, zero_div] at zero
      exact zero rfl
    have tiny : (10 : ℚ) ^ (-(330 : ℕ) : ℤ) < 10 ^ d.size :=
      (Binary64.le_magnitude units (by decide +kernel)).trans_lt high
    have huge : (10 : ℚ) ^ (d.size - 1) < 10 ^ ((310 : ℕ) : ℤ) :=
      low.trans_lt (Binary64.magnitude_lt (Binary64.place_le hr) (by decide +kernel))
    have cross := cross_of_div_eq d.denominator_pos Binary64.unitsOfOne_pos
      (d.magnitude_eq.symm.trans same)
    have least := (zpow_lt_zpow_iff_right₀ (by norm_num : (1 : ℚ) < 10)).1 tiny
    have most := (zpow_lt_zpow_iff_right₀ (by norm_num : (1 : ℚ) < 10)).1 huge
    simp only [size] at least most
    unfold rank
    dsimp only
    rw [if_neg (by omega), if_neg (by omega)]
    exact Binary64.nearestRank_of_units d.denominator_pos hr cross

/-! ## Trailing zeros -/

theorem pow_trailingZeros_dvd (n : Nat) : 10 ^ trailingZeros n ∣ n := by
  have split := List.takeWhile_append_dropWhile (p := (· == '0')) (l := (Nat.toDigits 10 n).reverse)
  have zeros : (Nat.toDigits 10 n).reverse.takeWhile (· == '0') =
      List.replicate (trailingZeros n) '0' := by
    refine List.eq_replicate_iff.2 ⟨rfl, fun c mem => ?_⟩
    simpa using List.mem_takeWhile_imp mem
  rw [zeros] at split
  generalize (Nat.toDigits 10 n).reverse.dropWhile (· == '0') = front at split
  have digits : Nat.toDigits 10 n = front.reverse ++ List.replicate (trailingZeros n) '0' := by
    rw [← List.reverse_reverse (Nat.toDigits 10 n), ← split, List.reverse_append,
      List.reverse_replicate]
  have value := Nat.ofDigitChars_ten_toDigits (n := n)
  rw [digits, Nat.ofDigitChars_append, Nat.ofDigitChars_replicate_zero] at value
  exact Dvd.intro _ value

/-- Leaving out zeros at the end does not change the magnitude. -/
theorem magnitude_reduced (d : Decimal) : d.reduced.magnitude = d.magnitude := by
  obtain ⟨q, hq⟩ := pow_trailingZeros_dvd d.coefficient
  have quotient : d.coefficient / Nat.pow 10 (trailingZeros d.coefficient) = q :=
    Nat.div_eq_of_eq_mul_right (Nat.pow_pos (by decide)) hq
  have power : (d.coefficient : ℚ) = 10 ^ trailingZeros d.coefficient * q := by
    exact_mod_cast hq
  rw [magnitude, magnitude, reduced]
  dsimp only
  rw [quotient, power, zpow_add₀ (by norm_num), zpow_natCast]
  ring

end Decimal

namespace Binary64

/-! ## Shortest decimals -/

theorem cast_mul_pow_sub (m : Nat) {p k one : Nat} (h : k ≤ p) (ho : one = Nat.pow 2 k) :
    ((m * Nat.pow 2 (p - k) : ℕ) : ℚ) = (m * Nat.pow 2 p : ℕ) / (one : ℕ) := by
  obtain ⟨n, rfl⟩ := Nat.exists_eq_add_of_le h
  rw [ho, Nat.add_sub_cancel_left, eq_div_iff (by simp)]
  simp only [Nat.pow_eq, pow_add]
  push_cast
  ring

theorem cast_mul_pow_five (m : Nat) {p k one : Nat} (h : p ≤ k) (ho : one = Nat.pow 2 k) :
    ((m * Nat.pow 5 (k - p) : ℕ) : ℚ) * 10 ^ (-((k - p : ℕ) : ℤ)) =
      (m * Nat.pow 2 p : ℕ) / (one : ℕ) := by
  obtain ⟨n, rfl⟩ := Nat.exists_eq_add_of_le h
  have ten : (10 : ℚ) ^ n = 2 ^ n * 5 ^ n := by
    rw [← mul_pow]
    norm_num
  rw [ho, Nat.add_sub_cancel_left, zpow_neg, zpow_natCast, ten, eq_div_iff (by simp)]
  simp only [Nat.pow_eq, pow_add]
  push_cast
  field_simp

/-- The decimal expansion of a magnitude is exact. -/
theorem magnitude_expansion (negative : Bool) (r : Nat) :
    Decimal.magnitude ⟨negative, (expansion r).1, -((expansion r).2 : Int)⟩ = magnitude r := by
  have one := unitsOfOne_eq
  rw [Decimal.magnitude, magnitude, units, expansion]
  generalize 1074 = k at one ⊢
  generalize unitsOfOne = u at one ⊢
  split_ifs with large
  · simpa using cast_mul_pow_sub (mantissa r) large one
  · exact cast_mul_pow_five (mantissa r) (Nat.le_of_not_le large) one

theorem negative_of_mem_candidates {negative : Bool} {whole places : Nat} {d : Decimal}
    (h : d ∈ candidates negative whole places) : d.negative = negative := by
  simp only [candidates, List.mem_flatMap, neighbours] at h
  obtain ⟨n, -, mem⟩ := h
  split_ifs at mem <;> simp only [List.mem_cons, List.not_mem_nil, or_false] at mem <;>
    rcases mem with rfl | rfl <;> rfl

/-- The shortest decimal of a magnitude is rounded to it. -/
theorem rank_shortestOfRank (negative : Bool) {r : Nat} (h : r < infinityRank) :
    (shortestOfRank negative r).rank = r ∧ (shortestOfRank negative r).negative = negative := by
  unfold shortestOfRank
  dsimp only
  cases hf : (candidates negative (expansion r).1 (expansion r).2).find? (·.rank == r) with
  | some d =>
    have found : d.rank = r := by simpa using List.find?_some hf
    have sign := negative_of_mem_candidates (List.mem_of_find?_eq_some hf)
    exact ⟨(Decimal.rank_congr d.magnitude_reduced).trans found, sign⟩
  | none =>
    refine ⟨?_, rfl⟩
    rw [Decimal.rank_congr (Decimal.magnitude_reduced _)]
    exact Decimal.rank_of_magnitude h (magnitude_expansion negative r)

theorem rank_shortest {x : Float} (h : rank x < infinityRank) :
    (shortest x).rank = rank x ∧ (shortest x).negative = isNegative x := by
  unfold shortest
  split_ifs with zero
  · rw [zero]
    exact ⟨rfl, rfl⟩
  · exact rank_shortestOfRank (isNegative x) h

end Binary64

namespace Number

/-- The magnitude of a whole number. -/
theorem magnitude_of_isWhole {x : Float} (h : isWhole x = true) :
    Binary64.magnitude (Binary64.rank x) = wholePart x := by
  rw [isWhole, ← Binary64.unitsOfOne_eq, beq_iff_eq] at h
  have whole := Nat.div_mul_cancel (Nat.dvd_of_mod_eq_zero h)
  rw [Binary64.magnitude, wholePart, ← Binary64.unitsOfOne_eq,
    div_eq_iff (Nat.cast_ne_zero.2 Binary64.unitsOfOne_pos.ne'), ← Nat.cast_mul, whole]

end Number

end Lisplet
