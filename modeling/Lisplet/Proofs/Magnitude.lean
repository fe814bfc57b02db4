import Lisplet.Proofs.Rounding

/-!
# The order of magnitudes

Ranks have the order of their magnitudes (`Binary64.magnitude_le_iff`).  Whole numbers of at most 53
bits are magnitudes, and all magnitudes above them are whole, so only a whole number has a whole
number as its shortest decimal (`Number.isWhole_of_shortest`).  Since rounding is monotone, the
place of the first digit of a shortest decimal can be told from the rank, at powers of ten that are
shortest decimals themselves (`Binary64.lt_size_shortest_iff`).
-/

namespace Lisplet

namespace Binary64

/-! ## The order of ranks -/

/-- The units of a rank are those given, without the bits that do not fit. -/
theorem units_floorRank (u : Nat) :
    units (floorRank u) = u / Nat.pow 2 (excessBits u) * Nat.pow 2 (excessBits u) := by
  have low := leading_lt u
  have high : excessBits u = 0 ∨ Nat.pow 2 52 ≤ u / Nat.pow 2 (excessBits u) :=
    (Nat.eq_zero_or_pos _).imp_right le_leading
  unfold units floorRank
  generalize u / Nat.pow 2 (excessBits u) = leading at low high
  have bits : mantissa (excessBits u * Nat.pow 2 52 + leading) = leading := by
    simp only [mantissa, Nat.pow_eq] at low high ⊢
    split_ifs <;> omega
  have last : place (excessBits u * Nat.pow 2 52 + leading) = excessBits u := by
    simp only [place, Nat.pow_eq] at low high ⊢
    omega
  rw [bits, last]

theorem units_le_iff {r s : Nat} : units r ≤ units s ↔ r ≤ s := by
  have mono {r s : Nat} (h : units r ≤ units s) : r ≤ s := by
    simpa only [floorRank_units] using floorRank_mono h
  refine ⟨mono, fun le => ?_⟩
  by_contra less
  have same : r = s := le_antisymm le (mono (Nat.le_of_not_le less))
  exact less (same ▸ le_rfl)

theorem magnitude_le_iff {r s : Nat} : magnitude r ≤ magnitude s ↔ r ≤ s := by
  rw [magnitude, magnitude, div_le_div_iff_of_pos_right (Nat.cast_pos.2 unitsOfOne_pos),
    Nat.cast_le, units_le_iff]

theorem magnitude_eq_natCast_iff {r n : Nat} : magnitude r = n ↔ units r = n * unitsOfOne := by
  rw [magnitude, div_eq_iff (Nat.cast_ne_zero.2 unitsOfOne_pos.ne'), ← Nat.cast_mul, Nat.cast_inj]

theorem magnitude_ne_zero {r : Nat} (h : r ≠ 0) : magnitude r ≠ 0 := by
  intro zero
  have none : units r = 0 * unitsOfOne := magnitude_eq_natCast_iff.1 (by rw [zero, Nat.cast_zero])
  rw [Nat.zero_mul] at none
  exact h (units_eq_zero none)

theorem magnitude_nonneg (r : Nat) : 0 ≤ magnitude r := by
  rw [magnitude]
  positivity

/-! ## Whole numbers -/

theorem excessBits_mul_le {n k one : Nat} (h : n < Nat.pow 2 53) (ho : one = Nat.pow 2 k) :
    excessBits (n * one) ≤ k := by
  by_cases zero : n = 0
  · rw [zero, Nat.zero_mul]
    exact Nat.zero_le k
  have positive : 0 < one := ho ▸ Nat.pow_pos (by decide)
  have size : (n * one).log2 < 53 + k := by
    rw [Nat.log2_lt (Nat.mul_ne_zero zero positive.ne'), Nat.pow_add]
    exact Nat.mul_lt_mul_of_lt_of_le h ho.le (Nat.pow_pos (by decide))
  rw [excessBits]
  omega

theorem pow_dvd {i k u v : Nat} (hu : u = Nat.pow 2 i) (hv : v = Nat.pow 2 k) (h : i ≤ k) :
    u ∣ v := by
  rw [hu, hv]
  exact Nat.pow_dvd_pow 2 h

/-- Whole numbers of at most 53 bits are magnitudes. -/
theorem exists_magnitude_eq {n : Nat} (h : n < Nat.pow 2 53) :
    ∃ r < infinityRank, magnitude r = n := by
  have bits := excessBits_mul_le h unitsOfOne_eq
  refine ⟨floorRank (n * unitsOfOne), ?_, ?_⟩
  · have low := leading_lt (n * unitsOfOne)
    simp only [floorRank, infinityRank, Nat.pow_eq] at low ⊢
    omega
  · have fits : Nat.pow 2 (excessBits (n * unitsOfOne)) ∣ n * unitsOfOne :=
      Dvd.dvd.mul_left (pow_dvd rfl unitsOfOne_eq bits) n
    rw [magnitude_eq_natCast_iff, units_floorRank, Nat.div_mul_cancel fits]

end Binary64

namespace Number

theorem isWhole_of_magnitude {x : Float} {n : Nat}
    (h : Binary64.magnitude (Binary64.rank x) = n) : isWhole x = true ∧ wholePart x = n := by
  rw [Binary64.magnitude_eq_natCast_iff] at h
  rw [isWhole, wholePart, ← Binary64.unitsOfOne_eq, h, Nat.mul_mod_left,
    Nat.mul_div_cancel _ Binary64.unitsOfOne_pos]
  exact ⟨rfl, rfl⟩

/-- Numbers whose last bit is not below one are whole. -/
theorem isWhole_of_place {x : Float} (h : 1074 ≤ Binary64.place (Binary64.rank x)) :
    isWhole x = true := by
  have power := Binary64.pow_dvd Binary64.unitsOfOne_eq rfl h
  have multiple : Binary64.unitsOfOne ∣ Binary64.units (Binary64.rank x) := by
    rw [Binary64.units]
    exact Dvd.dvd.mul_left power _
  rw [isWhole, ← Binary64.unitsOfOne_eq, beq_iff_eq]
  exact Nat.mod_eq_zero_of_dvd multiple

/-- Only whole numbers have a whole number as their shortest decimal. -/
theorem isWhole_of_shortest {x : Float} (finite : Binary64.rank x < Binary64.infinityRank)
    (h : 0 ≤ (Binary64.shortest x).exponent) : isWhole x = true := by
  obtain ⟨rank, -⟩ := Binary64.rank_shortest finite
  generalize Binary64.shortest x = d at h rank
  obtain ⟨k, hk⟩ := Int.eq_ofNat_of_zero_le h
  have whole : d.magnitude = (d.coefficient * 10 ^ k : ℕ) := by
    rw [Decimal.magnitude, hk]
    push_cast
    rfl
  -- Of at most 53 bits, the decimal is the magnitude of its rank; above, every magnitude is whole.
  by_cases small : d.coefficient * 10 ^ k < Nat.pow 2 53
  · obtain ⟨r, bound, same⟩ := Binary64.exists_magnitude_eq small
    have own := Decimal.rank_of_magnitude bound (whole.trans same.symm)
    rw [← own, rank] at same
    exact (isWhole_of_magnitude same).1
  · have above : Decimal.magnitude ⟨false, Nat.pow 2 53, 0⟩ ≤ d.magnitude := by
      rw [whole, Decimal.magnitude, zpow_zero, mul_one]
      exact Nat.cast_le.2 (Nat.le_of_not_lt small)
    have first : Decimal.rank ⟨false, Nat.pow 2 53, 0⟩ = 1076 * Nat.pow 2 52 := by decide +kernel
    have large := Decimal.rank_mono above
    rw [rank, first] at large
    refine isWhole_of_place ?_
    simp only [Binary64.place, Nat.pow_eq] at large ⊢
    omega

end Number

/-! ## Powers of ten -/

namespace Binary64

/-- A power of ten that is the shortest decimal of its own rank. -/
def IsOwnShortest (k : Int) : Prop :=
  ∀ negative, shortestOfRank negative (Decimal.rank ⟨false, 1, k⟩) = ⟨negative, 1, k⟩

instance (k : Int) : Decidable (IsOwnShortest k) :=
  inferInstanceAs (Decidable (∀ _, _))

theorem coefficient_shortest {x : Float} (finite : rank x < infinityRank) (h : rank x ≠ 0) :
    (shortest x).coefficient ≠ 0 := by
  obtain ⟨own, -⟩ := rank_shortest finite
  intro zero
  have none : (shortest x).rank = 0 := if_pos (.inl zero)
  omega

/-- The shortest decimal of a number is not below a power of ten exactly if the number is not below
the number that the power is rounded to. -/
theorem lt_size_shortest_iff {x : Float} (finite : rank x < infinityRank) (h : rank x ≠ 0) {k : Int}
    (own : IsOwnShortest k) :
    k < (shortest x).size ↔ Decimal.rank ⟨false, 1, k⟩ ≤ rank x := by
  have power : Decimal.magnitude ⟨false, 1, k⟩ = 10 ^ k := by simp [Decimal.magnitude]
  obtain ⟨same, -⟩ := rank_shortest finite
  rw [← same]
  constructor
  · intro less
    have le := (Decimal.lt_size_iff (coefficient_shortest finite h)).1 less
    exact Decimal.rank_mono (power.trans_le le)
  · intro le
    by_contra short
    have less : (shortest x).magnitude ≤ Decimal.magnitude ⟨false, 1, k⟩ := by
      rw [Decimal.lt_size_iff (coefficient_shortest finite h), not_le] at short
      exact short.le.trans power.ge
    -- Rounding makes the two equal, but then the power itself is the shortest decimal.
    have equal : rank x = Decimal.rank ⟨false, 1, k⟩ := by
      rw [← same]
      exact le_antisymm (Decimal.rank_mono less) le
    have shortest_eq : shortest x = ⟨isNegative x, 1, k⟩ := by
      rw [shortest, if_neg h, equal]
      exact own _
    have digit : Decimal.digitCount 1 = 1 := rfl
    simp only [shortest_eq, Decimal.size, digit] at short
    omega

end Binary64

end Lisplet
