import Lisplet.Number
import Mathlib

/-!
# Machine numbers and their bits

A machine number is given by its bits, and so by its sign and its rank (`ofRank_rank`).  The rank of
a finite number is below that of infinity (`rank_lt_of_isFinite`), and finite numbers of the same
rank and sign are equal; for zero the sign does not matter (`beq_ofRank`).
-/

namespace Lisplet.Binary64

open Float.Model Float.Model.UnpackedFloat

/-- A machine number is made of its sign and its rank. -/
theorem ofRank_rank (x : Float) : ofRank (isNegative x) (rank x) = x := by
  have room := x.toBits.toNat_lt
  have bits : rank x + (if isNegative x = true then Nat.pow 2 63 else 0) = x.toBits.toNat := by
    simp only [rank, isNegative, decide_eq_true_eq, Nat.pow_eq]
    split_ifs <;> omega
  rw [ofRank, bits, UInt64.ofNat_toNat, Float.ofBits_toBits]

/-- The exponent of a finite number is not the largest one. -/
theorem unpackExponent_of_isFinite {x : Float} (h : x.isFinite = true) :
    @unpackExponent .binary64 x.toBits.toBitVec ≠ -1#11 := by
  intro same
  change (UnpackedFloat.unpack .binary64 x.toBits.toBitVec).isFinite = true at h
  unfold UnpackedFloat.unpack at h
  dsimp only at h
  rw [if_pos same] at h
  split_ifs at h <;> cases h

theorem rank_lt_of_isFinite {x : Float} (h : x.isFinite = true) : rank x < infinityRank := by
  have largest : x.toBits.toNat / 2 ^ 52 % 2 ^ 11 ≠ 2047 := by
    intro same
    apply unpackExponent_of_isFinite h
    apply BitVec.eq_of_toNat_eq
    rw [unpackExponent_def, BitVec.extractLsb'_toNat, Nat.shiftRight_eq_div_pow]
    exact same
  simp only [rank, infinityRank, Nat.pow_eq]
  omega

/-! ## Equality -/

theorem beq_self {x : Float} (h : x.isFinite = true) : (x == x) = true := by
  refine Float.beq_self_iff.2 ?_
  rintro rfl
  revert h
  decide +kernel

/-- The two zeros are equal. -/
theorem beq_ofRank_zero (negative negative' : Bool) :
    (ofRank negative 0 == ofRank negative' 0) = true := by
  revert negative negative'
  decide +kernel

/-- A number of the same rank and sign is equal, and for zero the sign does not matter. -/
theorem beq_ofRank {x : Float} (h : x.isFinite = true) {negative : Bool}
    (sign : negative = isNegative x ∨ rank x = 0) : (x == ofRank negative (rank x)) = true := by
  rcases sign with rfl | zero
  · rw [ofRank_rank]
    exact beq_self h
  · have own := ofRank_rank x
    rw [zero] at own ⊢
    rw [← own]
    exact beq_ofRank_zero _ _

end Lisplet.Binary64
