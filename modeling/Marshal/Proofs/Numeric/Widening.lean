import Mathlib.Algebra.Group.Nat.Defs
import Marshal.Proofs.Value.Equal

/-!
# Widening

A single-precision number is widened to the double-precision number of the same value
(`Binary.widen`).  The sign is kept, and larger patterns become larger ones
(`widenedMagnitude_lt`), with zero, infinity and the NaNs where they belong.  So widened
numbers are equal just when the numbers are (`widen_beq`).
-/

namespace Marshal.Binary

open Precision (single double)

variable {x y : Binary32}

/-! ## Order -/

/-- The fraction of a subnormal number, given by its own fraction, when it has become
normal. -/
def normalized (fraction : Nat) : Nat :=
  (fraction - 2 ^ fraction.log2) * 2 ^ (52 - fraction.log2)

section Normalized

variable {f f' : Nat} (hpos : 0 < f)

include hpos

theorem log2_le_of_fraction (hlt : f < single.exponentWeight) : f.log2 ≤ 22 :=
  Nat.le_of_lt_succ ((Nat.log2_lt hpos.ne').mpr hlt)

theorem normalized_lt (hlt : f < single.exponentWeight) : normalized f < double.exponentWeight := by
  have hlog := log2_le_of_fraction hpos hlt
  have hself : 2 ^ f.log2 ≤ f := Nat.log2_self_le hpos.ne'
  have hnext : f < 2 ^ (f.log2 + 1) := Nat.lt_log2_self
  have hfraction : f - 2 ^ f.log2 < 2 ^ f.log2 := by
    rw [Nat.pow_succ] at hnext
    omega
  calc normalized f
      < 2 ^ f.log2 * 2 ^ (52 - f.log2) :=
        Nat.mul_lt_mul_of_pos_right hfraction (Nat.two_pow_pos _)
    _ = 2 ^ 52 := by rw [← Nat.pow_add, Nat.add_sub_cancel' (by omega)]
    _ = double.exponentWeight := rfl

/-- Larger fractions become larger numbers. -/
theorem normalized_mono (hlt : f < f') (hlt' : f' < single.exponentWeight) :
    f.log2 * double.exponentWeight + normalized f <
      f'.log2 * double.exponentWeight + normalized f' := by
  have hself : 2 ^ f.log2 ≤ f := Nat.log2_self_le hpos.ne'
  have hlog : f.log2 ≤ f'.log2 := (Nat.le_log2 (by omega)).mpr (hself.trans hlt.le)
  have hfraction := normalized_lt hpos (hlt.trans hlt')
  rcases hlog.eq_or_lt with heq | hless
  · rw [normalized, normalized, ← heq]
    apply Nat.add_lt_add_left
    exact Nat.mul_lt_mul_of_pos_right (by omega) (Nat.two_pow_pos _)
  · simp only [Precision.exponentWeight, Precision.fractionBits] at hfraction ⊢
    omega

end Normalized

/-- What a number becomes, by the sort of the number: one that is infinite or none, a normal
one, zero, or a subnormal one. -/
theorem widenedMagnitude_cases (x : Binary32) :
    (x.exponentField = 255 ∧
      x.widenedMagnitude = 2047 * double.exponentWeight + x.fractionField * 2 ^ 29) ∨
    (0 < x.exponentField ∧ x.exponentField < 255 ∧ x.widenedMagnitude =
      (x.exponentField + 896) * double.exponentWeight + x.fractionField * 2 ^ 29) ∨
    (x.exponentField = 0 ∧ x.fractionField = 0 ∧ x.widenedMagnitude = 0) ∨
    (x.exponentField = 0 ∧ 0 < x.fractionField ∧ x.fractionField.log2 ≤ 22 ∧
      normalized x.fractionField < double.exponentWeight ∧
      x.widenedMagnitude = x.fractionField.log2 * double.exponentWeight +
        normalized x.fractionField + 874 * double.exponentWeight) := by
  unfold widenedMagnitude
  rw [Nat.shiftLeft_eq]
  by_cases hlast : x.exponentField = 255
  · rw [if_pos hlast]
    exact .inl ⟨hlast, rfl⟩
  by_cases hzero : x.exponentField = 0
  · rw [if_neg hlast, if_neg (not_not_intro hzero)]
    by_cases hfraction : x.fractionField = 0
    · rw [if_pos hfraction]
      exact .inr (.inr (.inl ⟨hzero, hfraction, rfl⟩))
    · have hpos := Nat.pos_of_ne_zero hfraction
      have hlt := x.fractionField_lt
      rw [if_neg hfraction]
      refine .inr (.inr (.inr ⟨hzero, hpos, log2_le_of_fraction hpos hlt,
        normalized_lt hpos hlt, ?_⟩))
      dsimp only
      rw [normalized, Nat.shiftLeft_eq, Nat.one_shiftLeft, Nat.add_mul, Nat.add_right_comm]
  · rw [if_neg hlast, if_pos hzero]
    have hlt := lt_of_le_of_ne x.exponentField_le hlast
    exact .inr (.inl ⟨Nat.pos_of_ne_zero hzero, hlt, rfl⟩)

/-- Larger patterns become larger ones. -/
theorem widenedMagnitude_lt (h : x.magnitude < y.magnitude) :
    x.widenedMagnitude < y.widenedMagnitude := by
  have hx := x.magnitude_eq_fields
  have hy := y.magnitude_eq_fields
  have hfx := x.fractionField_lt
  have hfy := y.fractionField_lt
  rcases x.widenedMagnitude_cases with ⟨hex, hwx⟩ | ⟨hpx, hex, hwx⟩ | ⟨hex, hzx, hwx⟩ |
      ⟨hex, hpx, hlx, hnx, hwx⟩ <;>
    rcases y.widenedMagnitude_cases with ⟨hey, hwy⟩ | ⟨hpy, hey, hwy⟩ | ⟨hey, hzy, hwy⟩ |
      ⟨hey, hpy, hly, hny, hwy⟩
  case inr.inr.inr.inr.inr.inr =>
    rw [hwx, hwy]
    apply Nat.add_lt_add_right
    apply normalized_mono hpx _ hfy
    rwa [hx, hy, hex, hey, Nat.add_lt_add_iff_left] at h
  all_goals
    rw [hwx, hwy]
    simp only [Precision.exponentWeight, Precision.fractionBits] at *
    omega

theorem widenedMagnitude_inj :
    x.widenedMagnitude = y.widenedMagnitude ↔ x.magnitude = y.magnitude := by
  constructor
  · intro h
    rcases Nat.lt_trichotomy x.magnitude y.magnitude with hlt | heq | hlt
    · exact absurd h (widenedMagnitude_lt hlt).ne
    · exact heq
    · exact absurd h (widenedMagnitude_lt hlt).ne'
  · intro h
    rw [widenedMagnitude, exponentField_congr h, fractionField_congr h, widenedMagnitude]

/-! ## Parts of a widened number -/

theorem widenedMagnitude_lt_signWeight (x : Binary32) :
    x.widenedMagnitude < double.signWeight := by
  have hf := x.fractionField_lt
  have hw := x.widenedMagnitude_cases
  simp only [Precision.signWeight, Precision.exponentWeight, Precision.exponentBits,
    Precision.fractionBits] at hf hw ⊢
  omega

theorem parts_widen (x : Binary32) :
    x.widen.negative = x.negative ∧ x.widen.magnitude = x.widenedMagnitude := by
  have hlt := x.widenedMagnitude_lt_signWeight
  have hsize : (if x.negative then double.signWeight else 0) + x.widenedMagnitude < 2 ^ 64 := by
    simp only [Precision.signWeight, Precision.exponentBits, Precision.fractionBits] at hlt ⊢
    split <;> omega
  exact parts_of_toNat hlt (UInt64.toNat_ofNat_of_lt' hsize)

@[simp] theorem widen_negative (x : Binary32) : x.widen.negative = x.negative := x.parts_widen.1

@[simp] theorem widen_magnitude (x : Binary32) : x.widen.magnitude = x.widenedMagnitude :=
  x.parts_widen.2

@[simp] theorem widen_isZero (x : Binary32) : x.widen.isZero = x.isZero := by
  have hx := x.magnitude_eq_fields
  rw [isZero, isZero, widen_magnitude, decide_eq_decide]
  have hw := x.widenedMagnitude_cases
  simp only [Precision.exponentWeight, Precision.fractionBits] at hx hw
  omega

@[simp] theorem widen_isNaN (x : Binary32) : x.widen.isNaN = x.isNaN := by
  have hf := x.fractionField_lt
  rw [Bool.eq_iff_iff, isNaN_iff (x := x), isNaN, widen_magnitude, decide_eq_true_eq]
  have hw := x.widenedMagnitude_cases
  simp only [Precision.infinity, Precision.lastExponent, Precision.exponentWeight,
    Precision.exponentBits, Precision.fractionBits] at hf hw ⊢
  omega

/-! ## Equality -/

theorem widen_inj : x.widen = y.widen ↔ x = y := by
  constructor
  · intro h
    have hsign := congrArg negative h
    have hmagnitude := congrArg magnitude h
    rw [widen_negative, widen_negative] at hsign
    rw [widen_magnitude, widen_magnitude, widenedMagnitude_inj] at hmagnitude
    exact eq_iff.mpr ⟨hsign, hmagnitude⟩
  · exact congrArg widen

/-- Numbers are equal just when they are so widened. -/
theorem widen_beq (x y : Binary32) : (x.widen == y.widen) = (x == y) := by
  rw [Bool.eq_iff_iff, beq_iff, beq_iff]
  simp only [widen_isNaN, widen_isZero, widen_inj]

end Marshal.Binary

namespace Marshal.Cartesian

/-- Complex numbers are equal just when they are so widened. -/
theorem map_widen_beq (z w : Cartesian Binary32) :
    (z.map Binary.widen == w.map Binary.widen) = (z == w) := by
  rw [Bool.eq_iff_iff, beq_iff, beq_iff]
  simp only [map, Binary.widen_beq]

end Marshal.Cartesian
