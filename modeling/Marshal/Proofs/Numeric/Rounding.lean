import Mathlib.Algebra.Order.Field.Power
import Mathlib.Data.Rat.Cast.Order
import Mathlib.Tactic.Linarith
import Mathlib.Tactic.NormNum
import Mathlib.Tactic.Positivity
import Mathlib.Tactic.Ring
import Marshal.Numeric.Shortest
import Marshal.Proofs.Numeric.Fields

/-!
# Decimals that read back

The decimals that read back as a number fill an interval (`Rounding.Contains`), and no
decimal is in the intervals of two numbers (`Binary.magnitude_eq_of_contains`).  The interval
of a number ends where that of the next one starts, and only one of the two has an even
significand, so only one of them contains the end.

The search for the shortest decimal answers one in the interval
(`Binary.contains_shortest`).  Whatever it finds on its way lies there, and the last grid
that it tries is so fine that the neighbour below the number lies there as well.
-/

namespace Marshal

/-- The number that a decimal writes. -/
def Decimal.value (d : Decimal) : ℚ := d.digits * 10 ^ d.exponent

/-- A power becomes a whole number when its negative part is multiplied away. -/
theorem zpow_mul_pow_toNat {b : ℚ} (hb : b ≠ 0) (k : ℤ) :
    b ^ k * b ^ (-k).toNat = b ^ k.toNat := by
  rw [← zpow_natCast, ← zpow_natCast, ← zpow_add₀ hb]
  congr 1
  omega

namespace Rounding

variable {r : Rounding} {x : ℚ} {k : ℤ} {n tries : ℕ}

/-- Whether a number lies in the interval. -/
def Contains (r : Rounding) (x : ℚ) : Prop :=
  if r.closed then (r.lower : ℚ) ≤ x * r.unit ∧ x * r.unit ≤ r.upper
  else (r.lower : ℚ) < x * r.unit ∧ x * r.unit < r.upper

/-! ## Points of a grid -/

theorem admits_iff : r.admits n ↔ r.Contains n := by
  unfold admits Contains
  cases r.closed <;> simp <;> norm_cast

theorem cast_onGrid_unit (r : Rounding) (k : ℤ) :
    ((r.onGrid k).unit : ℚ) = r.unit * 10 ^ k * 10 ^ (-k).toNat := by
  have hpow : (10 : ℚ) ^ k * 10 ^ (-k).toNat = 10 ^ k.toNat := zpow_mul_pow_toNat (by norm_num) k
  show ((r.unit * 10 ^ k.toNat : ℕ) : ℚ) = _
  push_cast
  rw [mul_assoc, hpow]

/-- The grid of `10 ^ k` has `x` where the interval has `x * 10 ^ k`. -/
theorem contains_onGrid : (r.onGrid k).Contains x ↔ r.Contains (x * 10 ^ k) := by
  have hpos : (0 : ℚ) < 10 ^ (-k).toNat := by positivity
  have hscaled : x * ((r.onGrid k).unit : ℚ) = x * 10 ^ k * r.unit * 10 ^ (-k).toNat := by
    rw [cast_onGrid_unit]
    ring
  have hlower : ((r.onGrid k).lower : ℚ) = r.lower * 10 ^ (-k).toNat := by
    show ((r.lower * 10 ^ (-k).toNat : ℕ) : ℚ) = _
    push_cast
    rfl
  have hupper : ((r.onGrid k).upper : ℚ) = r.upper * 10 ^ (-k).toNat := by
    show ((r.upper * 10 ^ (-k).toNat : ℕ) : ℚ) = _
    push_cast
    rfl
  unfold Contains
  rw [hscaled, hlower, hupper]
  simp only [mul_le_mul_iff_of_pos_right hpos, mul_lt_mul_iff_of_pos_right hpos]
  rfl

theorem admits_of_neighbour? (h : r.neighbour? = some n) : r.admits n := by
  unfold neighbour? at h
  dsimp only at h
  split at h
  · split at h <;> (obtain rfl := Option.some.inj h; assumption)
  · obtain rfl := Option.some.inj h
    assumption
  · obtain rfl := Option.some.inj h
    assumption
  · exact nomatch h

/-- The neighbour below lies in the interval if a step of the grid fits under the number. -/
theorem admits_below (hstep : (r.lower + r.unit * 10 ^ k : ℚ) ≤ r.value)
    (hupper : r.value < r.upper) (hunit : 0 < r.unit) :
    (r.onGrid k).admits ((r.onGrid k).value / (r.onGrid k).unit) := by
  have hpos : 0 < 10 ^ (-k).toNat := by positivity
  have hlower : (r.onGrid k).lower + (r.onGrid k).unit ≤ (r.onGrid k).value := by
    have hscaled : (r.lower * 10 ^ (-k).toNat + (r.onGrid k).unit : ℚ) ≤
        r.value * 10 ^ (-k).toNat := by
      rw [cast_onGrid_unit, ← add_mul]
      exact mul_le_mul_of_nonneg_right hstep (by positivity)
    show r.lower * 10 ^ (-k).toNat + _ ≤ r.value * 10 ^ (-k).toNat
    exact_mod_cast hscaled
  have habove : (r.onGrid k).value < (r.onGrid k).upper := Nat.mul_lt_mul_of_pos_right hupper hpos
  have hsteps : 0 < (r.onGrid k).unit := Nat.mul_pos hunit (Nat.pow_pos (by decide))
  have hbelow := Nat.div_mul_le_self (r.onGrid k).value (r.onGrid k).unit
  have hnext := Nat.lt_div_mul_add (a := (r.onGrid k).value) hsteps
  unfold admits
  split <;> exact decide_eq_true ⟨by omega, by omega⟩

/-- If a step of the last grid fits between the lower end and the number, the search answers a
decimal of the interval. -/
theorem contains_search (hstep : (r.lower + r.unit * 10 ^ (k - tries) : ℚ) ≤ r.value)
    (hupper : r.value < r.upper) (hunit : 0 < r.unit) :
    r.Contains (r.search tries k).value := by
  induction tries generalizing k with
  | zero =>
      rw [Nat.cast_zero, sub_zero] at hstep
      exact contains_onGrid.mp (admits_iff.mp (admits_below hstep hupper hunit))
  | succ tries ih =>
      rw [search]
      split
      · next digits hfound =>
        exact contains_onGrid.mp (admits_iff.mp (admits_of_neighbour? hfound))
      · apply ih
        rw [Nat.cast_succ, add_comm (tries : ℤ), ← sub_sub] at hstep
        exact hstep

end Rounding

namespace Binary

open Precision (double)

variable {x y : Binary64} {q : ℚ}

/-! ## Significands -/

/-- The exponent field, where subnormal numbers have that of the smallest normal ones. -/
def place (x : Binary64) : ℕ := max x.exponentField 1

/-- The absolute value of a finite number. -/
def value (x : Binary64) : ℚ := x.significand * 2 ^ x.scale

theorem scale_eq (x : Binary64) : x.scale = (x.place : ℤ) - 1075 := rfl

theorem significand_lt (x : Binary64) : x.significand < 2 * double.exponentWeight := by
  have hfraction := x.fractionField_lt
  unfold significand
  split <;> omega

/-- Above the smallest normal numbers the leading bit is set. -/
theorem le_significand (h : 1 < x.place) : double.exponentWeight ≤ x.significand := by
  unfold place at h
  unfold significand
  rw [if_neg (by omega)]
  omega

/-- The pattern of a number counts its significand from that of its place. -/
theorem magnitude_eq_place (x : Binary64) :
    x.magnitude = (x.place - 1) * double.exponentWeight + x.significand := by
  rw [x.magnitude_eq_fields, place, significand]
  split
  · next hzero =>
    rw [hzero]
    rfl
  · next hpos =>
    have hmax : max x.exponentField 1 - 1 + 1 = x.exponentField := by omega
    rw [← Nat.add_assoc, ← Nat.succ_mul, Nat.succ_eq_add_one, hmax]

theorem place_le (h : x.isFinite) : x.place ≤ 2046 := by
  have hlt : x.exponentField < 2047 := isFinite_iff.mp h
  unfold place
  omega

/-! ## The interval of a number -/

/-- The lower end, counted in quarters of the lowest bit of the significand. -/
def lowerQuarters (x : Binary64) : ℕ :=
  if x.fractionField = 0 ∧ 1 < x.exponentField then 4 * x.significand - 1
  else 4 * x.significand - 2

/-- A quarter of the lowest bit of the significand. -/
def quarter (x : Binary64) : ℚ := 2 ^ (x.scale - 2)

theorem quarter_pos (x : Binary64) : 0 < x.quarter := by
  unfold quarter
  positivity

theorem rounding_unit_pos (x : Binary64) : 0 < x.rounding.unit := by
  show 0 < 1 <<< (2 - x.scale).toNat
  rw [Nat.one_shiftLeft]
  exact Nat.two_pow_pos _

/-- The ends of the interval and the number are so many quarters. -/
theorem cast_quarters (x : Binary64) (n : ℕ) :
    ((n <<< (x.scale - 2).toNat : ℕ) : ℚ) = n * x.quarter * x.rounding.unit := by
  have hunit : (x.rounding.unit : ℚ) = 2 ^ (-(x.scale - 2)).toNat := by
    show ((1 <<< (2 - x.scale).toNat : ℕ) : ℚ) = _
    rw [Nat.one_shiftLeft, neg_sub]
    push_cast
    rfl
  rw [hunit, mul_assoc, quarter, zpow_mul_pow_toNat (by norm_num), Nat.shiftLeft_eq]
  push_cast
  rfl

theorem lower_rounding (x : Binary64) :
    (x.rounding.lower : ℚ) = x.lowerQuarters * x.quarter * x.rounding.unit :=
  x.cast_quarters x.lowerQuarters

theorem upper_rounding (x : Binary64) :
    (x.rounding.upper : ℚ) = (4 * x.significand + 2) * x.quarter * x.rounding.unit := by
  have hcast := x.cast_quarters (4 * x.significand + 2)
  push_cast at hcast
  exact hcast

theorem value_rounding (x : Binary64) :
    (x.rounding.value : ℚ) = 4 * x.significand * x.quarter * x.rounding.unit := by
  have hcast := x.cast_quarters (4 * x.significand)
  push_cast at hcast
  exact hcast

theorem contains_rounding : x.rounding.Contains q ↔
    if x.significand % 2 = 0 then
      x.lowerQuarters * x.quarter ≤ q ∧ q ≤ (4 * x.significand + 2) * x.quarter
    else x.lowerQuarters * x.quarter < q ∧ q < (4 * x.significand + 2) * x.quarter := by
  have hunit : (0 : ℚ) < x.rounding.unit := Nat.cast_pos.mpr x.rounding_unit_pos
  have hclosed : x.rounding.closed = decide (x.significand % 2 = 0) := rfl
  unfold Rounding.Contains
  rw [hclosed, lower_rounding, upper_rounding]
  simp only [mul_le_mul_iff_of_pos_right hunit, mul_lt_mul_iff_of_pos_right hunit,
    decide_eq_true_eq]

/-- The ends themselves read back only if the significand is even. -/
theorem bounds_of_contains (h : x.rounding.Contains q) :
    x.lowerQuarters * x.quarter ≤ q ∧ q ≤ (4 * x.significand + 2) * x.quarter ∧
      (x.significand % 2 = 1 →
        x.lowerQuarters * x.quarter < q ∧ q < (4 * x.significand + 2) * x.quarter) := by
  rw [contains_rounding] at h
  split at h
  · exact ⟨h.1, h.2, fun hodd => by omega⟩
  · exact ⟨h.1.le, h.2.le, fun _ => h⟩

theorem lowerQuarters_le (x : Binary64) : x.lowerQuarters ≤ 4 * x.significand := by
  unfold lowerQuarters
  split <;> omega

/-- A number lies in its own interval. -/
theorem contains_value (x : Binary64) : x.rounding.Contains x.value := by
  have hvalue : x.value = 4 * x.significand * x.quarter := by
    have hscale : (2 : ℚ) ^ x.scale = 2 ^ (x.scale - 2) * 4 := by
      rw [show x.scale = x.scale - 2 + 2 by ring, zpow_add₀ (by norm_num)]
      norm_num
    rw [value, quarter, hscale]
    ring
  have hlower : (x.lowerQuarters : ℚ) ≤ 4 * x.significand := by exact_mod_cast x.lowerQuarters_le
  rw [contains_rounding, hvalue]
  split
  · constructor
    · exact mul_le_mul_of_nonneg_right hlower x.quarter_pos.le
    · exact mul_le_mul_of_nonneg_right (by linarith) x.quarter_pos.le
  · next hodd =>
    have hlt : (x.lowerQuarters : ℚ) < 4 * x.significand := by
      have hnat : x.lowerQuarters < 4 * x.significand := by
        unfold lowerQuarters
        split <;> omega
      exact_mod_cast hnat
    constructor
    · exact mul_lt_mul_of_pos_right hlt x.quarter_pos
    · exact mul_lt_mul_of_pos_right (by linarith) x.quarter_pos

/-! ## Disjoint intervals -/

/-- Above a number of the same place, the intervals meet only between neighbours. -/
theorem ends_of_same_place (hplace : x.place = y.place) (hlt : x.significand < y.significand) :
    (4 * x.significand + 2) * x.quarter ≤ y.lowerQuarters * y.quarter ∧
      ((4 * x.significand + 2) * x.quarter = y.lowerQuarters * y.quarter →
        x.significand % 2 = 1 ∨ y.significand % 2 = 1) := by
  have hquarter : x.quarter = y.quarter := by rw [quarter, quarter, scale_eq, scale_eq, hplace]
  have hlower : y.lowerQuarters = 4 * y.significand - 1 ∨
      y.lowerQuarters = 4 * y.significand - 2 := by
    unfold lowerQuarters
    split <;> simp
  rw [hquarter]
  constructor
  · have hle : 4 * x.significand + 2 ≤ y.lowerQuarters := by omega
    exact mul_le_mul_of_nonneg_right (by exact_mod_cast hle) y.quarter_pos.le
  · intro hmeet
    have heq : (4 * x.significand + 2 : ℚ) = y.lowerQuarters :=
      mul_right_cancel₀ y.quarter_pos.ne' hmeet
    have hnat : 4 * x.significand + 2 = y.lowerQuarters := by exact_mod_cast heq
    omega

/-- Above a number of a lower place, the intervals meet only where the last number of a place
comes before the first one of the next. -/
theorem ends_of_lower_place (hplace : x.place < y.place) :
    (4 * x.significand + 2) * x.quarter ≤ y.lowerQuarters * y.quarter ∧
      ((4 * x.significand + 2) * x.quarter = y.lowerQuarters * y.quarter →
        x.significand % 2 = 1) := by
  have hpos := x.quarter_pos
  have hquarter : 2 * x.quarter ≤ y.quarter := by
    rw [quarter, quarter, ← zpow_one_add₀ (by norm_num), scale_eq, scale_eq]
    exact zpow_le_zpow_right₀ (by norm_num) (by omega)
  have hsignificand := x.significand_lt
  have hone : 1 < y.place := by
    have : 1 ≤ x.place := le_max_right _ _
    omega
  have hlower : 4 * double.exponentWeight - 1 ≤ y.lowerQuarters := by
    have hle := le_significand hone
    have hfields : y.significand = double.exponentWeight + y.fractionField := by
      unfold place at hone
      unfold significand
      exact if_neg (by omega)
    unfold place at hone
    unfold lowerQuarters
    split <;> omega
  -- in quarters of the lower number, the end of its interval and the start of the other one
  have hstart : (8 * double.exponentWeight - 2) * x.quarter ≤ y.lowerQuarters * y.quarter := by
    have hcast : (4 * double.exponentWeight - 1 : ℚ) ≤ y.lowerQuarters := by
      have hnat : 4 * double.exponentWeight ≤ y.lowerQuarters + 1 := by omega
      have : (4 * double.exponentWeight : ℚ) ≤ y.lowerQuarters + 1 := by exact_mod_cast hnat
      linarith
    have hnonneg : (0 : ℚ) ≤ 4 * double.exponentWeight - 1 := by
      have hweight : (1 : ℚ) ≤ double.exponentWeight := by exact_mod_cast double.exponentWeight_pos
      linarith
    calc (8 * double.exponentWeight - 2) * x.quarter
        = (4 * double.exponentWeight - 1) * (2 * x.quarter) := by ring
      _ ≤ y.lowerQuarters * y.quarter := mul_le_mul hcast hquarter (by linarith) (by positivity)
  constructor
  · refine le_trans (mul_le_mul_of_nonneg_right ?_ hpos.le) hstart
    have hnat : x.significand + 1 ≤ 2 * double.exponentWeight := hsignificand
    have : (x.significand : ℚ) + 1 ≤ 2 * double.exponentWeight := by exact_mod_cast hnat
    linarith
  · intro hmeet
    have hge : (8 * double.exponentWeight - 2 : ℚ) ≤ 4 * x.significand + 2 :=
      le_of_mul_le_mul_right (hstart.trans hmeet.ge) hpos
    have hnat : 2 * double.exponentWeight ≤ x.significand + 1 := by
      have : (2 * double.exponentWeight : ℚ) ≤ x.significand + 1 := by linarith
      exact_mod_cast this
    omega

theorem not_contains_of_lt (hlt : x.magnitude < y.magnitude) (hx : x.rounding.Contains q) :
    ¬ y.rounding.Contains q := by
  intro hy
  obtain ⟨-, hupper, hxodd⟩ := bounds_of_contains hx
  obtain ⟨hlower, -, hyodd⟩ := bounds_of_contains hy
  have hends : (4 * x.significand + 2) * x.quarter ≤ y.lowerQuarters * y.quarter ∧
      ((4 * x.significand + 2) * x.quarter = y.lowerQuarters * y.quarter →
        x.significand % 2 = 1 ∨ y.significand % 2 = 1) := by
    rcases Nat.lt_trichotomy x.place y.place with hless | heq | hmore
    · exact (ends_of_lower_place hless).imp_right fun h hmeet => .inl (h hmeet)
    · apply ends_of_same_place heq
      rw [x.magnitude_eq_place, y.magnitude_eq_place, heq] at hlt
      omega
    · exfalso
      have hge := le_significand (lt_of_le_of_lt (le_max_right _ _) hmore)
      have hsignificand := y.significand_lt
      have hone : 1 ≤ y.place := le_max_right _ _
      rw [x.magnitude_eq_place, y.magnitude_eq_place] at hlt
      have hplaces : (y.place - 1) * double.exponentWeight + double.exponentWeight ≤
          (x.place - 1) * double.exponentWeight := by
        rw [← Nat.succ_mul]
        exact Nat.mul_le_mul_right _ (by omega)
      omega
  -- what is in both intervals is an end of both
  have hmeet := le_antisymm hends.1 (hlower.trans hupper)
  rcases hends.2 hmeet with hodd | hodd
  · exact absurd hlower (not_le.mpr ((hxodd hodd).2.trans_le hends.1))
  · exact absurd hupper (not_le.mpr (hends.1.trans_lt (hyodd hodd).1))

/-- No decimal reads back as two numbers. -/
theorem magnitude_eq_of_contains (hx : x.rounding.Contains q) (hy : y.rounding.Contains q) :
    x.magnitude = y.magnitude := by
  rcases Nat.lt_trichotomy x.magnitude y.magnitude with hlt | heq | hlt
  · exact absurd hy (not_contains_of_lt hlt hx)
  · exact heq
  · exact absurd hx (not_contains_of_lt hlt hy)

/-! ## The search -/

/-- A power of ten is small enough, by the logarithm of a power of two to five places. -/
theorem ten_zpow_le {grid scale : ℤ} (hgrid : 4096 * (grid + 22) ≤ 1233 * (52 + scale))
    (hlow : -1074 ≤ scale) (hhigh : scale ≤ 971) : (10 : ℚ) ^ grid ≤ 2 ^ (scale - 2) := by
  rcases Int.le_total 2 scale with hlarge | hsmall
  · obtain ⟨n, hn⟩ := Int.le.dest hlarge
    obtain rfl : scale = n + 2 := by omega
    rw [← pow_le_pow_iff_left₀ (by positivity) (by positivity) (by norm_num : 196 ≠ 0)]
    calc ((10 : ℚ) ^ grid) ^ 196 = 10 ^ (grid * 196) := by rw [← zpow_natCast, ← zpow_mul]; rfl
      _ ≤ 10 ^ ((59 : ℤ) * n) := zpow_le_zpow_right₀ (by norm_num) (by omega)
      _ = (10 ^ 59) ^ n := by rw [zpow_mul, zpow_natCast]; rfl
      _ ≤ (2 ^ 196) ^ n := pow_le_pow_left₀ (by positivity) (by norm_num) _
      _ = (2 ^ ((n : ℤ) + 2 - 2)) ^ 196 := by
        rw [add_sub_cancel_right, zpow_natCast, ← pow_mul, ← pow_mul, Nat.mul_comm]
  · obtain ⟨n, hn⟩ := Int.le.dest hsmall
    obtain rfl : scale = 2 - n := by omega
    rw [← pow_le_pow_iff_left₀ (by positivity) (by positivity) (by norm_num : 93 ≠ 0)]
    calc ((10 : ℚ) ^ grid) ^ 93 = 10 ^ (grid * 93) := by rw [← zpow_natCast, ← zpow_mul]; rfl
      _ ≤ 10 ^ ((28 : ℤ) * -n) := zpow_le_zpow_right₀ (by norm_num) (by omega)
      _ = ((10 ^ 28) ^ n)⁻¹ := by rw [zpow_mul, zpow_neg, zpow_natCast]; rfl
      _ ≤ ((2 ^ 93) ^ n)⁻¹ := by
        apply inv_anti₀ (by positivity)
        exact pow_le_pow_left₀ (by positivity) (by norm_num) _
      _ = (2 ^ (2 - (n : ℤ) - 2)) ^ 93 := by
        rw [show (2 : ℤ) - n - 2 = -n by ring, zpow_neg, zpow_natCast, inv_pow, ← pow_mul,
          ← pow_mul, Nat.mul_comm]

/-- The grid on which the search starts. -/
def coarsest (x : Binary64) : ℤ := (x.significand.log2 + x.scale) * 1233 / 4096 + 2

/-- A step of the last grid that is tried is at most a quarter of the lowest bit. -/
theorem ten_zpow_finest_le (hfinite : x.isFinite) :
    (10 : ℚ) ^ (x.coarsest - (24 : ℕ)) ≤ x.quarter := by
  have hplace : 1 ≤ x.place := le_max_right _ _
  have hplace' := place_le hfinite
  have hlog : x.significand.log2 ≤ 52 := by
    rcases Nat.eq_zero_or_pos x.significand with hzero | hpos
    · rw [hzero]
      decide
    · exact Nat.le_of_lt_succ ((Nat.log2_lt hpos.ne').mpr x.significand_lt)
  unfold quarter coarsest
  rw [scale_eq]
  apply ten_zpow_le <;> omega

theorem significand_pos (hzero : x.isZero = false) : 0 < x.significand := by
  have hplace := x.magnitude_eq_place
  rw [isZero, decide_eq_false_iff_not] at hzero
  rcases Nat.lt_or_ge 1 x.place with hnormal | hsubnormal
  · exact lt_of_lt_of_le (by decide) (le_significand hnormal)
  · rw [Nat.sub_eq_zero_of_le hsubnormal] at hplace
    omega

/-- The shortest decimal of a number reads back as it. -/
theorem contains_shortest (hfinite : x.isFinite) (hzero : x.isZero = false) :
    x.rounding.Contains x.shortest.value := by
  have hsignificand := significand_pos hzero
  have hunit : (0 : ℚ) < x.rounding.unit := Nat.cast_pos.mpr x.rounding_unit_pos
  have hpos := x.quarter_pos
  have hstep : (x.rounding.lower + x.rounding.unit * 10 ^ (x.coarsest - (24 : ℕ)) : ℚ) ≤
      x.rounding.value := by
    have hlower : (x.lowerQuarters + 1 : ℚ) ≤ 4 * x.significand := by
      have hnat : x.lowerQuarters + 1 ≤ 4 * x.significand := by
        unfold lowerQuarters
        split <;> omega
      exact_mod_cast hnat
    calc (x.rounding.lower + x.rounding.unit * 10 ^ (x.coarsest - (24 : ℕ)) : ℚ)
        ≤ x.lowerQuarters * x.quarter * x.rounding.unit + x.rounding.unit * x.quarter := by
          rw [lower_rounding]
          gcongr
          exact ten_zpow_finest_le hfinite
      _ = (x.lowerQuarters + 1) * (x.quarter * x.rounding.unit) := by ring
      _ ≤ 4 * x.significand * (x.quarter * x.rounding.unit) := by gcongr
      _ = x.rounding.value := by rw [value_rounding, ← mul_assoc]
  have hupper : x.rounding.value < x.rounding.upper := by
    have hlt : (x.rounding.value : ℚ) < x.rounding.upper := by
      rw [value_rounding, upper_rounding]
      gcongr
      linarith
    exact_mod_cast hlt
  exact Rounding.contains_search hstep hupper x.rounding_unit_pos

/-! ## Whole numbers -/

/-- The whole number that a number is, if any, is its value. -/
theorem value_eq_of_whole? {n : ℕ} (h : x.whole? = some n) : x.value = n := by
  unfold whole? at h
  split at h
  · split at h
    · next hscale =>
      obtain rfl := Option.some.inj h
      obtain ⟨k, hk⟩ := Int.eq_ofNat_of_zero_le hscale
      rw [value, hk, zpow_natCast, Int.toNat_natCast, Nat.shiftLeft_eq]
      push_cast
      rfl
    · next hscale =>
      dsimp only at h
      split at h
      · next hexact =>
        obtain rfl := Option.some.inj h
        have hpow : (2 : ℚ) ^ x.scale * 2 ^ (-x.scale).toNat = 1 := by
          rw [zpow_mul_pow_toNat (by norm_num), Int.toNat_of_nonpos (not_le.mp hscale).le, pow_zero]
        have hsignificand : (x.significand : ℚ) =
            (x.significand >>> (-x.scale).toNat : ℕ) * 2 ^ (-x.scale).toNat := by
          rw [Nat.shiftLeft_eq] at hexact
          exact_mod_cast hexact.symm
        rw [value, hsignificand, mul_assoc, mul_comm (2 ^ _ : ℚ), hpow, mul_one]
      · exact nomatch h
  · exact nomatch h

end Binary

end Marshal
