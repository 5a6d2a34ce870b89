import Marshal.Numeric.Binary

/-!
# Fields of floating-point numbers

What holds in every precision.  A number is its sign and its magnitude (`Binary.eq_iff`), and the
magnitude is the exponent field with the fraction field below it (`Binary.magnitude_eq_fields`).
Equality of numbers forgets the sign of a zero and nothing else (`Binary.eq_of_beq`), and no NaN
takes part in it.
-/

namespace Marshal

namespace Precision

variable {p : Precision}

theorem Word.toNat_lt (word : p.Word) : word.toNat < 2 * p.signWeight := by
  cases p with
  | single => exact UInt32.toNat_lt word
  | double => exact UInt64.toNat_lt word

theorem Word.toNat_inj {word word' : p.Word} (h : word.toNat = word'.toNat) : word = word' := by
  cases p with
  | single => exact UInt32.toNat.inj h
  | double => exact UInt64.toNat.inj h

theorem signWeight_pos (p : Precision) : 0 < p.signWeight := by cases p <;> decide

theorem exponentWeight_pos (p : Precision) : 0 < p.exponentWeight := by cases p <;> decide

/-- The exponent field and the fraction field fill the space below the sign. -/
theorem signWeight_eq (p : Precision) : p.signWeight = (p.lastExponent + 1) * p.exponentWeight := by
  cases p <;> rfl

theorem infinity_pos (p : Precision) : 0 < p.infinity := by cases p <;> decide

end Precision

namespace Binary

variable {p : Precision} {x y : Binary p}

/-! ## Parts of a pattern -/

theorem magnitude_lt (x : Binary p) : x.magnitude < p.signWeight := Nat.mod_lt _ p.signWeight_pos

theorem magnitude_eq_fields (x : Binary p) :
    x.magnitude = x.exponentField * p.exponentWeight + x.fractionField :=
  (Nat.div_add_mod' x.magnitude p.exponentWeight).symm

theorem fractionField_lt (x : Binary p) : x.fractionField < p.exponentWeight :=
  Nat.mod_lt _ p.exponentWeight_pos

theorem exponentField_le (x : Binary p) : x.exponentField ≤ p.lastExponent := by
  have hlt := x.magnitude_lt
  rw [p.signWeight_eq] at hlt
  exact Nat.le_of_lt_succ (Nat.div_lt_of_lt_mul (Nat.mul_comm _ _ ▸ hlt))

theorem toNat_bits (x : Binary p) :
    x.bits.toNat = (if x.negative then p.signWeight else 0) + x.magnitude := by
  have hlt := x.bits.toNat_lt
  unfold negative magnitude
  by_cases hsign : p.signWeight ≤ x.bits.toNat
  · rw [decide_eq_true hsign, if_pos rfl, Nat.mod_eq_sub_mod hsign, Nat.mod_eq_of_lt (by omega)]
    omega
  · rw [decide_eq_false hsign, if_neg nofun, Nat.mod_eq_of_lt (by omega), Nat.zero_add]

/-- The parts can be read off a pattern that is put together from them. -/
theorem parts_of_toNat {negative : Bool} {magnitude : Nat} (hlt : magnitude < p.signWeight)
    (h : x.bits.toNat = (if negative then p.signWeight else 0) + magnitude) :
    x.negative = negative ∧ x.magnitude = magnitude := by
  unfold Binary.negative Binary.magnitude
  rw [h]
  cases negative with
  | true =>
      rw [if_pos rfl, Nat.add_mod_left, Nat.mod_eq_of_lt hlt]
      exact ⟨decide_eq_true (Nat.le_add_right _ _), rfl⟩
  | false =>
      rw [if_neg nofun, Nat.zero_add, Nat.mod_eq_of_lt hlt]
      exact ⟨decide_eq_false (Nat.not_le_of_lt hlt), rfl⟩

/-- A pattern is a sign and what is left without it. -/
theorem eq_iff : x = y ↔ x.negative = y.negative ∧ x.magnitude = y.magnitude := by
  constructor
  · rintro rfl
    exact ⟨rfl, rfl⟩
  · rintro ⟨hsign, hmagnitude⟩
    have hbits : x.bits.toNat = y.bits.toNat := by
      rw [toNat_bits, toNat_bits, hsign, hmagnitude]
    cases x
    cases y
    exact congrArg mk (Precision.Word.toNat_inj hbits)

theorem exponentField_congr (h : x.magnitude = y.magnitude) :
    x.exponentField = y.exponentField := by
  rw [exponentField, h, exponentField]

theorem fractionField_congr (h : x.magnitude = y.magnitude) :
    x.fractionField = y.fractionField := by
  rw [fractionField, h, fractionField]

/-! ## Sorts of numbers -/

theorem isNaN_iff : x.isNaN = true ↔ x.exponentField = p.lastExponent ∧ 0 < x.fractionField := by
  have hfraction := x.fractionField_lt
  rw [isNaN, decide_eq_true_eq, magnitude_eq_fields, Precision.infinity]
  rcases Nat.eq_or_lt_of_le x.exponentField_le with hlast | hlt
  · rw [hlast]
    omega
  · have hweight := Nat.mul_le_mul_right p.exponentWeight hlt
    rw [Nat.succ_mul] at hweight
    omega

theorem isFinite_iff : x.isFinite = true ↔ x.exponentField < p.lastExponent := by
  have hfraction := x.fractionField_lt
  rw [isFinite, decide_eq_true_eq, magnitude_eq_fields, Precision.infinity]
  rcases Nat.lt_or_ge x.exponentField p.lastExponent with hlt | hge
  · have hweight := Nat.mul_le_mul_right p.exponentWeight hlt
    rw [Nat.succ_mul] at hweight
    omega
  · have hweight := Nat.mul_le_mul_right p.exponentWeight hge
    omega

theorem isFinite_of_not (hnan : x.isNaN = false) (hinfinite : x.isInfinite = false) :
    x.isFinite := by
  rw [isNaN, decide_eq_false_iff_not] at hnan
  rw [isInfinite, decide_eq_false_iff_not] at hinfinite
  exact decide_eq_true (by omega)

theorem isFinite_of_isZero (h : x.isZero) : x.isFinite := by
  rw [isZero, decide_eq_true_eq] at h
  rw [isFinite, h]
  exact decide_eq_true p.infinity_pos

theorem isNaN_of_isFinite (h : x.isFinite) : x.isNaN = false := by
  rw [isFinite, decide_eq_true_eq] at h
  exact decide_eq_false (by omega)

theorem isNaN_congr (h : x.magnitude = y.magnitude) : x.isNaN = y.isNaN := by
  rw [isNaN, h, isNaN]

theorem isZero_congr (h : x.magnitude = y.magnitude) : x.isZero = y.isZero := by
  rw [isZero, h, isZero]

/-! ## Equality -/

theorem beq_iff :
    (x == y) = true ↔ x.isNaN = false ∧ y.isNaN = false ∧ (x = y ∨ x.isZero ∧ y.isZero) := by
  show (!x.isNaN && !y.isNaN && (decide (x.bits = y.bits) || (x.isZero && y.isZero))) = true ↔ _
  have hbits : x.bits = y.bits ↔ x = y := by
    cases x
    cases y
    simp
  simp [hbits, and_assoc]

/-- There are two zeros, and they are equal. -/
theorem zeros_beq : ((⟨0⟩ : Binary64) == ⟨0x8000000000000000⟩) = true := by decide

instance : PartialEquivBEq (Binary p) where
  symm h := by
    obtain ⟨hx, hy, hsame | ⟨hzero, hzero'⟩⟩ := beq_iff.mp h
    · exact beq_iff.mpr ⟨hy, hx, .inl hsame.symm⟩
    · exact beq_iff.mpr ⟨hy, hx, .inr ⟨hzero', hzero⟩⟩
  trans h h' := by
    obtain ⟨hx, -, hsame⟩ := beq_iff.mp h
    obtain ⟨-, hz, hsame'⟩ := beq_iff.mp h'
    refine beq_iff.mpr ⟨hx, hz, ?_⟩
    rcases hsame with rfl | ⟨hzero, hmiddle⟩
    · exact hsame'
    · rcases hsame' with rfl | ⟨-, hzero'⟩
      · exact .inr ⟨hzero, hmiddle⟩
      · exact .inr ⟨hzero, hzero'⟩

/-- Only zeros are equal to something else, and they have different signs. -/
theorem eq_of_beq (h : x == y) (hsign : x.negative = y.negative) : x = y := by
  obtain ⟨-, -, hsame | ⟨hzero, hzero'⟩⟩ := beq_iff.mp h
  · exact hsame
  · rw [isZero, decide_eq_true_eq] at hzero hzero'
    exact eq_iff.mpr ⟨hsign, hzero.trans hzero'.symm⟩

end Binary

end Marshal
