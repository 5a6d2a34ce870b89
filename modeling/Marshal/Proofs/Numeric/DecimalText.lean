import Mathlib.Data.List.TakeWhile
import Mathlib.Tactic.FieldSimp
import Marshal.Numeric.Written
import Marshal.Proofs.Numeric.Rounding

/-!
# Decimal texts

A `DecimalText` is a text without a sign that writes a number: digits, possibly with a point
among them, and possibly with an exponent.  `readDecimal` reads it (`DecimalText.read`), so a
text writes one number.  Signs stand in such a text only after an `e`, so another sign marks
its end (`Unbroken.append_inj`).

The layouts of a decimal are such texts and write its value (`Decimal.parted_positional`,
`Decimal.parted_mantissa`).
-/

namespace Marshal

/-! ## Reading -/

/-- The text before the first `stop` and the text after it. -/
def cutAt (stop : Char) (text : List Char) : List Char × List Char :=
  (text.takeWhile (· ≠ stop), (text.dropWhile (· ≠ stop)).tail)

/-- The number that a run of digits writes. -/
def readDigits (text : List Char) : ℕ := Nat.ofDigitChars 10 text 0

/-- The number that digits with at most one point write. -/
def readMantissa (text : List Char) : ℚ :=
  readDigits ((cutAt '.' text).1 ++ (cutAt '.' text).2) / 10 ^ (cutAt '.' text).2.length

/-- The integer that a sign and digits write. -/
def readExponent : List Char → ℤ
  | [] => 0
  | sign :: digits => if sign = '-' then -readDigits digits else readDigits digits

/-- The number that a text without a sign writes. -/
def readDecimal (text : List Char) : ℚ :=
  readMantissa (cutAt 'e' text).1 * 10 ^ readExponent (cutAt 'e' text).2

section Cut

variable {stop : Char} {text before after : List Char}

theorem cutAt_of_notMem (h : stop ∉ text) : cutAt stop text = (text, []) := by
  have hall : ∀ c ∈ text, decide (c ≠ stop) = true :=
    fun c hc => decide_eq_true fun heq => h (heq ▸ hc)
  rw [cutAt, List.takeWhile_eq_self_iff.mpr hall, List.dropWhile_eq_nil_iff.mpr hall]
  rfl

theorem cutAt_append (h : stop ∉ before) :
    cutAt stop (before ++ stop :: after) = (before, after) := by
  have hall : ∀ c ∈ before, decide (c ≠ stop) = true :=
    fun c hc => decide_eq_true fun heq => h (heq ▸ hc)
  rw [cutAt, List.takeWhile_append_of_pos hall, List.dropWhile_append_of_pos hall]
  simp

end Cut

/-! ## Grammar -/

/-- Whether a text consists of decimal digits. -/
def Digits (text : List Char) : Prop := ∀ c ∈ text, c.isDigit

/-- A text of digits, possibly with a point among them, and the number that it writes. -/
inductive Mantissa : List Char → ℚ → Prop
  | whole {digits : List Char} (h : Digits digits) (hne : digits ≠ []) :
      Mantissa digits (readDigits digits)
  | pointed {whole fraction : List Char} (hwhole : Digits whole) (hne : whole ≠ [])
      (hfraction : Digits fraction) :
      Mantissa (whole ++ '.' :: fraction)
        (readDigits (whole ++ fraction) / 10 ^ fraction.length)

/-- A text without a sign, and the number that it writes. -/
inductive DecimalText : List Char → ℚ → Prop
  | plain {text : List Char} {q : ℚ} (h : Mantissa text q) : DecimalText text q
  | scaled {text : List Char} {q : ℚ} (h : Mantissa text q) (power : ℤ) :
      DecimalText (text ++ 'e' :: FloatStyle.paddedExponent power) (q * 10 ^ power)

section DecimalText

variable {text text' digits digits' : List Char} {c : Char} {q q' : ℚ}

theorem Digits.notMem (h : Digits digits) (hc : c.isDigit = false) : c ∉ digits := by
  intro hmem
  rw [h c hmem] at hc
  exact nomatch hc

theorem Digits.append (h : Digits digits) (h' : Digits digits') : Digits (digits ++ digits') := by
  intro c hc
  rcases List.mem_append.mp hc with hmem | hmem
  · exact h c hmem
  · exact h' c hmem

theorem digits_toDigits (n : ℕ) : Digits (Nat.toDigits 10 n) :=
  fun _ hc => Nat.isDigit_of_mem_toDigits (by decide) (by decide) hc

theorem digits_zeros (n : ℕ) : Digits (List.replicate n '0') := by
  intro c hc
  rw [List.eq_of_mem_replicate hc]
  rfl

theorem readDigits_toDigits (n : ℕ) : readDigits (Nat.toDigits 10 n) = n :=
  Nat.ofDigitChars_ten_toDigits

theorem readDigits_append (digits digits' : List Char) :
    readDigits (digits ++ digits') =
      10 ^ digits'.length * readDigits digits + readDigits digits' := by
  unfold readDigits
  rw [Nat.ofDigitChars_append, Nat.ofDigitChars_eq_ofDigitChars_zero]

theorem readDigits_zeros (n : ℕ) : readDigits (List.replicate n '0') = 0 := by
  unfold readDigits
  rw [Nat.ofDigitChars_replicate_zero, Nat.mul_zero]

/-- An exponent is read from its padded text. -/
theorem readExponent_paddedExponent (n : ℤ) :
    readExponent (FloatStyle.paddedExponent n) = n := by
  have hread : ∀ zeros, readDigits (List.replicate zeros '0' ++ Nat.toDigits 10 n.natAbs) =
      n.natAbs := by
    intro zeros
    rw [readDigits_append, readDigits_zeros, Nat.mul_zero, Nat.zero_add, readDigits_toDigits]
  unfold FloatStyle.paddedExponent
  dsimp only
  rw [readExponent, hread]
  split <;> split <;> first | omega | contradiction

theorem Mantissa.notMem (h : Mantissa text q) (hc : c.isDigit = false) (hpoint : c ≠ '.') :
    c ∉ text := by
  cases h with
  | whole h => exact h.notMem hc
  | pointed hwhole _ hfraction =>
      rw [List.mem_append, List.mem_cons]
      rintro (hmem | heq | hmem)
      · exact hwhole.notMem hc hmem
      · exact hpoint heq
      · exact hfraction.notMem hc hmem

/-- A mantissa starts with a digit. -/
theorem Mantissa.exists_cons (h : Mantissa text q) : ∃ c rest, text = c :: rest ∧ c.isDigit := by
  cases h with
  | whole h hne =>
      obtain ⟨c, rest, rfl⟩ := List.exists_cons_of_ne_nil hne
      exact ⟨c, rest, rfl, h c (List.mem_cons_self ..)⟩
  | pointed hwhole hne =>
      obtain ⟨c, rest, rfl⟩ := List.exists_cons_of_ne_nil hne
      exact ⟨c, _, rfl, hwhole c (List.mem_cons_self ..)⟩

theorem DecimalText.exists_cons (h : DecimalText text q) :
    ∃ c rest, text = c :: rest ∧ c.isDigit := by
  cases h with
  | plain h => exact h.exists_cons
  | scaled h power =>
      obtain ⟨c, rest, rfl, hc⟩ := h.exists_cons
      exact ⟨c, _, rfl, hc⟩

/-- After its sign, an exponent consists of digits. -/
theorem digits_paddedExponent (n : ℤ) : Digits (FloatStyle.paddedExponent n).tail :=
  (digits_zeros _).append (digits_toDigits n.natAbs)

theorem notMem_paddedExponent {n : ℤ} (hdigit : c.isDigit = false) (hsign : c ∉ ['+', '-']) :
    c ∉ FloatStyle.paddedExponent n := by
  intro hmem
  rcases List.mem_cons.mp hmem with rfl | hmem
  · revert hsign
    split <;> decide
  · exact (digits_paddedExponent n).notMem hdigit hmem

theorem DecimalText.notMem (h : DecimalText text q) (hdigit : c.isDigit = false)
    (hmark : c ∉ ['.', 'e', '+', '-']) : c ∉ text := by
  simp only [List.mem_cons, List.not_mem_nil, or_false, not_or] at hmark
  cases h with
  | plain h => exact h.notMem hdigit hmark.1
  | scaled h power =>
      rw [List.mem_append, List.mem_cons]
      rintro (hmem | heq | hmem)
      · exact h.notMem hdigit hmark.1 hmem
      · exact hmark.2.1 heq
      · exact notMem_paddedExponent hdigit (by simp [hmark.2.2]) hmem

theorem Mantissa.read (h : Mantissa text q) : readMantissa text = q := by
  cases h with
  | whole h =>
      rw [readMantissa, cutAt_of_notMem (h.notMem rfl), List.append_nil, List.length_nil, pow_zero,
        div_one]
  | pointed hwhole => rw [readMantissa, cutAt_append (hwhole.notMem rfl)]

theorem DecimalText.read (h : DecimalText text q) : readDecimal text = q := by
  cases h with
  | plain h =>
      rw [readDecimal, cutAt_of_notMem (h.notMem rfl (by decide)), readExponent, zpow_zero,
        mul_one, h.read]
  | scaled h power =>
      rw [readDecimal, cutAt_append (h.notMem rfl (by decide)), readExponent_paddedExponent, h.read]

end DecimalText

/-! ## Signs in a text -/

/-- Every sign in the text follows an `e`, and no `e` ends it. -/
inductive Unbroken : List Char → Prop
  | nil : Unbroken []
  | cons {c : Char} {text : List Char} (h : c ∉ ['+', '-', 'e']) (htext : Unbroken text) :
      Unbroken (c :: text)
  | exponent {c : Char} {text : List Char} (htext : Unbroken text) : Unbroken ('e' :: c :: text)

section Unbroken

variable {text text' rest rest' : List Char} {s s' : Char} {q : ℚ}

theorem unbroken_of_forall (h : ∀ c ∈ text, c ∉ ['+', '-', 'e']) : Unbroken text := by
  induction text with
  | nil => exact .nil
  | cons c text ih =>
      rw [List.forall_mem_cons] at h
      exact .cons h.1 (ih h.2)

theorem Unbroken.append (h : Unbroken text) (h' : Unbroken text') : Unbroken (text ++ text') := by
  induction h with
  | nil => exact h'
  | cons hc _ ih => exact .cons hc ih
  | exponent _ ih => exact .exponent ih

theorem DecimalText.unbroken (h : DecimalText text q) : Unbroken text := by
  have hmantissa : ∀ {text q}, Mantissa text q → Unbroken text := by
    intro text q h
    refine unbroken_of_forall fun c hc hmem => ?_
    simp only [List.mem_cons, List.not_mem_nil, or_false] at hmem
    rcases hmem with rfl | rfl | rfl <;> exact h.notMem rfl (by decide) hc
  cases h with
  | plain h => exact hmantissa h
  | scaled h power =>
      refine (hmantissa h).append (.exponent (unbroken_of_forall fun c hc hmem => ?_))
      simp only [List.mem_cons, List.not_mem_nil, or_false] at hmem
      rcases hmem with rfl | rfl | rfl <;> exact (digits_paddedExponent power).notMem rfl hc

/-- The first sign that does not follow an `e` splits a text in one way. -/
theorem Unbroken.append_inj (h : Unbroken text) (h' : Unbroken text') (hs : s ∈ ['+', '-'])
    (hs' : s' ∈ ['+', '-']) (heq : text ++ s :: rest = text' ++ s' :: rest') :
    text = text' ∧ s = s' ∧ rest = rest' := by
  have hsign : ∀ {c}, c ∉ ['+', '-', 'e'] → c ∉ ['+', '-'] := fun hc hmem => by simp_all
  induction h generalizing text' with
  | nil =>
      cases h' with
      | nil => exact ⟨rfl, List.cons.inj heq⟩
      | cons hc => exact absurd ((List.cons.inj heq).1 ▸ hs) (hsign hc)
      | exponent => exact absurd ((List.cons.inj heq).1 ▸ hs) (by decide)
  | cons hc _ ih =>
      cases h' with
      | nil => exact absurd ((List.cons.inj heq).1 ▸ hs') (hsign hc)
      | cons hc' htext' =>
          obtain ⟨rfl, hrest⟩ := List.cons.inj heq
          obtain ⟨rfl, hsame⟩ := ih htext' hrest
          exact ⟨rfl, hsame⟩
      | exponent => exact absurd (List.cons.inj heq).1 fun heq => hc (by simp [heq])
  | exponent _ ih =>
      cases h' with
      | nil => exact absurd ((List.cons.inj heq).1 ▸ hs') (by decide)
      | cons hc' => exact absurd (List.cons.inj heq).1 fun heq => hc' (by simp [← heq])
      | exponent htext' =>
          simp only [List.cons_append, List.cons.injEq, true_and] at heq
          obtain ⟨rfl, hrest⟩ := heq
          obtain ⟨rfl, hsame⟩ := ih htext' hrest
          exact ⟨rfl, hsame⟩

end Unbroken

/-! ## Layouts of a decimal -/

/-- Digits before and after a point that write a number together. -/
structure Parted (parts : List Char × List Char) (q : ℚ) : Prop where
  whole : Digits parts.1
  nonempty : parts.1 ≠ []
  fraction : Digits parts.2
  value : (readDigits (parts.1 ++ parts.2) / 10 ^ parts.2.length : ℚ) = q

theorem Parted.mantissa {parts : List Char × List Char} {q : ℚ} (h : Parted parts q) :
    Mantissa (pointed parts) q := by
  obtain ⟨whole, fraction⟩ := parts
  obtain ⟨hwhole, hne, hfraction, rfl⟩ := h
  unfold pointed
  cases fraction with
  | nil =>
      simp only [List.append_nil, List.length_nil, pow_zero, div_one]
      exact .whole hwhole hne
  | cons c fraction => exact .pointed hwhole hne hfraction

/-- Where nothing follows the point, a zero may. -/
theorem Parted.mantissa_zero {whole : List Char} {q : ℚ} (h : Parted (whole, []) q) :
    Mantissa (whole ++ ['.', '0']) q := by
  obtain ⟨hwhole, hne, -, rfl⟩ := h
  have hread : (readDigits (whole ++ ['0']) / 10 ^ ['0'].length : ℚ) =
      readDigits (whole ++ []) / 10 ^ ([] : List Char).length := by
    have hzero : readDigits ['0'] = 0 := rfl
    rw [readDigits_append, hzero, List.append_nil]
    push_cast
    simp
  rw [← hread]
  exact .pointed hwhole hne (digits_zeros 1)

namespace Decimal

/-- Digits on both sides of the point, as many after it as the exponent is below zero. -/
theorem parted_positional (d : Decimal) : Parted d.positional d.value := by
  have hdigits := digits_toDigits d.digits
  have hread := readDigits_toDigits d.digits
  unfold positional
  dsimp only
  split
  · next hexponent =>
    obtain ⟨n, hn⟩ := Int.eq_ofNat_of_zero_le hexponent
    refine ⟨hdigits.append (digits_zeros _), by simp, List.forall_mem_nil _, ?_⟩
    rw [List.append_nil, readDigits_append, readDigits_zeros, hread, value, hn]
    simp [mul_comm]
  · next hexponent =>
    obtain ⟨n, hn⟩ := Int.eq_ofNat_of_zero_le (a := -d.exponent) (by omega)
    have hvalue : (d.digits / 10 ^ n : ℚ) = d.value := by
      rw [value, show d.exponent = -(n : ℤ) by omega, zpow_neg, zpow_natCast, div_eq_mul_inv]
    rw [hn, Int.toNat_natCast]
    split
    · next hless =>
      rw [List.splitAt_eq]
      refine ⟨fun c hc => hdigits c (List.mem_of_mem_take hc), ?_,
        fun c hc => hdigits c (List.mem_of_mem_drop hc), ?_⟩
      · rw [Ne, List.take_eq_nil_iff]
        simp
        omega
      · dsimp only
        rw [List.take_append_drop, List.length_drop, hread, Nat.sub_sub_self hless.le, hvalue]
    · next hmore =>
      refine ⟨digits_zeros 1, by simp, (digits_zeros _).append hdigits, ?_⟩
      have hzero : readDigits ['0'] = 0 := rfl
      dsimp only
      rw [readDigits_append, hzero, Nat.mul_zero, Nat.zero_add, readDigits_append,
        readDigits_zeros, Nat.mul_zero, Nat.zero_add, hread, List.length_append,
        List.length_replicate, Nat.sub_add_cancel (not_lt.mp hmore), hvalue]

/-- One digit before the point, which the power of the decimal moves to its place. -/
theorem parted_mantissa (d : Decimal) : Parted d.mantissa (d.value * 10 ^ (-d.power)) := by
  have hdigits := digits_toDigits d.digits
  have hread := readDigits_toDigits d.digits
  unfold mantissa power
  rw [List.splitAt_eq]
  refine ⟨fun c hc => hdigits c (List.mem_of_mem_take hc), by simp,
    fun c hc => hdigits c (List.mem_of_mem_drop hc), ?_⟩
  dsimp only
  rw [List.take_append_drop, List.length_drop, hread, value, mul_assoc, ← zpow_add₀ (by norm_num),
    div_eq_mul_inv, ← zpow_natCast, ← zpow_neg]
  have hpos : 0 < (Nat.toDigits 10 d.digits).length := Nat.length_toDigits_pos
  congr 2
  omega

end Decimal

end Marshal
