import Marshal.Proofs.Numeric.DecimalText
import Marshal.Proofs.Value.Equal

/-!
# Numbers spelled out

The key style writes a number as a sign and a text that `Spells` the number without its sign:
a name for what is not finite, and otherwise a numeral that reads back as the number.  So does
the text of a component of a complex key, except that a zero never has a sign.  Only NaNs share
a text (`Spells.inj`), so the text of a number tells the number (`sameUpToNaN_of_write`).

In the text of a complex key, the sign between the parts is the first one that does not follow
an `e` (`Unbroken.append_inj`), so it splits the text in one way
(`Cartesian.sameUpToNaN_of_key`).
-/

namespace Marshal

/-- Equality of numbers, where a NaN is equal to every NaN. -/
def Binary.sameUpToNaN (x y : Binary64) : Bool := x == y || (x.isNaN && y.isNaN)

/-- Whether a text has a mark that no text of a whole number has. -/
def Marked (text : List Char) : Prop := '.' ∈ text ∨ 'e' ∈ text ∨ 'n' ∈ text

instance (text : List Char) : Decidable (Marked text) := inferInstanceAs (Decidable (_ ∨ _ ∨ _))

/-- A text with a minus sign before it, or without one. -/
def signed (negative : Bool) (text : List Char) : List Char :=
  if negative then '-' :: text else text

theorem signed_append (negative : Bool) (text rest : List Char) :
    signed negative text ++ rest = signed negative (text ++ rest) := by
  cases negative <;> rfl

theorem signed_inj {a b : Bool} {text text' : List Char} (h : ∀ rest, text ≠ '-' :: rest)
    (h' : ∀ rest, text' ≠ '-' :: rest) (heq : signed a text = signed b text') :
    a = b ∧ text = text' := by
  cases a <;> cases b
  · exact ⟨rfl, heq⟩
  · exact absurd heq (h text')
  · exact absurd heq.symm (h' text)
  · exact ⟨rfl, (List.cons.inj heq).2⟩

namespace Binary

variable {x y : Binary64} {text : List Char}

/-! ## Signs -/

theorem parts_abs (x : Binary64) : x.abs.negative = false ∧ x.abs.magnitude = x.magnitude := by
  have hlt := x.magnitude_lt
  refine parts_of_toNat hlt ?_
  rw [if_neg nofun, Nat.zero_add]
  exact UInt64.toNat_ofNat_of_lt' (lt_trans hlt (by decide))

@[simp] theorem abs_negative (x : Binary64) : x.abs.negative = false := x.parts_abs.1

@[simp] theorem abs_magnitude (x : Binary64) : x.abs.magnitude = x.magnitude := x.parts_abs.2

theorem rounding_congr (h : x.magnitude = y.magnitude) : x.rounding = y.rounding := by
  rw [rounding, rounding, significand, significand, scale, scale, exponentField_congr h,
    fractionField_congr h]

/-! ## Whole numbers -/

theorem isZero_iff_significand : x.isZero ↔ x.significand = 0 := by
  constructor
  · intro h
    rw [isZero, decide_eq_true_eq] at h
    rw [significand, exponentField, fractionField, h]
    rfl
  · intro h
    by_contra hnot
    exact absurd (significand_pos (Bool.eq_false_iff.mpr hnot)) (by omega)

theorem isZero_iff_value : x.isZero ↔ x.value = 0 := by
  have hpow : (2 : ℚ) ^ x.scale ≠ 0 := by positivity
  rw [isZero_iff_significand, value, mul_eq_zero, or_iff_left hpow, Nat.cast_eq_zero]

theorem whole?_of_isZero (h : x.isZero) : x.whole? = some 0 := by
  have hsignificand := isZero_iff_significand.mp h
  have hscale : x.scale = -1074 := by
    rw [isZero, decide_eq_true_eq] at h
    rw [scale, exponentField, h]
    rfl
  rw [whole?, if_pos (isFinite_of_isZero h), hscale, hsignificand]
  rfl

theorem isFinite_of_whole? {n : ℕ} (h : x.whole? = some n) : x.isFinite := by
  unfold whole? at h
  split at h
  · assumption
  · exact nomatch h

/-! ## Spelling -/

/-- The text, which has no sign, tells the absolute value of the number. -/
inductive Spells (x : Binary64) : List Char → Prop
  | nan (h : x.isNaN) : x.Spells ['n', 'a', 'n']
  | infinite (h : x.isInfinite) : x.Spells ['i', 'n', 'f']
  | finite {text : List Char} {q : ℚ} (h : x.isFinite) (htext : DecimalText text q)
      (hcontains : x.rounding.Contains q) : x.Spells text

theorem Spells.congr (h : x.Spells text) (heq : x.magnitude = y.magnitude) : y.Spells text := by
  cases h with
  | nan h => exact .nan (isNaN_congr heq ▸ h)
  | infinite h => exact .infinite (by rwa [isInfinite, ← heq])
  | finite h htext hcontains =>
      refine .finite (by rwa [isFinite, ← heq]) htext ?_
      rwa [← rounding_congr heq]

/-- The digits of the key style write the shortest decimal, and never as a whole number. -/
theorem decimalText_digits (x : Binary64) :
    DecimalText (FloatStyle.key.digits x) x.shortest.value ∧ Marked (FloatStyle.key.digits x) := by
  have hpositional := x.shortest.parted_positional
  have hmantissa := x.shortest.parted_mantissa.mantissa
  unfold FloatStyle.digits
  dsimp only
  split
  · constructor
    · have hscaled := DecimalText.scaled hmantissa x.shortest.power
      rw [mul_assoc, ← zpow_add₀ (by norm_num), neg_add_cancel, zpow_zero, mul_one] at hscaled
      exact hscaled
    · exact .inr (.inl (by simp))
  · split
    · next whole heq =>
      rw [heq] at hpositional
      exact ⟨.plain hpositional.mantissa_zero, .inl (by simp [FloatStyle.key])⟩
    · next hfraction =>
      refine ⟨.plain hpositional.mantissa, .inl ?_⟩
      unfold pointed
      rw [if_neg]
      · simp
      · intro hempty
        exact hfraction x.shortest.positional.1
          (Prod.ext rfl (List.isEmpty_iff.mp hempty))

/-- The key style writes a sign, which a NaN has not, and a text that spells the number. -/
theorem exists_write_key (x : Binary64) : ∃ text, x.Spells text ∧ Marked text ∧
    FloatStyle.key.write x = signed (x.negative && !x.isNaN) text := by
  unfold FloatStyle.write
  split
  · next hnan =>
    refine ⟨['n', 'a', 'n'], .nan hnan, .inr (.inr (by simp)), ?_⟩
    rw [hnan, Bool.not_true, Bool.and_false]
    rfl
  · next hnan =>
    have hsigned : ∀ text, (if x.negative then ['-'] else []) ++ text =
        signed (x.negative && !x.isNaN) text := by
      intro text
      rw [Bool.eq_false_iff.mpr hnan, Bool.not_false, Bool.and_true]
      cases x.negative <;> rfl
    rw [hsigned]
    split
    · next hinfinite =>
      exact ⟨_, .infinite hinfinite, .inr (.inr (by simp)), rfl⟩
    · next hinfinite =>
      have hfinite := isFinite_of_not (Bool.eq_false_iff.mpr hnan) (Bool.eq_false_iff.mpr hinfinite)
      split
      · next hzero =>
        have htext : Mantissa (['0'] ++ '.' :: ['0']) (readDigits (['0'] ++ ['0']) / 10 ^ 1) :=
          .pointed (digits_zeros 1) (by simp) (digits_zeros 1)
        refine ⟨_, .finite hfinite (.plain htext) ?_, .inl (by simp), rfl⟩
        have hread : readDigits (['0'] ++ ['0']) = 0 := rfl
        have hcontains := x.contains_value
        rw [isZero_iff_value.mp hzero] at hcontains
        rw [hread, Nat.cast_zero, zero_div]
        exact hcontains
      · next hzero =>
        obtain ⟨htext, hmarked⟩ := x.decimalText_digits
        exact ⟨_, .finite hfinite htext (contains_shortest hfinite (Bool.eq_false_iff.mpr hzero)),
          hmarked, rfl⟩

/-- A component of a complex key is a sign, which a zero has not, and a text that spells it. -/
theorem exists_componentKey (x : Binary64) : ∃ text, x.Spells text ∧
    x.componentKey = signed x.belowZero text := by
  have hwrite : x.isZero = false → ∃ text, x.Spells text ∧
      FloatStyle.key.write x = signed x.belowZero text := by
    intro hzero
    obtain ⟨text, hspells, -, hwritten⟩ := x.exists_write_key
    refine ⟨text, hspells, ?_⟩
    rw [hwritten, belowZero, hzero, Bool.not_false, Bool.and_true]
  unfold componentKey
  cases hwhole : x.whole? with
  | none =>
      -- zero is a whole number
      apply hwrite
      rw [Bool.eq_false_iff]
      intro hzero
      rw [whole?_of_isZero hzero] at hwhole
      exact nomatch hwhole
  | some n =>
      dsimp only
      by_cases hsmall : x.magnitude < tenToSixteen
      · rw [if_pos hsmall]
        have hvalue := value_eq_of_whole? hwhole
        have hfinite := isFinite_of_whole? hwhole
        refine ⟨Nat.toDigits 10 n, .finite hfinite
          (.plain (.whole (digits_toDigits n) Nat.toDigits_ne_nil)) ?_, ?_⟩
        · rw [readDigits_toDigits, ← hvalue]
          exact x.contains_value
        · have hzero : x.isZero = decide (n = 0) := by
            rw [Bool.eq_iff_iff, isZero_iff_value, hvalue, Nat.cast_eq_zero, decide_eq_true_eq]
          rw [belowZero, isNaN_of_isFinite hfinite, hzero, signedDigits]
          cases x.negative with
          | false => simp [signed]
          | true =>
              rcases Nat.eq_zero_or_pos n with rfl | hpos
              · rfl
              · simp [signed, hpos, hpos.ne']
      · rw [if_neg hsmall]
        apply hwrite
        rw [isZero, decide_eq_false_iff_not]
        intro hmagnitude
        rw [hmagnitude] at hsmall
        exact hsmall (by decide)

/-- Without its sign, a component is a text that spells it. -/
theorem spells_abs_componentKey (x : Binary64) : x.Spells x.abs.componentKey := by
  obtain ⟨text, hspells, hwritten⟩ := x.abs.exists_componentKey
  rw [belowZero, abs_negative, Bool.false_and, Bool.false_and] at hwritten
  rw [hwritten]
  exact hspells.congr x.abs_magnitude

/-! ## Texts tell numbers -/

namespace Spells

variable {c : Char}

theorem exists_cons (h : x.Spells text) :
    ∃ c rest, text = c :: rest ∧ (c.isDigit ∨ c ∈ ['n', 'i']) := by
  cases h with
  | nan => exact ⟨'n', _, rfl, .inr (by simp)⟩
  | infinite => exact ⟨'i', _, rfl, .inr (by simp)⟩
  | finite _ htext =>
      obtain ⟨c, rest, rfl, hdigit⟩ := htext.exists_cons
      exact ⟨c, rest, rfl, .inl hdigit⟩

/-- No text that spells a number starts with a sign or a parenthesis. -/
theorem append_ne_cons (h : x.Spells text) (more rest : List Char) (hdigit : c.isDigit = false)
    (hname : c ∉ ['n', 'i']) : text ++ more ≠ c :: rest := by
  obtain ⟨first, tail, rfl, hfirst⟩ := h.exists_cons
  intro heq
  obtain rfl := (List.cons.inj heq).1
  rcases hfirst with hfirst | hfirst
  · rw [hdigit] at hfirst
    exact nomatch hfirst
  · exact hname hfirst

theorem ne_minus (h : x.Spells text) (rest : List Char) : text ≠ '-' :: rest := by
  rw [← List.append_nil text]
  exact h.append_ne_cons [] rest rfl (by decide)

theorem notMem_j (h : x.Spells text) : 'j' ∉ text := by
  cases h with
  | nan | infinite => decide
  | finite _ htext => exact htext.notMem rfl (by decide)

theorem unbroken (h : x.Spells text) : Unbroken text := by
  cases h with
  | nan | infinite => exact unbroken_of_forall (by simp)
  | finite _ htext => exact htext.unbroken

theorem isNaN (h : x.Spells ['n', 'a', 'n']) : x.isNaN := by
  generalize htext : ['n', 'a', 'n'] = text at h
  cases h with
  | nan h => exact h
  | infinite => exact absurd htext (by decide)
  | finite _ hdecimal =>
      obtain ⟨c, rest, rfl, hdigit⟩ := hdecimal.exists_cons
      rw [← (List.cons.inj htext).1] at hdigit
      exact nomatch hdigit

theorem isInfinite (h : x.Spells ['i', 'n', 'f']) : x.isInfinite := by
  generalize htext : ['i', 'n', 'f'] = text at h
  cases h with
  | nan => exact absurd htext (by decide)
  | infinite h => exact h
  | finite _ hdecimal =>
      obtain ⟨c, rest, rfl, hdigit⟩ := hdecimal.exists_cons
      rw [← (List.cons.inj htext).1] at hdigit
      exact nomatch hdigit

/-- Only NaNs share a text, apart from numbers that differ in their sign. -/
theorem inj (hx : x.Spells text) (hy : y.Spells text) :
    (x.isNaN ∧ y.isNaN) ∨ x.magnitude = y.magnitude := by
  cases hx with
  | nan h => exact .inl ⟨h, hy.isNaN⟩
  | infinite h =>
      have hsame := hy.isInfinite
      rw [Binary.isInfinite, decide_eq_true_eq] at h hsame
      exact .inr (h.trans hsame.symm)
  | finite _ htext hcontains =>
      cases hy with
      | nan | infinite =>
          obtain ⟨c, rest, heq, hdigit⟩ := htext.exists_cons
          rw [← (List.cons.inj heq).1] at hdigit
          exact absurd hdigit (by decide)
      | finite _ htext' hcontains' =>
          rw [← htext'.read, htext.read] at hcontains'
          exact .inr (magnitude_eq_of_contains hcontains hcontains')

/-- A text and a sign tell a number, where the sign of a NaN or of a zero does not matter. -/
theorem sameUpToNaN (hx : x.Spells text) (hy : y.Spells text)
    (hsign : x.magnitude = y.magnitude → x.isNaN = false → x.isZero = false →
      x.negative = y.negative) :
    x.sameUpToNaN y := by
  rw [Binary.sameUpToNaN, Bool.or_eq_true, Bool.and_eq_true]
  rcases hx.inj hy with hnan | hmagnitude
  · exact .inr hnan
  · have hnan := isNaN_congr hmagnitude
    have hzero := isZero_congr hmagnitude
    cases hnan' : x.isNaN with
    | true => exact .inr ⟨rfl, hnan.symm.trans hnan'⟩
    | false =>
        refine .inl (beq_iff.mpr ⟨hnan', hnan.symm.trans hnan', ?_⟩)
        cases hzero' : x.isZero with
        | true => exact .inr ⟨rfl, hzero.symm.trans hzero'⟩
        | false => exact .inl (eq_iff.mpr ⟨hsign hmagnitude hnan' hzero', hmagnitude⟩)

end Spells

/-- The text of the key style tells the number. -/
theorem sameUpToNaN_of_write (h : FloatStyle.key.write x = FloatStyle.key.write y) :
    x.sameUpToNaN y := by
  obtain ⟨text, hx, -, hwrittenx⟩ := x.exists_write_key
  obtain ⟨text', hy, -, hwritteny⟩ := y.exists_write_key
  rw [hwrittenx, hwritteny] at h
  obtain ⟨hsign, rfl⟩ := signed_inj hx.ne_minus hy.ne_minus h
  refine hx.sameUpToNaN hy fun hmagnitude hnan _ => ?_
  rw [← isNaN_congr hmagnitude, hnan, Bool.not_false, Bool.and_true, Bool.and_true] at hsign
  exact hsign

end Binary

/-! ## Complex keys -/

namespace Cartesian

variable {z w : Cartesian Binary64}

/-- The sign between the parts of a complex key. -/
def middleSign (z : Cartesian Binary64) : Char := if z.im.negative then '-' else '+'

/-- A complex key is the imaginary part alone, or both parts between parentheses. -/
theorem exists_key (z : Cartesian Binary64) : ∃ im, z.im.Spells im ∧
    ((z.re.isZero ∧ z.key = signed z.im.negative (im ++ ['j'])) ∨
      ∃ re, z.re.Spells re ∧ z.key =
        '(' :: (signed z.re.belowZero re ++ z.middleSign :: (im ++ ['j', ')']))) := by
  refine ⟨_, z.im.spells_abs_componentKey, ?_⟩
  unfold key
  dsimp only
  split
  · next hzero => exact .inl ⟨hzero.1, rfl⟩
  · obtain ⟨re, hspells, hwritten⟩ := z.re.exists_componentKey
    refine .inr ⟨re, hspells, ?_⟩
    rw [hwritten, middleSign]
    simp

theorem middleSign_mem (z : Cartesian Binary64) : z.middleSign ∈ ['+', '-'] := by
  unfold middleSign
  split <;> decide

theorem negative_of_middleSign (h : z.middleSign = w.middleSign) :
    z.im.negative = w.im.negative := by
  unfold middleSign at h
  cases hz : z.im.negative <;> cases hw : w.im.negative <;> simp_all

/-- The text of a complex key tells both parts. -/
theorem sameUpToNaN_of_key (h : z.key = w.key) :
    z.re.sameUpToNaN w.re ∧ z.im.sameUpToNaN w.im := by
  obtain ⟨im, him, hz⟩ := z.exists_key
  obtain ⟨im', him', hw⟩ := w.exists_key
  -- an imaginary part alone does not start with a parenthesis
  have hopen : ∀ {v : Cartesian Binary64} {text rest : List Char}, v.im.Spells text →
      signed v.im.negative (text ++ ['j']) ≠ '(' :: rest := by
    intro v text rest hspells
    unfold signed
    split
    · exact fun heq => absurd (List.cons.inj heq).1 (by decide)
    · exact hspells.append_ne_cons _ _ rfl (by decide)
  rcases hz with ⟨hzero, hz⟩ | ⟨re, hre, hz⟩ <;> rcases hw with ⟨hzero', hw⟩ | ⟨re', hre', hw⟩
  · rw [hz, hw] at h
    obtain ⟨hsign, htext⟩ := signed_inj
      (fun rest => him.append_ne_cons _ rest rfl (by decide))
      (fun rest => him'.append_ne_cons _ rest rfl (by decide)) h
    obtain rfl := List.append_cancel_right htext
    have hre : (z.re == w.re) = true := Binary.beq_iff.mpr ⟨
      Binary.isNaN_of_isFinite (Binary.isFinite_of_isZero hzero),
      Binary.isNaN_of_isFinite (Binary.isFinite_of_isZero hzero'), .inr ⟨hzero, hzero'⟩⟩
    exact ⟨Bool.or_eq_true_iff.mpr (.inl hre), him.sameUpToNaN him' fun _ _ _ => hsign⟩
  · exact absurd (hz.symm.trans (h.trans hw)) (hopen him)
  · exact absurd (hw.symm.trans (h.symm.trans hz)) (hopen him')
  · rw [hz, hw, signed_append, signed_append] at h
    obtain ⟨hsign, hparts⟩ := signed_inj
      (fun rest => hre.append_ne_cons _ rest rfl (by decide))
      (fun rest => hre'.append_ne_cons _ rest rfl (by decide)) (List.cons.inj h).2
    obtain ⟨rfl, hmiddle, htext⟩ :=
      hre.unbroken.append_inj hre'.unbroken z.middleSign_mem w.middleSign_mem hparts
    obtain rfl := List.append_cancel_right htext
    constructor
    · refine hre.sameUpToNaN hre' fun hmagnitude hnan hzero => ?_
      rw [Binary.belowZero, Binary.belowZero, ← Binary.isNaN_congr hmagnitude,
        ← Binary.isZero_congr hmagnitude, hnan, hzero] at hsign
      simpa using hsign
    · exact him.sameUpToNaN him' fun _ _ _ => negative_of_middleSign hmiddle

end Cartesian

end Marshal
