/-!
# Binary floating-point numbers

Floating-point numbers are kept as their interchange bit patterns: a sign, an
exponent field and a fraction field, read off with natural-number arithmetic.
How wide the fields are depends on the `Precision` of a number, and nothing else
does, so both precisions share what is said about fields and comparisons.

Two comparisons live side by side.  Propositional equality compares patterns;
the `BEq` instance compares numbers, so the two zeros are equal and a NaN is
equal to nothing.

Single precision embeds into double precision without rounding
(`Binary.widen`), which is how mixed comparisons are made.
-/

namespace Marshal

/-! ## Precisions -/

/-- The two interchange formats in use. -/
inductive Precision where
  | single
  | double

namespace Precision

/-- The words that hold the patterns. -/
abbrev Word : Precision → Type
  | single => UInt32
  | double => UInt64

instance : (p : Precision) → DecidableEq p.Word
  | single => inferInstanceAs (DecidableEq UInt32)
  | double => inferInstanceAs (DecidableEq UInt64)

def Word.toNat : {p : Precision} → p.Word → Nat
  | single, word => UInt32.toNat word
  | double, word => UInt64.toNat word

def exponentBits : Precision → Nat
  | single => 8
  | double => 11

def fractionBits : Precision → Nat
  | single => 23
  | double => 52

def signWeight (p : Precision) : Nat := 1 <<< (p.exponentBits + p.fractionBits)

/-- The weight of the lowest bit of the exponent. -/
def exponentWeight (p : Precision) : Nat := 1 <<< p.fractionBits

/-- The exponent field of what is infinite or not a number. -/
def lastExponent (p : Precision) : Nat := 1 <<< p.exponentBits - 1

/-- The pattern of positive infinity; whatever lies above it is a NaN. -/
def infinity (p : Precision) : Nat := p.lastExponent * p.exponentWeight

end Precision

/-! ## Fields -/

/-- A floating-point number, given by its bits. -/
structure Binary (p : Precision) where
  bits : p.Word
deriving DecidableEq

abbrev Binary32 := Binary .single

abbrev Binary64 := Binary .double

namespace Binary

section Fields

variable {p : Precision}

/-- The pattern without its sign bit.  Among numbers that are not NaN it orders
as the absolute value does. -/
def magnitude (x : Binary p) : Nat := x.bits.toNat % p.signWeight

def negative (x : Binary p) : Bool := decide (p.signWeight ≤ x.bits.toNat)

def exponentField (x : Binary p) : Nat := x.magnitude / p.exponentWeight

def fractionField (x : Binary p) : Nat := x.magnitude % p.exponentWeight

def isNaN (x : Binary p) : Bool := decide (p.infinity < x.magnitude)

def isInfinite (x : Binary p) : Bool := decide (x.magnitude = p.infinity)

def isFinite (x : Binary p) : Bool := decide (x.magnitude < p.infinity)

def isZero (x : Binary p) : Bool := decide (x.magnitude = 0)

/-- Numbers compare by value: NaN is equal to nothing and the zeros are equal. -/
instance : BEq (Binary p) where
  beq x y := !x.isNaN && !y.isNaN && (decide (x.bits = y.bits) || (x.isZero && y.isZero))

end Fields

/-! ## Double precision -/

def abs (x : Binary64) : Binary64 := ⟨UInt64.ofNat x.magnitude⟩

/-- The integer `m` of a finite number `± m * 2 ^ scale`. -/
def significand (x : Binary64) : Nat :=
  if x.exponentField = 0 then x.fractionField
  else Precision.double.exponentWeight + x.fractionField

/-- The power of two by which the significand of a finite number counts. -/
def scale (x : Binary64) : Int := (max x.exponentField 1 : Nat) - 1075

/-- The absolute value of a finite number without a fractional part. -/
def whole? (x : Binary64) : Option Nat :=
  if x.isFinite then
    if 0 ≤ x.scale then some (x.significand <<< x.scale.toNat)
    else
      let places := (-x.scale).toNat
      let whole := x.significand >>> places
      if whole <<< places = x.significand then some whole else none
  else none

/-- The pattern of `10 ^ 16`. -/
def tenToSixteen : Nat := 0x4341c37937e08000

/-- The pattern of the double nearest to `10 ^ (-4)`. -/
def tenThousandth : Nat := 0x3f1a36e2eb1c432d

/-! ## Widening -/

/-- The double-precision pattern, less its sign, of the same number.  Infinities
and NaNs keep their fraction bits; a subnormal number has a leading one at
place `k` of its fraction and becomes normal. -/
def widenedMagnitude (x : Binary32) : Nat :=
  if x.exponentField = 255 then Precision.double.infinity + x.fractionField <<< 29
  else if x.exponentField ≠ 0 then
    (x.exponentField + 896) * Precision.double.exponentWeight + x.fractionField <<< 29
  else if x.fractionField = 0 then 0
  else
    let k := x.fractionField.log2
    (k + 874) * Precision.double.exponentWeight + (x.fractionField - 1 <<< k) <<< (52 - k)

def widen (x : Binary32) : Binary64 :=
  ⟨UInt64.ofNat ((if x.negative then Precision.double.signWeight else 0) + x.widenedMagnitude)⟩

end Binary

/-- The quiet NaN with a positive sign. -/
def Binary32.nan : Binary32 := ⟨0x7fc00000⟩

/-- The quiet NaN with a positive sign, the only NaN that is ever made. -/
def Binary64.nan : Binary64 := ⟨0x7ff8000000000000⟩

end Marshal
