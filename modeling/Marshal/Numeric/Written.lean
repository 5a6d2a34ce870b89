import Marshal.Numeric.Cartesian
import Marshal.Numeric.Shortest

/-!
# Numbers as text

All texts of floating-point numbers write the shortest decimal; they differ in
a few decisions that a `FloatStyle` records.  Three styles are in use: the style
in which values are shown (`FloatStyle.shown`), the style of the components of a
complex number that is shown (`FloatStyle.plain`), and the style of dictionary
keys (`FloatStyle.key`).
-/

namespace Marshal

/-! ## Layout of digits -/

namespace Decimal

/-- The digits before and after the point when no exponent is written. -/
def positional (d : Decimal) : List Char × List Char :=
  let digits := Nat.toDigits 10 d.digits
  if 0 ≤ d.exponent then (digits ++ List.replicate d.exponent.toNat '0', [])
  else
    let places := (-d.exponent).toNat
    if places < digits.length then digits.splitAt (digits.length - places)
    else (['0'], List.replicate (places - digits.length) '0' ++ digits)

/-- The digits of the mantissa, one of them before the point. -/
def mantissa (d : Decimal) : List Char × List Char := (Nat.toDigits 10 d.digits).splitAt 1

/-- The power of ten by which the mantissa counts. -/
def power (d : Decimal) : Int := d.exponent + (Nat.toDigits 10 d.digits).length - 1

end Decimal

/-- Digits before and after a point, which goes where nothing follows it. -/
def pointed (parts : List Char × List Char) : List Char :=
  if parts.2.isEmpty then parts.1 else parts.1 ++ '.' :: parts.2

/-- The decimal digits of an integer, after a minus sign if it is negative. -/
def signedDigits (n : Int) : List Char :=
  if n < 0 then '-' :: Nat.toDigits 10 n.natAbs else Nat.toDigits 10 n.natAbs

/-! ## Styles -/

/-- The decisions in which texts of floating-point numbers differ. -/
structure FloatStyle where
  nan : String
  /-- Whether an exponent is used for numbers of `10 ^ 16` and more and for
  numbers below `10 ^ (-4)`. -/
  scientific : Bool
  /-- Whether a number without a fraction ends in `.0`. -/
  fraction : Bool
  exponent : Int → List Char

namespace FloatStyle

/-- A number of the style, other than zero and without its sign. -/
def digits (style : FloatStyle) (x : Binary64) : List Char :=
  let d := x.shortest
  let ordinary := Binary.tenThousandth ≤ x.magnitude ∧ x.magnitude < Binary.tenToSixteen
  if style.scientific ∧ ¬ordinary then
    pointed d.mantissa ++ 'e' :: style.exponent d.power
  else
    match d.positional with
    | (whole, []) => if style.fraction then whole ++ ['.', '0'] else whole
    | parts => pointed parts

def write (style : FloatStyle) (x : Binary64) : List Char :=
  if x.isNaN then style.nan.toList
  else
    (if x.negative then ['-'] else []) ++
      if x.isInfinite then ['i', 'n', 'f']
      else if x.isZero then (if style.fraction then ['0', '.', '0'] else ['0'])
      else style.digits x

/-- An exponent with a sign and at least two digits. -/
def paddedExponent (n : Int) : List Char :=
  let digits := Nat.toDigits 10 n.natAbs
  (if n < 0 then '-' else '+') :: (List.replicate (2 - digits.length) '0' ++ digits)

def shown : FloatStyle := ⟨"NaN", true, true, signedDigits⟩

/-- The style in which components of a complex value are shown. -/
def plain : FloatStyle := ⟨"NaN", false, false, signedDigits⟩

def key : FloatStyle := ⟨"nan", true, true, paddedExponent⟩

end FloatStyle

/-! ## Complex numbers -/

namespace Binary

/-- Whether the number lies below zero; a negative zero does not. -/
def belowZero (x : Binary64) : Bool := x.negative && !x.isNaN && !x.isZero

/-- The text of a component of a complex key: an integer below `10 ^ 16` goes
without a fraction. -/
def componentKey (x : Binary64) : List Char :=
  match x.whole? with
  | some n =>
    if x.magnitude < tenToSixteen then signedDigits (if x.negative then -n else n)
    else FloatStyle.key.write x
  | none => FloatStyle.key.write x

/-- A component of a complex value without the sign of a number below zero.
Negative zero keeps its sign. -/
def componentShown (x : Binary64) : List Char :=
  FloatStyle.plain.write (if x.belowZero then x.abs else x)

end Binary

namespace Cartesian

/-- The text of a complex key: a positive zero as real part is left out, and
otherwise both parts stand in parentheses. -/
def key (z : Cartesian Binary64) : List Char :=
  let im := z.im.abs.componentKey ++ ['j']
  if z.re.isZero ∧ ¬z.re.negative then
    if z.im.negative then '-' :: im else im
  else
    '(' :: z.re.componentKey ++ (if z.im.negative then '-' else '+') :: im ++ [')']

/-- The text of a complex value that is shown. -/
def shown (z : Cartesian Binary64) : List Char :=
  (if z.re.belowZero then ['-'] else []) ++ z.re.componentShown ++
    (if z.im.belowZero then '-' else '+') :: z.im.componentShown ++ ['i']

end Cartesian

end Marshal
