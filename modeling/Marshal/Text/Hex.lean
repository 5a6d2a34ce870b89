/-!
# Hexadecimal text

Numbers written in base sixteen with small letters, and read in either case.
-/

namespace Marshal.Hex

/-- The digit with value `n`, for `n` below sixteen. -/
def digit (n : Nat) : Char :=
  if n < 10 then Char.ofNat ('0'.toNat + n) else Char.ofNat ('a'.toNat + (n - 10))

def value? (c : Char) : Option Nat :=
  if '0' ≤ c ∧ c ≤ '9' then some (c.toNat - '0'.toNat)
  else if 'a' ≤ c ∧ c ≤ 'f' then some (c.toNat - 'a'.toNat + 10)
  else if 'A' ≤ c ∧ c ≤ 'F' then some (c.toNat - 'A'.toNat + 10)
  else none

/-- The last `width` digits of a number. -/
def padded : (width : Nat) → Nat → List Char
  | 0, _ => []
  | width + 1, n => padded width (n / 16) ++ [digit (n % 16)]

/-- The digits of a number without leading zeros. -/
def plain (n : Nat) : List Char := padded (n.log2 / 4 + 1) n

/-- The number that a nonempty run of digits writes. -/
def read? (digits : List Char) : Option Nat :=
  if digits.isEmpty then none
  else digits.foldlM (fun n c => (16 * n + ·) <$> value? c) 0

end Marshal.Hex
