import Marshal.Numeric.Binary

/-!
# Shortest decimals

Among the decimals that read back as a given double, this module picks one with
the fewest digits and, among those, the nearest; of two equally near ones the
larger.

A double `m * 2 ^ q` is read back from every decimal in an interval around it.
All its ends are multiples of `2 ^ (q - 2)`: the upper end is `4 m + 2` of them,
the lower end `4 m - 2`, or `4 m - 1` just above a power of two, where the
doubles below lie closer together.  The ends themselves read back when `m` is
even.  On the grid of multiples of `10 ^ k` only the two neighbours of the
double can be nearest, so the search tries them for falling `k` and stops at the
first grid that has one inside the interval.
-/

namespace Marshal

/-- The decimal `digits * 10 ^ exponent`. -/
structure Decimal where
  digits : Nat
  exponent : Int
deriving DecidableEq

/-- The decimals that read back as the number `value`, all in units of
`1 / unit`. -/
structure Rounding where
  lower : Nat
  value : Nat
  upper : Nat
  closed : Bool
  unit : Nat

namespace Rounding

/-- The same interval measured in multiples of `10 ^ k`. -/
def onGrid (r : Rounding) (k : Int) : Rounding :=
  let finer := Nat.pow 10 (-k).toNat
  { r with
    lower := r.lower * finer
    value := r.value * finer
    upper := r.upper * finer
    unit := r.unit * Nat.pow 10 k.toNat }

/-- Whether `n` whole steps of the grid lie in the interval. -/
def admits (r : Rounding) (n : Nat) : Bool :=
  if r.closed then decide (r.lower ≤ n * r.unit ∧ n * r.unit ≤ r.upper)
  else decide (r.lower < n * r.unit ∧ n * r.unit < r.upper)

/-- The grid point to write: the nearer of the two neighbours that the interval
admits, or the upper one if they are equally near. -/
def neighbour? (r : Rounding) : Option Nat :=
  let below := r.value / r.unit
  match r.admits below, r.admits (below + 1) with
  | true, true => if 2 * (r.value % r.unit) < r.unit then some below else some (below + 1)
  | true, false => some below
  | false, true => some (below + 1)
  | false, false => none

/-- The first grid point met on `tries` grids, from that of `10 ^ k` to finer
ones. -/
def search (r : Rounding) : (tries : Nat) → (k : Int) → Decimal
  | 0, k => ⟨(r.onGrid k).value / (r.onGrid k).unit, k⟩
  | tries + 1, k =>
    match (r.onGrid k).neighbour? with
    | some digits => ⟨digits, k⟩
    | none => r.search tries (k - 1)

end Rounding

namespace Binary

/-- The interval of decimals that read back as a finite number, sign aside. -/
def rounding (x : Binary64) : Rounding :=
  let m := x.significand
  let up := (x.scale - 2).toNat
  let closerBelow := x.fractionField = 0 ∧ 1 < x.exponentField
  { lower := (if closerBelow then 4 * m - 1 else 4 * m - 2) <<< up
    value := (4 * m) <<< up
    upper := (4 * m + 2) <<< up
    closed := m % 2 = 0
    unit := 1 <<< (2 - x.scale).toNat }

/-- The shortest decimal of a finite number other than zero, sign aside.  The
first grid is at least as coarse as the leading digit, since
`1233 / 4096` is the common logarithm of two to five places; seventeen digits
always suffice. -/
def shortest (x : Binary64) : Decimal :=
  let leading := (x.significand.log2 + x.scale) * 1233 / 4096
  x.rounding.search 24 (leading + 2)

end Binary

end Marshal
