/-!
# Notices

Some events are worth a warning although nothing fails: a reference is released
that leads to no live object, or a collection can be read back only in part.
-/

namespace Marshal

inductive Notice where
  /-- A handle was released that names no live object. -/
  | deadRelease
  /-- An index set has gaps, and only its ends were read. -/
  | sparseIndexSet (count : Nat) (first last : Int64)
  /-- A pair set has pairs at indices that were not probed. -/
  | unprobedPairs (found count limit : Nat)
deriving DecidableEq

def Notice.message : Notice → String
  | deadRelease => "release of a handle with no live object"
  | sparseIndexSet count first last =>
    "index set is not contiguous, only its bounds are recovered" ++
      s!" count={count} first={first.toInt} last={last.toInt}"
  | unprobedPairs found count limit =>
    "index pair set has pairs outside the probe window" ++
      s!" found={found} count={count} limit={limit}"

end Marshal
