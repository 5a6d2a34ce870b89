/-!
# Limits

Two numbers bound the work of a conversion: how deep containers may nest, and
how many indices are probed when the pairs of a stored pair set are collected.
-/

namespace Marshal

/-- The bounds of a conversion. -/
structure Limits where
  /-- The deepest nesting of containers that is converted. -/
  maxDepth : Nat := 256
  /-- The number of indices, from zero up, at which a pair set is probed. -/
  probeLimit : Nat := 4096
deriving DecidableEq

/-- Why limits could not be taken from a text or a file. -/
inductive LimitsError where
  | unreadable
  | malformed
  | zeroDepth
  | zeroProbeLimit
deriving DecidableEq

def LimitsError.message : LimitsError → String
  | unreadable => "failed to read config"
  | malformed => "failed to parse config"
  | zeroDepth => "invalid config: max_depth must be at least 1"
  | zeroProbeLimit => "invalid config: index_pair_probe_limit must be at least 1"

namespace Limits

/-- Both bounds must be at least one; the depth is looked at first. -/
def validated (limits : Limits) : Except LimitsError Limits :=
  if limits.maxDepth = 0 then .error .zeroDepth
  else if limits.probeLimit = 0 then .error .zeroProbeLimit
  else .ok limits

end Limits

end Marshal
