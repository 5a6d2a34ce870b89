/-!
# Refusals

A store may refuse a request.  Each cause is a constructor of `Refusal`;
`Refusal.message` is its wording.
-/

namespace Marshal

/-- Why a store refused a request. -/
inductive Refusal where
  | allocationFailed (kind : String)
  | invalidHandle
  | typeMismatch (expected found : String)
  /-- The number is stored in a layout the store cannot read. -/
  | unknownLayout (layout : UInt8) (typeName : String)
  | indexOutOfBounds (index count : Nat)
  /-- A buffer for entries has another size than the container. -/
  | bufferSize (expected found : Nat)
  | immutable (typeName : String)
deriving DecidableEq

def Refusal.message : Refusal → String
  | allocationFailed kind => s!"runtime failed to allocate {kind}"
  | invalidHandle => "invalid handle"
  | typeMismatch expected found => s!"expected {expected}, found {found}"
  | unknownLayout layout typeName =>
    s!"unresolvable numeric layout {layout.toNat} in {typeName}"
  | indexOutOfBounds index count =>
    s!"index {index} out of bounds for container of {count} elements"
  | bufferSize expected found =>
    s!"buffer holds {found} slots but the container has {expected} entries"
  | immutable typeName => s!"{typeName} is immutable"

end Marshal
