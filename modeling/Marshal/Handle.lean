/-!
# Handles

A handle names an object of a store.  The heap hands out two kinds of handle:
one for each boolean, which exist for ever, and one for each object it creates,
numbered in order of creation and never used again.  A handle can also come from
outside; it then names nothing the heap knows.
-/

namespace Marshal

/-- A name for an object of a store. -/
inductive Handle where
  | boolean (value : Bool)
  /-- The object created after `index` others. -/
  | object (index : Nat)
  /-- An address that no object of the heap has. -/
  | outside (address : UInt64)
deriving DecidableEq

/-- The number a handle is shown as.  Addresses from outside keep their value,
and the heap's own handles lie past the 64-bit range, so no two handles share a
number. -/
def Handle.address : Handle → Nat
  | outside address => address.toNat
  | boolean value => UInt64.size + value.toNat
  | object index => UInt64.size + 2 + index

end Marshal
