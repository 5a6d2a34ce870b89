import Marshal.Converter
import Marshal.Marshaller.Scalar
import Marshal.Text.Hex

/-!
# Ready-made converters

Objects that wrap a stored object share it (`Converter.handleBacked`).  Objects
that have a quantity can be stored as objects of a registered type whose bytes
write the quantity: the sixteen hexadecimal digits of the number, a space, and
the unit.
-/

namespace Marshal

/-! ## Quantities as bytes -/

namespace Quantity

/-- The bytes that write a quantity. -/
def encode (q : Quantity) : List UInt8 :=
  Utf8.encode (String.ofList (Hex.padded 16 q.number.bits.toNat ++ ' ' :: q.unit.toList))

/-- The digits of a number, which a plus sign may precede. -/
def unsigned? (digits : List Char) : Option UInt64 := do
  let n ← Hex.read? (if digits.head? = some '+' then digits.tail else digits)
  if n < UInt64.size then some (UInt64.ofNat n) else none

/-- The quantity that bytes write: a number in hexadecimal up to the first
space, and whatever follows as unit. -/
def decode (bytes : List UInt8) : Result Quantity :=
  let malformed : Failure := .reported .value "malformed scalar" none
  match Utf8.decode bytes with
  | .error _ => .error malformed
  | .ok text =>
    match text.toList.span (· ≠ ' ') with
    | (_, []) => .error malformed
    | (digits, _ :: unit) =>
      match unsigned? digits with
      | some bits => .ok ⟨⟨bits⟩, String.ofList unit⟩
      | none => .error (.reported .value "malformed value" none)

def toObject (q : Quantity) : DomainObject where
  typeName := "Quantity"
  facts := some { quantity := some q, comparable := true }

end Quantity

/-! ## Converters -/

namespace Converter

variable {σ : Type}

/-- Stores an object that wraps a stored object by sharing that one. -/
def handleBacked : Converter σ where
  name := "handle-backed"
  capability := .storedObject
  lower store o :=
    match o.handle with
    | some handle => do
      store.ask (.retain handle)
      pure handle
    | none => throw (.wrapsNothing o.typeName)

/-- Stores everything that has a quantity as the same truth value. -/
def constant (name : String) : Converter σ where
  name
  capability := .quantity
  lower _ _ := pure (.boolean true)

/-- Stores an object as the text of its type name. -/
def naming (name : String) (capability : Capability) (claims : Option String) : Converter σ where
  name
  capability
  claims
  lower store o := store.lowerText o.typeName false

/-- How a configured converter stores objects. -/
inductive Writing where
  /-- As objects of a registered type that write the quantity. -/
  | quantity (type : TypeId)
  | typeName
  | refusal

/-- How a configured converter reads objects. -/
inductive Reading where
  | quantity
  /-- As the text of the converter's name. -/
  | name
  | refusal

/-- A converter that can be told what to take, to claim, to write and to read. -/
def configured (name : String) (capability : Capability) (accepted : Option String)
    (claims : Option String) (writing : Writing) (reading : Reading) : Converter σ where
  name
  capability
  claims
  accepts o := accepted.all (· == o.typeName)
  lower store o :=
    match writing with
    | .quantity type =>
      match o.quantity with
      | some q => store.ask (.createCustom type q.encode)
      | none => throw (.reported .type "not a quantity" none)
    | .typeName => store.lowerText o.typeName false
    | .refusal => throw (.reported .runtime (name ++ " refuses") none)
  lift store handle :=
    match reading with
    | .quantity => do
      let bytes : List UInt8 ← store.ask (.customBytes handle)
      let q ← (Quantity.decode bytes).toAction
      pure (.object q.toObject)
    | .name => pure (.text name)
    | .refusal => throw (.reported .value "unreadable" none)

end Converter

end Marshal
