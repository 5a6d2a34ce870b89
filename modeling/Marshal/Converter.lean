import Marshal.Store
import Marshal.Text.Quoted
import Marshal.Value

/-!
# Converters

A domain object is stored by a converter that serves one of its capabilities.
Converters are kept in a registry, in the order in which they were registered.
The converter of an object is the first one, in the order of the capabilities
and then of registration, that serves a capability of the object and accepts the
object (`Registry.find?`).

In the other direction a converter can claim the objects of one registered type;
of several that claim a type, the first one has it (`Registry.claimant?`).
-/

namespace Marshal

/-- A trait of a domain object that a converter can serve. -/
inductive Capability where
  | quantity
  | storedObject
deriving DecidableEq

namespace Capability

/-- All capabilities, in the order in which they are tried. -/
def all : List Capability := [quantity, storedObject]

def isPresent (capability : Capability) (o : DomainObject) : Bool :=
  match capability with
  | quantity => o.quantity.isSome
  | storedObject => o.handle.isSome

def label : Capability → String
  | quantity => "quantity"
  | storedObject => "foreign handle"

end Capability

/-- Turns domain objects into stored objects, and possibly back. -/
structure Converter (σ : Type) where
  name : String
  capability : Capability
  /-- Narrows the objects that the converter takes beyond its capability. -/
  accepts : DomainObject → Bool := fun _ => true
  /-- Stores an object; the answer is a reference that the caller owns. -/
  lower : Store σ → DomainObject → Action σ Handle
  /-- The name of the type whose objects the converter reads. -/
  claims : Option String := none
  /-- Reads an object of the claimed type.  By default it stays a token. -/
  lift : Store σ → Handle → Action σ Value := fun _ handle => pure (.token handle)

def Converter.takes {σ : Type} (converter : Converter σ) (o : DomainObject) : Bool :=
  converter.capability.isPresent o && converter.accepts o

/-- The converters of a marshaller, in order of registration. -/
structure Registry (σ : Type) where
  converters : List (Converter σ) := []

namespace Registry

variable {σ : Type} (registry : Registry σ)

/-- Adds a converter after all others. -/
def register (converter : Converter σ) : Registry σ := ⟨registry.converters ++ [converter]⟩

/-- The place of the first converter that claims a type. -/
def claimant? (typeName : String) : Option Nat :=
  registry.converters.findIdx? fun converter => converter.claims = some typeName

def find? (o : DomainObject) : Option (Converter σ) :=
  Capability.all.findSome? fun capability =>
    registry.converters.find? fun converter =>
      converter.capability = capability && converter.takes o

def lower (store : Store σ) (o : DomainObject) : Action σ Handle :=
  match registry.find? o with
  | some converter => converter.lower store o
  | none => throw (.noConverter o.typeName)

/-- The names of the converters in quotes, between brackets. -/
def shown : List Char :=
  '[' :: [',', ' '].intercalate (registry.converters.map fun c => Text.quoted c.name) ++ [']']

end Registry

end Marshal
