import Marshal.Converter.Ready
import Marshal.Marshaller.Indices

/-!
# Conversions to the store

A `Conversion` is one of the ways to make a stored object, with everything that it
is made from.  `Conversion.run` does it by a marshaller.

Domain objects in the input may wrap stored objects, which the new object then
shares.  `Conversion.wrapped` lists them.  Domain objects that are keys of a
dictionary give a text only, so what they wrap does not matter.
-/

namespace Marshal

namespace Value

mutual

/-- What the domain objects in a value wrap, but for keys. -/
def wrapped : Value → List Handle
  | list items => wrappedIn items
  | set members => wrappedIn members
  | dict entries => wrappedUnder entries
  | object o => o.handle.toList
  | _ => []
termination_by structural v => v

/-- What the domain objects in several values wrap. -/
def wrappedIn : List Value → List Handle
  | [] => []
  | v :: vs => wrapped v ++ wrappedIn vs
termination_by structural vs => vs

/-- What the domain objects in the values of entries wrap. -/
def wrappedUnder : List (Value × Value) → List Handle
  | [] => []
  | (_, v) :: entries => wrapped v ++ wrappedUnder entries
termination_by structural entries => entries

end

def isObject : Value → Bool
  | object _ => true
  | _ => false

mutual

/-- Whether no set in the value has domain objects for members. -/
def bareSets : Value → Bool
  | list items => bareSetsIn items
  | set members => members.all fun member => !member.isObject
  | dict entries => bareSetsUnder entries
  | _ => true
termination_by structural v => v

def bareSetsIn : List Value → Bool
  | [] => true
  | v :: vs => bareSets v && bareSetsIn vs
termination_by structural vs => vs

def bareSetsUnder : List (Value × Value) → Bool
  | [] => true
  | (_, v) :: entries => bareSets v && bareSetsUnder entries
termination_by structural entries => entries

end

end Value

/-- A way to make a stored object. -/
inductive Conversion where
  | value (v : Value)
  | list (items : List Value) (mutable : Bool)
  | dict (entries : List (Value × Value)) (mutable : Bool)
  | set (members : List Value) (mutable : Bool)
  | indexArray (values : List Value)
  | indexSet (values : List Value)
  | pairs (entries : List (Value × Value))
  | text (text : String) (mutable : Bool)
  | number (v : Value)
  | bytes (bytes : List UInt8) (mutable : Bool)
  | packed (layout : Layout) (values : List layout.Carrier) (mutable : Bool)

namespace Conversion

/-- Makes the object; the answer is a reference to it. -/
def run {σ : Type} (m : Marshaller σ) : Conversion → Action σ Handle
  | value v => m.lower v
  | list items mutable => m.lowerList items mutable
  | dict entries mutable => m.lowerDict entries mutable
  | set members mutable => m.lowerSet members mutable
  | indexArray values => m.lowerIndexArray values
  | indexSet values => m.lowerIndexSet values
  | pairs entries => m.lowerPairs entries
  | text s mutable => m.store.lowerText s mutable
  | number v => m.store.lowerNumber v
  | bytes b mutable => m.store.lowerBytes b mutable
  | packed layout values mutable => m.store.lowerPacked layout values mutable

/-- The stored objects that the new one may share. -/
def wrapped : Conversion → List Handle
  | value v => v.wrapped
  | list items _ => Value.wrappedIn items
  | dict entries _ => Value.wrappedUnder entries
  | set members _ => Value.wrappedIn members
  | _ => []

end Conversion

end Marshal
