/-!
# Types of stored objects

Every stored object has a type with a numeric identifier and a registered name.
Eighteen standard types are known from the start and have the identifiers 1 to
18 (`StandardType.all` lists them in that order).  Text, data and the six kinds
of container come in two types each, one whose objects are sealed and one whose
objects can be changed.  Further types can be registered; their identifiers
start at `TypeId.firstCustom`.
-/

namespace Marshal

structure TypeId where
  number : Nat
deriving DecidableEq

namespace TypeId

def label (id : TypeId) : String := "#" ++ toString id.number

/-- The identifier of the first type that is registered. -/
def firstCustom : Nat := 1000

/-- Whether the identifier belongs to a registered type rather than to a
standard one. -/
def isCustom (id : TypeId) : Bool := decide (firstCustom ≤ id.number)

end TypeId

inductive Container where
  | array
  /-- Objects under text keys. -/
  | dictionary
  /-- Distinct objects. -/
  | valueSet
  | indexArray
  /-- Distinct integers. -/
  | indexSet
  /-- Integers under integer keys. -/
  | pairSet
deriving DecidableEq

namespace Container

/-- All kinds, in the order of their identifiers. -/
def all : List Container := [array, dictionary, valueSet, indexArray, indexSet, pairSet]

/-- The part of a type name that tells the kind of container. -/
def baseName : Container → String
  | array => "Array"
  | dictionary => "Dictionary"
  | valueSet => "Set"
  | indexArray => "IndexArray"
  | indexSet => "IndexSet"
  | pairSet => "IndexPairSet"

end Container

/-- The types that every store knows.  `mutable` tells whether the objects of
the type can be changed. -/
inductive StandardType where
  | text (mutable : Bool)
  | number
  | boolean
  | data (mutable : Bool)
  | container (kind : Container) (mutable : Bool)
deriving DecidableEq

namespace StandardType

/-- All standard types, in the order of their identifiers. -/
def all : List StandardType :=
  [text false, text true, number, boolean, data false, data true] ++
    Container.all.flatMap fun kind => [container kind false, container kind true]

/-- The identifier of a standard type. -/
def id (type : StandardType) : TypeId := ⟨all.idxOf type + 1⟩

def isMutable : StandardType → Bool
  | text mutable | data mutable | container _ mutable => mutable
  | number | boolean => false

/-- The name without the mark of mutability. -/
def baseName : StandardType → String
  | text _ => "String"
  | number => "Number"
  | boolean => "Boolean"
  | data _ => "Data"
  | container kind _ => kind.baseName

def name (type : StandardType) : String :=
  (if type.isMutable then "OCMutable" else "OC") ++ type.baseName

def ofName? (name : String) : Option StandardType := all.find? (·.name == name)

end StandardType

/-- A type as a store lists it. -/
structure TypeEntry where
  id : TypeId
  name : String
deriving DecidableEq

/-- The standard types as a store lists them. -/
def StandardType.entries : List TypeEntry := all.map fun type => ⟨type.id, type.name⟩

end Marshal
