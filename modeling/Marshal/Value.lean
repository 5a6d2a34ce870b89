import Marshal.Handle
import Marshal.Numeric.Cartesian
import Marshal.Numeric.Binary

/-!
# Values

A `Value` is a tree of dynamically typed data.  It owns its data outright and
refers to the store in two places only: a token, which stands for a stored
object of an unknown type, and a domain object that wraps a stored object.

Dictionaries and sets are kept as lists, in the order in which they were built.
-/

namespace Marshal

structure Quantity where
  number : Binary64
  unit : String
deriving DecidableEq

/-- Quantities compare by the value of the number, so a NaN equals nothing. -/
instance : BEq Quantity where
  beq p q := p.number == q.number && p.unit == q.unit

/-- What a domain object tells about itself beyond its type. -/
structure Facts where
  quantity : Option Quantity := none
  handle : Option Handle := none
  /-- The text of the object as the key of a dictionary. -/
  keyText : Option String := none
  /-- Whether the object compares by its type and quantity. -/
  comparable : Bool := false
deriving DecidableEq

/-- An object of the caller's domain, which only a converter can store. -/
structure DomainObject where
  typeName : String
  /-- Nothing for an object that tells its type name only. -/
  facts : Option Facts
  /-- Which of the caller's objects this refers to, where that is known.  An
  object always equals itself, however it compares. -/
  identity : Option Nat := none
deriving DecidableEq

namespace DomainObject

def quantity (o : DomainObject) : Option Quantity := o.facts.bind Facts.quantity

def handle (o : DomainObject) : Option Handle := o.facts.bind Facts.handle

def keyText (o : DomainObject) : Option String := o.facts.bind Facts.keyText

/-- Whether an object finds another one equal by type and quantity. -/
def equals (a b : DomainObject) : Bool :=
  match a.facts, b.facts with
  | some f, some g => f.comparable && a.typeName == b.typeName && f.quantity == g.quantity
  | _, _ => false

/-- Whether two references are known to lead to one object. -/
def isSame (a b : DomainObject) : Bool :=
  match a.identity, b.identity with
  | some m, some n => m == n
  | _, _ => false

instance : BEq DomainObject where
  beq a b := a.isSame b || a.equals b

end DomainObject

/-- A tree of dynamically typed data. -/
inductive Value where
  | null
  | bool (value : Bool)
  | int (value : Int64)
  | float (value : Binary64)
  | complex (value : Cartesian Binary64)
  | text (value : String)
  | bytes (value : List UInt8)
  | list (items : List Value)
  /-- Keys with their values, in the order of insertion. -/
  | dict (entries : List (Value × Value))
  | set (members : List Value)
  | object (value : DomainObject)
  /-- A stored object of a type that is not known. -/
  | token (handle : Handle)

namespace Value

instance : Inhabited Value := ⟨null⟩

def isNull : Value → Bool
  | null => true
  | _ => false

def isContainer : Value → Bool
  | list _ | dict _ | set _ => true
  | _ => false

def typeName : Value → String
  | null => "none"
  | bool _ => "bool"
  | int _ => "int"
  | float _ => "float"
  | complex _ => "complex"
  | text _ => "text"
  | bytes _ => "bytes"
  | list _ => "list"
  | dict _ => "dict"
  | set _ => "set"
  | object o => o.typeName
  | token _ => "handle token"

def int? : Value → Option Int64
  | int n => some n
  | _ => none

def text? : Value → Option String
  | text s => some s
  | _ => none

end Value

end Marshal
