import Marshal.Handle
import Marshal.Numeric.Number
import Marshal.StandardType

/-!
# Objects of the heap

An object has contents, a mark whether they can be changed, and a count of the
references to it.  Its type follows from its contents and the mark.
-/

namespace Marshal

/-- A stored number, which may be in a layout that cannot be read. -/
inductive Numeral where
  | known (number : Number)
  | unreadable (layout : UInt8)
deriving DecidableEq

inductive Content where
  | text (text : String)
  | number (numeral : Numeral)
  | boolean (value : Bool)
  | data (bytes : List UInt8)
  | array (items : Array Handle)
  /-- Keys with their values, in the order of insertion. -/
  | dictionary (entries : List (Handle × Handle))
  | members (members : List Handle)
  | indexArray (values : Array Int64)
  /-- In descending order. -/
  | indexSet (values : List Int64)
  /-- In descending order of the indices. -/
  | pairSet (pairs : List (Int64 × Int64))
  | custom (type : TypeId) (bytes : List UInt8)
deriving DecidableEq

namespace Content

/-! ## Views -/

def text? : Content → Option String
  | text s => some s
  | _ => none

def number? : Content → Option Numeral
  | number n => some n
  | _ => none

def boolean? : Content → Option Bool
  | boolean b => some b
  | _ => none

def data? : Content → Option (List UInt8)
  | data bytes => some bytes
  | _ => none

def array? : Content → Option (Array Handle)
  | array items => some items
  | _ => none

def dictionary? : Content → Option (List (Handle × Handle))
  | dictionary entries => some entries
  | _ => none

def members? : Content → Option (List Handle)
  | members handles => some handles
  | _ => none

def indexArray? : Content → Option (Array Int64)
  | indexArray values => some values
  | _ => none

def indexSet? : Content → Option (List Int64)
  | indexSet values => some values
  | _ => none

def pairSet? : Content → Option (List (Int64 × Int64))
  | pairSet pairs => some pairs
  | _ => none

def custom? : Content → Option (List UInt8)
  | custom _ bytes => some bytes
  | _ => none

/-! ## Containers -/

def container? : Content → Option Container
  | array _ => some .array
  | dictionary _ => some .dictionary
  | members _ => some .valueSet
  | indexArray _ => some .indexArray
  | indexSet _ => some .indexSet
  | pairSet _ => some .pairSet
  | _ => none

/-- The contents, if they are those of a container of the given kind. -/
def ofKind? (kind : Container) (content : Content) : Option Content :=
  if content.container? = some kind then some content else none

def empty : Container → Content
  | .array => array #[]
  | .dictionary => dictionary []
  | .valueSet => members []
  | .indexArray => indexArray #[]
  | .indexSet => indexSet []
  | .pairSet => pairSet []

/-- The number of items, entries or members of a container. -/
def size : Content → Nat
  | array items => items.size
  | dictionary entries => entries.length
  | members handles => handles.length
  | indexArray values => values.size
  | indexSet values => values.length
  | pairSet pairs => pairs.length
  | _ => 0

/-- The handles that the contents hold a reference to, each as often as it is
held. -/
def children : Content → List Handle
  | array items => items.toList
  | members handles => handles
  | dictionary entries => entries.flatMap fun entry => [entry.1, entry.2]
  | _ => []

/-- Whether two contents count as one key or one member.  Texts, booleans, data
and readable numbers compare by value; nothing else is ever the same. -/
def same : Content → Content → Bool
  | text a, text b => a == b
  | boolean a, boolean b => a == b
  | data a, data b => a == b
  | number (.known a), number (.known b) => a.same b
  | _, _ => false

end Content

structure Object where
  content : Content
  mutable : Bool := false
  count : Nat := 1
deriving DecidableEq

namespace Object

/-- The object that stands for a truth value. -/
def boolean (value : Bool) : Object := { content := .boolean value }

/-- The type of the object: a standard one, or the identifier of a registered
one. -/
def type (o : Object) : StandardType ⊕ TypeId :=
  match o.content with
  | .text _ => .inl (.text o.mutable)
  | .number _ => .inl .number
  | .boolean _ => .inl .boolean
  | .data _ => .inl (.data o.mutable)
  | .array _ => .inl (.container .array o.mutable)
  | .dictionary _ => .inl (.container .dictionary o.mutable)
  | .members _ => .inl (.container .valueSet o.mutable)
  | .indexArray _ => .inl (.container .indexArray o.mutable)
  | .indexSet _ => .inl (.container .indexSet o.mutable)
  | .pairSet _ => .inl (.container .pairSet o.mutable)
  | .custom type _ => .inr type

def typeId (o : Object) : TypeId := o.type.elim StandardType.id id

/-- Whether objects of the object's type can be changed. -/
def isMutable (o : Object) : Bool := o.type.elim StandardType.isMutable fun _ => false

/-- What the object is called when it cannot be created. -/
def creationName (o : Object) : String := o.type.elim StandardType.name fun _ => "opaque object"

def children (o : Object) : List Handle := o.content.children

end Object

end Marshal
