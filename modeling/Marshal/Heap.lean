import Marshal.Heap.Object
import Marshal.Notice
import Marshal.Refusal

/-!
# The heap

The heap is a store of reference-counted objects.  Every object that is created
takes the next slot and keeps it for ever: when its last reference goes, the
slot is emptied and never filled again, so a handle that has lost its object
finds no other one.  The two booleans stand apart; they are always there and
nobody counts references to them.

`Heap.get?` is what a handle leads to, and every operation is described by it.
-/

namespace Marshal

/-- A heap of reference-counted objects. -/
structure Heap where
  /-- The objects in order of creation; nothing where the object is gone. -/
  slots : Array (Option Object) := #[]
  /-- The types that are registered, the standard ones first. -/
  types : List TypeEntry := StandardType.entries
  /-- How many more objects can be created, if that is limited. -/
  budget : Option Nat := none
  notices : List Notice := []

namespace Heap

/-! ## Looking at the heap -/

/-- The live object that a handle leads to. -/
def get? (heap : Heap) : Handle → Option Object
  | .boolean value => some (.boolean value)
  | .object index => heap.slots.getD index none
  | .outside _ => none

/-- The number of live objects, the booleans included. -/
def liveObjects (heap : Heap) : Nat := heap.slots.countP Option.isSome + 2

/-- The number of objects that were ever created. -/
def allocations (heap : Heap) : Nat := heap.slots.size

def deadReleases (heap : Heap) : Nat := heap.notices.count .deadRelease

def count? (heap : Heap) (handle : Handle) : Option Nat := (heap.get? handle).map Object.count

def typeName? (heap : Heap) (id : TypeId) : Option String :=
  (heap.types.find? (·.id = id)).map TypeEntry.name

/-- What a type is called: its name or, without one, its identifier. -/
def typeLabel (heap : Heap) (id : TypeId) : String := (heap.typeName? id).getD id.label

/-- The refusal of an object of a wrong type. -/
def mismatch (heap : Heap) (expected : String) (o : Object) : Refusal :=
  .typeMismatch expected (heap.typeLabel o.typeId)

/-- The live object of a handle, or a refusal. -/
def look (heap : Heap) (handle : Handle) : Except Refusal Object :=
  match heap.get? handle with
  | some o => .ok o
  | none => .error .invalidHandle

/-- Part of the contents of a live object, or a refusal that names the type
which has such contents. -/
def expect {α : Type} (heap : Heap) (expected : String) (part : Content → Option α)
    (handle : Handle) : Except Refusal α :=
  match heap.get? handle with
  | none => .error .invalidHandle
  | some o =>
    match part o.content with
    | some a => .ok a
    | none => .error (heap.mismatch expected o)

/-- Refuses a handle unless it leads to a container of the given kind that can
be changed.  A sealed object of whatever type is refused as sealed. -/
def expectMutable (heap : Heap) (kind : Container) (handle : Handle) : Except Refusal Unit :=
  let wanted : StandardType := .container kind true
  match heap.get? handle with
  | none => .error .invalidHandle
  | some o =>
    if o.type = .inl wanted then .ok ()
    else if o.isMutable then .error (heap.mismatch wanted.name o)
    else .error (.immutable (heap.typeLabel o.typeId))

/-- Whether a handle leads to a live object with the same contents as the given
ones. -/
def holds (heap : Heap) (content : Content) (handle : Handle) : Bool :=
  match heap.get? handle with
  | some o => o.content.same content
  | none => false

/-! ## Changing the heap -/

/-- Replaces the object of a handle, where nothing empties its slot.  The
booleans and handles from outside have no slot. -/
def set (heap : Heap) (handle : Handle) (o : Option Object) : Heap :=
  match handle with
  | .object index => { heap with slots := heap.slots.setIfInBounds index o }
  | _ => heap

/-- Changes the contents of a live object.  The contents of a boolean never
change. -/
def alter (heap : Heap) (handle : Handle) (f : Content → Content) : Heap :=
  match handle with
  | .object index =>
    { heap with
      slots := heap.slots.modify index (Option.map fun o => { o with content := f o.content }) }
  | _ => heap

def note (notice : Notice) (heap : Heap) : Heap := { heap with notices := notice :: heap.notices }

/-- A computation on heaps that may be refused. -/
abbrev Attempt (α : Type) := EStateM Refusal Heap α

/-- An attempt that only looks at the heap. -/
def reading {α : Type} (f : Heap → Except Refusal α) : Attempt α := fun heap =>
  match f heap with
  | .ok a => .ok a heap
  | .error refusal => .error refusal heap

/-- Puts an object into the next slot, unless the budget is spent. -/
def allocate (o : Object) : Attempt Handle := fun heap =>
  match heap.budget with
  | some 0 => .error (.allocationFailed o.creationName) heap
  | budget =>
    .ok (.object heap.slots.size)
      { heap with slots := heap.slots.push (some o), budget := budget.map (· - 1) }

/-- Counts one more reference to a live object. -/
def retain (handle : Handle) : Attempt Unit := fun heap =>
  match heap.get? handle with
  | some o => .ok () (heap.set handle (some { o with count := o.count + 1 }))
  | none => .error .invalidHandle heap

/-- Counts references to several objects one after another, up to the first one
that is not live. -/
def retainAll : List Handle → Attempt Unit
  | [] => pure ()
  | handle :: handles => do
    retain handle
    retainAll handles

/-! ## Types and budget -/

/-- Registers a type, or finds the one that has the name. -/
def registerType (heap : Heap) (name : String) : TypeId × Heap :=
  match heap.types.find? (·.name = name) with
  | some entry => (entry.id, heap)
  | none =>
    let id : TypeId := ⟨TypeId.firstCustom + heap.types.countP fun entry => entry.id.isCustom⟩
    (id, { heap with types := heap.types ++ [⟨id, name⟩] })

/-- Lets so many more objects be created, or any number of them. -/
def setBudget (heap : Heap) (budget : Option Nat) : Heap := { heap with budget }

end Heap

end Marshal
