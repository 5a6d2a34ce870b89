import Marshal.Store

/-!
# Misbehaving stores

A conversion must bear with a store that answers nonsense.  `Faults` describes
such misbehaviour, and `Faults.applyTo` puts it between a store and whoever asks
it.  The honest store is asked first, so its refusals stand; only a probe can
be made to fail without asking.
-/

namespace Marshal

/-- How a store misbehaves. -/
structure Faults where
  /-- The slices lent in place of the bytes of a text. -/
  textSlices : Option (List (List UInt8)) := none
  /-- The slices lent in place of the bytes of a data buffer. -/
  dataSlices : Option (List (List UInt8)) := none
  /-- What is added to the counts of a kind of container. -/
  countOffsets : List (Container × Int) := []
  /-- The place of a key that is left out of the entries of a dictionary. -/
  emptyKey : Option Nat := none
  /-- The place of a value that is left out of the entries of a dictionary. -/
  emptyValue : Option Nat := none
  noFirst : Bool := false
  noLast : Bool := false
  typeId : Option TypeId := none
  /-- The index of pair sets at which a probe fails. -/
  badProbe : Option Int64 := none

namespace Faults

/-- The refusal of a request that is not passed on. -/
def refusal? (faults : Faults) : Request → Option Refusal
  | .pairAt _ index => if faults.badProbe = some index then some .invalidHandle else none
  | _ => none

/-- A count with its offset, but never below zero. -/
def offsetCount (faults : Faults) (kind : Container) (count : Nat) : Nat :=
  match faults.countOffsets.find? (·.1 = kind) with
  | some (_, offset) => (Int.ofNat count + offset).toNat
  | none => count

/-- A buffer with one slot left empty. -/
def leaveOut (place? : Option Nat) (slots : List (Option Handle)) : List (Option Handle) :=
  match place? with
  | some place => slots.set place none
  | none => slots

/-- What becomes of an answer. -/
def distort (faults : Faults) : (request : Request) → request.Answer → request.Answer
  | .typeOf _, id => faults.typeId.getD id
  | .textBytes _, slices => faults.textSlices.getD slices
  | .dataBytes _, slices => faults.dataSlices.getD slices
  | .count kind _, count => faults.offsetCount kind count
  | .entries _ _ _, (keys, values) =>
    (leaveOut faults.emptyKey keys, leaveOut faults.emptyValue values)
  | .firstIndex _, first => if faults.noFirst then none else first
  | .lastIndex _, last => if faults.noLast then none else last
  | _, answer => answer

def applyTo {σ : Type} (faults : Faults) (store : Store σ) : Store σ where
  answer request :=
    match faults.refusal? request with
    | some refusal => throw refusal
    | none => faults.distort request <$> store.answer request
  release := store.release
  types := store.types
  note := store.note

end Faults

end Marshal
