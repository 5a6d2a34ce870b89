import Marshal.Store

/-!
# Recording stores

A recording store keeps a list of the objects that it handed out as new, in
order.  This is what gives objects their numbers: the heap cannot tell, because
an object that it created for a request it refused in the end was never handed
out.
-/

namespace Marshal

/-- A state together with the handles of new objects. -/
structure Recorded (σ : Type) where
  state : σ
  /-- The handles that were handed out as new, in order. -/
  created : Array Handle := #[]

/-- The new object in an answer, if there is one. -/
def Request.newHandle? : (request : Request) → request.Answer → Option Handle
  | .createText _ _, handle | .createNumber _, handle | .createData _ _, handle
  | .create _, handle | .copy _ _, handle | .members _, handle | .createCustom _ _, handle =>
    some handle
  | _, _ => none

namespace Recorded

variable {σ ε α : Type}

def add (recorded : Recorded σ) (handle? : Option Handle) : Recorded σ :=
  match handle? with
  | some handle => { recorded with created := recorded.created.push handle }
  | none => recorded

/-- Runs a computation on the state, whose result may be a new object. -/
def run (recorded : Recorded σ) (computation : EStateM ε σ α) (new? : α → Option Handle) :
    EStateM.Result ε (Recorded σ) α :=
  match computation recorded.state with
  | .ok a state => .ok a (({ recorded with state }).add (new? a))
  | .error e state => .error e { recorded with state }

/-- The number of a new object, counted from one. -/
def number? (recorded : Recorded σ) (handle : Handle) : Option Nat :=
  (recorded.created.findIdx? (· = handle)).map (· + 1)

def numbered? (recorded : Recorded σ) : Nat → Option Handle
  | 0 => none
  | n + 1 => recorded.created[n]?

end Recorded

/-- The same store with a record of new objects. -/
def Store.recording {σ : Type} (store : Store σ) : Store (Recorded σ) where
  answer request := fun recorded => recorded.run (store.answer request) request.newHandle?
  release handle recorded := { recorded with state := store.release handle recorded.state }
  types recorded := store.types recorded.state
  note notice recorded := { recorded with state := store.note notice recorded.state }

end Marshal
