import Marshal.Heap.Answer
import Marshal.Marshaller.Lifting
import Marshal.Session.Reply
import Marshal.Session.Step
import Marshal.Store.Recording
import Marshal.Value.Equality
import Marshal.Value.Shown

/-!
# Sessions

A session works on a heap through one marshaller, step by step, and keeps the
handles it gets under names.  New objects are numbered in the order in which
they were handed out.  A handle can be kept in two ways: as a guard, which
owns a reference and releases it when it is dropped, or raw, which owns nothing.

Every step reports what came out, the counters of the heap, and what was logged.
A step that fails leaves the names as they were.
-/

namespace Marshal

inductive Slot where
  | guarded (handle : Handle)
  | raw (handle : Handle)
deriving DecidableEq

def Slot.handle : Slot → Handle
  | guarded handle | raw handle => handle

/-- A heap with the means to work on it. -/
structure Session where
  /-- The heap, and the objects that were handed out as new. -/
  memory : Recorded Heap
  marshaller : Marshaller (Recorded Heap)
  faults : Faults := {}
  /-- The handles that are kept, in ascending order of their names. -/
  slots : List (String × Slot) := []

namespace Session

/-- A session on a fresh heap with registered types, some of which the
marshaller does not see.  The identifiers of the types come first. -/
def start (typeNames hidden : List String)
    (converters : Heap → List (Converter (Recorded Heap))) (limits : Limits) :
    List TypeId × Session :=
  let (ids, heap) := typeNames.foldl (fun (ids, heap) name =>
    let (id, heap) := Heap.registerType heap name
    (ids ++ [id], heap)) (([] : List TypeId), ({} : Heap))
  let memory : Recorded Heap := { state := heap }
  let store := (Heap.store.without fun entry => hidden.contains entry.name).recording
  (ids, { memory, marshaller := .make store memory ⟨converters heap⟩ limits })

/-! ### Parts of a session -/

def heap (s : Session) : Heap := s.memory.state

def mapHeap (s : Session) (f : Heap → Heap) : Session :=
  { s with memory := { s.memory with state := f s.memory.state } }

/-- The marshaller as the steps see it. -/
def current (s : Session) : Marshaller (Recorded Heap) :=
  { s.marshaller with store := s.faults.applyTo s.marshaller.store }

/-! ### Keeping handles -/

def slot? (s : Session) (name : String) : Option Slot := Sorted.find? name s.slots

def forget (s : Session) (name : String) : Session :=
  { s with slots := s.slots.filter (·.1 ≠ name) }

/-- Drops what was kept: a guard releases its reference. -/
def discard (s : Session) : Slot → Session
  | .guarded handle => { s with memory := s.current.store.release handle s.memory }
  | .raw _ => s

/-- Keeps a handle under a name and drops what was there. -/
def keep (s : Session) (name : String) (slot : Slot) : Session :=
  let stored := { s with slots := Sorted.put Sorted.ascending name slot s.slots }
  match s.slot? name with
  | some old => stored.discard old
  | none => stored

/-- Keeps the handle of a reply if it has one and a name is given. -/
def settle (s : Session) (name? : Option String) : Reply → Session
  | .handle handle .guarded =>
    match name? with
    | some name => s.keep name (.guarded handle)
    | none => s.discard (.guarded handle)
  | .handle handle .raw =>
    match name? with
    | some name => s.keep name (.raw handle)
    | none => s
  | _ => s

/-! ### Doing a step -/

/-- The outcome of a computation on the heap. -/
def outcome {ε α : Type} (s : Session) (error : ε → StepError) (reply : α → Reply) :
    EStateM.Result ε (Recorded Heap) α → Except StepError Reply × Session
  | .ok a memory => (.ok (reply a), { s with memory })
  | .error e memory => (.error (error e), { s with memory })

def convert {α : Type} (s : Session) (action : Action (Recorded Heap) α) (reply : α → Reply) :
    Except StepError Reply × Session :=
  s.outcome .failure reply (action s.memory)

/-- Runs a conversion whose answer is a reference to guard. -/
def guarding (s : Session) (action : Action (Recorded Heap) Handle) :
    Except StepError Reply × Session :=
  s.convert action fun handle => .handle handle .guarded

/-- Sends a request of its own to the store. -/
def send (s : Session) (request : Request) (reply : request.Answer → Reply) :
    Except StepError Reply × Session :=
  s.outcome .refusal reply (s.current.store.answer request s.memory)

/-- Does what a step says.  The handle of a reply is not kept yet. -/
def perform (s : Session) (step : Step) : Except StepError Reply × Session :=
  let m := s.current
  match step with
  | .lower v => s.guarding (m.lower v)
  | .lowerList items mutable => s.guarding (m.lowerList items mutable)
  | .lowerDict entries mutable => s.guarding (m.lowerDict entries mutable)
  | .lowerSet members mutable => s.guarding (m.lowerSet members mutable)
  | .lowerIndexArray values => s.guarding (m.lowerIndexArray values)
  | .lowerIndexSet values => s.guarding (m.lowerIndexSet values)
  | .lowerPairs entries => s.guarding (m.lowerPairs entries)
  | .lowerText text mutable => s.guarding (m.store.lowerText text mutable)
  | .lowerText? (some text) => s.guarding (m.store.lowerText text false)
  | .lowerText? none => (.ok .nothing, s)
  | .lowerInt n => s.guarding (m.store.lowerInt n)
  | .lowerFloat x => s.guarding (m.store.lowerFloat x)
  | .lowerComplex z => s.guarding (m.store.lowerComplex z)
  | .lowerNumber v => s.guarding (m.store.lowerNumber v)
  | .lowerBool b => s.guarding (pure (.boolean b))
  | .lowerBytes bytes mutable => s.guarding (m.store.lowerBytes bytes mutable)
  | .lowerPacked layout values mutable => s.guarding (m.store.lowerPacked layout values mutable)
  | .convert (some place) o =>
    match m.registry.converters[place]? with
    | some converter => s.guarding (converter.lower m.store o)
    | none => (.ok .nothing, s)
  | .convert none o => s.guarding (m.registry.lower m.store o)
  | .lift handle .value => s.convert (m.lift handle) .value
  | .lift handle .shown => s.convert (m.lift handle) fun v => .text (String.ofList v.shown)
  | .lift handle (.equality v) => s.convert (m.lift handle) fun w => .flag (w == v)
  | .liftList array => s.convert (m.liftList array) .values
  | .liftDict dictionary => s.convert (m.liftDict dictionary) .entries
  | .liftSet set => s.convert (m.liftSet set) .values
  | .liftIndexArray array => s.convert (m.liftIndexArray array) .integers
  | .liftIndexSet set => s.convert (m.liftIndexSet set) .integers
  | .liftPairs set => s.convert (m.liftPairs set) .pairs
  | .liftText handle => s.convert (m.store.liftText handle) .text
  | .liftNumber handle => s.convert (m.store.liftNumber handle) .value
  | .liftBool handle => s.convert (m.store.liftBool handle) .flag
  | .liftBytes handle => s.convert (m.store.liftBytes handle) .bytes
  | .liftPacked layout handle =>
    s.convert (m.store.liftPacked layout handle) fun values =>
      .numbers (values.map (Number.ofCarrier layout))
  | .identify handle => s.convert (m.identify handle) fun kind => .identity kind kind.isMutable
  | .kindOf id => (.ok (.kind (m.types.kindOf id)), s)
  | .drop name =>
    match s.slot? name with
    | some slot => (.ok .nothing, (s.forget name).discard slot)
    | none => (.error .noSlot, s)
  | .intoRaw name =>
    match s.slot? name with
    | some slot => (.ok (.handle slot.handle .raw), s.forget name)
    | none => (.error .noSlot, s)
  | .adopt handle => (.ok (.handle handle .guarded), s)
  | .retain handle =>
    s.send (.retain handle) fun _ => .handle handle .guarded
  | .request request => s.send request request.reply
  | .release handle => (.ok .nothing, { s with memory := m.store.release handle s.memory })
  | .boolean b => (.ok (.handle (.boolean b) .raw), s)
  | .types => (.ok (.types (m.store.types s.memory)), s)
  | .unreadableNumber layout =>
    s.outcome StepError.refusal (fun handle => .handle handle .raw)
      (s.memory.run (Heap.createUnreadable layout) some)
  | .count? handle => (.ok (.count? (s.heap.count? handle)), s)
  | .typeName? id => (.ok (.text? (s.heap.typeName? id)), s)
  | .setBudget budget => (.ok .nothing, s.mapHeap fun heap => heap.setBudget budget)
  | .setFaults faults => (.ok .nothing, { s with faults })

/-! ### Running -/

/-- The report on a session after it was in another state. -/
def report (s before : Session) (result : Except StepError Reply) : Report where
  result
  liveObjects := s.heap.liveObjects
  allocations := s.heap.allocations
  deadReleases := s.heap.deadReleases
  notices := (s.heap.notices.take
    (s.heap.notices.length - before.heap.notices.length)).reverse

/-- Does a step and keeps its handle under the given name. -/
def step (s : Session) (step : Step) (name? : Option String) : Report × Session :=
  let (result, done) := s.perform step
  let settled :=
    match result with
    | .ok reply => done.settle name? reply
    | .error _ => done
  (settled.report s result, settled)

/-- Drops everything that is kept, in order of the names. -/
def finish (s : Session) : Report × Session :=
  let emptied := s.slots.foldl (fun s entry => s.discard entry.2) { s with slots := [] }
  (emptied.report s (.ok .nothing), emptied)

end Session

end Marshal
