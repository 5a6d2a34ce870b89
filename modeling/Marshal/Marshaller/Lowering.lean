import Marshal.Marshaller
import Marshal.Marshaller.Scalar
import Marshal.Value.Key

/-!
# Lowering values

A container is lowered in two steps.  It is staged: an empty container that can
be changed is created, and each element is lowered, put in and given up, so that
only the container holds it.  Then it is sealed: a sealed copy is made and the
staged container is given up.  When something fails on the way, everything that
was made is released.

What can be wrong with the value itself is found before anything is created: the
depth first, then members that are containers, or keys without a text.
-/

namespace Marshal.Marshaller

variable {σ : Type} (m : Marshaller σ)

/-! ## Staging and sealing -/

/-- Stages a container with `room` levels left for it and what it contains.
The contents are checked before the container is created. -/
def stage {β : Type} (kind : Container) (room : Nat) (check : Result β)
    (fill : Nat → β → Handle → Action σ Unit) : Action σ Handle :=
  match room, check with
  | 0, _ => throw m.tooDeep
  | _ + 1, .error e => throw e
  | room + 1, .ok checked =>
    m.store.building (m.store.ask (.create kind)) (fill room checked)

/-- Replaces a staged container by a sealed copy. -/
def sealed (kind : Container) (staged : Action σ Handle) : Action σ Handle :=
  m.store.withReference staged fun handle => m.store.ask (.copy kind handle)

/-- Refuses members of a set that are containers, the first one first. -/
def checkMembers (members : List Value) : Result Unit :=
  match members.find? Value.isContainer with
  | some member => .error (.unhashableMember member.typeName)
  | none => .ok ()

def keyTexts (entries : List (Value × Value)) : Result (List String) :=
  entries.mapM fun entry => entry.1.keyText

/-! ## Values -/

mutual

/-- Lowers a value with `room` levels of nesting left. -/
def lowerWithin : (room : Nat) → Value → Action σ Handle
  | _, .null => throw .nullValue
  | _, .bool b => pure (.boolean b)
  | _, .int n => m.store.lowerInt n
  | _, .float x => m.store.lowerFloat x
  | _, .complex z => m.store.lowerComplex z
  | _, .text s => m.store.lowerText s false
  | _, .bytes b => m.store.lowerBytes b false
  | room, .list items =>
    m.sealed .array (m.stage .array room (.ok ()) fun room _ array =>
      appendAll room array items)
  | room, .dict entries =>
    m.sealed .dictionary (m.stage .dictionary room (keyTexts entries) fun room keys dictionary =>
      putAll room dictionary keys entries)
  | room, .set members =>
    m.sealed .valueSet (m.stage .valueSet room (checkMembers members) fun room _ set =>
      addAll room set members)
  | _, .object o => m.registry.lower m.store o
  | _, .token handle => throw (.tokenValue handle)
termination_by structural _ v => v

def appendAll : (room : Nat) → (array : Handle) → List Value → Action σ Unit
  | _, _, [] => pure ()
  | room, array, item :: items => do
    m.store.withReference (lowerWithin room item) fun handle =>
      m.store.ask (.append array handle)
    appendAll room array items
termination_by structural _ _ items => items

def addAll : (room : Nat) → (set : Handle) → List Value → Action σ Unit
  | _, _, [] => pure ()
  | room, set, member :: members => do
    m.store.withReference (lowerWithin room member) fun handle =>
      m.store.ask (.addMember set handle)
    addAll room set members
termination_by structural _ _ members => members

/-- Lowers entries into a dictionary, where the texts of their keys are given.
An entry gives up its value before its key. -/
def putAll : (room : Nat) → (dictionary : Handle) → (keys : List String) →
    List (Value × Value) → Action σ Unit
  | room, dictionary, key :: keys, (_, value) :: entries => do
    m.store.withReference (m.store.lowerText key false) fun keyHandle =>
      m.store.withReference (lowerWithin room value) fun valueHandle =>
        m.store.ask (.putEntry dictionary keyHandle valueHandle)
    putAll room dictionary keys entries
  | _, _, _, _ => pure ()
termination_by structural _ _ _ entries => entries

end

/-! ## Containers -/

def stageArray (room : Nat) (items : List Value) : Action σ Handle :=
  m.stage .array room (.ok ()) fun room _ array => m.appendAll room array items

def stageDictionary (room : Nat) (entries : List (Value × Value)) : Action σ Handle :=
  m.stage .dictionary room (keyTexts entries) fun room keys dictionary =>
    m.putAll room dictionary keys entries

def stageSet (room : Nat) (members : List Value) : Action σ Handle :=
  m.stage .valueSet room (checkMembers members) fun room _ set => m.addAll room set members

/-- A list is staged as an array and sealed. -/
theorem lowerWithin_list (room : Nat) (items : List Value) :
    m.lowerWithin room (.list items) = m.sealed .array (m.stageArray room items) := rfl

theorem lowerWithin_dict (room : Nat) (entries : List (Value × Value)) :
    m.lowerWithin room (.dict entries) =
      m.sealed .dictionary (m.stageDictionary room entries) := rfl

theorem lowerWithin_set (room : Nat) (members : List Value) :
    m.lowerWithin room (.set members) = m.sealed .valueSet (m.stageSet room members) := rfl

def lower (v : Value) : Action σ Handle := m.lowerWithin m.limits.maxDepth v

/-- Lowers items to an array, left open to change if so wanted. -/
def lowerList (items : List Value) (mutable : Bool) : Action σ Handle :=
  let staged := m.stageArray m.limits.maxDepth items
  if mutable then staged else m.sealed .array staged

/-- Lowers entries to a dictionary, left open to change if so wanted. -/
def lowerDict (entries : List (Value × Value)) (mutable : Bool) : Action σ Handle :=
  let staged := m.stageDictionary m.limits.maxDepth entries
  if mutable then staged else m.sealed .dictionary staged

/-- Lowers members to a set, left open to change if so wanted. -/
def lowerSet (members : List Value) (mutable : Bool) : Action σ Handle :=
  let staged := m.stageSet m.limits.maxDepth members
  if mutable then staged else m.sealed .valueSet staged

end Marshal.Marshaller
