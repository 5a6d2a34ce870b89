import Marshal.Marshaller.Indices

/-!
# Lifting objects

An object is read as its type tells: scalars and containers of integers at once,
and other containers object by object, one level deeper.  How a container is
read does not depend on how its elements are, so the readers of containers take
the reader of elements as an argument; there is none where the levels are used
up.

A converter reads the objects of the types it claims, and an object of an
unknown type comes back as a token.
-/

namespace Marshal.Marshaller

variable {σ : Type} (m : Marshaller σ)

/-! ## Containers -/

def readArray (element : Handle → Action σ Value) (array : Handle) : Action σ (List Value) := do
  let count : Nat ← m.store.ask (.count .array array)
  (List.range count).mapM fun index => do
    let item : Handle ← m.store.ask (.itemAt array index)
    element item

/-- Reads an entry of a dictionary, the key first.  A store has to fill both
slots. -/
def readEntry (element : Handle → Action σ Value) :
    Option Handle × Option Handle → Action σ (Value × Value)
  | (some key, some value) => return (← element key, ← element value)
  | _ => throw .emptySlot

def readDictionary (element : Handle → Action σ Value) (dictionary : Handle) :
    Action σ (List (Value × Value)) := do
  let count : Nat ← m.store.ask (.count .dictionary dictionary)
  let (keys, values) : List (Option Handle) × List (Option Handle) ←
    m.store.ask (.entries dictionary count count)
  (keys.zip values).mapM (readEntry element)

/-- Reads a set through an array of its members, which is given up again. -/
def readSet (element : Handle → Action σ Value) (set : Handle) : Action σ (List Value) :=
  m.store.withReference (m.store.ask (.members set)) (m.readArray element)

/-- Reads the elements of a container if there is a level left for them. -/
def deeper {α : Type} (element? : Option (Handle → Action σ Value))
    (read : (Handle → Action σ Value) → Action σ α) : Action σ α :=
  match element? with
  | some element => read element
  | none => throw m.tooDeep

/-! ## Objects -/

def liftStandard (element? : Option (Handle → Action σ Value)) (type : StandardType)
    (handle : Handle) : Action σ Value :=
  match type with
  | .text _ => .text <$> m.store.liftText handle
  | .number => m.store.liftNumber handle
  | .boolean => .bool <$> m.store.liftBool handle
  | .data _ => .bytes <$> m.store.liftBytes handle
  | .container .array _ => .list <$> m.deeper element? fun element => m.readArray element handle
  | .container .dictionary _ =>
    .dict <$> m.deeper element? fun element => m.readDictionary element handle
  | .container .valueSet _ => .set <$> m.deeper element? fun element => m.readSet element handle
  | .container .indexArray _ => (fun ns => .list (ns.map .int)) <$> m.liftIndexArray handle
  | .container .indexSet _ => (fun ns => .set (ns.map .int)) <$> m.liftIndexSet handle
  | .container .pairSet _ =>
    (fun pairs => .dict (pairs.map fun pair => (.int pair.1, .int pair.2))) <$> m.liftPairs handle

/-- Reads an object, given the reader of what lies one level deeper. -/
def liftObject (element? : Option (Handle → Action σ Value)) (handle : Handle) :
    Action σ Value := do
  match ← m.identify handle with
  | .standard type => m.liftStandard element? type handle
  | .extension place =>
    match m.registry.converters[place]? with
    | some converter => converter.lift m.store handle
    | none => pure (.token handle)
  | .unknown _ => pure (.token handle)

/-- Reads an object with `room` levels of nesting left. -/
def liftWithin : (room : Nat) → Handle → Action σ Value
  | 0, handle => m.liftObject none handle
  | room + 1, handle => m.liftObject (some (liftWithin room)) handle

/-- The reader of the elements of a container, with `room` levels of nesting
left for them and the container. -/
def element? : (room : Nat) → Option (Handle → Action σ Value)
  | 0 => none
  | room + 1 => some (m.liftWithin room)

/-- An object is read with the reader of what lies one level deeper. -/
theorem liftWithin_eq (room : Nat) (handle : Handle) :
    m.liftWithin room handle = m.liftObject (m.element? room) handle := by
  cases room <;> rfl

/-- Reads the object of a handle; no handle is the absent value. -/
def lift (handle? : Option Handle) : Action σ Value :=
  match handle? with
  | some handle => m.liftWithin m.limits.maxDepth handle
  | none => pure .null

def liftList (array : Handle) : Action σ (List Value) :=
  m.deeper (m.element? m.limits.maxDepth) fun element => m.readArray element array

def liftDict (dictionary : Handle) : Action σ (List (Value × Value)) :=
  m.deeper (m.element? m.limits.maxDepth) fun element => m.readDictionary element dictionary

def liftSet (set : Handle) : Action σ (List Value) :=
  m.deeper (m.element? m.limits.maxDepth) fun element => m.readSet element set

end Marshal.Marshaller
