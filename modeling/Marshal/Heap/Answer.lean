import Marshal.Heap.Release
import Marshal.Sorted
import Marshal.Store

/-!
# The heap as a store

How the heap answers requests.  A request that is refused changes nothing, with
one exception: a copy, and an array of the members of a set, are created before
the references to their contents are counted, so contents that are no longer
live refuse the request when the new object is already there.
-/

namespace Marshal.Heap

/-! ## Reading objects -/

/-- The name of the sealed type of a kind of container. -/
def sealedName (kind : Container) : String := (StandardType.container kind false).name

def textOf (heap : Heap) (handle : Handle) : Except Refusal String :=
  heap.expect (StandardType.text false).name Content.text? handle

/-- The number of an object, whose layout has to be readable. -/
def numberOf (heap : Heap) (handle : Handle) : Except Refusal Number :=
  match heap.expect StandardType.number.name Content.number? handle with
  | .ok (.known n) => .ok n
  | .ok (.unreadable layout) =>
    .error (.unknownLayout layout (heap.typeLabel StandardType.number.id))
  | .error refusal => .error refusal

def booleanOf (heap : Heap) (handle : Handle) : Except Refusal Bool :=
  heap.expect StandardType.boolean.name Content.boolean? handle

def dataOf (heap : Heap) (handle : Handle) : Except Refusal (List UInt8) :=
  heap.expect (StandardType.data false).name Content.data? handle

def itemsOf (heap : Heap) (handle : Handle) : Except Refusal (Array Handle) :=
  heap.expect (sealedName .array) Content.array? handle

def entriesOf (heap : Heap) (handle : Handle) : Except Refusal (List (Handle × Handle)) :=
  heap.expect (sealedName .dictionary) Content.dictionary? handle

def membersOf (heap : Heap) (handle : Handle) : Except Refusal (List Handle) :=
  heap.expect (sealedName .valueSet) Content.members? handle

def indicesOf (heap : Heap) (handle : Handle) : Except Refusal (Array Int64) :=
  heap.expect (sealedName .indexArray) Content.indexArray? handle

def indexSetOf (heap : Heap) (handle : Handle) : Except Refusal (List Int64) :=
  heap.expect (sealedName .indexSet) Content.indexSet? handle

def pairsOf (heap : Heap) (handle : Handle) : Except Refusal (List (Int64 × Int64)) :=
  heap.expect (sealedName .pairSet) Content.pairSet? handle

def customOf (heap : Heap) (handle : Handle) : Except Refusal (List UInt8) :=
  heap.expect "a custom object" Content.custom? handle

/-- The contents of a container of the given kind. -/
def containerOf (heap : Heap) (kind : Container) (handle : Handle) : Except Refusal Content :=
  heap.expect (sealedName kind) (Content.ofKind? kind) handle

def itemIn {α : Type} (items : Array α) (index : Nat) : Except Refusal α :=
  match items[index]? with
  | some item => .ok item
  | none => .error (.indexOutOfBounds index items.size)

/-- The two buffers filled from a dictionary, which they must fit exactly. -/
def buffers (entries : List (Handle × Handle)) (keySlots valueSlots : Nat) :
    Except Refusal (List (Option Handle) × List (Option Handle)) :=
  if keySlots ≠ entries.length then .error (.bufferSize entries.length keySlots)
  else if valueSlots ≠ entries.length then .error (.bufferSize entries.length valueSlots)
  else .ok (entries.map fun entry => some entry.1, entries.map fun entry => some entry.2)

/-! ## Creating objects -/

/-- A new object that holds references to others, which are counted once it
exists. -/
def collect (o : Object) : Attempt Handle := do
  let handle ← allocate o
  retainAll o.children
  pure handle

/-- A sealed copy of a container. -/
def copy (kind : Container) (handle : Handle) : Attempt Handle := do
  let content ← reading fun heap => heap.containerOf kind handle
  collect { content }

def createCustom (type : TypeId) (bytes : List UInt8) : Attempt Handle := do
  reading fun heap =>
    if type.isCustom ∧ (heap.typeName? type).isSome then .ok ()
    else .error (.typeMismatch "a registered custom type" type.label)
  allocate { content := .custom type bytes }

def createUnreadable (layout : UInt8) : Attempt Handle :=
  allocate { content := .number (.unreadable layout) }

/-! ## Changing containers -/

def append (array item : Handle) : Attempt Unit := do
  reading fun heap => heap.expectMutable .array array
  retain item
  modify fun heap => heap.alter array fun
    | .array items => .array (items.push item)
    | content => content

/-- The place of the entry whose key is the given one or has the same text. -/
def keyPlace? (heap : Heap) (entries : List (Handle × Handle)) (key : Handle) (text : String) :
    Option Nat :=
  entries.findIdx? fun entry => entry.1 = key || heap.holds (.text text) entry.1

/-- Puts a value under a key.  The new value is counted before the old one is
released, so a value may take its own place. -/
def putEntry (dictionary key value : Handle) : Attempt Unit := do
  reading fun heap => heap.expectMutable .dictionary dictionary
  let text ← reading fun heap => heap.textOf key
  let _ ← reading fun heap => heap.look value
  let entries ← reading fun heap => heap.entriesOf dictionary
  let place? := (← get).keyPlace? entries key text
  retain value
  match place? with
  | none =>
    retain key
    modify fun heap => heap.alter dictionary fun _ => .dictionary (entries ++ [(key, value)])
  | some place =>
    modify fun heap => heap.alter dictionary fun _ =>
      .dictionary (entries.modify place fun entry => (entry.1, value))
    match entries[place]? with
    | some old => modify (release old.2)
    | none => pure ()

/-- Whether a set has the given member or one with the same contents. -/
def hasMember (heap : Heap) (members : List Handle) (member : Handle) (content : Content) :
    Bool :=
  members.any fun m => m = member || heap.holds content m

/-- Adds a member to a set that has no equal one. -/
def addMember (set member : Handle) : Attempt Unit := do
  reading fun heap => heap.expectMutable .valueSet set
  let o ← reading fun heap => heap.look member
  let members ← reading fun heap => heap.membersOf set
  if (← get).hasMember members member o.content then pure ()
  else
    retain member
    modify fun heap => heap.alter set fun _ => .members (members ++ [member])

/-- Changes the contents of a container of integers. -/
def change (kind : Container) (handle : Handle) (f : Content → Content) : Attempt Unit := do
  reading fun heap => heap.expectMutable kind handle
  modify fun heap => heap.alter handle f

/-! ## Answers -/

/-- How the heap answers a request. -/
def answer : (request : Request) → Attempt request.Answer
  | .retain handle => retain handle
  | .typeOf handle => reading fun heap => Object.typeId <$> heap.look handle
  | .createText text mutable => allocate { content := .text text, mutable }
  | .textBytes handle => reading fun heap => (fun s => [Utf8.encode s]) <$> heap.textOf handle
  | .createNumber number => allocate { content := .number (.known number) }
  | .readNumber handle => reading fun heap => heap.numberOf handle
  | .readBoolean handle => reading fun heap => heap.booleanOf handle
  | .createData bytes mutable => allocate { content := .data bytes, mutable }
  | .dataBytes handle => reading fun heap => (fun bytes => [bytes]) <$> heap.dataOf handle
  | .create kind => allocate { content := .empty kind, mutable := true }
  | .count kind handle => reading fun heap => Content.size <$> heap.containerOf kind handle
  | .copy kind handle => copy kind handle
  | .append array item => append array item
  | .itemAt array index => reading fun heap => do itemIn (← heap.itemsOf array) index
  | .putEntry dictionary key value => putEntry dictionary key value
  | .entries dictionary keySlots valueSlots =>
    reading fun heap => do buffers (← heap.entriesOf dictionary) keySlots valueSlots
  | .addMember set member => addMember set member
  | .members set => do
    let members ← reading fun heap => heap.membersOf set
    collect { content := .array members.toArray }
  | .appendIndex array value =>
    change .indexArray array fun
      | .indexArray values => .indexArray (values.push value)
      | content => content
  | .indexAt array index => reading fun heap => do itemIn (← heap.indicesOf array) index
  | .addIndex set value =>
    change .indexSet set fun
      | .indexSet values => .indexSet (Sorted.insert Sorted.descending value values)
      | content => content
  | .firstIndex set => reading fun heap => List.getLast? <$> heap.indexSetOf set
  | .lastIndex set => reading fun heap => List.head? <$> heap.indexSetOf set
  | .addPair set index value =>
    change .pairSet set fun
      | .pairSet pairs => .pairSet (Sorted.put Sorted.descending index value pairs)
      | content => content
  | .pairAt set index => reading fun heap => Sorted.find? index <$> heap.pairsOf set
  | .createCustom type bytes => createCustom type bytes
  | .customBytes handle => reading fun heap => heap.customOf handle

def store : Store Heap where
  answer := answer
  release := release
  types := types
  note := note

end Marshal.Heap
