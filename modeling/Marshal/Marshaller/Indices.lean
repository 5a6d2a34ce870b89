import Marshal.Marshaller.Lowering
import Marshal.Sorted

/-!
# Containers of integers

Arrays, sets and maps of integers have stored forms of their own.  Values that
are not integers are found before anything is created.  These containers have no
depth, so no limit of nesting applies to them.

Not everything can be read back.  A store tells of an index set only how many
members it has and which are the first and the last, so a set with gaps comes
back as its two ends.  A pair set is probed index by index from zero up, and
pairs outside of the window are lost.  Both losses are logged.
-/

namespace Marshal.Marshaller

variable {σ : Type} (m : Marshaller σ)

/-! ## Lowering -/

/-- The integer that a value is, as an element of a container of integers. -/
def integer (kind : Container) (v : Value) : Result Int64 :=
  match v.int? with
  | some n => .ok n
  | none => .error (.notInteger kind v.typeName)

def integers (kind : Container) (values : List Value) : Result (List Int64) :=
  values.mapM (integer kind)

/-- The pairs of integers that entries are, where an index comes before its
value. -/
def integerPairs (entries : List (Value × Value)) : Result (List (Int64 × Int64)) :=
  entries.mapM fun entry => do
    let index ← integer .pairSet entry.1
    let value ← integer .pairSet entry.2
    pure (index, value)

/-- Sends one request after another. -/
def askAll (requests : List Request) : Action σ Unit := requests.forM fun request => do
  let _ ← m.store.ask request

/-- Lowers checked elements to a sealed container. -/
def lowerIndices {β : Type} (kind : Container) (elements : Result (List β))
    (insertion : Handle → β → Request) : Action σ Handle := do
  let elements ← elements.toAction
  m.sealed kind <| m.store.building (m.store.ask (.create kind)) fun handle =>
    m.askAll (elements.map (insertion handle))

def lowerIndexArray (values : List Value) : Action σ Handle :=
  m.lowerIndices .indexArray (integers .indexArray values) .appendIndex

def lowerIndexSet (values : List Value) : Action σ Handle :=
  m.lowerIndices .indexSet (integers .indexSet values) .addIndex

/-- Lowers entries of integers to a pair set, where later entries win. -/
def lowerPairs (entries : List (Value × Value)) : Action σ Handle :=
  m.lowerIndices .pairSet (integerPairs entries) fun handle pair => .addPair handle pair.1 pair.2

/-! ## Lifting -/

/-- Reads an array of integers item by item. -/
def liftIndexArray (array : Handle) : Action σ (List Int64) := do
  let count : Nat ← m.store.ask (.count .indexArray array)
  (List.range count).mapM fun index => m.store.ask (.indexAt array index)

/-- The integers from `first` up to `last`. -/
def interval (first last : Int64) : List Int64 :=
  (List.range (last.toInt - first.toInt + 1).toNat).map fun k =>
    Int64.ofInt (first.toInt + Int.ofNat k)

/-- Reads a set of integers as far as its ends and its size tell them, in
ascending order. -/
def liftIndexSet (set : Handle) : Action σ (List Int64) := do
  let count : Nat ← m.store.ask (.count .indexSet set)
  let first? : Option Int64 ← m.store.ask (.firstIndex set)
  let last? : Option Int64 ← m.store.ask (.lastIndex set)
  match first?, last? with
  | some first, some last =>
    if count = 1 then pure [first]
    else if last.toInt - first.toInt + 1 = count then pure (interval first last)
    else
      m.store.log (.sparseIndexSet count first last)
      pure (Sorted.insert Sorted.ascending first [last])
  | _, _ => pure []

/-- Probes `window` indices from `index` on, until no pair is missing. -/
def probe (set : Handle) : (window index missing : Nat) → Action σ (List (Int64 × Int64))
  | 0, _, _ => pure []
  | _ + 1, _, 0 => pure []
  | window + 1, index, missing + 1 => do
    let value? : Option Int64 ← m.store.ask (.pairAt set (Int64.ofNat index))
    match value? with
    | some value =>
      return (Int64.ofNat index, value) :: (← probe set window (index + 1) missing)
    | none => probe set window (index + 1) (missing + 1)

/-- The number of indices that are probed.  A limit past the range of indices
leaves none to probe. -/
def window : Nat := if m.limits.probeLimit ≤ Int64.maxValue.toInt then m.limits.probeLimit else 0

/-- Reads the pairs of a pair set that lie in the window, in ascending order of
their indices. -/
def liftPairs (set : Handle) : Action σ (List (Int64 × Int64)) := do
  let count : Nat ← m.store.ask (.count .pairSet set)
  let pairs ← m.probe set m.window 0 count
  if pairs.length < count then
    m.store.log (.unprobedPairs pairs.length count m.limits.probeLimit)
  pure pairs

end Marshal.Marshaller
