import Marshal.Numeric.Packing
import Marshal.Store
import Marshal.Value

/-!
# Scalars

Text, numbers, booleans and bytes move to a store and back without regard to
types or limits.  Lowering answers a reference that the caller owns; lifting
borrows the handle.

A store lends bytes in slices, and the last slice counts.  A store that lends
none has failed, but for a plain byte buffer, which is then empty.
-/

namespace Marshal.Store

variable {σ : Type} (store : Store σ)

/-! ## Text -/

/-- Lowers a text, left open to change if so wanted. -/
def lowerText (text : String) (mutable : Bool) : Action σ Handle :=
  store.ask (.createText text mutable)

/-- Reads a text from the last slice that is lent. -/
def liftText (handle : Handle) : Action σ String := do
  let slices : List (List UInt8) ← store.ask (.textBytes handle)
  match slices.getLast? with
  | none => throw .noTextLent
  | some bytes =>
    match Utf8.decode bytes with
    | .ok text => pure text
    | .error fault => throw (.malformedText fault)

/-! ## Numbers -/

/-- An integer takes the 32-bit layout if it fits. -/
def integerNumber (n : Int64) : Number :=
  if n.toInt32.toInt64 = n then .sint32 n.toInt32 else .sint64 n

def lowerInt (n : Int64) : Action σ Handle := store.ask (.createNumber (integerNumber n))

def lowerFloat (x : Binary64) : Action σ Handle := store.ask (.createNumber (.float64 x))

def lowerComplex (z : Cartesian Binary64) : Action σ Handle :=
  store.ask (.createNumber (.complex128 z))

/-- Lowers an integer, a floating-point number or a complex number. -/
def lowerNumber : Value → Action σ Handle
  | .int n => store.lowerInt n
  | .float x => store.lowerFloat x
  | .complex z => store.lowerComplex z
  | v => throw (.notNumber v.typeName)

/-- The value of a stored number, in the widest layout of its sort.  Only large
unsigned integers have none. -/
def numberValue : Number → Result Value
  | .sint8 n => .ok (.int n.toInt64)
  | .sint16 n => .ok (.int n.toInt64)
  | .sint32 n => .ok (.int n.toInt64)
  | .sint64 n => .ok (.int n)
  | .uint8 n => .ok (.int n.toUInt64.toInt64)
  | .uint16 n => .ok (.int n.toUInt64.toInt64)
  | .uint32 n => .ok (.int n.toUInt64.toInt64)
  | .uint64 n =>
    if n.toNat ≤ Int64.maxValue.toInt then .ok (.int n.toInt64) else .error (.unsignedTooLarge n)
  | .float32 x => .ok (.float x.widen)
  | .float64 x => .ok (.float x)
  | .complex64 z => .ok (.complex (z.map Binary.widen))
  | .complex128 z => .ok (.complex z)

def liftNumber (handle : Handle) : Action σ Value := do
  let number : Number ← store.ask (.readNumber handle)
  (numberValue number).toAction

/-! ## Booleans -/

def liftBool (handle : Handle) : Action σ Bool := store.ask (.readBoolean handle)

/-! ## Bytes -/

/-- Lowers a byte buffer, left open to change if so wanted. -/
def lowerBytes (bytes : List UInt8) (mutable : Bool) : Action σ Handle :=
  store.ask (.createData bytes mutable)

/-- Reads the last slice of a byte buffer, or nothing where none is lent. -/
def liftBytes (handle : Handle) : Action σ (List UInt8) := do
  let slices : List (List UInt8) ← store.ask (.dataBytes handle)
  pure (slices.getLast?.getD [])

/-- Lowers numbers of one layout to a data buffer that holds them packed. -/
def lowerPacked (layout : Layout) (values : List layout.Carrier) (mutable : Bool) :
    Action σ Handle :=
  store.lowerBytes (layout.pack values) mutable

/-- Reads a data buffer as packed numbers of one layout. -/
def liftPacked (layout : Layout) (handle : Handle) : Action σ (List layout.Carrier) := do
  let slices : List (List UInt8) ← store.ask (.dataBytes handle)
  match slices.getLast? with
  | none => throw .noDataLent
  | some bytes =>
    match layout.unpack? bytes with
    | some values => pure values
    | none => throw (.raggedData bytes.length layout.width)

end Marshal.Store
