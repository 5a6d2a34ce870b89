import Marshal.Numeric.Number

/-!
# Packed numbers

Numbers of one layout are packed into bytes one after another, each with its
lowest byte first; a complex number is its real part followed by its imaginary
part.  `pack` writes a list of numbers, `unpack?` reads a buffer back if its
length is a whole number of elements.
-/

namespace Marshal

/-! ## Words -/

/-- The `width` lowest bytes of a number, the lowest first. -/
def toLittleEndian : (width : Nat) → Nat → List UInt8
  | 0, _ => []
  | width + 1, n => UInt8.ofNat (n % 256) :: toLittleEndian width (n / 256)

/-- The number whose bytes, lowest first, are given. -/
def ofLittleEndian : List UInt8 → Nat
  | [] => 0
  | b :: bytes => b.toNat + 256 * ofLittleEndian bytes

/-! ## Elements -/

namespace Layout

/-- The packed size of an element in bytes. -/
def width : Layout → Nat
  | sint8 | uint8 => 1
  | sint16 | uint16 => 2
  | sint32 | uint32 | float32 => 4
  | sint64 | uint64 | float64 | complex64 => 8
  | complex128 => 16

def encode : (layout : Layout) → layout.Carrier → List UInt8
  | sint8, v => toLittleEndian 1 v.toUInt8.toNat
  | sint16, v => toLittleEndian 2 v.toUInt16.toNat
  | sint32, v => toLittleEndian 4 v.toUInt32.toNat
  | sint64, v => toLittleEndian 8 v.toUInt64.toNat
  | uint8, v => toLittleEndian 1 v.toNat
  | uint16, v => toLittleEndian 2 v.toNat
  | uint32, v => toLittleEndian 4 v.toNat
  | uint64, v => toLittleEndian 8 v.toNat
  | float32, v => toLittleEndian 4 v.bits.toNat
  | float64, v => toLittleEndian 8 v.bits.toNat
  | complex64, v => toLittleEndian 4 v.re.bits.toNat ++ toLittleEndian 4 v.im.bits.toNat
  | complex128, v => toLittleEndian 8 v.re.bits.toNat ++ toLittleEndian 8 v.im.bits.toNat

/-- The element that `width` bytes hold. -/
def decode : (layout : Layout) → List UInt8 → layout.Carrier
  | sint8, bytes => (UInt8.ofNat (ofLittleEndian bytes)).toInt8
  | sint16, bytes => (UInt16.ofNat (ofLittleEndian bytes)).toInt16
  | sint32, bytes => (UInt32.ofNat (ofLittleEndian bytes)).toInt32
  | sint64, bytes => (UInt64.ofNat (ofLittleEndian bytes)).toInt64
  | uint8, bytes => UInt8.ofNat (ofLittleEndian bytes)
  | uint16, bytes => UInt16.ofNat (ofLittleEndian bytes)
  | uint32, bytes => UInt32.ofNat (ofLittleEndian bytes)
  | uint64, bytes => UInt64.ofNat (ofLittleEndian bytes)
  | float32, bytes => ⟨UInt32.ofNat (ofLittleEndian bytes)⟩
  | float64, bytes => ⟨UInt64.ofNat (ofLittleEndian bytes)⟩
  | complex64, bytes =>
    ⟨⟨UInt32.ofNat (ofLittleEndian (bytes.take 4))⟩,
      ⟨UInt32.ofNat (ofLittleEndian (bytes.drop 4))⟩⟩
  | complex128, bytes =>
    ⟨⟨UInt64.ofNat (ofLittleEndian (bytes.take 8))⟩,
      ⟨UInt64.ofNat (ofLittleEndian (bytes.drop 8))⟩⟩

/-! ## Buffers -/

def pack (layout : Layout) (values : List layout.Carrier) : List UInt8 :=
  values.flatMap layout.encode

/-- The first `count` elements of a buffer. -/
def decodeMany (layout : Layout) : (count : Nat) → List UInt8 → List layout.Carrier
  | 0, _ => []
  | count + 1, bytes =>
    layout.decode (bytes.take layout.width) :: decodeMany layout count (bytes.drop layout.width)

/-- The elements of a buffer, if it is a whole number of them long. -/
def unpack? (layout : Layout) (bytes : List UInt8) : Option (List layout.Carrier) :=
  if bytes.length % layout.width = 0 then
    some (layout.decodeMany (bytes.length / layout.width) bytes)
  else none

end Layout

end Marshal
