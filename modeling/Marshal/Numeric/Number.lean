import Marshal.Numeric.Binary
import Marshal.Numeric.Cartesian

/-!
# Stored numbers

A number object holds a value in one of twelve layouts.  A `Layout` names the
layout, `Layout.Carrier` is the type of its values, and a `Number` is a value
together with its layout.

Two stored numbers are the same (`Number.same`) when both are integers of equal
value, whatever their widths; when both are floating-point numbers of equal
value, whatever their precision; or when they are equal complex numbers of one
precision.  An integer is never the same as a floating-point number.
-/

namespace Marshal

/-- The twelve layouts a stored number or a packed element can have. -/
inductive Layout where
  | sint8 | sint16 | sint32 | sint64
  | uint8 | uint16 | uint32 | uint64
  | float32 | float64
  | complex64 | complex128
deriving DecidableEq

namespace Layout

/-- The name of the layout.  A complex layout is named for its total size. -/
def name : Layout → String
  | sint8 => "sint8"
  | sint16 => "sint16"
  | sint32 => "sint32"
  | sint64 => "sint64"
  | uint8 => "uint8"
  | uint16 => "uint16"
  | uint32 => "uint32"
  | uint64 => "uint64"
  | float32 => "float32"
  | float64 => "float64"
  | complex64 => "complex64"
  | complex128 => "complex128"

abbrev Carrier : Layout → Type
  | sint8 => Int8
  | sint16 => Int16
  | sint32 => Int32
  | sint64 => Int64
  | uint8 => UInt8
  | uint16 => UInt16
  | uint32 => UInt32
  | uint64 => UInt64
  | float32 => Binary32
  | float64 => Binary64
  | complex64 => Cartesian Binary32
  | complex128 => Cartesian Binary64

end Layout

/-- A number as a number object stores it. -/
inductive Number where
  | sint8 (value : Int8)
  | sint16 (value : Int16)
  | sint32 (value : Int32)
  | sint64 (value : Int64)
  | uint8 (value : UInt8)
  | uint16 (value : UInt16)
  | uint32 (value : UInt32)
  | uint64 (value : UInt64)
  | float32 (value : Binary32)
  | float64 (value : Binary64)
  | complex64 (value : Cartesian Binary32)
  | complex128 (value : Cartesian Binary64)
deriving DecidableEq

namespace Number

/-- A value of a layout, tagged with it. -/
def ofCarrier : (layout : Layout) → layout.Carrier → Number
  | .sint8, v => .sint8 v
  | .sint16, v => .sint16 v
  | .sint32, v => .sint32 v
  | .sint64, v => .sint64 v
  | .uint8, v => .uint8 v
  | .uint16, v => .uint16 v
  | .uint32, v => .uint32 v
  | .uint64, v => .uint64 v
  | .float32, v => .float32 v
  | .float64, v => .float64 v
  | .complex64, v => .complex64 v
  | .complex128, v => .complex128 v

def layout : Number → Layout
  | sint8 _ => .sint8
  | sint16 _ => .sint16
  | sint32 _ => .sint32
  | sint64 _ => .sint64
  | uint8 _ => .uint8
  | uint16 _ => .uint16
  | uint32 _ => .uint32
  | uint64 _ => .uint64
  | float32 _ => .float32
  | float64 _ => .float64
  | complex64 _ => .complex64
  | complex128 _ => .complex128

/-- The value of a number in one of the eight integer layouts. -/
def integer? : Number → Option Int
  | sint8 v => some v.toInt
  | sint16 v => some v.toInt
  | sint32 v => some v.toInt
  | sint64 v => some v.toInt
  | uint8 v => some v.toNat
  | uint16 v => some v.toNat
  | uint32 v => some v.toNat
  | uint64 v => some v.toNat
  | float32 _ | float64 _ | complex64 _ | complex128 _ => none

def isInteger (n : Number) : Bool := n.integer?.isSome

/-- Whether two numbers that are not integers have one value.  Precisions mix
for real numbers only. -/
def sameInexact : Number → Number → Bool
  | float32 x, float32 y => x == y
  | float64 x, float64 y => x == y
  | float32 x, float64 y => x.widen == y
  | float64 x, float32 y => y.widen == x
  | complex64 z, complex64 w => z == w
  | complex128 z, complex128 w => z == w
  | _, _ => false

/-- Whether two stored numbers count as one member of a set. -/
def same (a b : Number) : Bool :=
  match a.integer?, b.integer? with
  | some m, some n => m == n
  | none, none => sameInexact a b
  | _, _ => false

end Number

end Marshal
