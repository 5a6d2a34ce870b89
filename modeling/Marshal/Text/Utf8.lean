/-!
# UTF-8

Text crosses to the store as UTF-8 bytes.  `encode` writes them and `decode`
reads them back; bytes that are no text are refused with the place and the
length of the first ill-formed sequence.
-/

namespace Marshal.Utf8

/-- The first ill-formed sequence of a run of bytes. -/
structure Fault where
  index : Nat
  /-- How many bytes are wrong, or nothing if the bytes end within a character. -/
  length : Option Nat
deriving DecidableEq

def Fault.message (fault : Fault) : String :=
  match fault.length with
  | some n => s!"invalid utf-8 sequence of {n} bytes from index {fault.index}"
  | none => s!"incomplete utf-8 byte sequence from index {fault.index}"

def encode (text : String) : List UInt8 := text.toUTF8.data.toList

/-! ## Finding the first fault -/

/-- The number of bytes of a character that starts with this byte, and the range
of its second byte.  The ranges leave out overlong forms, surrogates and
everything past the last code point. -/
def lead? (first : UInt8) : Option (Nat × UInt8 × UInt8) :=
  if 0xc2 ≤ first ∧ first ≤ 0xdf then some (2, 0x80, 0xbf)
  else if first = 0xe0 then some (3, 0xa0, 0xbf)
  else if first = 0xed then some (3, 0x80, 0x9f)
  else if 0xe1 ≤ first ∧ first ≤ 0xef then some (3, 0x80, 0xbf)
  else if first = 0xf0 then some (4, 0x90, 0xbf)
  else if 0xf1 ≤ first ∧ first ≤ 0xf3 then some (4, 0x80, 0xbf)
  else if first = 0xf4 then some (4, 0x80, 0x8f)
  else none

def continues (b : UInt8) : Bool := decide (0x80 ≤ b ∧ b ≤ 0xbf)

/-- The fault of a character after `seen` good bytes, `missing` more of which
should continue it; nothing if they all do. -/
def tail? (index seen : Nat) : (missing : Nat) → List UInt8 → Option Fault
  | 0, _ => none
  | _ + 1, [] => some ⟨index, none⟩
  | missing + 1, b :: bytes =>
    if continues b then tail? index (seen + 1) missing bytes else some ⟨index, some seen⟩

/-- The fault of the character that starts the bytes, or its length. -/
def character (index : Nat) (first : UInt8) (rest : List UInt8) : Except Fault Nat :=
  if first < 0x80 then .ok 1
  else
    match lead? first, rest with
    | none, _ => .error ⟨index, some 1⟩
    | some _, [] => .error ⟨index, none⟩
    | some (width, low, high), second :: rest =>
      if low ≤ second ∧ second ≤ high then
        match tail? index 2 (width - 2) rest with
        | some fault => .error fault
        | none => .ok width
      else .error ⟨index, some 1⟩

/-- The first fault, where `skip` bytes still belong to the character before. -/
def faultFrom? (index skip : Nat) : List UInt8 → Option Fault
  | [] => none
  | b :: bytes =>
    match skip with
    | skip + 1 => faultFrom? (index + 1) skip bytes
    | 0 =>
      match character index b bytes with
      | .error fault => some fault
      | .ok width => faultFrom? (index + 1) (width - 1) bytes

/-! ## Decoding -/

def decode (bytes : List UInt8) : Except Fault String :=
  match String.fromUTF8? ⟨bytes.toArray⟩ with
  | some text => .ok text
  | none => .error ((faultFrom? 0 0 bytes).getD ⟨0, none⟩)

end Marshal.Utf8
