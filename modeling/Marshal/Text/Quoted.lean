import Marshal.Text.Escaped
import Marshal.Text.Hex

/-!
# Quoted text and bytes

Text is shown between double quotes, with a backslash before quotes and
backslashes, short escapes for the common control characters, and the code point
in braces for whatever has no picture of its own.  Bytes are shown between
single quotes as ASCII, with two hexadecimal digits for everything else.
-/

namespace Marshal.Text

/-- How one character of a quoted text is written. -/
def quotedChar (c : Char) : List Char :=
  if c = '\x00' then ['\\', '0']
  else if c = '\t' then ['\\', 't']
  else if c = '\r' then ['\\', 'r']
  else if c = '\n' then ['\\', 'n']
  else if c = '"' ∨ c = '\\' then ['\\', c]
  else if ' ' ≤ c ∧ c ≤ '~' then [c]
  else if isEscaped c then ['\\', 'u', '\x7b'] ++ Hex.plain c.toNat ++ ['\x7d']
  else [c]

def quoted (text : String) : List Char :=
  '"' :: text.toList.flatMap quotedChar ++ ['"']

/-- How one byte of a quoted run of bytes is written. -/
def quotedByte (b : UInt8) : List Char :=
  let c := Char.ofNat b.toNat
  if c = '\t' then ['\\', 't']
  else if c = '\r' then ['\\', 'r']
  else if c = '\n' then ['\\', 'n']
  else if c = '\'' ∨ c = '"' ∨ c = '\\' then ['\\', c]
  else if ' ' ≤ c ∧ c ≤ '~' then [c]
  else '\\' :: 'x' :: Hex.padded 2 b.toNat

def quotedBytes (bytes : List UInt8) : List Char :=
  ['b', '\''] ++ bytes.flatMap quotedByte ++ ['\'']

end Marshal.Text
