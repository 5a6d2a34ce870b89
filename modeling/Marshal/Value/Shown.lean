import Marshal.Numeric.Written
import Marshal.Text.Quoted
import Marshal.Value

/-!
# Values as text

The text in which a value is shown to a reader.  Text stands in double quotes,
byte buffers show their length only, and lists, dictionaries and sets write
their contents between brackets or braces.
-/

namespace Marshal.Value

/-- Texts with a comma and a space between them. -/
def commaSeparated (texts : List (List Char)) : List Char := [',', ' '].intercalate texts

mutual

def shown : Value → List Char
  | null => "None".toList
  | bool true => "true".toList
  | bool false => "false".toList
  | int n => signedDigits n.toInt
  | float x => FloatStyle.shown.write x
  | complex z => z.shown
  | text s => Text.quoted s
  | bytes b => '<' :: Nat.toDigits 10 b.length ++ " bytes>".toList
  | list items => '[' :: commaSeparated (shownItems items) ++ [']']
  | dict entries => '\x7b' :: commaSeparated (shownEntries entries) ++ ['\x7d']
  | set members => '\x7b' :: commaSeparated (shownItems members) ++ ['\x7d']
  | object o => '<' :: o.typeName.toList ++ ['>']
  | token handle => "<handle 0x".toList ++ Hex.plain handle.address ++ ['>']
termination_by structural v => v

def shownItems : List Value → List (List Char)
  | [] => []
  | v :: vs => shown v :: shownItems vs
termination_by structural vs => vs

/-- The texts of entries, each a key and its value with a colon between. -/
def shownEntries : List (Value × Value) → List (List Char)
  | [] => []
  | (k, v) :: rest => (shown k ++ [':', ' '] ++ shown v) :: shownEntries rest
termination_by structural entries => entries

end

end Marshal.Value
