import Marshal.Failure
import Marshal.Numeric.Written
import Marshal.Text.Quoted
import Marshal.Value

/-!
# Values as dictionary keys

The keys of a stored dictionary are texts.  Text is its own key; any other
scalar is written as a literal, so that keys of different kinds stay apart.
Containers have no key text, and a domain object has one only if it tells it.
-/

namespace Marshal.Value

/-- The text that a value takes as the key of a stored dictionary. -/
def keyText : Value → Result String
  | text s => .ok s
  | null => .ok "None"
  | bool true => .ok "True"
  | bool false => .ok "False"
  | int n => .ok (String.ofList (signedDigits n.toInt))
  | float x => .ok (String.ofList (FloatStyle.key.write x))
  | complex z => .ok (String.ofList z.key)
  | bytes b => .ok (String.ofList (Text.quotedBytes b))
  | token handle => .ok (toString handle.address)
  | object o =>
    match o.keyText with
    | some key => .ok key
    | none => .error (.noKeyText o.typeName)
  | v@(list _) | v@(dict _) | v@(set _) => .error (.unhashableKey v.typeName)

end Marshal.Value
