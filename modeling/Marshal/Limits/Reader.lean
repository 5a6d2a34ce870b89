import Marshal.Limits
import Marshal.Limits.Token
import Marshal.Text.Utf8

/-!
# Reading limits

Limits are written as a JSON object with the members `max_depth` and
`index_pair_probe_limit`, each at most once and in any order, or as an array of
the two numbers.  What is left out keeps its default, and nothing else may stand
in the text.  Numbers fit into 64 bits.
-/

namespace Marshal.Limits

/-- The members of an object after its opening brace, up to the end of the
text. -/
def members? : List Token → Option (List (List Char × Nat))
  | [.closeBrace] => some []
  | [.name name, .colon, .natural value, .closeBrace] => some [(name, value)]
  | .name name :: .colon :: .natural value :: .comma :: .name next :: rest =>
    ((name, value) :: ·) <$> members? (.name next :: rest)
  | _ => none

/-- The numbers of an array after its opening bracket, up to the end of the
text. -/
def elements? : List Token → Option (List Nat)
  | [.closeBracket] => some []
  | [.natural value, .closeBracket] => some [value]
  | .natural value :: .comma :: .natural next :: rest =>
    (value :: ·) <$> elements? (.natural next :: rest)
  | _ => none

/-- The value of a member, where nothing stands for a member that is left out.
A member that is there twice has no value. -/
def member? (name : String) (default : Nat) (members : List (List Char × Nat)) : Option Nat :=
  match members.filter (·.1 = name.toList) with
  | [] => some default
  | [member] => some member.2
  | _ => none

def ofTokens? : List Token → Option Limits
  | .openBrace :: rest => do
    let members ← members? rest
    let names := ["max_depth", "index_pair_probe_limit"].map String.toList
    guard (members.all fun member => names.contains member.1)
    some {
      maxDepth := ← member? "max_depth" 256 members
      probeLimit := ← member? "index_pair_probe_limit" 4096 members }
  | .openBracket :: rest => do
    match ← elements? rest with
    | [] => some {}
    | [depth] => some { maxDepth := depth }
    | [depth, probes] => some { maxDepth := depth, probeLimit := probes }
    | _ => none
  | _ => none

/-- Whether both bounds fit into 64 bits. -/
def fits (limits : Limits) : Bool :=
  limits.maxDepth < UInt64.size && limits.probeLimit < UInt64.size

def ofText (text : String) : Except LimitsError Limits :=
  match (Token.ofText? text.toList).bind ofTokens? with
  | some limits => if limits.fits then limits.validated else .error .malformed
  | none => .error .malformed

/-- The limits in a file, given its contents if it exists. -/
def ofFile (contents : Option (List UInt8)) : Except LimitsError Limits :=
  match contents.map Utf8.decode with
  | some (.ok text) => ofText text
  | _ => .error .unreadable

end Marshal.Limits
