import Marshal.Handle
import Marshal.Refusal
import Marshal.StandardType
import Marshal.Text.Hex
import Marshal.Text.Utf8

/-!
# Failures of a conversion

A conversion between values and stored objects fails for one of the causes of
`Failure`.  Every cause belongs to one of three classes (`Failure.kind`): the
value has a type the conversion cannot take, the value is of the right type but
unusable, or the store failed.  A failure that stems from a refusal of the store
keeps it as its source, unless the class alone tells it.
-/

namespace Marshal

/-- The class of a failure. -/
inductive FailureKind where
  | type
  | value
  | runtime
deriving DecidableEq

/-- Why a conversion failed. -/
inductive Failure where
  | nullValue
  | tokenValue (token : Handle)
  | unhashableMember (typeName : String)
  | unhashableKey (typeName : String)
  | noKeyText (typeName : String)
  /-- A container of integers takes nothing else. -/
  | notInteger (kind : Container) (typeName : String)
  | notNumber (typeName : String)
  | noConverter (typeName : String)
  | wrapsNothing (typeName : String)
  | malformedText (fault : Utf8.Fault)
  | noTextLent
  | noDataLent
  /-- An unsigned number is beyond the integers of a value. -/
  | unsignedTooLarge (number : UInt64)
  /-- A data buffer is not a whole number of elements long. -/
  | raggedData (length width : Nat)
  | emptySlot
  | refused (refusal : Refusal)
  /-- Containers nest more than `limit` levels deep. -/
  | tooDeep (limit : Nat)
  /-- A converter reports a failure of its own. -/
  | reported (kind : FailureKind) (text : String) (source : Option Refusal)
deriving DecidableEq

abbrev Result (α : Type) := Except Failure α

/-- What a container of integers is called when it refuses a value. -/
def Container.indexName : Container → String
  | .indexSet => "index set"
  | .pairSet => "index pair map"
  | _ => "index array"

namespace Failure

/-- The class of a failure. -/
def kind : Failure → FailureKind
  | nullValue | tooDeep _ => .value
  | tokenValue _ | unhashableMember _ | unhashableKey _ | noKeyText _ | notInteger _ _
  | notNumber _ | noConverter _ | wrapsNothing _ => .type
  | malformedText _ | noTextLent | noDataLent | unsignedTooLarge _ | raggedData _ _
  | emptySlot => .runtime
  | refused .invalidHandle => .value
  | refused (.typeMismatch _ _) => .type
  | refused _ => .runtime
  | reported kind _ _ => kind

/-- The refusal that a failure of the store passes on. -/
def source : Failure → Option Refusal
  | refused .invalidHandle | refused (.typeMismatch _ _) => none
  | refused refusal => some refusal
  | reported .runtime _ source => source
  | _ => none

def detail : Failure → String
  | nullValue => "None has no foreign representation"
  | tokenValue token =>
    "handle token 0x" ++ String.ofList (Hex.plain token.address) ++
      " cannot be converted back to a foreign object"
  | unhashableMember typeName => s!"unhashable set element of type {typeName}"
  | unhashableKey typeName => s!"unhashable dictionary key of type {typeName}"
  | noKeyText typeName => s!"{typeName} cannot be used as a dictionary key"
  | notInteger kind typeName => s!"{kind.indexName} requires integers, got {typeName}"
  | notNumber typeName => s!"expected a number, got {typeName}"
  | noConverter typeName => s!"no extension converter for {typeName}"
  | wrapsNothing typeName => s!"{typeName} wraps no foreign object"
  | malformedText fault => s!"foreign string is not valid UTF-8: {fault.message}"
  | noTextLent => "runtime yielded no string bytes"
  | noDataLent => "runtime yielded no data bytes"
  | unsignedTooLarge number => s!"unsigned value {number.toNat} exceeds the host integer range"
  | raggedData length width =>
    s!"data buffer of {length} bytes is not a whole number of {width}-byte elements"
  | emptySlot => "runtime left a dictionary slot empty"
  | refused refusal => refusal.message
  | tooDeep limit => s!"nesting exceeds depth limit of {limit}"
  | reported _ text _ => text

/-- The wording of a failure.  All but too deep a nesting start with the class. -/
def message (failure : Failure) : String :=
  match failure with
  | tooDeep _ => failure.detail
  | _ =>
    (match failure.kind with
      | .type => "type error: "
      | .value => "value error: "
      | .runtime => "runtime error: ") ++ failure.detail

end Failure

end Marshal
