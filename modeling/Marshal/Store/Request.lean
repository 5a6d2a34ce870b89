import Marshal.Handle
import Marshal.Numeric.Number
import Marshal.StandardType

/-!
# Requests to a store

Everything that a store may refuse is a `Request`, and `Request.Answer` is the
type of what it answers.  A handle in an answer to a request that creates,
copies or collects is a reference that the asker owns; every other handle in an
answer is only lent.

Releasing a reference and listing the types are no requests: they always
succeed.
-/

namespace Marshal

inductive Request where
  | retain (handle : Handle)
  | typeOf (handle : Handle)
  | createText (text : String) (mutable : Bool)
  /-- Lends the bytes of a text, in as many slices as the store likes. -/
  | textBytes (handle : Handle)
  | createNumber (number : Number)
  | readNumber (handle : Handle)
  | readBoolean (handle : Handle)
  | createData (bytes : List UInt8) (mutable : Bool)
  /-- Lends the bytes of a data buffer, in as many slices as the store likes. -/
  | dataBytes (handle : Handle)
  /-- Creates an empty container that can be changed. -/
  | create (kind : Container)
  | count (kind : Container) (handle : Handle)
  /-- Creates a sealed container with the present contents of another. -/
  | copy (kind : Container) (handle : Handle)
  | append (array item : Handle)
  | itemAt (array : Handle) (index : Nat)
  /-- Puts a value under a text key; an equal key keeps its place. -/
  | putEntry (dictionary key value : Handle)
  /-- Fills a buffer of keys and one of values, whose sizes are given. -/
  | entries (dictionary : Handle) (keySlots valueSlots : Nat)
  | addMember (set member : Handle)
  /-- Creates a sealed array of the members of a set. -/
  | members (set : Handle)
  | appendIndex (array : Handle) (value : Int64)
  | indexAt (array : Handle) (index : Nat)
  | addIndex (set : Handle) (value : Int64)
  | firstIndex (set : Handle)
  | lastIndex (set : Handle)
  /-- Puts a value under an index, in place of an earlier one. -/
  | addPair (set : Handle) (index value : Int64)
  | pairAt (set : Handle) (index : Int64)
  /-- Creates an object of a registered type with the given contents. -/
  | createCustom (type : TypeId) (bytes : List UInt8)
  | customBytes (handle : Handle)

/-- What a request is answered with. -/
abbrev Request.Answer : Request → Type
  | retain _ | append _ _ | putEntry _ _ _ | addMember _ _ | appendIndex _ _ | addIndex _ _
  | addPair _ _ _ => Unit
  | typeOf _ => TypeId
  | createText _ _ | createNumber _ | createData _ _ | create _ | copy _ _ | itemAt _ _
  | members _ | createCustom _ _ => Handle
  | textBytes _ | dataBytes _ => List (List UInt8)
  | readNumber _ => Number
  | readBoolean _ => Bool
  | count _ _ => Nat
  | entries _ _ _ => List (Option Handle) × List (Option Handle)
  | indexAt _ _ => Int64
  | firstIndex _ | lastIndex _ | pairAt _ _ => Option Int64
  | customBytes _ => List UInt8

end Marshal
