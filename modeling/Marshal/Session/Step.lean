import Marshal.Fault
import Marshal.Value

/-!
# Steps of a session

What a session can be told to do: move values into the store and back, hold
handles, and send requests of its own.
-/

namespace Marshal

/-- In what form an object that is read is reported. -/
inductive LiftForm where
  | value
  | shown
  /-- Whether it equals the given value. -/
  | equality (v : Value)

inductive Step where
  | lower (v : Value)
  | lowerList (items : List Value) (mutable : Bool)
  | lowerDict (entries : List (Value × Value)) (mutable : Bool)
  | lowerSet (members : List Value) (mutable : Bool)
  | lowerIndexArray (values : List Value)
  | lowerIndexSet (values : List Value)
  | lowerPairs (entries : List (Value × Value))
  | lowerText (text : String) (mutable : Bool)
  /-- Lowers a text, or nothing to nothing. -/
  | lowerText? (text : Option String)
  | lowerInt (n : Int64)
  | lowerFloat (x : Binary64)
  | lowerComplex (z : Cartesian Binary64)
  | lowerNumber (v : Value)
  | lowerBool (b : Bool)
  | lowerBytes (bytes : List UInt8) (mutable : Bool)
  | lowerPacked (layout : Layout) (values : List layout.Carrier) (mutable : Bool)
  /-- Stores a domain object by one converter, or by the one that is found. -/
  | convert (place : Option Nat) (o : DomainObject)
  /-- Reads the object of a handle, or the absent value of none. -/
  | lift (handle : Option Handle) (form : LiftForm)
  | liftList (array : Handle)
  | liftDict (dictionary : Handle)
  | liftSet (set : Handle)
  | liftIndexArray (array : Handle)
  | liftIndexSet (set : Handle)
  | liftPairs (set : Handle)
  | liftText (handle : Handle)
  | liftNumber (handle : Handle)
  | liftBool (handle : Handle)
  | liftBytes (handle : Handle)
  | liftPacked (layout : Layout) (handle : Handle)
  | identify (handle : Handle)
  | kindOf (id : TypeId)
  | drop (slot : String)
  /-- Gives up a guard without releasing its reference. -/
  | intoRaw (slot : String)
  /-- Makes a guard of the reference that a handle is. -/
  | adopt (handle : Handle)
  /-- Makes a guard of a new reference to an object. -/
  | retain (handle : Handle)
  | request (request : Request)
  | release (handle : Handle)
  | boolean (b : Bool)
  | types
  | unreadableNumber (layout : UInt8)
  | count? (handle : Handle)
  | typeName? (id : TypeId)
  | setBudget (budget : Option Nat)
  | setFaults (faults : Faults)

end Marshal
