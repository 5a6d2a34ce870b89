import Marshal.Failure
import Marshal.Notice
import Marshal.Store.Request
import Marshal.TypeTable
import Marshal.Value

/-!
# Replies of a session

A step that succeeds has a `Reply`, and a step that fails has a `StepError`.  A
`Report` adds to that the counters of the heap and what was logged.
-/

namespace Marshal

/-! ## Replies -/

/-- How a handle in a reply may be kept. -/
inductive Holding where
  /-- As a guard, or not at all: then its reference is released. -/
  | guarded
  | raw
  | lent
deriving DecidableEq

inductive Reply where
  | nothing
  | handle (handle : Handle) (holding : Holding)
  | value (v : Value)
  | values (vs : List Value)
  | entries (entries : List (Value × Value))
  | integer (n : Int64)
  | integer? (n : Option Int64)
  | integers (ns : List Int64)
  | pairs (pairs : List (Int64 × Int64))
  | number (n : Number)
  | numbers (ns : List Number)
  | flag (b : Bool)
  | text (s : String)
  | text? (s : Option String)
  | bytes (bytes : List UInt8)
  | slices (slices : List (List UInt8))
  | count (n : Nat)
  | count? (n : Option Nat)
  | kind (kind : Kind)
  /-- The kind of an object, and whether it can be changed. -/
  | identity (kind : Kind) (mutable : Bool)
  | typeId (id : TypeId)
  | types (entries : List TypeEntry)
  | slots (keys values : List (Option Handle))

/-- The reply to a request.  A new object may be kept raw. -/
def Request.reply : (request : Request) → request.Answer → Reply
  | .retain handle, _ => .handle handle .raw
  | .typeOf _, id => .typeId id
  | .createText _ _, handle | .createNumber _, handle | .createData _ _, handle
  | .create _, handle | .copy _ _, handle | .members _, handle | .createCustom _ _, handle =>
    .handle handle .raw
  | .itemAt _ _, handle => .handle handle .lent
  | .textBytes _, slices | .dataBytes _, slices => .slices slices
  | .readNumber _, n => .number n
  | .readBoolean _, b => .flag b
  | .count _ _, n => .count n
  | .entries _ _ _, (keys, values) => .slots keys values
  | .indexAt _ _, n => .integer n
  | .firstIndex _, n | .lastIndex _, n | .pairAt _ _, n => .integer? n
  | .customBytes _, bytes => .bytes bytes
  | .append _ _, _ | .putEntry _ _ _, _ | .addMember _ _, _ | .appendIndex _ _, _
  | .addIndex _ _, _ | .addPair _ _ _, _ => .nothing

/-! ## Reports -/

inductive StepError where
  | failure (failure : Failure)
  | refusal (refusal : Refusal)
  /-- Nothing is kept under the name. -/
  | noSlot

structure Report where
  result : Except StepError Reply
  liveObjects : Nat
  allocations : Nat
  deadReleases : Nat
  /-- What was logged, in order. -/
  notices : List Notice

end Marshal
