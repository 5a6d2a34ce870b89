import Marshal.Limits
import Marshal.TypeTable

/-!
# Marshallers

A marshaller moves values into a store and back.  It is a store together with
what the conversions need to know: the kinds of the store's types, the
converters of domain objects, and the limits.

Moving a value into the store is called lowering (`Marshal.Marshaller.Lowering`)
and answers a reference that the caller owns.  Reading it back is called lifting
(`Marshal.Marshaller.Lifting`) and only borrows the handle it is given.
-/

namespace Marshal

/-- A store with what conversions need to know. -/
structure Marshaller (σ : Type) where
  store : Store σ
  types : TypeTable
  registry : Registry σ := {}
  limits : Limits := {}

namespace Marshaller

variable {σ : Type}

/-- The marshaller of a store in a given state. -/
def make (store : Store σ) (state : σ) (registry : Registry σ) (limits : Limits) :
    Marshaller σ where
  store
  types := .build (store.types state) registry
  registry
  limits

variable (m : Marshaller σ)

def identify (handle : Handle) : Action σ Kind := do
  return m.types.kindOf (← m.store.ask (.typeOf handle))

/-- The failure of a container that lies too deep. -/
def tooDeep : Failure := .tooDeep m.limits.maxDepth

end Marshaller

end Marshal
