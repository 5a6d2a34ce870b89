/-!
# Complex numbers

A complex number is a pair of components of one precision.  Numbers compare
component by component, with whatever equality the components have.
-/

namespace Marshal

/-- A complex number by its real and imaginary part. -/
structure Cartesian (α : Type) where
  re : α
  im : α
deriving DecidableEq

namespace Cartesian

variable {α β : Type}

instance [BEq α] : BEq (Cartesian α) where
  beq z w := z.re == w.re && z.im == w.im

def map (f : α → β) (z : Cartesian α) : Cartesian β := ⟨f z.re, f z.im⟩

end Cartesian

end Marshal
