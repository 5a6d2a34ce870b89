import Marshal.Converter

/-!
# What types stand for

A type table tells for the identifier of a type what its objects are read as.
It is made once from the types that a store lists: a type that a converter
claims is read by that converter, even a standard one, and any other standard
type is read as such.  All other identifiers are unknown.
-/

namespace Marshal

inductive Kind where
  | standard (type : StandardType)
  /-- Claimed by the converter at this place of the registry. -/
  | extension (place : Nat)
  | unknown (id : TypeId)
deriving DecidableEq

def Kind.isMutable : Kind → Bool
  | standard type => type.isMutable
  | _ => false

/-- A map from type identifiers to kinds. -/
structure TypeTable where
  /-- One entry for each identifier. -/
  kinds : List (TypeId × Kind) := []

namespace TypeTable

/-- Sets the kind of an identifier, in place of an earlier one. -/
def insert (table : TypeTable) (id : TypeId) (kind : Kind) : TypeTable :=
  ⟨table.kinds.filter (·.1 ≠ id) ++ [(id, kind)]⟩

/-- The kind of the types of a given name, if it is a known one. -/
def kindNamed? {σ : Type} (registry : Registry σ) (name : String) : Option Kind :=
  match registry.claimant? name with
  | some place => some (.extension place)
  | none => (StandardType.ofName? name).map .standard

/-- The table for the types that a store lists. -/
def build {σ : Type} (types : List TypeEntry) (registry : Registry σ) : TypeTable :=
  types.foldl (fun table entry =>
    match kindNamed? registry entry.name with
    | some kind => table.insert entry.id kind
    | none => table) {}

def kindOf (table : TypeTable) (id : TypeId) : Kind :=
  ((table.kinds.find? (·.1 = id)).map Prod.snd).getD (.unknown id)

/-- The number of identifiers with a known kind. -/
def size (table : TypeTable) : Nat := table.kinds.length

end TypeTable

end Marshal
