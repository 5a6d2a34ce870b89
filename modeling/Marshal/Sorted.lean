/-!
# Sorted lists

Ordered sets and maps are lists in which each key precedes all keys after it.
`Sorted.insert` puts a key into a set, and `Sorted.put` puts an entry into a
map, where a key that is there already takes the new value.

The order is a parameter.  `ascending` is the natural one.  Where keys mostly
arrive in ascending order, a list sorted by `descending` takes each of them at
its head.
-/

namespace Marshal.Sorted

/-- Smaller keys come first. -/
def ascending {κ : Type} [LT κ] [DecidableLT κ] (a b : κ) : Bool := decide (a < b)

/-- Larger keys come first. -/
def descending {κ : Type} [LT κ] [DecidableLT κ] (a b : κ) : Bool := decide (b < a)

variable {κ α : Type} (precedes : κ → κ → Bool)

/-- Puts a key into a sorted list of keys unless it is there. -/
@[specialize]
def insert (key : κ) : List κ → List κ
  | [] => [key]
  | k :: ks =>
    if precedes key k then key :: k :: ks
    else if precedes k key then k :: insert key ks
    else k :: ks

/-- Puts an entry into a list of entries with sorted keys. -/
@[specialize]
def put (key : κ) (value : α) : List (κ × α) → List (κ × α)
  | [] => [(key, value)]
  | (k, v) :: rest =>
    if precedes key k then (key, value) :: (k, v) :: rest
    else if precedes k key then (k, v) :: put key value rest
    else (k, value) :: rest

def find? [DecidableEq κ] (key : κ) (entries : List (κ × α)) : Option α :=
  (entries.find? (·.1 = key)).map Prod.snd

end Marshal.Sorted
