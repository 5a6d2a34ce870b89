import Marshal.Sorted
import Marshal.Value

/-!
# Equality of values

Values of different kinds differ.  Numbers compare by value within their kind,
lists item by item, and dictionaries and sets without regard to order: they are
equal when they have equally many entries and every entry of the left one has an
equal in the right one.

On dictionaries and sets without repetitions this is an equivalence but for NaN;
`Value.ofEntries` and `Value.ofMembers` build only such ones.
-/

namespace Marshal.Value

private theorem sizeOf_pair (e : Value × Value) : sizeOf e = 1 + sizeOf e.1 + sizeOf e.2 := by
  cases e; simp

/-- Whether two values are equal.  A member of the right set is compared with
the member of the left one, in this order; for domain objects that matters. -/
def equals (a b : Value) : Bool :=
  match a, b with
  | null, null => true
  | bool a, bool b => a == b
  | int a, int b => a == b
  | float a, float b => a == b
  | complex a, complex b => a == b
  | text a, text b => a == b
  | bytes a, bytes b => a == b
  | list xs, list ys =>
    xs.length == ys.length && (xs.zip ys).attach.all fun ⟨p, _⟩ => equals p.1 p.2
  | dict xs, dict ys =>
    xs.length == ys.length &&
      xs.attach.all fun ⟨e, _⟩ => ys.attach.any fun ⟨f, _⟩ => equals e.1 f.1 && equals e.2 f.2
  | set xs, set ys =>
    xs.length == ys.length && xs.attach.all fun ⟨x, _⟩ => ys.attach.any fun ⟨y, _⟩ => equals y x
  | object a, object b => a == b
  | token a, token b => a == b
  | _, _ => false
termination_by sizeOf a + sizeOf b
decreasing_by
  · rename_i h
    have hx := List.sizeOf_lt_of_mem (List.of_mem_zip (b := p.2) h).1
    have hy := List.sizeOf_lt_of_mem (List.of_mem_zip (a := p.1) h).2
    simp; omega
  all_goals
    rename_i h₁ h₂
    have hx := List.sizeOf_lt_of_mem h₁
    have hy := List.sizeOf_lt_of_mem h₂
  · have := sizeOf_pair e
    have := sizeOf_pair f
    simp; omega
  · have := sizeOf_pair e
    have := sizeOf_pair f
    simp; omega
  · simp; omega

instance : BEq Value := ⟨equals⟩

/-! ### Equality of containers -/

private theorem all_attach {α : Type} (xs : List α) (f : α → Bool) :
    (xs.attach.all fun x => f x.1) = xs.all f := by
  simp

private theorem any_attach {α : Type} (xs : List α) (f : α → Bool) :
    (xs.attach.any fun x => f x.1) = xs.any f := by
  simp

theorem equals_list (xs ys : List Value) :
    equals (list xs) (list ys) =
      (xs.length == ys.length && (xs.zip ys).all fun p => equals p.1 p.2) := by
  rw [equals, all_attach (xs.zip ys) fun p => equals p.1 p.2]

/-- Dictionaries are equal when equally long and every entry of the left one has
an equal in the right one. -/
theorem equals_dict (xs ys : List (Value × Value)) :
    equals (dict xs) (dict ys) =
      (xs.length == ys.length &&
        xs.all fun e => ys.any fun f => equals e.1 f.1 && equals e.2 f.2) := by
  rw [equals, all_attach xs fun e => ys.attach.any fun f => equals e.1 f.1.1 && equals e.2 f.1.2]
  congr 2
  funext e
  exact any_attach ys fun f => equals e.1 f.1 && equals e.2 f.2

/-- Sets are equal when equally large and every member of the left one has an
equal in the right one. -/
theorem equals_set (xs ys : List Value) :
    equals (set xs) (set ys) =
      (xs.length == ys.length && xs.all fun x => ys.any fun y => equals y x) := by
  rw [equals, all_attach xs fun x => ys.attach.any fun y => equals y.1 x]
  congr 2
  funext x
  exact any_attach ys fun y => equals y x

/-! ## Dictionaries and sets -/

/-- Puts an entry into a dictionary: an equal key keeps its place and takes the
new value, and any other key goes to the end. -/
def put (key value : Value) : List (Value × Value) → List (Value × Value)
  | [] => [(key, value)]
  | (k, v) :: rest => if k == key then (k, value) :: rest else (k, v) :: put key value rest

/-- The dictionary that a list of entries builds, where later entries win. -/
def ofEntries (entries : List (Value × Value)) : Value :=
  dict (entries.foldl (fun built entry => put entry.1 entry.2 built) [])

/-- Puts a member into a set unless it has an equal there. -/
def adjoin (member : Value) (members : List Value) : List Value :=
  if members.any (· == member) then members else members ++ [member]

def ofMembers (members : List Value) : Value :=
  set (members.foldl (fun built member => adjoin member built) [])

/-- The dictionary of an ordered map from texts, which a list of entries
fills. -/
def ofTextMap (entries : List (String × Value)) : Value :=
  let sorted := entries.foldl (fun map entry =>
    Sorted.put Sorted.ascending entry.1 entry.2 map) []
  dict (sorted.map fun entry => (text entry.1, entry.2))

def get? (v key : Value) : Option Value :=
  match v with
  | dict entries => (entries.find? (·.1 == key)).map Prod.snd
  | _ => none

def contains (v item : Value) : Bool :=
  match v with
  | list items | set items => items.any (· == item)
  | _ => false

end Marshal.Value
