import Marshal.Heap

/-!
# Releasing references

Releasing the last reference to an object empties its slot and releases all
references that its contents held.  The references that are still to be released
wait in a list, so a cascade needs no nested calls.

Each step takes one reference off the list, and when it empties a slot it adds
what the slot held.  The number of waiting references and of references held in
the heap falls by one with every step (`pending_dropOne_lt`), whatever cycles
there are.
-/

namespace Marshal.Heap

/-- Takes one reference off a handle.  The second component holds the references
that have to be released in turn, the last one held first. -/
def dropOne (heap : Heap) (handle : Handle) : Heap × List Handle :=
  match handle with
  | .boolean _ => (heap, [])
  | .outside _ => (heap.note .deadRelease, [])
  | .object index =>
    match heap.slots.getD index none with
    | none => (heap.note .deadRelease, [])
    | some o =>
      if o.count ≤ 1 then
        (heap.set (.object index) none, o.children.reverse)
      else (heap.set (.object index) (some { o with count := o.count - 1 }), [])

/-! ## The references held in the heap -/

/-- The references that a slot holds. -/
def slotChildren (slot : Option Object) : Nat := (slot.map fun o => o.children.length).getD 0

/-- The number of references that slots hold. -/
def heldIn : List (Option Object) → Nat
  | [] => 0
  | slot :: slots => slotChildren slot + heldIn slots

/-- The number of references that live objects hold. -/
def heldReferences (heap : Heap) : Nat := heldIn heap.slots.toList

private theorem heldIn_set (slots : List (Option Object)) (index : Nat)
    {old : Option Object} (new : Option Object) (h : slots[index]? = some old) :
    heldIn (slots.set index new) + slotChildren old = heldIn slots + slotChildren new := by
  induction slots generalizing index with
  | nil => simp at h
  | cons slot slots ih =>
    cases index with
    | zero =>
      obtain rfl : slot = old := by simpa using h
      simp only [List.set_cons_zero, heldIn]
      omega
    | succ index =>
      have := ih index (by simpa using h)
      simp only [List.set_cons_succ, heldIn]
      omega

private theorem getElem?_of_getD {heap : Heap} {index : Nat} {o : Object}
    (h : heap.slots.getD index none = some o) : heap.slots.toList[index]? = some (some o) := by
  rw [Array.getElem?_toList]
  rw [Array.getD_eq_getD_getElem?] at h
  cases hslot : heap.slots[index]? <;> simp_all

/-- What a step adds to the list it takes from the heap. -/
theorem pending_dropOne (heap : Heap) (handle : Handle) :
    (heap.dropOne handle).2.length + (heap.dropOne handle).1.heldReferences =
      heap.heldReferences := by
  unfold dropOne
  split
  · simp
  · simp [heldReferences, note]
  · split
    · simp [heldReferences, note]
    · next index o h =>
      have hslot := getElem?_of_getD h
      split
      · have := heldIn_set _ _ none hslot
        simp [heldReferences, set, slotChildren] at this ⊢
        omega
      · have := heldIn_set _ _ (some { o with count := o.count - 1 }) hslot
        simp [heldReferences, set, slotChildren, Object.children] at this ⊢
        omega

/-! ## Cascades -/

/-- Releases the references of a list and all that this sets free. -/
def releaseAll (pending : List Handle) (heap : Heap) : Heap :=
  match pending with
  | [] => heap
  | handle :: pending =>
    releaseAll ((heap.dropOne handle).2 ++ pending) (heap.dropOne handle).1
termination_by pending.length + heap.heldReferences
decreasing_by
  have := pending_dropOne heap handle
  simp; omega

def release (handle : Handle) (heap : Heap) : Heap := heap.releaseAll [handle]

end Marshal.Heap
