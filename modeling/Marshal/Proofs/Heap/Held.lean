import Mathlib.Algebra.BigOperators.Intervals
import Mathlib.Algebra.Order.BigOperators.Group.Finset
import Mathlib.Algebra.Order.Group.Multiset
import Mathlib.Data.Nat.Count
import Mathlib.Tactic.Abel
import Marshal.Proofs.Heap.View

/-!
# References held in a heap

`heap.heldSince n` is the multiset of the references that live objects hold,
each as often as it is held, where only objects in slots from `n` on count.  With
`n = 0` these are all references held in the heap (`Heap.held`); with `n` the
number of slots that an earlier heap had, they are those of the objects created
since.

Whatever changes one object changes these references by what that object holds
(`heldSince_change`), and a creation adds what the new object holds
(`heldSince_pushed`).

`heap.newObjects n` are the live objects in these slots.  With `n = 0` they are all
live objects but the booleans (`liveObjects_eq`).
-/

namespace Marshal.Heap

variable {heap heap' : Heap} {n index : Nat}

/-- The references that the object of a slot holds. -/
def refs (heap : Heap) (index : Nat) : Multiset Handle :=
  ((heap.body? (.object index)).map fun body => (body.1.children : Multiset Handle)).getD 0

/-- The references that live objects in slots from `n` on hold. -/
def heldSince (n : Nat) (heap : Heap) : Multiset Handle :=
  ∑ index ∈ Finset.Ico n heap.slots.size, heap.refs index

/-- The references that live objects hold. -/
def held (heap : Heap) : Multiset Handle := heap.heldSince 0

/-! ## One object -/

theorem refs_of_get? {o : Object} (h : heap.get? (.object index) = some o) :
    heap.refs index = o.children := by
  rw [refs, body?_of_get? h]
  rfl

theorem refs_of_body? {body : Content × Bool} (h : heap.body? (.object index) = some body) :
    heap.refs index = body.1.children := by
  rw [refs, h]
  rfl

theorem refs_of_not_live (h : ¬ heap.Live (.object index)) : heap.refs index = 0 := by
  rw [live_iff_body?, Option.not_isSome_iff_eq_none] at h
  rw [refs, h]
  rfl

theorem refs_congr (h : heap'.body? (.object index) = heap.body? (.object index)) :
    heap'.refs index = heap.refs index := by
  rw [refs, refs, h]

/-- Whoever holds a reference is live. -/
theorem exists_of_mem_refs {handle : Handle} (h : handle ∈ heap.refs index) :
    ∃ o, heap.get? (.object index) = some o ∧ handle ∈ o.children := by
  by_cases hlive : heap.Live (.object index)
  · obtain ⟨o, ho⟩ := live_iff_exists.mp hlive
    rw [refs_of_get? ho] at h
    exact ⟨o, ho, h⟩
  · rw [refs_of_not_live hlive] at h
    exact absurd h (Multiset.notMem_zero _)

/-! ## All objects -/

/-- Of what an object from slot `n` on holds, nothing is missing. -/
theorem refs_le_heldSince (h : n ≤ index) : heap.refs index ≤ heap.heldSince n := by
  by_cases hlive : heap.Live (.object index)
  · exact Finset.single_le_sum (f := fun i => heap.refs i) (fun _ _ => Multiset.zero_le _)
      (Finset.mem_Ico.mpr ⟨h, lt_size_of_live hlive⟩)
  · rw [refs_of_not_live hlive]
    exact Multiset.zero_le _

theorem mem_heldSince {handle : Handle} :
    handle ∈ heap.heldSince n ↔ ∃ index, n ≤ index ∧ handle ∈ heap.refs index := by
  constructor
  · intro hmem
    rw [heldSince, Multiset.mem_sum] at hmem
    obtain ⟨index, hindex, hheld⟩ := hmem
    exact ⟨index, (Finset.mem_Ico.mp hindex).1, hheld⟩
  · rintro ⟨index, hle, hheld⟩
    exact Multiset.mem_of_le (refs_le_heldSince hle) hheld

theorem heldSince_congr (hsize : heap'.slots.size = heap.slots.size)
    (h : ∀ index, n ≤ index → heap'.refs index = heap.refs index) :
    heap'.heldSince n = heap.heldSince n := by
  rw [heldSince, heldSince, hsize]
  exact Finset.sum_congr rfl fun index hindex => h index (Finset.mem_Ico.mp hindex).1

/-- When one object changes, the references held change by its own. -/
theorem heldSince_change (hsize : heap'.slots.size = heap.slots.size) (hn : n ≤ index)
    (hindex : index < heap.slots.size)
    (h : ∀ other, other ≠ index → heap'.refs other = heap.refs other) :
    heap'.heldSince n + heap.refs index = heap.heldSince n + heap'.refs index := by
  -- both sums are split into the object and all others
  have hmem : index ∈ Finset.Ico n heap.slots.size := Finset.mem_Ico.mpr ⟨hn, hindex⟩
  have hrest : ∑ i ∈ (Finset.Ico n heap.slots.size).erase index, heap'.refs i =
      ∑ i ∈ (Finset.Ico n heap.slots.size).erase index, heap.refs i :=
    Finset.sum_congr rfl fun other hother => h other (Finset.ne_of_mem_erase hother)
  rw [heldSince, heldSince, hsize, ← Finset.add_sum_erase _ heap'.refs hmem,
    ← Finset.add_sum_erase _ heap.refs hmem, hrest]
  abel

theorem heldSince_pushed {o : Object} (hn : n ≤ heap.slots.size) :
    (heap.pushed o).heldSince n = heap.heldSince n + o.children := by
  rw [heldSince, size_pushed, Finset.sum_Ico_succ_top hn, refs_of_get? get?_pushed_new]
  congr 1
  refine Finset.sum_congr rfl fun index hindex => refs_congr ?_
  have hne : Handle.object index ≠ .object heap.slots.size :=
    Handle.object_ne (Finset.mem_Ico.mp hindex).2.ne
  rw [body?, body?, get?_pushed_of_ne hne]

/-- What was held is what objects before `m` hold and what later ones do. -/
theorem heldSince_split {m : Nat} (hnm : n ≤ m) (hm : m ≤ heap.slots.size) :
    heap.heldSince n = ∑ index ∈ Finset.Ico n m, heap.refs index + heap.heldSince m :=
  (Finset.sum_Ico_consecutive _ hnm hm).symm

theorem heldSince_size : heap.heldSince heap.slots.size = 0 := by
  rw [heldSince, Finset.Ico_self, Finset.sum_empty]

/-! ## Live objects -/

/-- The live objects in slots from `n` on. -/
def newObjects (heap : Heap) (n : Nat) : Finset Nat :=
  (Finset.Ico n heap.slots.size).filter fun index => heap.Live (.object index)

theorem mem_newObjects : index ∈ heap.newObjects n ↔ n ≤ index ∧ heap.Live (.object index) := by
  rw [newObjects, Finset.mem_filter, Finset.mem_Ico]
  constructor
  · rintro ⟨⟨hle, -⟩, hlive⟩
    exact ⟨hle, hlive⟩
  · rintro ⟨hle, hlive⟩
    exact ⟨⟨hle, lt_size_of_live hlive⟩, hlive⟩

theorem liveObjects_eq (heap : Heap) : heap.liveObjects = (heap.newObjects 0).card + 2 := by
  have hslots : heap.slots.toList =
      (List.range heap.slots.size).map fun index => heap.slots.getD index none := by
    refine List.ext_getElem (by simp) fun index hindex _ => ?_
    have hlt : index < heap.slots.size := by simpa using hindex
    simp [hlt]
  have hcount : heap.slots.countP Option.isSome =
      (List.range heap.slots.size).countP fun index => decide (heap.Live (.object index)) := by
    rw [← Array.countP_toList, hslots, List.countP_map]
    refine List.countP_congr fun index _ => ?_
    show (heap.slots.getD index none).isSome = true ↔ _
    simp [Live, get?]
  have hcard : (heap.newObjects 0).card = Nat.count (fun index => heap.Live (.object index))
      heap.slots.size := by
    rw [Nat.count_eq_card_filter_range, newObjects, ← Finset.range_eq_Ico]
  rw [liveObjects, hcount, hcard]
  rfl

/-- What is live is old or new. -/
theorem card_newObjects (h : n ≤ heap.slots.size) :
    (heap.newObjects 0).card =
      ((Finset.range n).filter fun index => heap.Live (.object index)).card +
        (heap.newObjects n).card := by
  have hunion : Finset.Ico 0 heap.slots.size = Finset.range n ∪ Finset.Ico n heap.slots.size := by
    rw [Finset.range_eq_Ico, Finset.Ico_union_Ico_eq_Ico (Nat.zero_le n) h]
  rw [newObjects, newObjects, hunion, Finset.filter_union, Finset.card_union_of_disjoint]
  apply Finset.disjoint_filter_filter
  rw [Finset.range_eq_Ico]
  exact Finset.Ico_disjoint_Ico_consecutive 0 n heap.slots.size

end Marshal.Heap
