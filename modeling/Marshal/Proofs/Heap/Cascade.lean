import Mathlib.Data.Nat.Order.Lemmas
import Mathlib.Logic.Function.Iterate
import Marshal.Proofs.Heap.Grounded
import Marshal.Proofs.Heap.Reachable

/-!
# The course of a release

Releasing a reference is a loop.  Each turn takes the first of the pending references off its
object, and when that was the last one, what the object held is pending from then on (`turn`).
Objects may hold each other in circles, and they may hold what is gone, so neither the pending
references nor what can be reached from them gets less with every turn.

What decides is the number of references that are pending or held by live objects: it falls by
one with each turn.  So the loop takes one turn for the reference that was released, and one for
each reference that was held by an object which goes (`turns_releaseAll`, `Leaves.held_add`).

Nothing comes back during a release (`leaves_turned`), so an object that goes does so at one turn
only, the one that takes its last reference.  A reference to it that is met later finds nothing.
-/

namespace Marshal.Heap

variable {heap heap' : Heap} {handle : Handle} {index : Nat}

/-! ## The loop -/

/-- One turn of the loop, with the references that are pending and the heap.  The loop is over
when nothing is pending. -/
def turn : List Handle × Heap → List Handle × Heap
  | ([], heap) => ([], heap)
  | (handle :: pending, heap) =>
    ((heap.dropOne handle).2 ++ pending, (heap.dropOne handle).1)

/-- The loop that releases a handle, after so many turns. -/
def turned (heap : Heap) (handle : Handle) (k : ℕ) : List Handle × Heap :=
  turn^[k] ([handle], heap)

theorem turned_succ (k : ℕ) : heap.turned handle (k + 1) = turn (heap.turned handle k) :=
  Function.iterate_succ_apply' turn k _

/-- The loop ends after as many turns as references are no longer pending or held. -/
theorem turns_releaseAll (pending : List Handle) (heap : Heap) : ∃ n,
    n + (heap.releaseAll pending).heldReferences = pending.length + heap.heldReferences ∧
    turn^[n] (pending, heap) = ([], heap.releaseAll pending) ∧
    ∀ k < n, (turn^[k] (pending, heap)).1 ≠ [] := by
  fun_induction Heap.releaseAll pending heap with
  | case1 heap => exact ⟨0, rfl, rfl, fun k hk => absurd hk (Nat.not_lt_zero k)⟩
  | case2 heap handle pending ih =>
      obtain ⟨n, hsum, hend, hbusy⟩ := ih
      have hturn := pending_dropOne heap handle
      refine ⟨n + 1, ?_, hend, fun k hk => ?_⟩
      · rw [List.length_append] at hsum
        rw [List.length_cons]
        omega
      · cases k with
        | zero => exact List.cons_ne_nil handle pending
        | succ k => exact hbusy k (Nat.lt_of_succ_lt_succ hk)

/-- What no elementary change of a heap breaks holds after every turn. -/
theorem Stable.turned {P : Heap → Prop} (hP : Stable P) (h : P heap) (k : ℕ) :
    P (heap.turned handle k).2 := by
  induction k with
  | zero => exact h
  | succ k ih =>
      rw [turned_succ]
      match heap.turned handle k, ih with
      | ([], _), ih => exact ih
      | (next :: _, later), ih => exact hP.dropped later next ih

/-! ## What goes -/

theorem leaves_turn (state : List Handle × Heap) : Leaves state.2 (turn state).2 := by
  match state with
  | ([], heap) => exact .refl heap
  | (handle :: _, heap) => exact leaves_dropOne heap handle

/-- What is gone does not come back. -/
theorem leaves_turned {k l : ℕ} (h : k ≤ l) :
    Leaves (heap.turned handle k).2 (heap.turned handle l).2 := by
  induction l, h using Nat.le_induction with
  | base => exact .refl _
  | succ l _ ih =>
      rw [turned_succ]
      exact ih.trans (leaves_turn _)

/-- The objects that a release frees. -/
def freedBy (heap : Heap) (handle : Handle) : Finset Nat :=
  heap.newObjects 0 \ (heap.release handle).newObjects 0

/-- The object goes at this turn of the loop, counted from zero. -/
def GoesAt (heap : Heap) (handle : Handle) (k index : Nat) : Prop :=
  (heap.turned handle k).2.Live (.object index) ∧
    ¬ (heap.turned handle (k + 1)).2.Live (.object index)

theorem mem_freedBy : index ∈ heap.freedBy handle ↔
    heap.Live (.object index) ∧ ¬ (heap.release handle).Live (.object index) := by
  rw [freedBy, Finset.mem_sdiff, mem_newObjects, mem_newObjects]
  simp only [Nat.zero_le, true_and]

namespace Leaves

theorem newObjects_subset (h : Leaves heap heap') : heap'.newObjects 0 ⊆ heap.newObjects 0 := by
  intro index hmem
  obtain ⟨hle, hlive⟩ := mem_newObjects.mp hmem
  exact mem_newObjects.mpr ⟨hle, h.live hlive⟩

/-- All live objects are still live or have gone. -/
theorem liveObjects_add (h : Leaves heap heap') :
    heap'.liveObjects + (heap.newObjects 0 \ heap'.newObjects 0).card = heap.liveObjects := by
  have hcard := Finset.card_sdiff_add_card_eq_card h.newObjects_subset
  rw [liveObjects_eq, liveObjects_eq]
  omega

end Leaves

/-! ## What those held that go -/

theorem heldIn_eq_sum (slots : List (Option Object)) :
    heldIn slots = ∑ index ∈ Finset.range slots.length, slotChildren (slots.getD index none) := by
  induction slots with
  | nil => rfl
  | cons slot slots ih =>
      rw [heldIn, ih, List.length_cons, Finset.sum_range_succ', Nat.add_comm]
      rfl

theorem card_refs (heap : Heap) (index : Nat) :
    Multiset.card (heap.refs index) = slotChildren (heap.slots.getD index none) := by
  show Multiset.card (heap.refs index) = slotChildren (heap.get? (.object index))
  cases hget : heap.get? (.object index) with
  | none =>
      have hdead : ¬ heap.Live (.object index) := by simp [Live, hget]
      rw [refs_of_not_live hdead]
      rfl
  | some o =>
      rw [refs_of_get? hget]
      rfl

theorem heldReferences_eq_sum (heap : Heap) :
    heap.heldReferences = ∑ index ∈ heap.newObjects 0, Multiset.card (heap.refs index) := by
  have hall : heap.heldReferences =
      ∑ index ∈ Finset.range heap.slots.size, Multiset.card (heap.refs index) := by
    rw [heldReferences, heldIn_eq_sum, Array.length_toList]
    refine Finset.sum_congr rfl fun index _ => ?_
    rw [card_refs, Array.getD_eq_getD_getElem?, List.getD_eq_getElem?_getD, Array.getElem?_toList]
  rw [hall, newObjects, ← Finset.range_eq_Ico]
  -- what is gone holds nothing
  refine (Finset.sum_filter_of_ne fun index _ hheld => ?_).symm
  by_contra hdead
  rw [refs_of_not_live hdead] at hheld
  exact hheld rfl

/-- The references that are no longer held are those that were held by what has gone. -/
theorem Leaves.held_add (h : Leaves heap heap') :
    heap'.heldReferences +
      ∑ index ∈ heap.newObjects 0 \ heap'.newObjects 0, Multiset.card (heap.refs index) =
        heap.heldReferences := by
  have hkept : heap'.heldReferences =
      ∑ index ∈ heap'.newObjects 0, Multiset.card (heap.refs index) := by
    rw [heldReferences_eq_sum]
    refine Finset.sum_congr rfl fun index hmem => ?_
    rw [refs_congr (h.body?_eq _ (mem_newObjects.mp hmem).2)]
  rw [hkept, heldReferences_eq_sum, Nat.add_comm]
  exact Finset.sum_sdiff h.newObjects_subset

/-! ## When it goes -/

/-- Where one reference is taken off, an object goes only with its last one. -/
theorem last_of_dropOne (hlive : heap.Live (.object index))
    (hgone : ¬ (heap.dropOne handle).1.Live (.object index)) :
    handle = .object index ∧ ∃ o, heap.get? (.object index) = some o ∧ o.count ≤ 1 := by
  revert hgone
  refine dropOne_cases (P := fun result => ¬ result.1.Live (.object index) →
    handle = .object index ∧ ∃ o, heap.get? (.object index) = some o ∧ o.count ≤ 1) ?_ ?_ ?_ ?_
  · exact fun _ _ hgone => absurd hlive hgone
  · exact fun _ hgone => absurd hlive hgone
  · intro other o hhandle ho hcount hgone
    by_cases heq : index = other
    · subst heq
      exact ⟨hhandle, o, ho, hcount⟩
    · rw [Live, get?_set_of_ne _ (Handle.object_ne heq)] at hgone
      exact absurd hlive hgone
  · intro other o _ ho _ hgone
    rw [live_iff_body?, body?_recount ho, ← live_iff_body?] at hgone
    exact absurd hlive hgone

namespace GoesAt

variable {k l : ℕ}

theorem le (h : heap.GoesAt handle k index) (h' : heap.GoesAt handle l index) : k ≤ l := by
  by_contra hlt
  exact h'.2 ((leaves_turned (Nat.lt_of_not_le hlt)).live h.1)

/-- An object goes at the turn that takes its last reference. -/
theorem last (h : heap.GoesAt handle k index) (hpos : heap.Positive) :
    ∃ rest later o, heap.turned handle k = (.object index :: rest, later) ∧
      later.get? (.object index) = some o ∧ o.count = 1 := by
  obtain ⟨hlive, hgone⟩ := h
  have hpos' : (heap.turned handle k).2.Positive := stable_positive.turned hpos k
  rw [turned_succ] at hgone
  match heap.turned handle k, hlive, hgone, hpos' with
  | ([], _), hlive, hgone, _ => exact absurd hlive hgone
  | (next :: rest, later), hlive, hgone, hpos' =>
      obtain ⟨rfl, o, ho, hcount⟩ := last_of_dropOne hlive hgone
      have hsome := hpos' _ _ (count?_of_get? ho)
      exact ⟨rest, later, o, rfl, ho, Nat.le_antisymm hcount hsome⟩

end GoesAt

section Ended

variable {n : ℕ} (hend : heap.turned handle n = ([], heap.release handle))

include hend

theorem existsUnique_goesAt (h : index ∈ heap.freedBy handle) :
    ∃! k, k < n ∧ heap.GoesAt handle k index := by
  obtain ⟨hlive, hgone⟩ := mem_freedBy.mp h
  have hdead : ¬ (heap.turned handle n).2.Live (.object index) := by rwa [hend]
  obtain ⟨k, hkept, hgoes⟩ := Nat.exists_not_and_succ_of_not_zero_of_exists
    (p := fun k => ¬ (heap.turned handle k).2.Live (.object index)) (not_not_intro hlive)
    ⟨n, hdead⟩
  have hgoesAt : heap.GoesAt handle k index := ⟨not_not.mp hkept, hgoes⟩
  have hlt : k < n := by
    by_contra hle
    exact hdead ((leaves_turned (Nat.le_of_not_lt hle)).live hgoesAt.1)
  exact ⟨k, ⟨hlt, hgoesAt⟩, fun l hl => (hl.2.le hgoesAt).antisymm (hgoesAt.le hl.2)⟩

theorem GoesAt.mem_freedBy {k : ℕ} (h : heap.GoesAt handle k index) (hk : k < n) :
    index ∈ heap.freedBy handle := by
  refine Heap.mem_freedBy.mpr ⟨(leaves_turned (Nat.zero_le k)).live h.1, fun hlive => ?_⟩
  have hlast : (heap.turned handle n).2.Live (.object index) := by rwa [hend]
  exact h.2 ((leaves_turned hk).live hlast)

end Ended

/-! ## The whole of it -/

/-- The turns that it takes to release a handle: one for the handle itself, and one for each
reference held by an object that goes. -/
def turns (heap : Heap) (handle : Handle) : ℕ :=
  1 + ∑ index ∈ heap.freedBy handle, Multiset.card (heap.refs index)

/-- How the loop goes that releases a handle. -/
structure Cascades (heap : Heap) (handle : Handle) : Prop where
  /-- Where a reference is taken off, there is one. -/
  counted : ∀ k next rest later o, heap.turned handle k = (next :: rest, later) →
    later.get? next = some o → 0 < o.count
  /-- It does not end earlier. -/
  busy : ∀ k < heap.turns handle, (heap.turned handle k).1 ≠ []
  ends : heap.turned handle (heap.turns handle) = ([], heap.release handle)
  /-- A boolean that is met stays as it is, and so does the heap. -/
  boolean : ∀ k b rest later, heap.turned handle k = (.boolean b :: rest, later) →
    heap.turned handle (k + 1) = (rest, later)
  once : ∀ index ∈ heap.freedBy handle, ∃! k, k < heap.turns handle ∧ heap.GoesAt handle k index
  /-- An object goes with its last reference, and no other object goes. -/
  last : ∀ k < heap.turns handle, ∀ index, heap.GoesAt handle k index →
    index ∈ heap.freedBy handle ∧ ∃ rest later o,
      heap.turned handle k = (.object index :: rest, later) ∧
      later.get? (.object index) = some o ∧ o.count = 1
  liveObjects_add :
    (heap.release handle).liveObjects + (heap.freedBy handle).card = heap.liveObjects

theorem Positive.cascades (h : heap.Positive) (handle : Handle) : heap.Cascades handle := by
  have hleaves := leaves_release handle heap
  obtain ⟨n, hsum, hend, hbusy⟩ := turns_releaseAll [handle] heap
  obtain rfl : n = heap.turns handle := by
    have hheld := hleaves.held_add
    rw [List.length_singleton] at hsum
    show n = 1 + ∑ index ∈ heap.newObjects 0 \ (heap.release handle).newObjects 0, _
    unfold release at hheld ⊢
    omega
  refine ⟨fun k next rest later o hstate ho => ?_, hbusy, hend, fun k b rest later hstate => ?_,
    fun index => existsUnique_goesAt hend, fun k hk index hgoes => ?_, hleaves.liveObjects_add⟩
  · have hlater : later.Positive := by
      have hturned : (heap.turned handle k).2.Positive := stable_positive.turned h k
      rwa [hstate] at hturned
    exact hlater next o.count (count?_of_get? ho)
  · rw [turned_succ, hstate]
    rfl
  · exact ⟨hgoes.mem_freedBy hend hk, hgoes.last h⟩

/-- Whatever was done to a heap, every live object has a reference, and a release goes well: no
count falls below zero, and it takes one turn for the handle and one for each reference held by
what it frees.  It frees no boolean, and everything else once. -/
theorem Reachable.release_cascades (h : heap.Reachable) :
    (∀ handle o, heap.get? handle = some o → 0 < o.count) ∧ ∀ handle, heap.Cascades handle :=
  ⟨fun handle _ ho => h.positive handle _ (count?_of_get? ho), h.positive.cascades⟩

/-- An array holds itself, and nobody owns a reference to it any more. -/
def selfHeld : Heap where
  slots := #[some { content := .array #[.object 0], mutable := true }]

theorem selfHeld_reachable : selfHeld.Reachable := by
  let filled : Heap :=
    { slots := #[some { content := .array #[.object 0], mutable := true, count := 2 }] }
  have hfilled : filled.Reachable :=
    (Reachable.fresh.step (.ask (.create .array))).step (.ask (.append (.object 0) (.object 0)))
  have hreleased : filled.release (.object 0) = selfHeld := by
    have hdrop : filled.dropOne (.object 0) = (selfHeld, []) := rfl
    rw [release, releaseAll, hdrop, List.append_nil, releaseAll]
  rw [← hreleased]
  exact hfilled.step (.release (.object 0))

/-- With one release too many the array goes, and the reference that it held to itself then finds
nothing. -/
theorem release_cascades_of_selfHeld : selfHeld.Reachable ∧
    selfHeld.freedBy (.object 0) = {0} ∧
    selfHeld.turned (.object 0) 2 = ([], selfHeld.release (.object 0)) ∧
    (∃! k, k < 2 ∧ selfHeld.GoesAt (.object 0) k 0) ∧
    (selfHeld.release (.object 0)).liveObjects + 1 = selfHeld.liveObjects := by
  have hreleased : selfHeld.release (.object 0) =
      { slots := #[none], notices := [.deadRelease] } := by
    have hfirst : selfHeld.dropOne (.object 0) = ({ slots := #[none] }, [.object 0]) := rfl
    have hsecond : ({ slots := #[none] } : Heap).dropOne (.object 0) =
        ({ slots := #[none], notices := [.deadRelease] }, []) := rfl
    rw [release, releaseAll, hfirst, List.append_nil, releaseAll, hsecond, List.append_nil,
      releaseAll]
  have hfreed : selfHeld.freedBy (.object 0) = {0} := by
    rw [freedBy, hreleased]
    decide
  have hturns : selfHeld.turns (.object 0) = 2 := by
    rw [turns, hfreed, Finset.sum_singleton]
    rfl
  obtain ⟨-, hcascades⟩ := Reachable.release_cascades selfHeld_reachable
  obtain ⟨-, -, hends, -, honce, -, hcount⟩ := hcascades (.object 0)
  rw [hturns] at hends
  rw [hfreed] at hcount
  have hmem : 0 ∈ selfHeld.freedBy (.object 0) := by rw [hfreed]; exact Finset.mem_singleton_self 0
  exact ⟨selfHeld_reachable, hfreed, hends, hturns ▸ honce 0 hmem, hcount⟩

end Marshal.Heap
