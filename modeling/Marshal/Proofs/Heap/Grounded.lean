import Mathlib.Algebra.Order.BigOperators.Group.Multiset
import Mathlib.Data.Finset.Max
import Marshal.Proofs.Heap.Held

/-!
# Heaps without cycles

Counting references finds everything that is no longer in use, unless objects
hold each other in a circle.  `Grounded n heap` says that the objects from slot
`n` on do not: they can be ranked so that each ranks above those it holds.  Then
some of them is held by none of the others, and if that is true of none, there
are no such objects (`Grounded.not_live`).

A rank survives whatever makes objects hold less.  It also survives that one
object is created or holds more, as long as nothing holds that one: it then ranks
above all others (`Grounded.change`).  Ranks of two generations of objects are put
on top of each other, since what is old does not hold what is new
(`Grounded.trans`).
-/

namespace Marshal.Heap

variable {heap heap' : Heap} {n index : Nat} {handle : Handle}

/-! ## Giving up references -/

/-- What a release leaves: some objects may be gone, and those that are left are
what they were. -/
structure Leaves (heap heap' : Heap) : Prop where
  size_eq : heap'.slots.size = heap.slots.size
  types_eq : heap'.types = heap.types
  body?_eq : ∀ handle, heap'.Live handle → heap'.body? handle = heap.body? handle

namespace Leaves

theorem refl (heap : Heap) : Leaves heap heap := ⟨rfl, rfl, fun _ _ => rfl⟩

theorem live (h : Leaves heap heap') (hlive : heap'.Live handle) : heap.Live handle := by
  rw [live_iff_body?, ← h.body?_eq handle hlive, ← live_iff_body?]
  exact hlive

theorem trans {heap'' : Heap} (h : Leaves heap heap') (h' : Leaves heap' heap'') :
    Leaves heap heap'' where
  size_eq := h'.size_eq.trans h.size_eq
  types_eq := h'.types_eq.trans h.types_eq
  body?_eq handle hlive := by rw [h'.body?_eq handle hlive, h.body?_eq handle (h'.live hlive)]

/-- What is left holds what it held. -/
theorem refs_le (h : Leaves heap heap') (index : Nat) : heap'.refs index ≤ heap.refs index := by
  by_cases hlive : heap'.Live (.object index)
  · rw [refs_congr (h.body?_eq _ hlive)]
  · rw [refs_of_not_live hlive]
    exact Multiset.zero_le _

end Leaves

theorem leaves_dropOne (heap : Heap) (handle : Handle) : Leaves heap (heap.dropOne handle).1 := by
  refine dropOne_cases (P := fun result => Leaves heap result.1) ?_ ?_ ?_ ?_
  · exact fun _ _ => .refl heap
  · exact fun _ => ⟨rfl, rfl, fun _ _ => rfl⟩
  · intro index o _ ho _
    refine ⟨size_set _, types_set _, fun other hlive => body?_set_of_ne _ ?_⟩
    rintro rfl
    rw [Live, get?_set_self _ (lt_size_of_live (live_of_get? ho))] at hlive
    simp at hlive
  · intro index o _ ho _
    exact ⟨size_set _, types_set _, fun other _ => body?_recount ho _ other⟩

theorem leaves_releaseAll (pending : List Handle) (heap : Heap) :
    Leaves heap (heap.releaseAll pending) := by
  fun_induction Heap.releaseAll pending heap with
  | case1 heap => exact .refl heap
  | case2 heap handle pending ih => exact (leaves_dropOne heap handle).trans ih

theorem leaves_release (handle : Handle) (heap : Heap) : Leaves heap (heap.release handle) :=
  leaves_releaseAll [handle] heap

/-! ## Ranks -/

/-- The rank of the object of a handle; other handles are of no account. -/
def weight (rank : Nat → Nat) : Handle → Nat
  | .object index => rank index
  | _ => 0

/-- The objects from slot `n` on can be ranked so that each ranks above those
that it holds. -/
def Grounded (n : Nat) (heap : Heap) : Prop := ∃ rank : Nat → Nat, ∀ holder child,
  n ≤ holder → n ≤ child → .object child ∈ heap.refs holder → rank child < rank holder

theorem grounded_size (heap : Heap) : Grounded heap.slots.size heap := by
  refine ⟨fun _ => 0, fun holder child hholder _ hmem => ?_⟩
  obtain ⟨o, ho, -⟩ := exists_of_mem_refs hmem
  have := lt_size_of_live (live_of_get? ho)
  omega

namespace Grounded

/-- The rank serves as long as nothing holds more. -/
theorem mono (h : Grounded n heap) (hrefs : ∀ index, heap'.refs index ≤ heap.refs index) :
    Grounded n heap' := by
  obtain ⟨rank, hrank⟩ := h
  refine ⟨rank, fun holder child hholder hchild hmem => ?_⟩
  exact hrank holder child hholder hchild (Multiset.mem_of_le (hrefs holder) hmem)

/-- An object that nothing holds may hold whatever it likes. -/
theorem change (h : Grounded n heap)
    (hfree : ∀ holder, n ≤ holder → .object index ∉ heap'.refs holder)
    (hother : ∀ other, other ≠ index → heap'.refs other = heap.refs other) :
    Grounded n heap' := by
  obtain ⟨rank, hrank⟩ := h
  -- the object is put above the sum of what it holds, so above each of it
  refine ⟨fun i => if i = index then ((heap'.refs index).map (weight rank)).sum + 1 else rank i, ?_⟩
  intro holder child hholder hchild hmem
  have hne : child ≠ index := by
    rintro rfl
    exact hfree holder hholder hmem
  simp only [if_neg hne]
  by_cases hself : holder = index
  · subst hself
    have hle : rank child ≤ ((heap'.refs holder).map (weight rank)).sum :=
      Multiset.single_le_sum (fun _ _ => Nat.zero_le _) _
        (Multiset.mem_map_of_mem (weight rank) hmem)
    rw [if_pos rfl]
    exact Nat.lt_succ_of_le hle
  · rw [if_neg hself]
    exact hrank holder child hholder hchild (hother holder hself ▸ hmem)

/-- Newer objects rank above older ones, which hold none of them. -/
theorem trans {mid : Nat} (h : Grounded n heap) (h' : Grounded mid heap')
    (hold : ∀ index < mid, heap'.refs index = heap.refs index)
    (hheld : ∀ holder child, n ≤ holder → holder < mid → .object child ∈ heap.refs holder →
      child < mid) : Grounded n heap' := by
  obtain ⟨older, holdRank⟩ := h
  obtain ⟨newer, hnewRank⟩ := h'
  -- the newer ranks are lifted by more than any older one
  let height := ∑ i ∈ Finset.range mid, older i
  have hheight : ∀ i < mid, older i ≤ height := fun i hi =>
    Finset.single_le_sum (f := older) (fun _ _ => Nat.zero_le _) (Finset.mem_range.mpr hi)
  refine ⟨fun i => if i < mid then older i else height + 1 + newer i, ?_⟩
  intro holder child hholder hchild hmem
  by_cases hlt : holder < mid
  · rw [hold holder hlt] at hmem
    simp only [if_pos hlt, if_pos (hheld holder child hholder hlt hmem)]
    exact holdRank holder child hholder hchild hmem
  · by_cases hlt' : child < mid
    · have := hheight child hlt'
      simp only [if_neg hlt, if_pos hlt']
      omega
    · have := hnewRank holder child (by omega) (by omega) hmem
      simp only [if_neg hlt, if_neg hlt']
      omega

/-- Where each object is held by another one of its kind, there are none: one that
ranks highest is held by none of them. -/
theorem not_live (h : Grounded n heap)
    (hheld : ∀ index, n ≤ index → heap.Live (.object index) → .object index ∈ heap.heldSince n)
    (hindex : n ≤ index) : ¬ heap.Live (.object index) := by
  intro hlive
  obtain ⟨rank, hrank⟩ := h
  let alive := (Finset.Ico n heap.slots.size).filter fun i => heap.Live (.object i)
  have halive : ∀ i, n ≤ i → heap.Live (.object i) → i ∈ alive := fun i hi hlive =>
    Finset.mem_filter.mpr ⟨Finset.mem_Ico.mpr ⟨hi, lt_size_of_live hlive⟩, hlive⟩
  obtain ⟨top, htop, hmax⟩ := Finset.exists_max_image alive rank ⟨index, halive index hindex hlive⟩
  obtain ⟨hrange, htopLive⟩ := Finset.mem_filter.mp htop
  have hle : n ≤ top := (Finset.mem_Ico.mp hrange).1
  -- whoever holds the highest one ranks higher still
  obtain ⟨holder, hholder, hmem⟩ := mem_heldSince.mp (hheld top hle htopLive)
  obtain ⟨o, ho, -⟩ := exists_of_mem_refs hmem
  have hlower : rank holder ≤ rank top := hmax holder (halive holder hholder (live_of_get? ho))
  have hhigher : rank top < rank holder := hrank holder top hholder hle hmem
  omega

end Grounded

end Marshal.Heap
