import Mathlib.Data.Multiset.Bind
import Marshal.Proofs.Heap.Garbage
import Marshal.Proofs.Heap.Growth

/-!
# Unfolding what was created

What was created since slot `n` holds other objects, old or new.  `heap.unfolding n steps
handle` goes down from a handle for so many steps and lists every reference on the way, the
one to the handle included; old objects are not looked into.  The new objects hold each other
in no circle, so from some number of steps on nothing changes any more
(`Grounded.exists_unfolding`).

If nobody has more than one reference to any new object, the new objects form a tree.  Then
unfolding the root lists all references that there are (`Grows.unfolding_root`).  The proof
counts in two ways what all references unfold to: once by who has the reference, which is the
owner of the root or an object, and once by what it leads to, which is an old object or a new
one that no other reference leads to.
-/

namespace Marshal

/-- The handle of an object in a slot from `n` on. -/
def Handle.Newer (n : Nat) : Handle → Prop
  | .object index => n ≤ index
  | _ => False

instance (n : Nat) : DecidablePred (Handle.Newer n) := fun handle =>
  match handle with
  | .object index => inferInstanceAs (Decidable (n ≤ index))
  | .boolean _ | .outside _ => inferInstanceAs (Decidable False)

theorem Handle.Newer.exists_index {n : Nat} {handle : Handle} (h : handle.Newer n) :
    ∃ index, handle = .object index ∧ n ≤ index := by
  cases handle with
  | object index => exact ⟨index, rfl, h⟩
  | boolean | outside => exact h.elim

namespace Heap

variable {base heap : Heap} {n steps index : Nat} {handle child root : Handle}

open Relation

/-- The references that lead on from a handle: those that its object holds, if it is a new
one. -/
def branches (heap : Heap) (n : Nat) : Handle → Multiset Handle
  | .object index => if n ≤ index then heap.refs index else 0
  | _ => 0

/-- All references on the ways from the handle, for so many steps. -/
def unfolding (heap : Heap) (n : Nat) : (steps : Nat) → Handle → Multiset Handle
  | 0, handle => {handle}
  | steps + 1, handle => handle ::ₘ (heap.branches n handle).bind (heap.unfolding n steps)

/-- Nobody has two references to a new object. -/
def Unshared (n : Nat) (references : Multiset Handle) : Prop :=
  ∀ index, n ≤ index → references.count (.object index) ≤ 1

/-! ## Branches -/

theorem branches_object (h : n ≤ index) : heap.branches n (.object index) = heap.refs index :=
  if_pos h

theorem branches_of_not_newer (h : ¬ handle.Newer n) : heap.branches n handle = 0 := by
  cases handle with
  | object index => exact if_neg h
  | boolean | outside => rfl

theorem mem_branches :
    child ∈ heap.branches n handle ↔
      ∃ index, handle = .object index ∧ n ≤ index ∧ child ∈ heap.refs index := by
  constructor
  · intro hmem
    by_cases hnewer : handle.Newer n
    · obtain ⟨index, rfl, hindex⟩ := hnewer.exists_index
      rw [branches_object hindex] at hmem
      exact ⟨index, rfl, hindex, hmem⟩
    · rw [branches_of_not_newer hnewer] at hmem
      exact absurd hmem (Multiset.notMem_zero _)
  · rintro ⟨index, rfl, hindex, hmem⟩
    rw [branches_object hindex]
    exact hmem

/-! ## Steps -/

theorem unfolding_of_not_newer (h : ¬ handle.Newer n) :
    heap.unfolding n steps handle = {handle} := by
  cases steps with
  | zero => rfl
  | succ steps =>
      rw [unfolding, branches_of_not_newer h, Multiset.zero_bind]
      rfl

/-- What is listed is reached. -/
theorem reaches_of_mem_unfolding (h : child ∈ heap.unfolding n steps handle) :
    ReflTransGen heap.Holds handle child := by
  induction steps generalizing handle with
  | zero =>
      obtain rfl := Multiset.mem_singleton.mp h
      exact .refl
  | succ steps ih =>
      rcases Multiset.mem_cons.mp h with rfl | hmem
      · exact .refl
      · obtain ⟨next, hnext, hchild⟩ := Multiset.mem_bind.mp hmem
        obtain ⟨index, rfl, -, hheld⟩ := mem_branches.mp hnext
        exact .head (holds_of_mem_refs hheld) (ih hchild)

/-- More steps than the rank of an object make no difference. -/
theorem unfolding_succ {rank : Nat → Nat}
    (hrank : ∀ holder child, n ≤ holder → n ≤ child → .object child ∈ heap.refs holder →
      rank child < rank holder)
    (h : handle.Newer n → weight rank handle < steps) :
    heap.unfolding n (steps + 1) handle = heap.unfolding n steps handle := by
  induction steps generalizing handle with
  | zero =>
      have hold : ¬ handle.Newer n := fun hnewer => absurd (h hnewer) (Nat.not_lt_zero _)
      rw [unfolding_of_not_newer hold, unfolding_of_not_newer hold]
  | succ steps ih =>
      rw [unfolding, unfolding]
      congr 1
      refine Multiset.bind_congr fun child hchild => ih fun hnewer => ?_
      obtain ⟨holder, rfl, hholder, hheld⟩ := mem_branches.mp hchild
      obtain ⟨index, rfl, hindex⟩ := hnewer.exists_index
      have hless : rank index < rank holder := hrank holder index hholder hindex hheld
      have hbound : rank holder < steps + 1 := h hholder
      show rank index < steps
      omega

/-- With enough steps every handle is unfolded to the end. -/
theorem Grounded.exists_unfolding (h : Grounded n heap) :
    ∃ steps, ∀ handle, heap.unfolding n steps handle =
      handle ::ₘ (heap.branches n handle).bind (heap.unfolding n steps) := by
  obtain ⟨rank, hrank⟩ := h
  let top := (Finset.range heap.slots.size).sup rank
  refine ⟨top + 1, fun handle => ?_⟩
  show _ = heap.unfolding n (top + 1 + 1) handle
  by_cases hlive : heap.Live handle
  · refine (unfolding_succ hrank fun hnewer => ?_).symm
    obtain ⟨index, rfl, -⟩ := hnewer.exists_index
    have hle : rank index ≤ top := Finset.le_sup (Finset.mem_range.mpr (lt_size_of_live hlive))
    exact Nat.lt_succ_of_le hle
  · -- what is gone holds nothing
    have hempty : heap.branches n handle = 0 := by
      refine Multiset.eq_zero_of_forall_notMem fun child hmem => hlive ?_
      obtain ⟨index, rfl, -, hheld⟩ := mem_branches.mp hmem
      exact (holds_of_mem_refs hheld).live
    rw [unfolding, unfolding, hempty, Multiset.zero_bind, Multiset.zero_bind]

/-! ## New objects -/

/-- What the new objects hold is what leads on from them. -/
theorem bind_branches :
    ((heap.newObjects n).val.map Handle.object).bind (heap.branches n) = heap.heldSince n := by
  rw [Multiset.bind_map]
  show ∑ index ∈ heap.newObjects n, heap.branches n (.object index) = heap.heldSince n
  rw [heldSince, newObjects, Finset.sum_filter]
  refine Finset.sum_congr rfl fun index hindex => ?_
  rw [branches_object (Finset.mem_Ico.mp hindex).1]
  split
  · rfl
  · next hdead => exact (refs_of_not_live hdead).symm

namespace Grows

variable (h : Grows base 0 heap {root})
  (hunshared : Unshared base.slots.size (root ::ₘ heap.heldSince base.slots.size))

include h

/-- There is a reference to each new object. -/
theorem mem_of_newer (hindex : base.slots.size ≤ index) :
    .object index ∈ root ::ₘ heap.heldSince base.slots.size ↔ heap.Live (.object index) := by
  have htotal : (0 + {root} + heap.heldSince base.slots.size : Multiset Handle) =
      root ::ₘ heap.heldSince base.slots.size := by
    rw [zero_add, Multiset.singleton_add]
  rw [← htotal]
  exact ⟨h.conserved.live _, h.conserved.mem_of_live hindex⟩

include hunshared

/-- All references to new objects, one for each. -/
theorem filter_newer :
    (root ::ₘ heap.heldSince base.slots.size).filter (Handle.Newer base.slots.size) =
      (heap.newObjects base.slots.size).val.map Handle.object := by
  have hsingle : ((root ::ₘ heap.heldSince base.slots.size).filter
      (Handle.Newer base.slots.size)).Nodup := by
    refine Multiset.nodup_iff_count_le_one.mpr fun handle => ?_
    rw [Multiset.count_filter]
    split
    · next hnewer =>
      obtain ⟨index, rfl, hindex⟩ := hnewer.exists_index
      exact hunshared index hindex
    · exact Nat.zero_le 1
  have hobjects : ((heap.newObjects base.slots.size).val.map Handle.object).Nodup :=
    (heap.newObjects base.slots.size).nodup.map fun _ _ => Handle.object.inj
  refine (Multiset.Nodup.ext hsingle hobjects).mpr fun handle => ?_
  rw [Multiset.mem_filter, Multiset.mem_map]
  constructor
  · rintro ⟨hmem, hnewer⟩
    obtain ⟨index, rfl, hindex⟩ := hnewer.exists_index
    exact ⟨index, mem_newObjects.mpr ⟨hindex, (h.mem_of_newer hindex).mp hmem⟩, rfl⟩
  · rintro ⟨index, hmem, rfl⟩
    obtain ⟨hindex, hlive⟩ := mem_newObjects.mp hmem
    exact ⟨(h.mem_of_newer hindex).mpr hlive, hindex⟩

/-- The root unfolds to all references that there are. -/
theorem unfolding_root
    (hsteps : ∀ handle, heap.unfolding base.slots.size steps handle =
      handle ::ₘ (heap.branches base.slots.size handle).bind
        (heap.unfolding base.slots.size steps)) :
    heap.unfolding base.slots.size steps root = root ::ₘ heap.heldSince base.slots.size := by
  set n := base.slots.size
  set references := root ::ₘ heap.heldSince n
  set unfold := heap.unfolding n steps
  -- what the references to new objects lead to
  have hnew : (references.filter (Handle.Newer n)).bind unfold =
      references.filter (Handle.Newer n) + (heap.heldSince n).bind unfold := by
    calc (references.filter (Handle.Newer n)).bind unfold
        = (references.filter (Handle.Newer n)).bind fun handle =>
            handle ::ₘ (heap.branches n handle).bind unfold :=
          Multiset.bind_congr fun handle _ => hsteps handle
      _ = references.filter (Handle.Newer n) +
            (references.filter (Handle.Newer n)).bind fun handle =>
              (heap.branches n handle).bind unfold := by
          rw [Multiset.bind_cons, Multiset.map_id']
      _ = references.filter (Handle.Newer n) + (heap.heldSince n).bind unfold := by
          rw [h.filter_newer hunshared, ← bind_branches, Multiset.bind_assoc]
  -- what the other ones lead to
  have hold : (references.filter fun handle => ¬ handle.Newer n).bind unfold =
      references.filter fun handle => ¬ handle.Newer n := by
    calc (references.filter fun handle => ¬ handle.Newer n).bind unfold
        = (references.filter fun handle => ¬ handle.Newer n).bind fun handle => {handle} :=
          Multiset.bind_congr fun handle hmem =>
            unfolding_of_not_newer (Multiset.mem_filter.mp hmem).2
      _ = references.filter fun handle => ¬ handle.Newer n := by
          rw [Multiset.bind_singleton, Multiset.map_id']
  have hsplit := Multiset.filter_add_not (Handle.Newer n) references
  refine add_right_cancel (b := (heap.heldSince n).bind unfold) ?_
  calc unfold root + (heap.heldSince n).bind unfold
      = references.bind unfold := (Multiset.cons_bind ..).symm
    _ = (references.filter (Handle.Newer n)).bind unfold +
          (references.filter fun handle => ¬ handle.Newer n).bind unfold := by
        rw [← Multiset.add_bind, hsplit]
    _ = references.filter (Handle.Newer n) + (references.filter fun handle => ¬ handle.Newer n) +
          (heap.heldSince n).bind unfold := by
        rw [hnew, hold]
        abel
    _ = references + (heap.heldSince n).bind unfold := by rw [hsplit]

end Grows

end Heap

end Marshal
