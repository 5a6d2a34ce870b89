import Marshal.Proofs.Heap.Issued
import Marshal.Proofs.Heap.References

/-!
# A heap with a new value

`Bears kept base room v root heap` says that `heap` is `base` with new objects that stand for a
value, of which the caller has the root, and that these are all that was created and is still
there.  As nobody has a second reference to one of them, they form a tree, and everything that
was counted since is told by the value.

* There are as many new objects as the value has parts that are stored (`Bears.card_eq`), and
  so many more are live than before (`Bears.liveObjects_eq`).
* Each of them is reached from the root (`Bears.reaches`), and it has a single reference
  (`Bears.count?_new`), which the caller has to the root and a new object to any other one
  (`Bears.count_held`).
* An old object is what it was, and it is referred to once more for each domain object of the
  value that wraps it (`Bears.get?_old`).
-/

namespace Marshal.Heap

open Relation

variable {kept : Handle → Prop} {base heap : Heap} {room index n : Nat} {v : Value} {root : Handle}

/-! ## Old and new objects -/

/-- `heap` is `base` with a tree of new objects that stands for the value, but for what is
kept. -/
structure Bears (kept : Handle → Prop) (base : Heap) (room : Nat) (v : Value) (root : Handle)
    (heap : Heap) : Prop where
  provides : base.Provides kept
  grows : Grows base 0 heap {root}
  unshared : Unshared base.slots.size (root ::ₘ heap.heldSince base.slots.size)
  stands : Stands kept base.slots.size heap room root v

namespace Bears

variable (h : Bears kept base room v root heap)

include h

/-- What is kept is old. -/
theorem not_newer {handle : Handle} (hkept : kept handle) : ¬ handle.Newer base.slots.size := by
  intro hnewer
  obtain ⟨index, rfl, hindex⟩ := hnewer.exists_index
  exact absurd (lt_size_of_live (h.provides _ hkept)) (Nat.not_lt.mpr hindex)

/-- The references taken since are as many as the value tells. -/
theorem countP_references {p : Handle → Prop} [DecidablePred p] {own : Nat} {t : Value → Nat}
    (ht : Value.Tallied p own t)
    (hown : ∀ index, base.slots.size ≤ index → (if p (.object index) then 1 else 0) = own)
    (hwrapped : ∀ (o : DomainObject) handle, o.handle = some handle → kept handle →
      t (.object o) = if p handle then 1 else 0) :
    (root ::ₘ heap.heldSince base.slots.size).countP p = t v := by
  obtain ⟨steps, hsteps⟩ := h.grows.grounded.exists_unfolding
  rw [← h.grows.unfolding_root h.unshared hsteps]
  exact h.stands.countP_unfolding ht hown
    (fun o handle ho hkept => ⟨h.not_newer hkept, hwrapped o handle ho hkept⟩) hsteps

theorem card_eq : (heap.newObjects base.slots.size).card = v.size := by
  have hcount : (root ::ₘ heap.heldSince base.slots.size).countP
      (Handle.Newer base.slots.size) = v.size := by
    refine h.countP_references (Value.tallied_size _) (fun index hindex => if_pos hindex) ?_
    intro o handle _ hkept
    rw [if_neg (h.not_newer hkept)]
    rfl
  rw [← hcount, Multiset.countP_eq_card_filter, h.grows.filter_newer h.unshared, Multiset.card_map]
  rfl

/-- An old object is referred to as often as it is wrapped. -/
theorem count_references (hindex : index < base.slots.size) :
    (root ::ₘ heap.heldSince base.slots.size).count (.object index) =
      v.wrapped.count (.object index) := by
  refine h.countP_references (Value.tallied_wrapped index) (fun other hother => if_neg ?_) ?_
  · rintro ⟨⟩
    omega
  · intro o handle ho _
    rw [Value.wrapped, ho, Option.toList_some]
    by_cases heq : .object index = handle
    · rw [heq, List.count_singleton_self, if_pos rfl]
    · rw [if_neg heq, List.count_eq_zero]
      exact fun hmem => heq (List.mem_singleton.mp hmem)

/-- The count of an object is what it was and one for each reference taken since. -/
theorem count?_of_live (hlive : heap.Live (.object index)) :
    heap.count? (.object index) = some ((base.count? (.object index)).getD 0 +
      (root ::ₘ heap.heldSince base.slots.size).count (.object index)) := by
  obtain ⟨o, ho⟩ := live_iff_exists.mp hlive
  have hcount := h.grows.conserved.count_eq index o.count (count?_of_get? ho)
  rw [zero_add, Multiset.singleton_add] at hcount
  rw [count?_of_get? ho, hcount]

theorem count?_old {count : Nat} (hcount : base.count? (.object index) = some count) :
    heap.count? (.object index) = some (count + v.wrapped.count (.object index)) := by
  have hlive : base.Live (.object index) := by
    rw [live_iff_count?, hcount]
    rfl
  rw [h.count?_of_live (h.grows.conserved.live_of_live hlive), hcount,
    h.count_references (lt_size_of_live hlive), Option.getD_some]

/-- What was there is as it was, with that many references more. -/
theorem get?_old {o : Object} (ho : base.get? (.object index) = some o) :
    heap.get? (.object index) =
      some { o with count := o.count + v.wrapped.count (.object index) } := by
  have hbody := h.grows.conserved.kept index (lt_size_of_live (live_of_get? ho))
  rw [body?_of_get? ho] at hbody
  obtain ⟨o', ho', hcontent, hmutable⟩ := exists_of_body? hbody
  have hcount := h.count?_old (count?_of_get? ho)
  rw [count?_of_get? ho', Option.some.injEq] at hcount
  rw [ho', ← hcontent, ← hmutable, ← hcount]

section New

variable (hindex : base.slots.size ≤ index) (hlive : heap.Live (.object index))

include hindex hlive

theorem count_new :
    (root ::ₘ heap.heldSince base.slots.size).count (.object index) = 1 := by
  have hmem := (h.grows.mem_of_newer hindex).mpr hlive
  have hpos := Multiset.count_pos.mpr hmem
  have hle := h.unshared index hindex
  omega

theorem count?_new : heap.count? (.object index) = some 1 := by
  rw [h.count?_of_live hlive, h.count_new hindex hlive, count?_of_size_le hindex]
  rfl

theorem reaches : ReflTransGen heap.Holds root (.object index) := by
  obtain ⟨steps, hsteps⟩ := h.grows.grounded.exists_unfolding
  have hmem : .object index ∈ heap.unfolding base.slots.size steps root := by
    rw [h.grows.unfolding_root h.unshared hsteps, h.grows.mem_of_newer hindex]
    exact hlive
  exact reaches_of_mem_unfolding hmem

/-- No old object holds a new one. -/
theorem count_held (hissued : base.Issued) :
    heap.held.count (.object index) = if .object index = root then 0 else 1 := by
  have hold : (∑ holder ∈ Finset.Ico 0 base.slots.size, heap.refs holder).count
      (.object index) = 0 := by
    rw [Multiset.count_eq_zero, Multiset.mem_sum]
    rintro ⟨holder, hholder, hmem⟩
    have hkept := h.grows.conserved.kept holder (Finset.mem_Ico.mp hholder).2
    rw [refs_congr hkept] at hmem
    obtain ⟨o, ho, hchild⟩ := exists_of_mem_refs hmem
    have hbefore := hissued _ _ _ (body?_of_get? ho) _ hchild index rfl
    omega
  have hnew := h.count_new hindex hlive
  rw [held, heldSince_split (Nat.zero_le _) h.grows.conserved.size_le, Multiset.count_add, hold]
  by_cases hroot : .object index = root
  · rw [hroot, Multiset.count_cons_self] at hnew
    rw [if_pos hroot, hroot]
    omega
  · rw [Multiset.count_cons_of_ne hroot] at hnew
    rw [if_neg hroot]
    omega

end New

/-- So many objects are live more than before. -/
theorem liveObjects_eq : heap.liveObjects = base.liveObjects + v.size := by
  have hsize := h.grows.conserved.size_le
  have hsame : (Finset.range base.slots.size).filter (fun index => heap.Live (.object index)) =
      (Finset.range base.slots.size).filter fun index => base.Live (.object index) := by
    refine Finset.filter_congr fun index hindex => ?_
    rw [live_iff_body?, h.grows.conserved.kept index (Finset.mem_range.mp hindex),
      ← live_iff_body?]
  have hnone : (base.newObjects base.slots.size).card = 0 := by
    rw [newObjects, Finset.Ico_self, Finset.filter_empty, Finset.card_empty]
  rw [Heap.liveObjects_eq, Heap.liveObjects_eq, card_newObjects hsize, card_newObjects le_rfl,
    hsame, hnone, h.card_eq]
  omega

end Bears

end Marshal.Heap
