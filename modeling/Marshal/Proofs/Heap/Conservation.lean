import Mathlib.Tactic.Abel
import Marshal.Proofs.Heap.Held
import Marshal.Proofs.Heap.Tally

/-!
# Conservation of references

`Extends base heap owned` says who has the references that were taken since
`base`: some are `owned`, and every other one is held by an object created since.
It is the invariant of everything that creates, fills and gives up objects, and it
has two readings.

* With a heap without slots as `base`, all objects are new.  Then the count of
  every object is the number of references that are owned or held.
* With any heap as `base`, it describes a part of a computation on its own, and
  two parts are put together by `Extends.trans`.  Since `base` may be any
  heap without zero counts, nothing has to be known about old references.

Moving a reference between `owned` and an object does not change their sum, so
creating an object around owned references (`Extends.pushed`) and changing what a
new object holds (`Extends.alter`) need no counting.  A release moves one
reference after another from an object that goes back to the pending ones
(`Extends.dropOne`); the pending list of a cascade is owned as long as it lasts.
-/

namespace Marshal.Heap

variable {base heap heap' : Heap} {owned : Multiset Handle} {handle : Handle} {index : Nat}

/-- `heap` is `base` with new objects, and every reference taken since is owned
or held by a new object. -/
def Extends (base heap : Heap) (owned : Multiset Handle) : Prop :=
  Tallies base heap (owned + heap.heldSince base.slots.size)

/-- Whatever a live object holds is live. -/
def Closed (heap : Heap) : Prop := ∀ handle content mutable,
  heap.body? handle = some (content, mutable) → ∀ child ∈ content.children, heap.Live child

theorem Positive.extends (h : heap.Positive) : Extends heap heap 0 := by
  rw [Extends, heldSince_size, add_zero]
  exact h.tallies

/-- A heap without slots has the booleans only, which hold nothing. -/
theorem closed_of_size_eq_zero (hsize : heap.slots.size = 0) : heap.Closed := by
  intro handle content mutable hbody child hchild
  obtain ⟨index, rfl⟩ := exists_index_of_child hbody hchild
  have hlt := lt_size_of_live (live_of_body? hbody)
  omega

namespace Extends

/-- What is owned is live. -/
theorem live_of_owned (h : Extends base heap owned) (hmem : handle ∈ owned) : heap.Live handle :=
  h.live handle (Multiset.mem_add.mpr (.inl hmem))

/-- What a new object holds is live. -/
theorem live_of_held (h : Extends base heap owned)
    (hmem : handle ∈ heap.heldSince base.slots.size) : heap.Live handle :=
  h.live handle (Multiset.mem_add.mpr (.inr hmem))

/-- A new object has a reference for each time that it counts. -/
theorem mem_of_live (h : Extends base heap owned) (hindex : base.slots.size ≤ index)
    (hlive : heap.Live (.object index)) :
    .object index ∈ owned + heap.heldSince base.slots.size := by
  obtain ⟨o, ho⟩ := live_iff_exists.mp hlive
  have hcount := h.count_eq index o.count (count?_of_get? ho)
  have hpos := h.positive _ _ (count?_of_get? ho)
  have hnone : base.count? (.object index) = none := count?_of_size_le hindex
  -- nothing was counted in `base`
  rw [hnone, Option.getD_none, zero_add] at hcount
  exact Multiset.count_pos.mp (hcount ▸ hpos)

theorem live_of_child (h : Extends base heap owned) {o : Object}
    (ho : heap.get? (.object index) = some o) (hindex : base.slots.size ≤ index)
    (hmem : handle ∈ o.children) : heap.Live handle :=
  h.live_of_held (mem_heldSince.mpr ⟨index, hindex, (refs_of_get? ho).symm ▸ hmem⟩)

/-- Where nothing old holds what is gone, nothing at all does. -/
theorem closed (h : Extends base heap owned) (hclosed : base.Closed) : heap.Closed := by
  intro handle content mutable hbody child hchild
  obtain ⟨index, rfl⟩ := exists_index_of_child hbody hchild
  by_cases hindex : index < base.slots.size
  · rw [h.kept index hindex] at hbody
    exact h.live_of_live (hclosed _ content mutable hbody child hchild)
  · obtain ⟨o, ho, rfl, -⟩ := exists_of_body? hbody
    exact h.live_of_child ho (Nat.le_of_not_lt hindex) hchild

theorem congr (h : Extends base heap owned) (hget : ∀ handle, heap'.get? handle = heap.get? handle)
    (hsize : heap'.slots.size = heap.slots.size)
    (hdead : heap'.deadReleases = heap.deadReleases) : Extends base heap' owned := by
  rw [Extends, heldSince_congr hsize fun index _ => refs_congr (by rw [body?, body?, hget])]
  exact Tallies.congr h hget hsize hdead

/-- The references of two parts of a computation add up. -/
theorem trans {owned' : Multiset Handle} (h : Extends base heap owned)
    (h' : Extends heap heap' owned') : Extends base heap' (owned + owned') := by
  have hold : ∑ index ∈ Finset.Ico base.slots.size heap.slots.size, heap'.refs index =
      heap.heldSince base.slots.size :=
    Finset.sum_congr rfl fun index hindex =>
      refs_congr (h'.kept index (Finset.mem_Ico.mp hindex).2)
  have htotal := Tallies.trans h h'
  rw [Extends, heldSince_split h.size_le h'.size_le, hold]
  convert htotal using 1
  abel

/-! ## Owned references and references held -/

theorem retain {o : Object} (h : Extends base heap owned) (ho : heap.get? handle = some o) :
    Extends base (heap.set handle (some { o with count := o.count + 1 })) (handle ::ₘ owned) := by
  rw [Extends, heldSince_congr (size_set _) fun index _ => refs_congr (body?_recount ho _ _),
    Multiset.cons_add]
  exact Tallies.retain h ho

/-- A new object takes over the references it holds. -/
theorem pushed {o : Object} (h : Extends base heap (o.children + owned)) (hcount : o.count = 1) :
    Extends base (heap.pushed o) (.object heap.slots.size ::ₘ owned) := by
  have htotal := Tallies.pushed h hcount
  rw [Extends, heldSince_pushed h.size_le, Multiset.cons_add]
  convert htotal using 2
  abel

/-- New contents of a new object take over the references they hold and give up
those they hold no longer. -/
theorem alter {o : Object} {f : Content → Content} {moved removed : Multiset Handle}
    (h : Extends base heap (moved + owned)) (ho : heap.get? (.object index) = some o)
    (hindex : base.slots.size ≤ index)
    (hchildren : ((f o.content).children : Multiset Handle) + removed = o.children + moved) :
    Extends base (heap.alter (.object index) f) (removed + owned) := by
  have hrefs : (heap.alter (.object index) f).refs index = (f o.content).children := by
    have hbody : (heap.alter (.object index) f).body? (.object index) =
        some (f o.content, o.mutable) := by
      rw [body?_alter_self, body?_of_get? ho]
      rfl
    exact refs_of_body? hbody
  have hheld : (heap.alter (.object index) f).heldSince base.slots.size + ↑o.children =
      heap.heldSince base.slots.size + ↑(f o.content).children := by
    rw [← hrefs, ← refs_of_get? ho]
    exact heldSince_change (size_alter f) hindex (lt_size_of_live (live_of_get? ho))
      fun other hother => refs_congr (body?_alter_of_ne f (Handle.object_ne hother))
  -- what the object holds more is owned less
  have hsame : removed + owned + (heap.alter (.object index) f).heldSince base.slots.size =
      moved + owned + heap.heldSince base.slots.size := by
    refine add_right_cancel (b := (o.children : Multiset Handle)) ?_
    calc removed + owned + (heap.alter (.object index) f).heldSince base.slots.size + ↑o.children
        = removed + owned +
            ((heap.alter (.object index) f).heldSince base.slots.size + ↑o.children) := by abel
      _ = owned + heap.heldSince base.slots.size + (↑(f o.content).children + removed) := by
          rw [hheld]
          abel
      _ = moved + owned + heap.heldSince base.slots.size + ↑o.children := by
          rw [hchildren]
          abel
  rw [Extends, hsame]
  exact Tallies.alter h hindex f

/-! ## Giving references up -/

/-- Whoever gives up a reference owns what its last one kept alive. -/
theorem dropOne (h : Extends base heap (handle ::ₘ owned)) :
    Extends base (heap.dropOne handle).1 ((heap.dropOne handle).2 + owned) := by
  have hlive : heap.Live handle := h.live_of_owned (Multiset.mem_cons_self _ _)
  rw [Extends, Multiset.cons_add] at h
  cases handle with
  | boolean b =>
      rw [Extends, Heap.dropOne, Multiset.coe_nil, zero_add]
      exact h.of_cons_of_not_object fun _ => nofun
  | outside address => simp [Live] at hlive
  | object index =>
      obtain ⟨o, ho⟩ := live_iff_exists.mp hlive
      rw [dropOne_object, ho]
      by_cases hcount : o.count ≤ 1
      · -- the object goes, and what it held is owned by the pending ones
        have hnone : (heap.set (.object index) none).refs index = 0 := by
          refine refs_of_not_live ?_
          rw [Live, get?_set_self _ (lt_size_of_live hlive)]
          simp
        have hheld : (heap.set (.object index) none).heldSince base.slots.size + ↑o.children =
            heap.heldSince base.slots.size := by
          rw [← refs_of_get? ho, ← add_zero (heap.heldSince _), ← hnone]
          exact heldSince_change (size_set _) (h.not_mem_of_last ho hcount).1
            (lt_size_of_live hlive) fun other hother =>
              refs_congr (body?_set_of_ne _ (Handle.object_ne hother))
        simp only [if_pos hcount, Multiset.coe_reverse]
        rw [Extends, add_right_comm, add_comm (o.children : Multiset Handle), hheld, add_comm]
        exact h.remove ho hcount
      · -- only the count changes
        simp only [if_neg hcount, Multiset.coe_nil, zero_add]
        rw [Extends,
          heldSince_congr (size_set _) fun other _ => refs_congr (body?_recount ho _ _)]
        exact h.drop ho (by omega)

/-- A cascade gives up the pending references and nothing else. -/
theorem releaseAll {pending : List Handle} (h : Extends base heap (pending + owned)) :
    Extends base (heap.releaseAll pending) owned := by
  fun_induction Heap.releaseAll pending heap with
  | case1 heap =>
      rwa [Multiset.coe_nil, zero_add] at h
  | case2 heap handle pending ih =>
      refine ih ?_
      rw [← Multiset.cons_coe, Multiset.cons_add] at h
      rw [← Multiset.coe_add, add_assoc]
      exact h.dropOne

theorem release (h : Extends base heap (handle ::ₘ owned)) :
    Extends base (heap.release handle) owned := by
  have hpending : Extends base heap (([handle] : List Handle) + owned) := by
    rw [Multiset.coe_singleton, Multiset.singleton_add]
    exact h
  exact hpending.releaseAll

end Extends

end Marshal.Heap
