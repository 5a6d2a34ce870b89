import Mathlib.Algebra.Order.Group.Multiset
import Mathlib.Tactic.Push
import Marshal.Proofs.Heap.View

/-!
# Counts and the references they count

`Tallies base heap total` compares a heap with an earlier one.  The objects that
`base` had are still there and are what they were, and the count of every object
is the count it had in `base`, if it was there, and one more for every time its
handle occurs in `total`.  So `total` lists the references that were taken since
`base`, whoever holds them now.

Nothing is assumed of the counts in `base` but that none is zero.  They may well
be wrong, as after a release too many; what is added to them is still exact.

The rules follow the heap through its smallest changes.  The one with an idea is
`Tallies.not_mem_of_last`: when an object has a single reference left and
this is one in `total`, then it is new and its handle does not occur in `total`
again, so it can be taken away.
-/

namespace Marshal.Heap

variable {base heap : Heap} {total : Multiset Handle} {handle : Handle} {index : Nat}

/-- Every live object has at least one reference. -/
def Positive (heap : Heap) : Prop := ∀ handle count, heap.count? handle = some count → 0 < count

/-- `heap` is `base` with new objects, and `total` are the references that were
taken since. -/
structure Tallies (base heap : Heap) (total : Multiset Handle) : Prop where
  base_positive : base.Positive
  positive : heap.Positive
  size_le : base.slots.size ≤ heap.slots.size
  /-- What is old is what it was. -/
  kept : ∀ index < base.slots.size, heap.body? (.object index) = base.body? (.object index)
  count_eq : ∀ index count, heap.count? (.object index) = some count →
    count = (base.count? (.object index)).getD 0 + total.count (.object index)
  live : ∀ handle ∈ total, heap.Live handle
  deadReleases_eq : heap.deadReleases = base.deadReleases

theorem Positive.tallies (h : heap.Positive) : Tallies heap heap 0 where
  base_positive := h
  positive := h
  size_le := Nat.le_refl _
  kept _ _ := rfl
  count_eq index count hcount := by simp [hcount]
  live handle hmem := absurd hmem (Multiset.notMem_zero _)
  deadReleases_eq := rfl

namespace Tallies

/-- A heap that shows the same objects tallies as well. -/
theorem congr {heap' : Heap} (h : Tallies base heap total)
    (hget : ∀ handle, heap'.get? handle = heap.get? handle)
    (hsize : heap'.slots.size = heap.slots.size)
    (hdead : heap'.deadReleases = heap.deadReleases) : Tallies base heap' total where
  base_positive := h.base_positive
  positive handle count hcount := h.positive handle count (by rwa [count?, ← hget handle])
  size_le := hsize ▸ h.size_le
  kept index hindex := by rw [body?, hget, ← body?, h.kept index hindex]
  count_eq index count hcount := h.count_eq index count (by rwa [count?, ← hget])
  live handle hmem := by
    rw [Live, hget]
    exact h.live handle hmem
  deadReleases_eq := hdead.trans h.deadReleases_eq

/-! ## One object counted differently -/

/-- After a recount of one object by which the tally changes in the same way, the
tally is right again. -/
theorem recount {o : Object} {count : Nat} {total' : Multiset Handle} (h : Tallies base heap total)
    (ho : heap.get? (.object index) = some o) (hpos : 0 < count)
    (hself : count + total.count (.object index) = o.count + total'.count (.object index))
    (hother : ∀ other, other ≠ index → total'.count (.object other) = total.count (.object other))
    (hlive : ∀ handle ∈ total', handle ∈ total ∨ heap.Live handle) :
    Tallies base (heap.set (.object index) (some { o with count })) total' where
  base_positive := h.base_positive
  positive handle n hn := by
    by_cases heq : handle = .object index
    · rw [heq, count?_recount_self ho] at hn
      exact Option.some.inj hn ▸ hpos
    · rw [count?_set_of_ne _ heq] at hn
      exact h.positive handle n hn
  size_le := by
    rw [size_set]
    exact h.size_le
  kept i hi := by rw [body?_recount ho, h.kept i hi]
  count_eq i n hn := by
    by_cases heq : i = index
    · subst heq
      rw [count?_recount_self ho] at hn
      have hold := h.count_eq i o.count (count?_of_get? ho)
      have := Option.some.inj hn
      omega
    · rw [count?_set_of_ne _ (Handle.object_ne heq)] at hn
      rw [hother i heq]
      exact h.count_eq i n hn
  live handle hmem := by
    rw [live_iff_body?, body?_recount ho, ← live_iff_body?]
    exact (hlive handle hmem).elim (h.live handle) id
  deadReleases_eq := by
    rw [deadReleases_set]
    exact h.deadReleases_eq

/-- Booleans are not counted, so references to them come and go. -/
theorem cons_of_not_object (h : Tallies base heap total) (hlive : heap.Live handle)
    (hhandle : ∀ index, handle ≠ .object index) : Tallies base heap (handle ::ₘ total) :=
  { h with
    count_eq := fun index count hcount => by
      rw [Multiset.count_cons_of_ne (hhandle index).symm]
      exact h.count_eq index count hcount
    live := fun other hmem => by
      rcases Multiset.mem_cons.mp hmem with rfl | hmem
      · exact hlive
      · exact h.live other hmem }

theorem of_cons_of_not_object (h : Tallies base heap (handle ::ₘ total))
    (hhandle : ∀ index, handle ≠ .object index) : Tallies base heap total :=
  { h with
    count_eq := fun index count hcount => by
      rw [h.count_eq index count hcount, Multiset.count_cons_of_ne (hhandle index).symm]
    live := fun other hmem => h.live other (Multiset.mem_cons_of_mem hmem) }

/-- A reference is taken. -/
theorem retain {o : Object} (h : Tallies base heap total) (ho : heap.get? handle = some o) :
    Tallies base (heap.set handle (some { o with count := o.count + 1 })) (handle ::ₘ total) := by
  have hlive : heap.Live handle := live_of_get? ho
  cases handle with
  | boolean b => exact h.cons_of_not_object hlive fun _ => nofun
  | outside address => simp at ho
  | object index =>
      refine h.recount ho (Nat.succ_pos _) ?_ (fun other hne => ?_) fun handle hmem => ?_
      · rw [Multiset.count_cons_self]
        omega
      · exact Multiset.count_cons_of_ne (Handle.object_ne hne) _
      · rcases Multiset.mem_cons.mp hmem with rfl | hmem
        · exact .inr hlive
        · exact .inl hmem

/-- One of several references is given up. -/
theorem drop {o : Object} (h : Tallies base heap (.object index ::ₘ total))
    (ho : heap.get? (.object index) = some o) (hcount : 1 < o.count) :
    Tallies base (heap.set (.object index) (some { o with count := o.count - 1 })) total := by
  refine h.recount ho (by omega) ?_ (fun other hne => ?_) fun handle hmem =>
    .inl (Multiset.mem_cons_of_mem hmem)
  · rw [Multiset.count_cons_self]
    omega
  · exact (Multiset.count_cons_of_ne (Handle.object_ne hne) _).symm

/-! ## The last reference -/

/-- An object whose last reference is one of `total` is new, and no other
reference leads to it. -/
theorem not_mem_of_last {o : Object} (h : Tallies base heap (.object index ::ₘ total))
    (ho : heap.get? (.object index) = some o) (hcount : o.count ≤ 1) :
    base.slots.size ≤ index ∧ .object index ∉ total := by
  have heq := h.count_eq index o.count (count?_of_get? ho)
  rw [Multiset.count_cons_self] at heq
  constructor
  · by_contra hlt
    -- an old object has the reference it had before as well
    have hbody := h.kept index (Nat.lt_of_not_le hlt)
    have hold : (base.count? (.object index)).isSome := by
      rw [← live_iff_count?, live_iff_body?, ← hbody, ← live_iff_body?]
      exact live_of_get? ho
    obtain ⟨count, hbase⟩ := Option.isSome_iff_exists.mp hold
    have hpos := h.base_positive _ _ hbase
    rw [hbase, Option.getD_some] at heq
    omega
  · rw [← Multiset.count_eq_zero]
    omega

/-- The last reference is given up, and the object goes. -/
theorem remove {o : Object} (h : Tallies base heap (.object index ::ₘ total))
    (ho : heap.get? (.object index) = some o) (hcount : o.count ≤ 1) :
    Tallies base (heap.set (.object index) none) total where
  base_positive := h.base_positive
  positive handle n hn := by
    by_cases heq : handle = .object index
    · rw [heq, count?, get?_set_self _ (lt_size_of_live (live_of_get? ho))] at hn
      simp at hn
    · rw [count?_set_of_ne _ heq] at hn
      exact h.positive handle n hn
  size_le := by
    rw [size_set]
    exact h.size_le
  kept i hi := by
    have hnew := (h.not_mem_of_last ho hcount).1
    have hne : Handle.object i ≠ .object index := Handle.object_ne (by omega)
    rw [body?_set_of_ne _ hne, h.kept i hi]
  count_eq i n hn := by
    by_cases heq : i = index
    · rw [heq, count?, get?_set_self _ (lt_size_of_live (live_of_get? ho))] at hn
      simp at hn
    · have hne : Handle.object i ≠ .object index := Handle.object_ne heq
      rw [count?_set_of_ne _ hne] at hn
      rw [h.count_eq i n hn, Multiset.count_cons_of_ne hne]
  live handle hmem := by
    have hne : handle ≠ .object index := by
      rintro rfl
      exact (h.not_mem_of_last ho hcount).2 hmem
    rw [Live, get?_set_of_ne _ hne]
    exact h.live handle (Multiset.mem_cons_of_mem hmem)
  deadReleases_eq := by
    rw [deadReleases_set]
    exact h.deadReleases_eq

/-! ## New and changed objects -/

/-- A new object comes with one reference to it. -/
theorem pushed {o : Object} (h : Tallies base heap total) (hcount : o.count = 1) :
    Tallies base (heap.pushed o) (.object heap.slots.size ::ₘ total) where
  base_positive := h.base_positive
  positive handle n hn := by
    by_cases heq : handle = .object heap.slots.size
    · rw [heq, count?_of_get? get?_pushed_new, hcount] at hn
      exact Option.some.inj hn ▸ Nat.one_pos
    · rw [count?, get?_pushed_of_ne heq] at hn
      exact h.positive handle n hn
  size_le := by
    rw [size_pushed]
    exact Nat.le_succ_of_le h.size_le
  kept i hi := by
    have hle := h.size_le
    have hne : Handle.object i ≠ .object heap.slots.size := Handle.object_ne (by omega)
    rw [body?, get?_pushed_of_ne hne, ← body?, h.kept i hi]
  count_eq i n hn := by
    by_cases heq : i = heap.slots.size
    · subst heq
      have hbase : base.count? (.object heap.slots.size) = none := count?_of_size_le h.size_le
      have hfresh : .object heap.slots.size ∉ total := fun hmem =>
        ne_new_of_live (h.live _ hmem) rfl
      rw [count?_of_get? get?_pushed_new, hcount] at hn
      rw [hbase, Multiset.count_cons_self, Multiset.count_eq_zero.mpr hfresh]
      exact (Option.some.inj hn).symm
    · have hne : Handle.object i ≠ .object heap.slots.size := Handle.object_ne heq
      rw [count?, get?_pushed_of_ne hne] at hn
      rw [Multiset.count_cons_of_ne hne]
      exact h.count_eq i n hn
  live handle hmem := by
    rcases Multiset.mem_cons.mp hmem with rfl | hmem
    · exact live_of_get? get?_pushed_new
    · rw [Live, get?_pushed_of_live (h.live handle hmem)]
      exact h.live handle hmem
  deadReleases_eq := h.deadReleases_eq

/-- New contents of a new object count for nothing. -/
theorem alter (h : Tallies base heap total) (hindex : base.slots.size ≤ index)
    (f : Content → Content) : Tallies base (heap.alter (.object index) f) total where
  base_positive := h.base_positive
  positive handle n hn := h.positive handle n (by rwa [count?_alter] at hn)
  size_le := by
    rw [size_alter]
    exact h.size_le
  kept i hi := by
    have hne : Handle.object i ≠ .object index := Handle.object_ne (by omega)
    rw [body?_alter_of_ne f hne, h.kept i hi]
  count_eq i n hn := h.count_eq i n (by rwa [count?_alter] at hn)
  live handle hmem := by
    rw [live_iff_count?, count?_alter, ← live_iff_count?]
    exact h.live handle hmem
  deadReleases_eq := by
    rw [deadReleases_alter]
    exact h.deadReleases_eq

/-! ## Composition -/

/-- What is live in `base` is live and what it was. -/
theorem body?_of_live (h : Tallies base heap total) (hlive : base.Live handle) :
    heap.body? handle = base.body? handle := by
  cases handle with
  | boolean b => rfl
  | outside address => rfl
  | object index => exact h.kept index (lt_size_of_live hlive)

theorem live_of_live (h : Tallies base heap total) (hlive : base.Live handle) :
    heap.Live handle := by
  rw [live_iff_body?, h.body?_of_live hlive, ← live_iff_body?]
  exact hlive

/-- The references that were taken in two parts of a computation add up. -/
theorem trans {heap' : Heap} {total' : Multiset Handle} (h : Tallies base heap total)
    (h' : Tallies heap heap' total') : Tallies base heap' (total + total') where
  base_positive := h.base_positive
  positive := h'.positive
  size_le := h.size_le.trans h'.size_le
  kept index hindex := by
    rw [h'.kept index (hindex.trans_le h.size_le), h.kept index hindex]
  count_eq index count hcount := by
    rw [Multiset.count_add, h'.count_eq index count hcount]
    cases hmid : heap.count? (.object index) with
    | some mid =>
        rw [Option.getD_some, h.count_eq index mid hmid]
        omega
    | none =>
        -- an object that is not there in between is new, and nothing refers to it yet
        have hdead : ¬ heap.Live (.object index) := by
          rw [live_iff_count?, hmid]
          simp
        have hbase : base.count? (.object index) = none := by
          rw [← Option.not_isSome_iff_eq_none, ← live_iff_count?]
          exact fun hlive => hdead (h.live_of_live hlive)
        have htotal : total.count (.object index) = 0 :=
          Multiset.count_eq_zero.mpr fun hmem => hdead (h.live _ hmem)
        rw [hbase, htotal]
        simp
  live handle hmem := by
    rcases Multiset.mem_add.mp hmem with hmem | hmem
    · exact h'.live_of_live (h.live handle hmem)
    · exact h'.live handle hmem
  deadReleases_eq := h'.deadReleases_eq.trans h.deadReleases_eq

end Tallies

end Marshal.Heap
