import Marshal.Proofs.Heap.Bearing
import Marshal.Proofs.Marshaller.Keeping
import Marshal.Proofs.Marshaller.Unsharing

/-!
# The shape of what was lowered

After a value was lowered, the heap bears it (`Marshaller.Sharing.ends_bears`).  Without domain
objects nothing is shared, and this is all that happened (`Heap.Reachable.shape_of_lower`).  The
new objects are those that the handle leads to.  They are sealed and form a tree, with a single
reference to each of them.  There are as many as the normal form of the value tells, so the
containers that were filled on the way are gone, as are values that were replaced, and keys and
members that were there already.  Old objects stay as they were.
-/

namespace Marshal

variable {kept : Handle → Prop} {m : Marshaller Heap} {heap heap' : Heap} {room : Nat} {v : Value}

/-- When a value was lowered, the heap bears its normal form. -/
theorem Marshaller.Sharing.ends_bears (h : m.Sharing) (hpos : heap.Positive)
    (hkept : heap.Provides kept) (hv : v.Storable m.Retains room) (hbare : v.bareSets)
    (hwrapped : ∀ handle ∈ v.wrapped, kept handle) :
    Ends (m.lowerWithin room v) heap (Heap.Bears kept heap room v.normal)
      fun failure _ => heap.Short failure := by
  have hlive : ∀ handle ∈ v.wrapped, heap.Live handle :=
    fun handle hmem => hkept handle (hwrapped handle hmem)
  have hyields := (hv.delivers h hbare hwrapped).ends hpos hkept
  refine ((h.ends_unshared hpos hlive).and hyields).mono (fun handle heap' hgood => ?_)
    fun _ _ hbad => hbad.2
  obtain ⟨⟨hgrows, hsingle⟩, hyields⟩ := hgood
  exact ⟨hkept, hgrows, hsingle, hyields.stands⟩

/-- What cannot be changed is not of a mutable type. -/
theorem Object.isMutable_eq_false {o : Object} (h : o.mutable = false) : o.isMutable = false := by
  obtain ⟨content, mutable, count⟩ := o
  obtain rfl : mutable = false := h
  cases content <;> rfl

namespace Heap

open Relation

variable {base : Heap} {root handle : Handle} {index n size : Nat}

/-! ## Nothing shared -/

/-- Whatever an object that stands for a value leads to stands for something. -/
theorem Denotes.exists_of_reaches (h : Denotes n heap room root v)
    (hreaches : ReflTransGen heap.Holds root handle) :
    ∃ deeper w, Denotes n heap deeper handle w := by
  induction hreaches with
  | refl => exact ⟨room, v, h⟩
  | tail _ hholds ih =>
      obtain ⟨deeper, w, hdenotes⟩ := ih
      obtain ⟨content, mutable, hbody, hchild⟩ := hholds
      exact hdenotes.exists_of_child hbody hchild

namespace Bears

/-- What is live now and was not before is in a new slot. -/
theorem size_le_of_live (h : Bears kept base room v root heap) (hlive : heap.Live (.object index))
    (hbefore : ¬ base.Live (.object index)) : base.slots.size ≤ index := by
  by_contra hlt
  have hsame := h.grows.conserved.kept index (Nat.lt_of_not_le hlt)
  rw [live_iff_body?, hsame, ← live_iff_body?] at hlive
  exact hbefore hlive

/-- Where nothing is kept, what the root leads to is new. -/
theorem new_of_reaches (h : Bears (fun _ => False) base room v root heap)
    (hreaches : ReflTransGen heap.Holds root (.object index)) :
    heap.Live (.object index) ∧ ¬ base.Live (.object index) := by
  obtain ⟨deeper, w, hdenotes⟩ := (h.stands.denotes fun _ => id).exists_of_reaches hreaches
  refine ⟨hdenotes.live, fun hbefore => ?_⟩
  have hindex := hdenotes.since index rfl
  have hlt := lt_size_of_live hbefore
  omega

/-- Where nothing is wrapped, what was live is as it was. -/
theorem get?_eq (h : Bears kept base room v root heap) (hv : v.wrapped = [])
    (hlive : base.Live handle) : heap.get? handle = base.get? handle := by
  cases handle with
  | boolean | outside => rfl
  | object index =>
      obtain ⟨o, ho⟩ := live_iff_exists.mp hlive
      rw [h.get?_old ho, ho, hv, List.count_nil, Nat.add_zero]

end Bears

/-! ## The shape -/

/-- From `base` to `heap`, a tree of sealed objects was added, of which nobody but the caller
has the root. -/
structure Planted (base : Heap) (root : Handle) (size : Nat) (heap : Heap) : Prop where
  /-- The new objects are those that the root leads to. -/
  new_iff : ∀ index, heap.Live (.object index) ∧ ¬ base.Live (.object index) ↔
    ReflTransGen heap.Holds root (.object index)
  /-- Each of them has one reference. -/
  count_eq : ∀ index o, heap.get? (.object index) = some o → ¬ base.Live (.object index) →
    o.count = 1
  /-- It is held in one place, but for the root. -/
  held_eq : ∀ index, heap.Live (.object index) → ¬ base.Live (.object index) →
    heap.held.count (.object index) = if .object index = root then 0 else 1
  sealed : ∀ index o, heap.get? (.object index) = some o → ¬ base.Live (.object index) →
    o.isMutable = false
  /-- Old objects are what they were, with as many references. -/
  get?_eq : ∀ handle, base.Live handle → heap.get? handle = base.get? handle
  /-- There are so many new objects. -/
  liveObjects_eq : heap.liveObjects = base.liveObjects + size

theorem Bears.planted (h : Bears (fun _ => False) base room v root heap) (hv : v.wrapped = [])
    (hissued : base.Issued) (hshut : Shut base.slots.size 0 heap) :
    Planted base root v.size heap where
  new_iff index := by
    constructor
    · rintro ⟨hlive, hbefore⟩
      exact h.reaches (h.size_le_of_live hlive hbefore) hlive
    · exact h.new_of_reaches
  count_eq index o ho hbefore := by
    have hlive := live_of_get? ho
    have hcount := h.count?_new (h.size_le_of_live hlive hbefore) hlive
    rw [count?_of_get? ho] at hcount
    exact Option.some.inj hcount
  held_eq index hlive hbefore := h.count_held (h.size_le_of_live hlive hbefore) hlive hissued
  sealed index o ho hbefore := by
    have hindex := h.size_le_of_live (live_of_get? ho) hbefore
    refine Object.isMutable_eq_false (Bool.eq_false_iff.mpr fun hopen => ?_)
    have hbody := body?_of_get? ho
    rw [hopen] at hbody
    exact Multiset.notMem_zero _ (hshut index o.content hindex hbody)
  get?_eq handle hlive := h.get?_eq hv hlive
  liveObjects_eq := h.liveObjects_eq

namespace Reachable

variable {start : Heap} {registry : Registry Heap} {limits : Limits}

/-- A value without domain objects is lowered to a tree of new objects, as many as its normal
form consists of, and nothing else happens. -/
theorem planted_of_lower (hheap : heap.Reachable) (hv : v.objectFree)
    (hrun : (Marshaller.make Heap.store start registry limits).lower v heap = .ok root heap') :
    Planted heap root v.normal.size heap' := by
  -- for want of domain objects, types and converters play no part
  have hplain : (Marshaller.make Heap.store {} {} limits).Plain := Reachable.fresh.plain limits
  have hrun' : (Marshaller.make Heap.store {} {} limits).lower v heap = .ok root heap' := by
    rw [← hrun]
    exact congrFun (Marshaller.lowerWithin_of_objectFree _ _ _ limits.maxDepth v hv).symm heap
  have hx : v.Convertible limits.maxDepth := Form.convertible_of_ok hplain .value hrun'
  have hnone : ∀ handle ∈ v.wrapped, False := by
    rw [hx.wrapped_eq_nil]
    exact fun _ => List.not_mem_nil
  have hpos := hheap.positive
  have hbears := hplain.sharing.ends_bears hpos (fun _ => False.elim) hx.storable hx.bareSets hnone
  exact (hbears.of_ok hrun').planted hx.normal.wrapped_eq_nil hheap.issued
    ((hplain.ends_shut hx.wrapped_eq_nil hpos).of_ok hrun')

/-- The value that is replaced leaves nothing behind, nor does the member that is repeated. -/
theorem planted_of_repeats :
    let old : Heap := ((Operation.ask (.createText "old" false)).perform {}).2
    let v : Value := .dict
      [(.text "k", .int 1), (.text "k", .list [.bool true, .set [.text "x", .text "x"]])]
    ∃ root heap', (Marshaller.make Heap.store {} {} {}).lower v old = .ok root heap' ∧
      Planted old root 5 heap' ∧ heap'.liveObjects = 8 := by
  intro old v
  have hold : old.Reachable := Reachable.fresh.step _
  have hx : v.Convertible 256 := by
    refine .dict (fun entry hentry => ?_) fun entry hentry => ?_
    · rcases List.mem_pair.mp hentry with rfl | rfl <;> exact ⟨"k", rfl⟩
    · rcases List.mem_pair.mp hentry with rfl | rfl
      · exact .scalar rfl
      · refine .list fun item hitem => ?_
        rcases List.mem_pair.mp hitem with rfl | rfl
        · exact .scalar rfl
        · exact .set (by simp [Value.scalar?])
  have hnormal : v.normal = .dict [(.text "k", .list [.bool true, .set [.text "x"]])] := by
    have hsame : ∀ s, (Value.text s == Value.text s) = true := by
      intro s
      show Value.equals _ _ = true
      simp [Value.equals]
    show Value.dict (Value.put _ _ (Value.put _ _ [])) = _
    simp [Value.put, Value.textual, Value.keyText, Value.normal, Value.normalAll, Value.ofMembers,
      Value.adjoin, hsame]
  have hends := hx.ends (plain .fresh {}) hold.positive
  cases hrun : (Marshaller.make Heap.store {} {} {}).lower v old with
  | error failure heap' => exact absurd rfl (hends.of_error hrun).1
  | ok root heap' =>
      have hplanted := planted_of_lower hold rfl hrun
      rw [hnormal] at hplanted
      refine ⟨root, heap', rfl, hplanted, ?_⟩
      rw [hplanted.liveObjects_eq]
      rfl

end Reachable

end Heap

end Marshal
