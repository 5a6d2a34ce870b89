import Marshal.Proofs.Heap.Conservation
import Marshal.Proofs.Heap.Operations

/-!
# Operations conserve references

What each operation does to the references taken since `base`.  An object is
created with one reference, which its creator owns, and with a reference to each
thing it holds.  An operation that puts something into a container takes one
reference for the container, and one that puts something in place of something
else gives up the container's reference to that; nobody else's change.

Only objects created since `base` may be filled.  Where `base` has no slots, these
are all objects there are.
-/

namespace Marshal.Heap.Extends

variable {base heap : Heap} {owned : Multiset Handle} {handle : Handle} {index : Nat}

/-! ## Changes of a heap -/

theorem retained (h : Extends base heap owned) (hlive : heap.Live handle) :
    Extends base (heap.retained handle) (handle ::ₘ owned) := by
  obtain ⟨o, ho⟩ := live_iff_exists.mp hlive
  rw [retained_of_get? ho]
  exact h.retain ho

theorem retainedAll {handles : List Handle} (h : Extends base heap owned)
    (hlive : ∀ handle ∈ handles, heap.Live handle) :
    Extends base (heap.retainedAll handles) (handles + owned) := by
  induction handles generalizing heap owned with
  | nil =>
      rw [Multiset.coe_nil, zero_add]
      exact h
  | cons first rest ih =>
      have hrest : ∀ handle ∈ rest, (heap.retained first).Live handle := fun handle hmem =>
        live_retained.mpr (hlive handle (List.mem_cons_of_mem _ hmem))
      have hall := ih (h.retained (hlive first (List.mem_cons_self ..))) hrest
      rw [← Multiset.cons_coe, Multiset.cons_add, ← Multiset.add_cons]
      exact hall

theorem collected {o : Object} (h : Extends base heap owned)
    (hlive : ∀ child ∈ o.children, heap.Live child) (hcount : o.count = 1) :
    Extends base (heap.collected o) (.object heap.slots.size ::ₘ owned) := by
  have hnew := (h.retainedAll hlive).pushed hcount
  rw [size_retainedAll] at hnew
  exact hnew

/-- A new object without references to others. -/
theorem created {o : Object} (h : Extends base heap owned) (hchildren : o.children = [])
    (hcount : o.count = 1) : Extends base (heap.pushed o) (.object heap.slots.size ::ₘ owned) := by
  refine pushed ?_ hcount
  rw [hchildren, Multiset.coe_nil, zero_add]
  exact h

theorem refilled {content content' : Content} {mutable : Bool} {moved removed : Multiset Handle}
    (h : Extends base heap (moved + owned))
    (hbody : heap.body? (.object index) = some (content, mutable))
    (hindex : base.slots.size ≤ index)
    (hchildren : (content'.children : Multiset Handle) + removed = content.children + moved) :
    Extends base (heap.refilled (.object index) content') (removed + owned) := by
  obtain ⟨o, ho, rfl, -⟩ := exists_of_body? hbody
  exact h.alter ho hindex hchildren

/-- New contents that hold the same references. -/
theorem rewritten {content content' : Content} {mutable : Bool} (h : Extends base heap owned)
    (hbody : heap.body? (.object index) = some (content, mutable))
    (hindex : base.slots.size ≤ index) (hchildren : content'.children = content.children) :
    Extends base (heap.refilled (.object index) content') owned := by
  have hsame : Extends base heap (0 + owned) := by rwa [zero_add]
  have hafter : Extends base (heap.refilled (.object index) content') (0 + owned) :=
    hsame.refilled hbody hindex (by rw [hchildren])
  rwa [zero_add] at hafter

/-- New contents that hold one more live object. -/
theorem filled {content content' : Content} {mutable : Bool} {added : Multiset Handle}
    (h : Extends base heap (added + owned))
    (hbody : heap.body? (.object index) = some (content, mutable))
    (hindex : base.slots.size ≤ index)
    (hchildren : (content'.children : Multiset Handle) = content.children + added) :
    Extends base (heap.refilled (.object index) content') owned := by
  have hafter : Extends base (heap.refilled (.object index) content') (0 + owned) :=
    h.refilled hbody hindex (by rw [hchildren, add_zero])
  rwa [zero_add] at hafter

/-! ## Filling containers -/

theorem appended {item : Handle} {items : Array Handle} (h : Extends base heap owned)
    (hbody : heap.body? (.object index) = some (.array items, true))
    (hindex : base.slots.size ≤ index) (hitem : heap.Live item) :
    Extends base ((heap.retained item).refilled (.object index) (.array (items.push item)))
      owned := by
  have hone : Extends base (heap.retained item) ({item} + owned) := h.retained hitem
  refine hone.filled ((body?_retained _).trans hbody) hindex ?_
  simp [Content.children, ← Multiset.coe_add]

theorem memberAdded {member : Handle} {members : List Handle} (h : Extends base heap owned)
    (hbody : heap.body? (.object index) = some (.members members, true))
    (hindex : base.slots.size ≤ index) (hmember : heap.Live member) :
    Extends base ((heap.retained member).refilled (.object index) (.members (members ++ [member])))
      owned := by
  have hone : Extends base (heap.retained member) ({member} + owned) := h.retained hmember
  refine hone.filled ((body?_retained _).trans hbody) hindex ?_
  simp [Content.children, ← Multiset.coe_add]

theorem entryAdded {key value : Handle} {entries : List (Handle × Handle)}
    (h : Extends base heap owned)
    (hbody : heap.body? (.object index) = some (.dictionary entries, true))
    (hindex : base.slots.size ≤ index) (hkey : heap.Live key) (hvalue : heap.Live value) :
    Extends base (((heap.retained value).retained key).refilled (.object index)
      (.dictionary (entries ++ [(key, value)]))) owned := by
  have htwo : Extends base ((heap.retained value).retained key) ({key} + ({value} + owned)) :=
    (h.retained hvalue).retained (live_retained.mpr hkey)
  rw [← add_assoc] at htwo
  have hafter : ((heap.retained value).retained key).body? (.object index) =
      some (.dictionary entries, true) := by rw [body?_retained, body?_retained, hbody]
  refine htwo.filled hafter hindex ?_
  simp [Content.children, ← Multiset.coe_add, ← Multiset.cons_coe]

/-- The references of entries, one of which has another value. -/
theorem children_modify {entries : List (Handle × Handle)} {place : Nat} {old : Handle × Handle}
    (value : Handle) (hold : entries[place]? = some old) :
    ((Content.dictionary (entries.modify place fun entry => (entry.1, value))).children :
        Multiset Handle) + {old.2} =
      (Content.dictionary entries).children + {value} := by
  induction entries generalizing place with
  | nil => simp at hold
  | cons first rest ih =>
      cases place with
      | zero =>
          obtain rfl : first = old := by simpa using hold
          simp only [Content.children, List.modify_zero_cons, List.flatMap_cons,
            List.cons_append, List.nil_append, ← Multiset.cons_coe, ← Multiset.singleton_add]
          abel
      | succ place =>
          have hrest := ih (by simpa using hold)
          simp only [Content.children, List.modify_succ_cons, List.flatMap_cons,
            ← Multiset.coe_add] at hrest ⊢
          rw [add_assoc, hrest, add_assoc]

/-- The value in the place of an old one takes its reference, and that to the old
one is left over. -/
theorem valueReplaced {value : Handle} {entries : List (Handle × Handle)} {place : Nat}
    {old : Handle × Handle} (h : Extends base heap owned)
    (hbody : heap.body? (.object index) = some (.dictionary entries, true))
    (hindex : base.slots.size ≤ index) (hvalue : heap.Live value)
    (hold : entries[place]? = some old) :
    Extends base ((heap.retained value).refilled (.object index)
      (.dictionary (entries.modify place fun entry => (entry.1, value)))) (old.2 ::ₘ owned) := by
  have hone : Extends base (heap.retained value) ({value} + owned) := h.retained hvalue
  exact hone.refilled ((body?_retained _).trans hbody) hindex (children_modify value hold)

end Marshal.Heap.Extends
