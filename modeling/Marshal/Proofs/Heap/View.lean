import Marshal.Heap.Release

/-!
# What a heap shows

A heap is seen through its handles.  `Heap.get?` is the object of a handle; it
falls into what the object is (`Heap.body?`) and how many references to it there
are (`Heap.count?`).  The laws of this file say what the four ways of changing a
heap do to this view, and nothing later looks at the slots.

* `Heap.set` with another count leaves what every object is.
* `Heap.set` with nothing takes one object away.
* `Heap.alter` changes the contents of one object and no count.
* `Heap.pushed`, the heap after a creation, has one more object, under the handle
  that no heap before it knew.
-/

namespace Marshal

theorem Handle.object_ne {index other : Nat} (h : index ≠ other) :
    object index ≠ object other := by
  rw [ne_eq, object.injEq]
  exact h

namespace Heap

variable {heap : Heap} {handle : Handle} {index : Nat}

/-- What the live object of a handle is, apart from the references to it: its
contents, and whether they can be changed. -/
def body? (heap : Heap) (handle : Handle) : Option (Content × Bool) :=
  (heap.get? handle).map fun o => (o.content, o.mutable)

/-- The handle leads to a live object. -/
def Live (heap : Heap) (handle : Handle) : Prop := (heap.get? handle).isSome

instance : Decidable (heap.Live handle) := inferInstanceAs (Decidable ((heap.get? handle).isSome))

/-- The heap after an object was put into the next slot. -/
def pushed (heap : Heap) (o : Object) : Heap :=
  { heap with slots := heap.slots.push (some o), budget := heap.budget.map (· - 1) }

/-! ## Parts of the view -/

theorem body?_of_get? {o : Object} (h : heap.get? handle = some o) :
    heap.body? handle = some (o.content, o.mutable) := by
  rw [body?, h]
  rfl

theorem count?_of_get? {o : Object} (h : heap.get? handle = some o) :
    heap.count? handle = some o.count := by
  rw [count?, h]
  rfl

theorem exists_of_body? {content : Content} {mutable : Bool}
    (h : heap.body? handle = some (content, mutable)) :
    ∃ o, heap.get? handle = some o ∧ o.content = content ∧ o.mutable = mutable := by
  obtain ⟨o, ho, heq⟩ := Option.map_eq_some_iff.mp h
  exact ⟨o, ho, congrArg Prod.fst heq, congrArg Prod.snd heq⟩

theorem live_iff_exists : heap.Live handle ↔ ∃ o, heap.get? handle = some o :=
  Option.isSome_iff_exists

theorem live_of_get? {o : Object} (h : heap.get? handle = some o) : heap.Live handle :=
  live_iff_exists.mpr ⟨o, h⟩

theorem live_iff_body? : heap.Live handle ↔ (heap.body? handle).isSome := by
  rw [body?, Option.isSome_map, Live]

theorem live_of_body? {body : Content × Bool} (h : heap.body? handle = some body) :
    heap.Live handle := by
  rw [live_iff_body?, h]
  rfl

theorem live_iff_count? : heap.Live handle ↔ (heap.count? handle).isSome := by
  rw [count?, Option.isSome_map, Live]

/-- What objects are and how many references they have is all that is seen of
them. -/
theorem get?_eq_of_parts {heap' : Heap} (hbody : heap'.body? handle = heap.body? handle)
    (hcount : heap'.count? handle = heap.count? handle) :
    heap'.get? handle = heap.get? handle := by
  unfold body? at hbody
  unfold count? at hcount
  cases h' : heap'.get? handle with
  | none =>
      cases h : heap.get? handle with
      | none => rfl
      | some o => simp [h', h] at hbody
  | some o' =>
      cases h : heap.get? handle with
      | none => simp [h', h] at hbody
      | some o =>
          simp only [h', h, Option.map_some, Option.some.injEq, Prod.mk.injEq] at hbody hcount
          rw [Option.some.injEq]
          cases o
          cases o'
          simp_all

@[simp] theorem get?_boolean (b : Bool) : heap.get? (.boolean b) = some (.boolean b) := rfl

@[simp] theorem get?_outside (address : UInt64) : heap.get? (.outside address) = none := rfl

@[simp] theorem body?_boolean (b : Bool) :
    heap.body? (.boolean b) = some (.boolean b, false) := rfl

@[simp] theorem body?_outside (address : UInt64) : heap.body? (.outside address) = none := rfl

theorem live_boolean (b : Bool) : heap.Live (.boolean b) := rfl

theorem get?_of_size_le (h : heap.slots.size ≤ index) : heap.get? (.object index) = none := by
  show heap.slots.getD index none = none
  rw [Array.getD_eq_getD_getElem?, Array.getElem?_eq_none h]
  rfl

theorem count?_of_size_le (h : heap.slots.size ≤ index) : heap.count? (.object index) = none := by
  rw [count?, get?_of_size_le h]
  rfl

/-- Whatever holds something has a slot. -/
theorem exists_index_of_child {content : Content} {mutable : Bool} {child : Handle}
    (hbody : heap.body? handle = some (content, mutable)) (hchild : child ∈ content.children) :
    ∃ index, handle = .object index := by
  cases handle with
  | boolean b =>
      obtain ⟨rfl, -⟩ : Content.boolean b = content ∧ false = mutable := by simpa using hbody
      exact absurd hchild List.not_mem_nil
  | outside address => simp at hbody
  | object index => exact ⟨index, rfl⟩

/-- The handle of a live object that is no boolean has a slot. -/
theorem lt_size_of_live (h : heap.Live (.object index)) : index < heap.slots.size := by
  refine Nat.lt_of_not_le fun hle => ?_
  rw [Live, get?_of_size_le hle] at h
  simp at h

/-! ## Replacing an object -/

theorem get?_set_self (x : Option Object) (h : index < heap.slots.size) :
    (heap.set (.object index) x).get? (.object index) = x := by
  show (heap.slots.setIfInBounds index x).getD index none = x
  rw [Array.getD_eq_getD_getElem?, Array.getElem?_setIfInBounds_self_of_lt h]
  rfl

theorem get?_set_of_ne (x : Option Object) (h : handle ≠ .object index) :
    (heap.set (.object index) x).get? handle = heap.get? handle := by
  cases handle with
  | boolean b => rfl
  | outside address => rfl
  | object other =>
      have hne : index ≠ other := fun heq => h (by rw [heq])
      show (heap.slots.setIfInBounds index x).getD other none = heap.slots.getD other none
      rw [Array.getD_eq_getD_getElem?, Array.getD_eq_getD_getElem?,
        Array.getElem?_setIfInBounds_ne hne]

@[simp] theorem size_set (x : Option Object) :
    (heap.set handle x).slots.size = heap.slots.size := by
  cases handle <;> simp [set]

@[simp] theorem types_set (x : Option Object) : (heap.set handle x).types = heap.types := by
  cases handle <;> rfl

@[simp] theorem budget_set (x : Option Object) : (heap.set handle x).budget = heap.budget := by
  cases handle <;> rfl

@[simp] theorem deadReleases_set (x : Option Object) :
    (heap.set handle x).deadReleases = heap.deadReleases := by
  cases handle <;> rfl

section Recount

variable {o : Object} (ho : heap.get? handle = some o) (count : Nat)

include ho in
/-- With another count, every object is what it was. -/
theorem body?_recount (other : Handle) :
    (heap.set handle (some { o with count })).body? other = heap.body? other := by
  cases handle with
  | boolean b => rfl
  | outside address => simp at ho
  | object index =>
      by_cases hother : other = .object index
      · rw [hother, body?_of_get? ho,
          body?_of_get? (get?_set_self _ (lt_size_of_live (live_of_get? ho)))]
      · rw [body?, body?, get?_set_of_ne _ hother]

theorem count?_recount_self {index : Nat} {o : Object} (ho : heap.get? (.object index) = some o)
    (count : Nat) :
    (heap.set (.object index) (some { o with count })).count? (.object index) = some count :=
  count?_of_get? (get?_set_self _ (lt_size_of_live (live_of_get? ho)))

end Recount

theorem count?_set_of_ne (x : Option Object) (h : handle ≠ .object index) :
    (heap.set (.object index) x).count? handle = heap.count? handle := by
  rw [count?, count?, get?_set_of_ne x h]

theorem body?_set_of_ne (x : Option Object) (h : handle ≠ .object index) :
    (heap.set (.object index) x).body? handle = heap.body? handle := by
  rw [body?, body?, get?_set_of_ne x h]

/-! ## Changing contents -/

theorem get?_alter_self (f : Content → Content) :
    (heap.alter (.object index) f).get? (.object index) =
      (heap.get? (.object index)).map fun o => { o with content := f o.content } := by
  show (heap.slots.modify index _).getD index none = (heap.slots.getD index none).map _
  simp only [Array.getD_eq_getD_getElem?, Array.getElem?_modify, if_pos]
  cases heap.slots[index]? <;> rfl

theorem get?_alter_of_ne (f : Content → Content) (h : handle ≠ .object index) :
    (heap.alter (.object index) f).get? handle = heap.get? handle := by
  cases handle with
  | boolean b => rfl
  | outside address => rfl
  | object other =>
      have hne : index ≠ other := fun heq => h (by rw [heq])
      show (heap.slots.modify index _).getD other none = heap.slots.getD other none
      simp only [Array.getD_eq_getD_getElem?, Array.getElem?_modify, if_neg hne]

theorem body?_alter_self (f : Content → Content) :
    (heap.alter (.object index) f).body? (.object index) =
      (heap.body? (.object index)).map fun body => (f body.1, body.2) := by
  rw [body?, body?, get?_alter_self, Option.map_map, Option.map_map]
  rfl

theorem body?_alter_of_ne (f : Content → Content) (h : handle ≠ .object index) :
    (heap.alter (.object index) f).body? handle = heap.body? handle := by
  rw [body?, body?, get?_alter_of_ne f h]

@[simp] theorem count?_alter (f : Content → Content) (other : Handle) :
    (heap.alter handle f).count? other = heap.count? other := by
  cases handle with
  | boolean b => rfl
  | outside address => rfl
  | object index =>
      by_cases hother : other = .object index
      · rw [hother, count?, count?, get?_alter_self, Option.map_map]
        rfl
      · rw [count?, count?, get?_alter_of_ne f hother]

@[simp] theorem size_alter (f : Content → Content) :
    (heap.alter handle f).slots.size = heap.slots.size := by
  cases handle <;> simp [alter]

@[simp] theorem types_alter (f : Content → Content) :
    (heap.alter handle f).types = heap.types := by
  cases handle <;> rfl

@[simp] theorem budget_alter (f : Content → Content) :
    (heap.alter handle f).budget = heap.budget := by
  cases handle <;> rfl

@[simp] theorem deadReleases_alter (f : Content → Content) :
    (heap.alter handle f).deadReleases = heap.deadReleases := by
  cases handle <;> rfl

/-! ## Creating an object -/

variable {o : Object}

@[simp] theorem get?_pushed_new : (heap.pushed o).get? (.object heap.slots.size) = some o := by
  show (heap.slots.push (some o)).getD heap.slots.size none = some o
  rw [Array.getD_eq_getD_getElem?, Array.getElem?_push_size]
  rfl

theorem get?_pushed_of_ne (h : handle ≠ .object heap.slots.size) :
    (heap.pushed o).get? handle = heap.get? handle := by
  cases handle with
  | boolean b => rfl
  | outside address => rfl
  | object index =>
      have hne : index ≠ heap.slots.size := fun heq => h (by rw [heq])
      show (heap.slots.push (some o)).getD index none = heap.slots.getD index none
      rw [Array.getD_eq_getD_getElem?, Array.getD_eq_getD_getElem?, Array.getElem?_push,
        if_neg hne]

@[simp] theorem size_pushed : (heap.pushed o).slots.size = heap.slots.size + 1 :=
  Array.size_push _

/-- An object that was live before a creation does not have the new handle. -/
theorem ne_new_of_live (h : heap.Live handle) : handle ≠ .object heap.slots.size := by
  rintro rfl
  exact absurd (lt_size_of_live h) (Nat.lt_irrefl _)

theorem get?_pushed_of_live (h : heap.Live handle) :
    (heap.pushed o).get? handle = heap.get? handle :=
  get?_pushed_of_ne (ne_new_of_live h)

theorem allocate_eq (heap : Heap) (o : Object) :
    allocate o heap =
      if heap.budget = some 0 then .error (.allocationFailed o.creationName) heap
      else .ok (.object heap.slots.size) (heap.pushed o) := by
  unfold allocate pushed
  cases hbudget : heap.budget with
  | none => simp
  | some n => cases n <;> simp

/-! ## Taking one reference off -/

theorem dropOne_object (heap : Heap) (index : Nat) :
    heap.dropOne (.object index) = match heap.get? (.object index) with
      | none => (heap.note .deadRelease, [])
      | some o =>
        if o.count ≤ 1 then (heap.set (.object index) none, o.children.reverse)
        else (heap.set (.object index) (some { o with count := o.count - 1 }), []) := rfl

/-- Whoever takes a reference off meets a boolean, nothing, an object with its
last reference or one with more. -/
theorem dropOne_cases {P : Heap × List Handle → Prop}
    (hboolean : ∀ b, handle = .boolean b → P (heap, []))
    (hdead : ¬ heap.Live handle → P (heap.note .deadRelease, []))
    (hlast : ∀ index o, handle = .object index → heap.get? (.object index) = some o →
      o.count ≤ 1 → P (heap.set (.object index) none, o.children.reverse))
    (hmore : ∀ index o, handle = .object index → heap.get? (.object index) = some o →
      1 < o.count → P (heap.set (.object index) (some { o with count := o.count - 1 }), [])) :
    P (heap.dropOne handle) := by
  cases handle with
  | boolean b => exact hboolean b rfl
  | outside address => exact hdead (by simp [Live])
  | object index =>
      rw [dropOne_object]
      split
      · next hnone => exact hdead (by simp [Live, hnone])
      · next o ho =>
        split
        · next hcount => exact hlast index o rfl ho hcount
        · next hcount => exact hmore index o rfl ho (Nat.lt_of_not_le hcount)

end Heap

end Marshal
