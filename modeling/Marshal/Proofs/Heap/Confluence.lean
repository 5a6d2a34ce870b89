import Mathlib.Algebra.Order.Group.Multiset
import Mathlib.Logic.Relation
import Marshal.Proofs.Heap.View

/-!
# The order of releases

The references that wait to be released stand in a list, and those that an object
held are taken before all others, the last one first.  Nothing depends on that
order.  A machine whose next step takes any one of the waiting references
(`Takes`) has the diamond property: two steps that take different references can
be made in either order, because a step looks only at the object of its handle.

```text
                 a ::ₘ b ::ₘ rest, heap
                /                      \
  held by a + b ::ₘ rest        held by b + a ::ₘ rest
                \                      /
          held by a + held by b + rest, heap'
```

By the theorem of Church and Rosser the machine ends in one heap only, in
whatever order it works (`ends_once`).  The loop that releases the handles of a
list one after another is a run of this machine, and so is the definition by
recursion in which an object's own references go before anything else that waits
(`dispose`).

Nothing is asked of the heap.  There may be cycles, and handles that lead nowhere
may be held or be released.
-/

namespace Marshal.Heap

open Relation

variable {heap heap' : Heap} {handle other : Handle}

/-! ## One reference less -/

/-- Takes one reference off the object found under a handle, which goes when
there is none left.  If nothing was found, that is noted.  A boolean has no slot,
so it stays what it is. -/
def decrement (handle : Handle) (found : Option Object) (heap : Heap) : Heap :=
  match found with
  | none => heap.note .deadRelease
  | some o =>
    if o.count - 1 = 0 then heap.set handle none
    else heap.set handle (some { o with count := o.count - 1 })

/-- The references that go with the last reference to an object, the first one
held first. -/
def freed (found : Option Object) : List Handle :=
  match found with
  | none => []
  | some o => if o.count - 1 = 0 then o.children else []

theorem dropOne_eq (heap : Heap) (handle : Handle) :
    heap.dropOne handle =
      (heap.decrement handle (heap.get? handle), (freed (heap.get? handle)).reverse) := by
  cases handle with
  | boolean b => rfl
  | outside address => rfl
  | object index =>
      rw [dropOne_object]
      cases heap.get? (.object index) with
      | none => rfl
      | some o =>
          by_cases hlast : o.count ≤ 1
          · have hzero : o.count - 1 = 0 := by omega
            simp [decrement, freed, hlast, hzero]
          · have hpos : o.count - 1 ≠ 0 := by omega
            simp [decrement, freed, hlast, hpos]

theorem get?_decrement_of_ne (h : other ≠ handle) (found : Option Object) :
    (heap.decrement handle found).get? other = heap.get? other := by
  have hset : ∀ o, (heap.set handle o).get? other = heap.get? other := by
    intro o
    cases handle with
    | object index => exact get?_set_of_ne o h
    | boolean b => rfl
    | outside address => rfl
  cases found with
  | none => cases other <;> rfl
  | some o =>
      simp only [decrement]
      split <;> exact hset _

theorem set_comm (h : handle ≠ other) (x y : Option Object) :
    (heap.set handle x).set other y = (heap.set other y).set handle x := by
  cases handle with
  | boolean b => rfl
  | outside address => rfl
  | object index =>
      cases other with
      | boolean b => rfl
      | outside address => rfl
      | object index' =>
          have hne : index ≠ index' := fun heq => h (by rw [heq])
          simp only [set]
          rw [Array.setIfInBounds_comm _ _ hne]

theorem set_note (notice : Notice) (x : Option Object) :
    (heap.note notice).set handle x = (heap.set handle x).note notice := by
  cases handle <;> rfl

theorem decrement_comm (h : handle ≠ other) (found found' : Option Object) :
    (heap.decrement handle found).decrement other found' =
      (heap.decrement other found').decrement handle found := by
  cases found with
  | none =>
      cases found' with
      | none => rfl
      | some o' =>
          simp only [decrement]
          split <;> rw [set_note]
  | some o =>
      cases found' with
      | none =>
          simp only [decrement]
          split <;> rw [set_note]
      | some o' =>
          simp only [decrement]
          split <;> split <;> rw [set_comm h]

/-! ## Taking any reference -/

/-- One step of the machine: some reference is taken off those that wait, and what
goes with it waits from now on. -/
def Takes (before after : Multiset Handle × Heap) : Prop :=
  ∃ handle rest, before.1 = handle ::ₘ rest ∧
    after = (freed (before.2.get? handle) + rest,
      before.2.decrement handle (before.2.get? handle))

theorem takes_cons (handle : Handle) (rest : Multiset Handle) (heap : Heap) :
    Takes (handle ::ₘ rest, heap)
      (freed (heap.get? handle) + rest, heap.decrement handle (heap.get? handle)) :=
  ⟨handle, rest, rfl, rfl⟩

theorem takes_diamond {before a b : Multiset Handle × Heap} (ha : Takes before a)
    (hb : Takes before b) : ∃ c, ReflGen Takes a c ∧ ReflGen Takes b c := by
  obtain ⟨waiting, heap⟩ := before
  obtain ⟨handle, rest, rfl, rfl⟩ := ha
  obtain ⟨other, rest', hwaiting, rfl⟩ := hb
  rcases Multiset.cons_eq_cons.mp hwaiting with ⟨rfl, rfl⟩ | ⟨hne, both, rfl, rfl⟩
  · exact ⟨_, .refl, .refl⟩
  · have hleft := takes_cons other (freed (heap.get? handle) + both)
      (heap.decrement handle (heap.get? handle))
    have hright := takes_cons handle (freed (heap.get? other) + both)
      (heap.decrement other (heap.get? other))
    rw [get?_decrement_of_ne hne.symm, ← Multiset.add_cons] at hleft
    rw [get?_decrement_of_ne hne, ← Multiset.add_cons, ← decrement_comm hne,
      add_left_comm] at hright
    exact ⟨_, .single hleft, .single hright⟩

/-- A run that leaves nothing waiting can end in one heap only. -/
theorem ends_once {start : Multiset Handle × Heap}
    (h : ReflTransGen Takes start (0, heap)) (h' : ReflTransGen Takes start (0, heap')) :
    heap = heap' := by
  have hstuck : ∀ {final : Heap} {s}, ReflTransGen Takes (0, final) s → s = (0, final) := by
    intro final s hrun
    rcases hrun.cases_head with heq | ⟨_, ⟨handle, rest, hcons, _⟩, _⟩
    · exact heq.symm
    · exact absurd hcons.symm (Multiset.cons_ne_zero)
  obtain ⟨s, hs, hs'⟩ := church_rosser (fun _ _ _ hb hc => by
    obtain ⟨d, hbd, hcd⟩ := takes_diamond hb hc
    exact ⟨d, hbd, hcd.to_reflTransGen⟩) h h'
  rw [hstuck hs] at hs'
  exact congrArg Prod.snd (hstuck hs')

/-- Other references may wait meanwhile. -/
theorem takes_frame {waiting waiting' : Multiset Handle} (extra : Multiset Handle)
    (h : ReflTransGen Takes (waiting, heap) (waiting', heap')) :
    ReflTransGen Takes (waiting + extra, heap) (waiting' + extra, heap') := by
  refine ReflTransGen.lift (fun s : Multiset Handle × Heap => (s.1 + extra, s.2)) ?_ _ _ h
  rintro ⟨_, heap⟩ _ ⟨handle, rest, rfl, rfl⟩
  have hstep := takes_cons handle (rest + extra) heap
  rw [← Multiset.cons_add, ← add_assoc] at hstep
  exact hstep

/-- Two batches of references can be worked off one after the other. -/
theorem takes_append {first second : List Handle} {middle : Heap}
    (hfirst : ReflTransGen Takes (↑first, heap) (0, middle))
    (hsecond : ReflTransGen Takes (↑second, middle) (0, heap')) :
    ReflTransGen Takes (↑(first ++ second), heap) (0, heap') := by
  have hframed := takes_frame (second : Multiset Handle) hfirst
  rw [zero_add, Multiset.coe_add] at hframed
  exact hframed.trans hsecond

/-! ## Three ways to release -/

theorem takes_releaseAll (pending : List Handle) (heap : Heap) :
    ReflTransGen Takes (↑pending, heap) (0, heap.releaseAll pending) := by
  fun_induction Heap.releaseAll pending heap with
  | case1 heap => exact .refl
  | case2 heap handle pending ih =>
      refine .head (takes_cons handle pending heap) ?_
      simp only [dropOne_eq] at ih ⊢
      rw [← Multiset.coe_add, Multiset.coe_reverse] at ih
      exact ih

/-- Releases the handles of a list one after another. -/
def releaseEach (handles : List Handle) (heap : Heap) : Heap :=
  handles.foldl (fun heap handle => heap.release handle) heap

theorem takes_releaseEach (handles : List Handle) (heap : Heap) :
    ReflTransGen Takes (↑handles, heap) (0, heap.releaseEach handles) := by
  induction handles generalizing heap with
  | nil => exact .refl
  | cons handle handles ih =>
      exact takes_append (takes_releaseAll [handle] heap) (ih (heap.release handle))

theorem freed_decrement (heap : Heap) (handle : Handle) :
    (freed (heap.get? handle)).length +
      (heap.decrement handle (heap.get? handle)).heldReferences = heap.heldReferences := by
  have h := pending_dropOne heap handle
  rw [dropOne_eq, List.length_reverse] at h
  exact h

/-- Releases the handles of a list by recursion: the references that go with one
of them are released, the first one first, before the next one is. -/
def disposeWithin (handles : List Handle) (heap : Heap) :
    { heap' : Heap // heap'.heldReferences ≤ heap.heldReferences } :=
  match handles with
  | [] => ⟨heap, Nat.le_refl _⟩
  | handle :: handles =>
    let ⟨middle, hmiddle⟩ := disposeWithin (freed (heap.get? handle))
      (heap.decrement handle (heap.get? handle))
    let ⟨final, hfinal⟩ := disposeWithin handles middle
    ⟨final, by have := freed_decrement heap handle; omega⟩
termination_by handles.length + heap.heldReferences
decreasing_by
  all_goals
    have := freed_decrement heap handle
    simp only [List.length_cons]
    omega

/-- The heap after the handles of a list were released by recursion. -/
def dispose (handles : List Handle) (heap : Heap) : Heap := (heap.disposeWithin handles).1

theorem dispose_nil (heap : Heap) : heap.dispose [] = heap := by
  rw [dispose, disposeWithin]

theorem dispose_cons (handle : Handle) (handles : List Handle) (heap : Heap) :
    heap.dispose (handle :: handles) =
      ((heap.decrement handle (heap.get? handle)).dispose (freed (heap.get? handle))).dispose
        handles := by
  rw [dispose, disposeWithin]
  rfl

theorem takes_dispose (handles : List Handle) (heap : Heap) :
    ReflTransGen Takes (↑handles, heap) (0, heap.dispose handles) := by
  fun_induction disposeWithin handles heap with
  | case1 heap =>
      rw [dispose_nil]
      exact .refl
  | case2 heap handle handles middle hmiddle hfirst final hfinal hsecond ih ih' =>
      have hdisposed : dispose _ _ = middle := congrArg Subtype.val hfirst
      rw [dispose_cons, hdisposed]
      rw [hdisposed] at ih
      exact .head (takes_cons handle handles heap) (takes_append ih ih')

/-- Releasing the handles of a list leads to the same heap in whatever order they
stand, and to the one that the definition by recursion gives. -/
theorem release_any_order {handles handles' : List Handle} (h : handles.Perm handles')
    (heap : Heap) :
    heap.releaseEach handles = heap.releaseEach handles' ∧
      heap.releaseEach handles = heap.dispose handles := by
  have hrun := takes_releaseEach handles heap
  have hrun' := takes_releaseEach handles' heap
  rw [← Multiset.coe_eq_coe.mpr h] at hrun'
  exact ⟨ends_once hrun hrun', ends_once hrun (takes_dispose handles heap)⟩

/-- A text has one reference, and an array holds it twice.  With the text also
released for itself, two of its three releases find nothing, whether the array
goes first or last. -/
theorem release_any_order_of_shared :
    let heap : Heap :=
      { slots := #[some { content := .text "" },
          some { content := .array #[.object 0, .object 0] }] }
    let handles := [Handle.object 0, .object 1]
    let handles' := [Handle.object 1, .object 0]
    handles.Perm handles' ∧
      heap.releaseEach handles = heap.releaseEach handles' ∧
      heap.releaseEach handles = heap.dispose handles := by
  have hperm : [Handle.object 0, .object 1].Perm [Handle.object 1, .object 0] := by decide
  exact ⟨hperm, release_any_order hperm _⟩

end Marshal.Heap
