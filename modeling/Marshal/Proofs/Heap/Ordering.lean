import Marshal.Proofs.Heap.Issued
import Marshal.Proofs.Sorted

/-!
# Integers in order

An index set has its members in descending order and a pair set its indices, each of them
once (`Content.Descends`).  This is so when they are created, and what is added goes to its
place.  So the first member of a set is its greatest and the last one its least, and a set has
as many members as it is long.
-/

namespace Marshal

/-- The members of an index set, and the indices of a pair set, descend strictly. -/
def Content.Descends : Content → Prop
  | indexSet values => Sorted.Ordered Sorted.descending values
  | pairSet pairs => Sorted.Ordered Sorted.descending (pairs.map Prod.fst)
  | _ => True

namespace Heap

variable {heap : Heap} {content : Content}

/-- All contents descend that can. -/
def Descends (heap : Heap) : Prop := ∀ handle content mutable,
  heap.body? handle = some (content, mutable) → content.Descends

/-- What is no container has nothing to be in order. -/
theorem Descends.of_objects (h : ∀ index content mutable,
    heap.body? (.object index) = some (content, mutable) → content.Descends) :
    heap.Descends := by
  intro handle content mutable hbody
  cases handle with
  | boolean b =>
      obtain ⟨rfl, -⟩ := Prod.mk.inj (Option.some.inj hbody)
      trivial
  | outside address => exact nomatch hbody
  | object index => exact h index content mutable hbody

/-- Contents that come from where all descend do so too. -/
theorem Descends.of_origin (h : heap.Descends) (horigin : heap.Origin content) :
    content.Descends := by
  cases horigin with
  | bare hbare => cases content <;> trivial
  | empty kind => cases kind <;> first | trivial | exact .nil
  | kept hbody => exact h _ _ _ hbody
  | indexed value hbody => exact Sorted.ordered_insert (h _ (.indexSet _) _ hbody)
  | paired index value hbody => exact Sorted.ordered_put (h _ (.pairSet _) _ hbody)
  | custom | listed | appended | added | entered | replaced => trivial

/-- Whatever was done to a heap, its index sets and pair sets are in order. -/
theorem Reachable.descends (h : heap.Reachable) : heap.Descends := by
  induction h with
  | fresh =>
      refine .of_objects fun index content mutable hbody => ?_
      exact absurd (lt_size_of_live (live_of_body? hbody)) (Nat.not_lt_zero index)
  | step operation _ ih =>
      refine .of_objects fun index content mutable hbody => ?_
      exact ih.of_origin (Arises.perform operation _ index content mutable hbody)

end Heap

end Marshal
