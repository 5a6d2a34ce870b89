import Marshal.Proofs.Heap.Origins
import Marshal.Proofs.Heap.Transfer

/-!
# Handles that were handed out

A heap hands out the handles of its slots one after another, so the number of slots tells
which handles it has handed out so far.  Objects hold no others (`Heap.Issued`).  They may
hold what is gone, if references were released that nobody owned, but never what is still
to come: whatever is put into an object was live when it was put there.

Together with positive counts and well-formed custom objects this is what every reachable
heap can be relied on for, however carelessly it was used (`Heap.Coherent`).
-/

namespace Marshal

/-- The handle of a slot before slot `n`, or one that is of no slot. -/
def Handle.Before (n : Nat) (handle : Handle) : Prop := ∀ index, handle = .object index → index < n

theorem Handle.Before.mono {n n' : Nat} {handle : Handle} (h : handle.Before n) (hle : n ≤ n') :
    handle.Before n' := fun index heq => (h index heq).trans_le hle

namespace Heap

variable {heap heap' : Heap} {handle : Handle} {index : Nat}

/-- Objects hold only handles that were handed out. -/
def Issued (heap : Heap) : Prop := ∀ handle content mutable,
  heap.body? handle = some (content, mutable) →
  ∀ child ∈ content.children, child.Before heap.slots.size

/-- What a heap can be relied on for even if references are released that nobody owns. -/
structure Coherent (heap : Heap) : Prop where
  positive : heap.Positive
  issued : heap.Issued
  wellFormed : ∀ handle content mutable, heap.body? handle = some (content, mutable) →
    content.WellFormed

theorem Coherent.setBudget (h : heap.Coherent) (budget : Option Nat) :
    (heap.setBudget budget).Coherent where
  positive := h.positive.congr rfl
  issued := h.issued
  wellFormed := h.wellFormed

theorem Live.before (h : heap.Live handle) : handle.Before heap.slots.size := by
  rintro index rfl
  exact lt_size_of_live h

/-- What a handle leads to that was handed out earlier, it led to then. -/
theorem Follows.exists_of_before {opened : Bool} {body' : Content × Bool}
    (h : Follows opened heap heap') (hbefore : handle.Before heap.slots.size)
    (hbody' : heap'.body? handle = some body') :
    ∃ body, heap.body? handle = some body ∧ Becomes body body' := by
  cases handle with
  | boolean b => exact ⟨body', hbody', .refl body'⟩
  | outside address => exact nomatch hbody'
  | object index => exact h.becomes index body' (hbefore index rfl) hbody'

/-- What is there holds what it held. -/
theorem Issued.congr (h : heap.Issued) (hsize : heap.slots.size ≤ heap'.slots.size)
    (hbody : ∀ handle, heap'.Live handle → heap'.body? handle = heap.body? handle) :
    heap'.Issued := by
  intro handle content mutable hcontent child hchild
  rw [hbody handle (live_of_body? hcontent)] at hcontent
  exact (h handle content mutable hcontent child hchild).mono hsize

/-- Contents that come from a heap hold what was handed out there, since all that they hold
besides what other contents held was live. -/
theorem Issued.before_of_origin {content : Content} (h : heap.Issued)
    (horigin : heap.Origin content) :
    ∀ child ∈ content.children, child.Before heap.slots.size := by
  intro child hchild
  cases horigin with
  | bare hbare =>
      cases content <;> first | exact absurd hchild List.not_mem_nil | exact nomatch hbare
  | empty kind => cases kind <;> exact absurd hchild List.not_mem_nil
  | custom | indexed | paired => exact absurd hchild List.not_mem_nil
  | kept hbody => exact h _ _ _ hbody child hchild
  | @listed set members mutable hbody =>
      exact h set (.members members) mutable hbody child (by simpa [Content.children] using hchild)
  | @appended array item items hbody hitem =>
      simp only [Content.children, Array.toList_push, List.mem_append, List.mem_singleton] at hchild
      rcases hchild with hold | rfl
      · exact h array (.array items) true hbody child hold
      · exact hitem.before
  | @added set member members _ _ hbody hmember _ =>
      rcases List.mem_append.mp hchild with hold | hlast
      · exact h set (.members members) true hbody child hold
      · obtain rfl := List.mem_singleton.mp hlast
        exact (live_of_body? hmember).before
  | @entered dictionary key value entries text mutable hbody hkey hvalue _ =>
      simp only [Content.children, List.flatMap_append, List.mem_append, List.flatMap_cons,
        List.flatMap_nil, List.append_nil, List.mem_cons, List.not_mem_nil, or_false] at hchild
      rcases hchild with hold | rfl | rfl
      · exact h dictionary (.dictionary entries) true hbody child hold
      · exact (live_of_body? hkey).before
      · exact hvalue.before
  | @replaced dictionary value entries place old hbody hvalue hold =>
      have hmem : child ∈ ((Content.dictionary entries).children : Multiset Handle) + {value} := by
        rw [← Extends.children_modify value hold]
        exact Multiset.mem_add.mpr (.inl hchild)
      rcases Multiset.mem_add.mp hmem with hheld | hnew
      · exact h dictionary (.dictionary entries) true hbody child hheld
      · obtain rfl := Multiset.mem_singleton.mp hnew
        exact hvalue.before

/-- Handles that were handed out are all that an operation makes objects hold. -/
theorem Issued.arises (h : heap.Issued) (hsize : heap.slots.size ≤ heap'.slots.size)
    (harises : heap.Arises heap') : heap'.Issued := by
  intro handle content mutable hbody child hchild
  obtain ⟨index, rfl⟩ := exists_index_of_child hbody hchild
  exact (h.before_of_origin (harises index content mutable hbody) child hchild).mono hsize

/-! ## Reachable heaps -/

theorem Reachable.issued (h : heap.Reachable) : heap.Issued := by
  induction h with
  | fresh =>
      intro handle content mutable hbody child hchild
      obtain ⟨index, rfl⟩ := exists_index_of_child hbody hchild
      exact absurd (lt_size_of_live (live_of_body? hbody)) (Nat.not_lt_zero index)
  | step operation _ ih =>
      exact ih.arises (Follows.perform operation _).size_le (.perform operation _)

theorem Reachable.coherent (h : heap.Reachable) : heap.Coherent where
  positive := h.positive
  issued := h.issued
  wellFormed _ _ _ hbody := h.wellFormed hbody

end Heap

end Marshal
