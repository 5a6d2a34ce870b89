import Marshal.Proofs.Heap.Issued

/-!
# Members of sets

A set takes a member only if it has no equal one, so no two members of a set are one object
or have contents that count as one (`Heap.MembersApart`).  This is so in every reachable heap,
also for sets that were copied and for those with members that are gone.

A single operation gives a set no other members than some set had before, and at most one
more, which was looked for in vain (`Heap.Sourced`).  What was told apart then stays so:
contents that ever count as one never change (`Heap.Unlike.follows`).
-/

namespace Marshal

/-- Containers never count as one. -/
theorem Content.same_of_container? {c d : Content} {kind : Container}
    (h : c.container? = some kind) : c.same d = false ∧ d.same c = false := by
  cases c with
  | text | number | boolean | data | custom => exact nomatch h
  | _ => cases d <;> simp [same]

namespace Heap

variable {heap heap' : Heap} {handle member : Handle} {members : List Handle} {mutable : Bool}

/-- What the handles lead to is alike in some way. -/
def Alike (alike : Content → Content → Bool) (heap : Heap) (handle other : Handle) : Prop :=
  ∃ content mutable content' mutable', heap.body? handle = some (content, mutable) ∧
    heap.body? other = some (content', mutable') ∧ alike content content'

/-- The handles do not lead to one object, nor to contents that count as one. -/
def Unlike (heap : Heap) (handle other : Handle) : Prop :=
  handle ≠ other ∧ ¬ Alike Content.same heap handle other

/-- No set has two members that count as one. -/
def MembersApart (heap : Heap) : Prop := ∀ handle members mutable,
  heap.body? handle = some (.members members, mutable) → members.Pairwise heap.Unlike

/-- What the members of a set can be after an operation on the heap. -/
inductive Sourced (heap : Heap) : List Handle → Prop
  | empty : Sourced heap []
  | kept {handle : Handle} {members : List Handle} {mutable : Bool}
      (hbody : heap.body? handle = some (.members members, mutable)) : Sourced heap members
  | added {handle member : Handle} {members : List Handle} {content : Content}
      {mutable mutable' : Bool} (hbody : heap.body? handle = some (.members members, mutable))
      (hmember : heap.body? member = some (content, mutable'))
      (hnew : heap.hasMember members member content = false) : Sourced heap (members ++ [member])

/-- The sets of the second heap have members that come from the first one. -/
def Sources (heap heap' : Heap) : Prop := ∀ handle members mutable,
  heap'.body? handle = some (.members members, mutable) → heap.Sourced members

/-! ## What is told apart -/

theorem alike_iff {alike : Content → Content → Bool} {other : Handle} {content content' : Content}
    {mutable' : Bool} (hbody : heap.body? handle = some (content, mutable))
    (hbody' : heap.body? other = some (content', mutable')) :
    Alike alike heap handle other ↔ alike content content' = true := by
  constructor
  · rintro ⟨_, _, _, _, hfound, hfound', halike⟩
    obtain ⟨rfl, -⟩ := Prod.mk.inj (Option.some.inj (hbody.symm.trans hfound))
    obtain ⟨rfl, -⟩ := Prod.mk.inj (Option.some.inj (hbody'.symm.trans hfound'))
    exact halike
  · exact fun halike => ⟨content, mutable, content', mutable', hbody, hbody', halike⟩

/-- Objects that were told apart stay apart. -/
theorem Unlike.follows {other : Handle} {opened : Bool} (h : heap.Unlike handle other)
    (hhandle : handle.Before heap.slots.size) (hother : other.Before heap.slots.size)
    (hfollows : Follows opened heap heap') : heap'.Unlike handle other := by
  refine ⟨h.1, ?_⟩
  rintro ⟨content, mutable, content', mutable', hbody, hbody', hsame⟩
  obtain ⟨before, hbefore, hbecomes⟩ := hfollows.exists_of_before hhandle hbody
  obtain ⟨before', hbefore', hbecomes'⟩ := hfollows.exists_of_before hother hbody'
  rcases hbecomes with rfl | ⟨-, -, kind, -, hkind⟩
  · rcases hbecomes' with rfl | ⟨-, -, kind', -, hkind'⟩
    · exact h.2 ((alike_iff hbefore hbefore').mpr hsame)
    · exact absurd hsame (Bool.eq_false_iff.mp (Content.same_of_container? hkind').2)
  · exact absurd hsame (Bool.eq_false_iff.mp (Content.same_of_container? hkind).1)

/-- A member that was looked for in vain is unlike all others. -/
theorem unlike_of_hasMember {content : Content}
    (hmember : heap.body? member = some (content, mutable))
    (hnew : heap.hasMember members member content = false) :
    ∀ other ∈ members, heap.Unlike other member := by
  intro other hother
  have hcompared := List.any_eq_false.mp hnew other hother
  rw [Bool.or_eq_true, not_or, decide_eq_true_eq] at hcompared
  refine ⟨hcompared.1, ?_⟩
  rintro ⟨held, mutable', content', mutable'', hheld, hbody', hsame⟩
  obtain ⟨rfl, -⟩ := Prod.mk.inj (Option.some.inj (hmember.symm.trans hbody'))
  obtain ⟨o, ho, rfl, -⟩ := exists_of_body? hheld
  rw [holds, ho] at hcompared
  exact hcompared.2 hsame

/-- What comes from a heap is told apart. -/
theorem MembersApart.sources {opened : Bool} (h : heap.MembersApart) (hissued : heap.Issued)
    (hfollows : Follows opened heap heap') (hsources : heap.Sources heap') :
    heap'.MembersApart := by
  intro handle members mutable hbody
  have hold : ∀ {source : Handle} {members : List Handle} {mutable : Bool},
      heap.body? source = some (.members members, mutable) → members.Pairwise heap'.Unlike := by
    intro source members mutable hbody
    have hbefore : ∀ member ∈ members, member.Before heap.slots.size :=
      hissued source (.members members) mutable hbody
    refine (h source members mutable hbody).imp_of_mem fun ha hb hunlike => ?_
    exact hunlike.follows (hbefore _ ha) (hbefore _ hb) hfollows
  cases hsources handle members mutable hbody with
  | empty => exact .nil
  | kept hbody => exact hold hbody
  | @added source member members content mutable mutable' hsource hmember hnew =>
      refine List.pairwise_append.mpr ⟨hold hsource, List.pairwise_singleton _ _, ?_⟩
      intro other hother last hlast
      obtain rfl := List.mem_singleton.mp hlast
      have hbefore := hissued source (.members members) mutable hsource other hother
      exact (unlike_of_hasMember hmember hnew other hother).follows hbefore
        (live_of_body? hmember).before hfollows

/-! ## Where members come from -/

/-- Of all the ways to make contents, three make members of a set. -/
theorem Origin.sourced {content : Content} (h : heap.Origin content)
    (hcontent : content = .members members) : heap.Sourced members := by
  cases h with
  | bare hbare =>
      subst hcontent
      exact nomatch hbare
  | empty kind =>
      cases kind <;> cases hcontent
      exact .empty
  | kept hbody =>
      subst hcontent
      exact .kept hbody
  | added hbody hmember hnew =>
      obtain rfl := Content.members.inj hcontent
      exact .added hbody hmember hnew
  | custom | listed | appended | entered | replaced | indexed | paired => exact nomatch hcontent

theorem Sources.perform (operation : Operation) (heap : Heap) :
    heap.Sources (operation.perform heap).2 := by
  intro handle members mutable hbody
  obtain ⟨index, rfl⟩ := exists_index_of_container hbody rfl
  exact (Arises.perform operation heap index _ mutable hbody).sourced rfl

/-- Whatever was done to a heap, its sets have no two members that count as one. -/
theorem Reachable.membersApart (h : heap.Reachable) : heap.MembersApart := by
  induction h with
  | fresh =>
      intro handle members mutable hbody
      obtain ⟨index, rfl⟩ := exists_index_of_container hbody rfl
      exact absurd (lt_size_of_live (live_of_body? hbody)) (Nat.not_lt_zero index)
  | step operation hheap ih =>
      exact ih.sources hheap.issued (.perform operation _) (.perform operation _)

end Heap

end Marshal
