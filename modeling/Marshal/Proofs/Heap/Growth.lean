import Marshal.Proofs.Heap.Grounded
import Marshal.Proofs.Heap.Transfer

/-!
# Growth without cycles

Conversions create objects in an order of their own: a container is there before
what is put into it.  What keeps such objects from holding each other in a circle
is that a container has a single reference as long as it is `unfinished`, and that
is with whoever fills it.  `Grows base unfinished heap owned` adds this to the
conservation of references.

Three kinds of operations keep it: those that only count references, those that
create an object or fill an unfinished one with what is owned, and releases.  At
the end, when nothing is owned, everything that was created is gone and the heap
shows what `base` did (`Grows.same`).
-/

namespace Marshal.Heap

variable {base heap heap' : Heap} {unfinished owned owned' : Multiset Handle}
  {handle : Handle} {index : Nat}

/-- Two heaps show the same objects with the same counts, and equally many
releases were in vain. -/
structure Same (heap heap' : Heap) : Prop where
  get?_eq : ∀ handle, heap'.get? handle = heap.get? handle
  types_eq : heap'.types = heap.types
  deadReleases_eq : heap'.deadReleases = heap.deadReleases

/-- `heap` is `base` with new objects that hold each other in no circle, and nobody
but their makers has references to the unfinished ones. -/
structure Grows (base : Heap) (unfinished : Multiset Handle) (heap : Heap)
    (owned : Multiset Handle) : Prop where
  conserved : Extends base heap (unfinished + owned)
  grounded : Grounded base.slots.size heap
  types_eq : heap.types = base.types
  nodup : unfinished.Nodup
  new : ∀ handle ∈ unfinished, ∃ index, handle = .object index ∧ base.slots.size ≤ index
  not_owned : ∀ handle ∈ unfinished, handle ∉ owned
  unheld : ∀ handle ∈ unfinished, handle ∉ heap.heldSince base.slots.size

theorem Positive.grows (h : heap.Positive) : Grows heap 0 heap 0 where
  conserved := by
    rw [add_zero]
    exact h.extends
  grounded := grounded_size heap
  types_eq := rfl
  nodup := Multiset.nodup_zero
  new _ hmem := absurd hmem (Multiset.notMem_zero _)
  not_owned _ hmem := absurd hmem (Multiset.notMem_zero _)
  unheld _ hmem := absurd hmem (Multiset.notMem_zero _)

namespace Grows

theorem new_object (h : Grows base unfinished heap owned) (hmem : .object index ∈ unfinished) :
    base.slots.size ≤ index := by
  obtain ⟨other, heq, hle⟩ := h.new _ hmem
  rw [Handle.object.inj heq]
  exact hle

theorem live_of_owned (h : Grows base unfinished heap owned) (hmem : handle ∈ owned) :
    heap.Live handle :=
  h.conserved.live_of_owned (Multiset.mem_add.mpr (.inr hmem))

/-- An object that is finished is owned like any other. -/
theorem finish (h : Grows base (handle ::ₘ unfinished) heap owned) :
    Grows base unfinished heap (handle ::ₘ owned) where
  conserved := by
    rw [Multiset.add_cons, ← Multiset.cons_add]
    exact h.conserved
  grounded := h.grounded
  types_eq := h.types_eq
  nodup := (Multiset.nodup_cons.mp h.nodup).2
  new other hmem := h.new other (Multiset.mem_cons_of_mem hmem)
  not_owned other hmem howned := by
    rcases Multiset.mem_cons.mp howned with rfl | howned
    · exact (Multiset.nodup_cons.mp h.nodup).1 hmem
    · exact h.not_owned other (Multiset.mem_cons_of_mem hmem) howned
  unheld other hmem := h.unheld other (Multiset.mem_cons_of_mem hmem)

/-! ## Counting references -/

/-- Where objects hold what they held, or less, cycles are no concern. -/
theorem congr (h : Grows base unfinished heap owned)
    (hext : Extends base heap' (unfinished + owned'))
    (htypes : heap'.types = heap.types) (howned : ∀ handle ∈ unfinished, handle ∉ owned')
    (hrefs : ∀ index, heap'.refs index ≤ heap.refs index) : Grows base unfinished heap' owned' where
  conserved := hext
  grounded := h.grounded.mono hrefs
  types_eq := htypes.trans h.types_eq
  nodup := h.nodup
  new := h.new
  not_owned := howned
  unheld handle hmem hheld := by
    obtain ⟨holder, hholder, hchild⟩ := mem_heldSince.mp hheld
    have hbefore : handle ∈ heap.refs holder := Multiset.mem_of_le (hrefs holder) hchild
    exact h.unheld handle hmem (mem_heldSince.mpr ⟨holder, hholder, hbefore⟩)

theorem retained (h : Grows base unfinished heap owned) (hlive : heap.Live handle)
    (hfinished : handle ∉ unfinished) :
    Grows base unfinished (heap.retained handle) (handle ::ₘ owned) := by
  refine h.congr ?_ types_retained (fun other hmem howned => ?_)
    fun _ => (refs_congr (body?_retained _)).le
  · rw [Multiset.add_cons]
    exact h.conserved.retained hlive
  · rcases Multiset.mem_cons.mp howned with rfl | howned
    · exact hfinished hmem
    · exact h.not_owned other hmem howned

/-- A reference to a boolean is had for nothing. -/
theorem boolean (h : Grows base unfinished heap owned) (b : Bool) :
    Grows base unfinished heap (.boolean b ::ₘ owned) := by
  refine h.congr ?_ rfl (fun other hmem howned => ?_) fun _ => le_rfl
  · rw [Multiset.add_cons, Extends, Multiset.cons_add]
    exact Tallies.cons_of_not_object h.conserved (live_boolean b) fun _ => Handle.noConfusion
  · rcases Multiset.mem_cons.mp howned with rfl | howned
    · obtain ⟨index, ⟨⟩, -⟩ := h.new _ hmem
    · exact h.not_owned other hmem howned

theorem release (h : Grows base unfinished heap (handle ::ₘ owned)) :
    Grows base unfinished (heap.release handle) owned := by
  have hleaves := leaves_release handle heap
  refine h.congr ?_ hleaves.types_eq (fun other hmem howned => ?_) hleaves.refs_le
  · have hconserved := h.conserved
    rw [Multiset.add_cons] at hconserved
    exact hconserved.release
  · exact h.not_owned other hmem (Multiset.mem_cons_of_mem howned)

/-- What is given up unfinished is gone, for nobody else has a reference to it. -/
theorem not_live_release (h : Grows base (handle ::ₘ unfinished) heap owned) :
    ¬ (heap.release handle).Live handle := by
  obtain ⟨index, rfl, hindex⟩ := h.new handle (Multiset.mem_cons_self _ _)
  intro hlive
  have hmem := h.finish.release.conserved.mem_of_live hindex hlive
  simp only [Multiset.mem_add] at hmem
  rcases hmem with (hmem | hmem) | hheld
  · exact (Multiset.nodup_cons.mp h.nodup).1 hmem
  · exact h.not_owned _ (Multiset.mem_cons_self _ _) hmem
  · obtain ⟨holder, hholder, hchild⟩ := mem_heldSince.mp hheld
    have hbefore : .object index ∈ heap.refs holder :=
      Multiset.mem_of_le ((leaves_release _ heap).refs_le holder) hchild
    exact h.unheld _ (Multiset.mem_cons_self _ _) (mem_heldSince.mpr ⟨holder, hholder, hbefore⟩)

/-! ## New contents -/

/-- An unfinished object comes to hold something that is finished. -/
theorem change {unfinished' : Multiset Handle} (h : Grows base unfinished heap owned)
    (hext : Extends base heap' (unfinished' + owned')) (htypes : heap'.types = heap.types)
    (hmem : .object index ∈ unfinished') (hnodup : unfinished'.Nodup)
    (hnew : ∀ handle ∈ unfinished', ∃ index, handle = .object index ∧ base.slots.size ≤ index)
    (howned : ∀ handle ∈ unfinished', handle ∉ owned')
    (hunheld : ∀ handle ∈ unfinished', handle ∉ heap.heldSince base.slots.size)
    (hother : ∀ other, other ≠ index → heap'.refs other = heap.refs other)
    (hself : ∀ child ∈ heap'.refs index, child ∉ unfinished') :
    Grows base unfinished' heap' owned' := by
  -- an unfinished object is held neither by the changed one nor by the others
  have hfree : ∀ handle ∈ unfinished', ∀ holder, base.slots.size ≤ holder →
      handle ∉ heap'.refs holder := by
    intro handle hmem holder hholder hheld
    by_cases heq : holder = index
    · exact hself handle (heq ▸ hheld) hmem
    · rw [hother holder heq] at hheld
      exact hunheld handle hmem (mem_heldSince.mpr ⟨holder, hholder, hheld⟩)
  refine ⟨hext, h.grounded.change (hfree _ hmem) hother, htypes.trans h.types_eq, hnodup, hnew,
    howned, ?_⟩
  intro handle hmem hheld
  obtain ⟨holder, hholder, hchild⟩ := mem_heldSince.mp hheld
  exact hfree handle hmem holder hholder hchild

/-- What is owned and held is older than the next object. -/
theorem next_not_mem (h : Grows base unfinished heap owned) :
    .object heap.slots.size ∉ unfinished + owned ∧
      .object heap.slots.size ∉ heap.heldSince base.slots.size :=
  ⟨fun hmem => ne_new_of_live (h.conserved.live_of_owned hmem) rfl,
    fun hmem => ne_new_of_live (h.conserved.live_of_held hmem) rfl⟩

/-- A new object is unfinished at first. -/
theorem collected {o : Object} (h : Grows base unfinished heap owned)
    (hlive : ∀ child ∈ o.children, heap.Live child) (hcount : o.count = 1)
    (hopen : ∀ child ∈ o.children, child ∉ unfinished) :
    Grows base (.object heap.slots.size ::ₘ unfinished) (heap.collected o) owned := by
  obtain ⟨htotal, hheld⟩ := h.next_not_mem
  have hget : (heap.collected o).get? (.object heap.slots.size) = some o := get?_collected_new
  refine h.change ?_ (types_retainedAll _) (Multiset.mem_cons_self _ _) ?_ ?_ ?_ ?_
    (fun other hne => ?_) ?_
  · rw [Multiset.cons_add]
    exact h.conserved.collected hlive hcount
  · exact Multiset.nodup_cons.mpr ⟨fun hmem => htotal (Multiset.mem_add.mpr (.inl hmem)), h.nodup⟩
  · intro handle hmem
    rcases Multiset.mem_cons.mp hmem with rfl | hmem
    · exact ⟨_, rfl, h.conserved.size_le⟩
    · exact h.new handle hmem
  · intro handle hmem howned
    rcases Multiset.mem_cons.mp hmem with rfl | hmem
    · exact htotal (Multiset.mem_add.mpr (.inr howned))
    · exact h.not_owned handle hmem howned
  · intro handle hmem
    rcases Multiset.mem_cons.mp hmem with rfl | hmem
    · exact hheld
    · exact h.unheld handle hmem
  · exact refs_congr (body?_collected_of_ne (Handle.object_ne hne))
  · intro child hchild hmem
    rw [refs_of_get? hget] at hchild
    rcases Multiset.mem_cons.mp hmem with rfl | hmem
    · exact ne_new_of_live (hlive _ hchild) rfl
    · exact hopen child hchild hmem

/-- An unfinished object gets new contents, which hold what the old ones held and
something that is finished. -/
theorem refilled {content content' : Content} (h : Grows base unfinished heap owned)
    (hmem : .object index ∈ unfinished)
    (hbody : heap.body? (.object index) = some (content, true))
    (hsame : ∀ handle, heap'.body? handle = heap.body? handle) (htypes : heap'.types = heap.types)
    (hext : Extends base (heap'.refilled (.object index) content') (unfinished + owned'))
    (howned : ∀ handle ∈ unfinished, handle ∉ owned')
    (hchildren : ∀ child ∈ content'.children, child ∈ content.children ∨ child ∉ unfinished) :
    Grows base unfinished (heap'.refilled (.object index) content') owned' := by
  have hself : (heap'.refilled (.object index) content').body? (.object index) =
      some (content', true) := by
    rw [Heap.refilled, body?_alter_self, hsame, hbody]
    rfl
  have hother : ∀ other, other ≠ index →
      (heap'.refilled (.object index) content').refs other = heap.refs other := by
    intro other hne
    exact refs_congr ((body?_alter_of_ne _ (Handle.object_ne hne)).trans (hsame _))
  refine h.change hext ((types_alter _).trans htypes) hmem h.nodup h.new howned h.unheld hother
    fun child hchild => ?_
  rw [refs_of_body? hself] at hchild
  rcases hchildren child hchild with hold | hopen
  · -- what it held already is finished as well
    have hheld : child ∈ heap.refs index := by
      rw [refs_of_body? hbody]
      exact hold
    exact fun hmem' => h.unheld child hmem'
      (mem_heldSince.mpr ⟨index, h.new_object hmem, hheld⟩)
  · exact hopen

/-! ## Requests -/

/-- A new object was created, and it is not finished. -/
def Created (base : Heap) (unfinished owned : Multiset Handle) (handle : Handle) (heap : Heap) :
    Prop :=
  Grows base (handle ::ₘ unfinished) heap owned

/-- An object that holds nothing may be created. -/
theorem created {o : Object} (h : Grows base unfinished heap owned) (hchildren : o.children = [])
    (hcount : o.count = 1) :
    Created base unfinished owned (.object heap.slots.size) (heap.pushed o) := by
  have hcreated := h.collected (o := o) (by simp [hchildren]) hcount (by simp [hchildren])
  rwa [Heap.collected, hchildren] at hcreated

theorem ends_allocate {o : Object} (h : Grows base unfinished heap owned)
    (hchildren : o.children = []) (hcount : o.count = 1) :
    Ends (allocate o) heap (Created base unfinished owned)
      fun _ heap' => Grows base unfinished heap' owned :=
  Heap.ends_allocate (h.created hchildren hcount) fun _ _ => h

theorem ends_retain (h : Grows base unfinished heap owned) (hfinished : handle ∉ unfinished) :
    Ends (retain handle) heap (fun _ heap' => Grows base unfinished heap' (handle ::ₘ owned))
      fun _ heap' => Grows base unfinished heap' owned :=
  Heap.ends_retain (fun hlive => h.retained hlive hfinished) fun _ _ => h

/-- A new object may hold what was created holds. -/
theorem copied {content : Content} {mutable : Bool} (h : Grows base unfinished heap owned)
    (hindex : base.slots.size ≤ index)
    (hbody : heap.body? (.object index) = some (content, mutable)) :
    (∀ child ∈ content.children, heap.Live child) ∧
      Created base unfinished owned (.object heap.slots.size) (heap.collected { content }) := by
  have hheld : ∀ child ∈ content.children, child ∈ heap.heldSince base.slots.size := by
    intro child hchild
    refine mem_heldSince.mpr ⟨index, hindex, ?_⟩
    rw [refs_of_body? hbody]
    exact hchild
  have hlive : ∀ child ∈ content.children, heap.Live child := fun child hchild =>
    h.conserved.live_of_held (hheld child hchild)
  exact ⟨hlive, h.collected (o := { content }) hlive rfl fun child hchild hmem =>
    h.unheld child hmem (hheld child hchild)⟩

/-- A container that was created is copied. -/
theorem ends_copy {kind : Container} (h : Grows base unfinished heap owned)
    (hindex : base.slots.size ≤ index) :
    Ends (copy kind (.object index)) heap (Created base unfinished owned)
      fun _ heap' => Grows base unfinished heap' owned :=
  Heap.ends_copy (fun _ _ hbody => (h.copied hindex hbody).1)
    (fun _ _ hbody _ => (h.copied hindex hbody).2) fun _ _ => h

/-- The members of any set are collected, where nothing holds what is gone. -/
theorem ends_members {set : Handle} (h : Grows base unfinished heap owned) (hclosed : base.Closed)
    (hopen : unfinished = 0) :
    Ends (answer (.members set)) heap (Created base unfinished owned)
      fun _ heap' => Grows base unfinished heap' owned := by
  refine ends_bind (ends_reading (fun members hmembers => ?_) fun _ _ => h)
  obtain ⟨mutable, hbody⟩ := membersOf_eq_ok.mp hmembers
  have hlive : ∀ child ∈ (Content.array members.toArray).children, heap.Live child := by
    simpa [Content.children] using h.conserved.closed hclosed set _ mutable hbody
  refine Heap.ends_collect hlive ?_ fun _ _ => h
  exact h.collected (o := { content := .array members.toArray }) hlive rfl fun child _ => by
    simp [hopen]

theorem ends_append {array item : Handle} (h : Grows base unfinished heap owned)
    (harray : array ∈ unfinished) (hitem : item ∈ owned) :
    Ends (append array item) heap (fun _ heap' => Grows base unfinished heap' owned)
      fun _ heap' => Grows base unfinished heap' owned := by
  refine Heap.ends_append (fun index items hindex hbody hlive => ?_) fun _ _ => h
  subst hindex
  refine h.refilled harray hbody body?_retained types_retained
    (h.conserved.appended hbody (h.new_object harray) hlive) h.not_owned fun child hchild => ?_
  simp only [Content.children, Array.toList_push, List.mem_append, List.mem_singleton] at hchild
  rcases hchild with hold | rfl
  · exact .inl hold
  · exact .inr fun hmem => h.not_owned _ hmem hitem

theorem ends_addMember {set member : Handle} (h : Grows base unfinished heap owned)
    (hset : set ∈ unfinished) (hmember : member ∈ owned) :
    Ends (addMember set member) heap (fun _ heap' => Grows base unfinished heap' owned)
      fun _ heap' => Grows base unfinished heap' owned := by
  refine Heap.ends_addMember (fun _ _ _ _ _ _ => h)
    (fun index content mutable members hindex _ hbody _ => ?_) fun _ _ => h
  subst hindex
  refine h.refilled hset hbody body?_retained types_retained
    (h.conserved.memberAdded hbody (h.new_object hset) (h.live_of_owned hmember)) h.not_owned
    fun child hchild => ?_
  simp only [Content.children, List.mem_append, List.mem_singleton] at hchild
  rcases hchild with hold | rfl
  · exact .inl hold
  · exact .inr fun hmem => h.not_owned _ hmem hmember

theorem ends_putEntry {dictionary key value : Handle} (h : Grows base unfinished heap owned)
    (hdictionary : dictionary ∈ unfinished) (hkey : key ∈ owned) (hvalue : value ∈ owned) :
    Ends (putEntry dictionary key value) heap (fun _ heap' => Grows base unfinished heap' owned)
      fun _ heap' => Grows base unfinished heap' owned := by
  have hlive := h.live_of_owned hvalue
  refine Heap.ends_putEntry
    (fun index text mutable entries hindex _ _ hbody _ => ?_)
    (fun index text mutable entries place old hindex _ _ hbody _ hold => ?_) fun _ _ => h
  · subst hindex
    refine h.refilled hdictionary hbody
      (fun handle => (body?_retained handle).trans (body?_retained handle))
      (types_retained.trans types_retained)
      (h.conserved.entryAdded hbody (h.new_object hdictionary) (h.live_of_owned hkey) hlive)
      h.not_owned fun child hchild => ?_
    simp only [Content.children, List.flatMap_append, List.mem_append, List.flatMap_cons,
      List.flatMap_nil, List.append_nil, List.mem_cons, List.not_mem_nil, or_false] at hchild
    rcases hchild with hold | rfl | rfl
    · exact .inl hold
    · exact .inr fun hmem => h.not_owned _ hmem hkey
    · exact .inr fun hmem => h.not_owned _ hmem hvalue
  · subst hindex
    have hreplaced := h.conserved.valueReplaced hbody (h.new_object hdictionary) hlive hold
    rw [← Multiset.add_cons] at hreplaced
    refine release (h.refilled hdictionary hbody body?_retained types_retained hreplaced
      (fun other hmem howned => ?_) fun child hchild => ?_)
    · rcases Multiset.mem_cons.mp howned with rfl | howned
      · -- the old value was held by the dictionary
        refine h.unheld _ hmem (mem_heldSince.mpr ⟨index, h.new_object hdictionary, ?_⟩)
        rw [refs_of_body? hbody]
        exact List.mem_flatMap.mpr ⟨old, List.mem_of_getElem? hold, by simp⟩
      · exact h.not_owned other hmem howned
    · -- the entries hold what they held and the new value, less the old one
      have hmem : child ∈ ((Content.dictionary entries).children : Multiset Handle) + {value} := by
        rw [← Extends.children_modify value hold]
        exact Multiset.mem_add.mpr (.inl hchild)
      rcases Multiset.mem_add.mp hmem with hold | hnew
      · exact .inl hold
      · exact .inr fun hmem => h.not_owned _ hmem (Multiset.mem_singleton.mp hnew ▸ hvalue)

/-- Containers of integers hold nothing. -/
theorem ends_change {kind : Container} {f : Content → Content}
    (h : Grows base unfinished heap owned) (hmem : handle ∈ unfinished)
    (hchildren : ∀ content, (f content).children = content.children) :
    Ends (Heap.change kind handle f) heap (fun _ heap' => Grows base unfinished heap' owned)
      fun _ heap' => Grows base unfinished heap' owned := by
  refine Heap.ends_change (fun index content hindex hbody _ => ?_) fun _ _ => h
  subst hindex
  exact h.refilled hmem hbody (fun _ => rfl) rfl
    (h.conserved.rewritten hbody (h.new_object hmem) (hchildren content)) h.not_owned
    fun child hchild => .inl (hchildren content ▸ hchild)

/-! ## Composition and end -/

/-- What is logged makes no difference, unless it is a release in vain. -/
theorem note {notice : Notice} (h : Grows base unfinished heap owned)
    (hnotice : notice ≠ .deadRelease) : Grows base unfinished (heap.note notice) owned :=
  h.congr (h.conserved.congr (fun _ => rfl) rfl (List.count_cons_of_ne hnotice)) rfl h.not_owned
    fun _ => le_rfl

/-- Two parts of a computation are put together. -/
theorem trans (h : Grows base 0 heap owned) (h' : Grows heap 0 heap' owned') :
    Grows base 0 heap' (owned + owned') where
  conserved := by
    have hconserved := h.conserved.trans h'.conserved
    simpa only [zero_add] using hconserved
  grounded := by
    apply h.grounded.trans h'.grounded
    · intro index hindex
      exact refs_congr (h'.conserved.kept index hindex)
    · -- what an old object holds is old, for nothing new was there to be held
      intro holder child hholder _ hmem
      obtain ⟨o, ho, hchild⟩ := exists_of_mem_refs hmem
      exact lt_size_of_live (h.conserved.live_of_child ho hholder hchild)
  types_eq := h'.types_eq.trans h.types_eq
  nodup := Multiset.nodup_zero
  new _ hmem := absurd hmem (Multiset.notMem_zero _)
  not_owned _ hmem := absurd hmem (Multiset.notMem_zero _)
  unheld _ hmem := absurd hmem (Multiset.notMem_zero _)

/-- When nothing is owned, nothing new is left. -/
theorem not_live (h : Grows base 0 heap 0) (hindex : base.slots.size ≤ index) :
    ¬ heap.Live (.object index) := by
  refine h.grounded.not_live (fun index hindex hlive => ?_) hindex
  -- all references are held, since nothing is owned
  have hmem := h.conserved.mem_of_live hindex hlive
  rwa [add_zero, zero_add] at hmem

theorem heldSince_eq_zero (h : Grows base 0 heap 0) : heap.heldSince base.slots.size = 0 := by
  refine Multiset.eq_zero_of_forall_notMem fun handle hmem => ?_
  obtain ⟨holder, hholder, hheld⟩ := mem_heldSince.mp hmem
  obtain ⟨o, ho, -⟩ := exists_of_mem_refs hheld
  exact h.not_live hholder (live_of_get? ho)

/-- When nothing is owned, the heap shows what it showed before. -/
theorem same (h : Grows base 0 heap 0) : Same base heap := by
  refine ⟨fun handle => ?_, h.types_eq, h.conserved.deadReleases_eq⟩
  cases handle with
  | boolean b => rfl
  | outside address => rfl
  | object index =>
      by_cases hindex : index < base.slots.size
      · have hbody := h.conserved.kept index hindex
        refine get?_eq_of_parts hbody ?_
        cases hget : heap.get? (.object index) with
        | none =>
            have hdead : ¬ base.Live (.object index) := fun hlive => by
              have := h.conserved.live_of_live hlive
              rw [Live, hget] at this
              simp at this
            rw [count?, hget, count?, Option.not_isSome_iff_eq_none.mp hdead]
        | some o =>
            have hlive : base.Live (.object index) := by
              rw [live_iff_body?, ← hbody, ← live_iff_body?]
              exact live_of_get? hget
            obtain ⟨old, hold⟩ := live_iff_exists.mp hlive
            have hcount := h.conserved.count_eq index o.count (count?_of_get? hget)
            rw [count?_of_get? hold, h.heldSince_eq_zero] at hcount
            rw [count?_of_get? hget, count?_of_get? hold, hcount]
            simp
      · have hdead := h.not_live (Nat.le_of_not_lt hindex)
        rw [Option.not_isSome_iff_eq_none.mp hdead, get?_of_size_le (Nat.le_of_not_lt hindex)]

end Grows

end Marshal.Heap
