import Marshal.Proofs.Heap.Unfolding
import Marshal.Proofs.Marshaller.Delivering

/-!
# Lowering shares nothing that it creates

While a container is filled, an element is owned by its maker and held by the container as
well, and while it is sealed, the container and its copy hold the same elements.  So
references come and go, but in the end there is one to each new object.

`Sole base unfinished owned counted heap` keeps the books for this.  What is `counted` is
owned and still to be put somewhere.  An owned reference is no longer counted when a container
has taken its own reference to the object, though it is released only later.  In this
reckoning no new object has two references at any time, and what is counted in the end is
what is owned.

Only the case of success matters here, so nothing is said of what a failure leaves behind.
-/

namespace Marshal

variable {base heap heap' : Heap} {unfinished owned counted added : Multiset Handle}
  {handle : Handle} {n index : Nat}

namespace Heap

/-! ## References that are held -/

theorem Unshared.mono {references references' : Multiset Handle} (h : Unshared n references)
    (hle : references' ≤ references) : Unshared n references' :=
  fun index hindex => (Multiset.count_le_of_le _ hle).trans (h index hindex)

/-- References to old objects come and go. -/
theorem Unshared.cons {references : Multiset Handle} (h : Unshared n references)
    (hold : ¬ handle.Newer n) : Unshared n (handle ::ₘ references) := by
  intro index hindex
  rw [Multiset.count_cons_of_ne]
  · exact h index hindex
  · rintro rfl
    exact hold hindex

theorem Leaves.heldSince_le (h : Leaves heap heap') (n : Nat) :
    heap'.heldSince n ≤ heap.heldSince n := by
  rw [heldSince, heldSince, h.size_eq]
  exact Finset.sum_le_sum fun index _ => h.refs_le index

/-- What is gone holds nothing any more. -/
theorem Leaves.heldSince_add_refs_le (h : Leaves heap heap') (hindex : n ≤ index)
    (hgone : heap'.refs index = 0) : heap'.heldSince n + heap.refs index ≤ heap.heldSince n := by
  by_cases hlive : heap.Live (.object index)
  · have hmem : index ∈ Finset.Ico n heap.slots.size :=
      Finset.mem_Ico.mpr ⟨hindex, lt_size_of_live hlive⟩
    have hrest : ∑ other ∈ (Finset.Ico n heap.slots.size).erase index, heap'.refs other ≤
        ∑ other ∈ (Finset.Ico n heap.slots.size).erase index, heap.refs other :=
      Finset.sum_le_sum fun other _ => h.refs_le other
    rw [heldSince, heldSince, h.size_eq, ← Finset.add_sum_erase _ heap'.refs hmem,
      ← Finset.add_sum_erase _ heap.refs hmem, hgone, zero_add, add_comm]
    exact add_le_add_right hrest _
  · rw [refs_of_not_live hlive, add_zero]
    exact h.heldSince_le n

/-- New contents hold what the old ones held, and perhaps something that is added. -/
theorem heldSince_refilled_le {content content' : Content} {mutable : Bool}
    (hbody : heap.body? (.object index) = some (content, mutable)) (hindex : n ≤ index)
    (hsame : ∀ handle, heap'.body? handle = heap.body? handle)
    (hsize : heap'.slots.size = heap.slots.size)
    (hchildren : (content'.children : Multiset Handle) ≤ content.children + added) :
    (heap'.refilled (.object index) content').heldSince n ≤ heap.heldSince n + added := by
  have hself : (heap'.refilled (.object index) content').body? (.object index) =
      some (content', mutable) := by
    rw [Heap.refilled, body?_alter_self, hsame, hbody]
    rfl
  have hchange : (heap'.refilled (.object index) content').heldSince n + heap.refs index =
      heap.heldSince n + (heap'.refilled (.object index) content').refs index := by
    refine heldSince_change ((size_alter _).trans hsize) hindex
      (lt_size_of_live (live_of_body? hbody)) fun other hne => ?_
    exact refs_congr ((body?_alter_of_ne _ (Handle.object_ne hne)).trans (hsame _))
  rw [refs_of_body? hbody, refs_of_body? hself] at hchange
  refine le_of_add_le_add_right (a := (content.children : Multiset Handle)) ?_
  calc (heap'.refilled (.object index) content').heldSince n + content.children
      = heap.heldSince n + content'.children := hchange
    _ ≤ heap.heldSince n + (content.children + added) := add_le_add_right hchildren _
    _ = heap.heldSince n + added + content.children := by abel

theorem ends_append_held {array item : Handle} (harray : array.Newer n) :
    Ends (append array item) heap
      (fun _ heap' => heap'.heldSince n ≤ heap.heldSince n + {item}) fun _ _ => True := by
  refine ends_append (fun index items hindex hbody _ => ?_) fun _ _ => trivial
  subst hindex
  refine heldSince_refilled_le hbody harray body?_retained size_retained ?_
  simp [Content.children, ← Multiset.coe_add]

theorem ends_addMember_held {set member : Handle} (hset : set.Newer n) :
    Ends (addMember set member) heap
      (fun _ heap' => heap'.heldSince n ≤ heap.heldSince n + {member}) fun _ _ => True := by
  refine ends_addMember (fun _ _ _ _ _ _ => Multiset.le_add_right _ _)
    (fun index content mutable members hindex _ hbody _ => ?_) fun _ _ => trivial
  subst hindex
  refine heldSince_refilled_le hbody hset body?_retained size_retained ?_
  simp [Content.children, ← Multiset.coe_add]

/-- The key may be dropped, and the value may take the place of another one. -/
theorem ends_putEntry_held {dictionary key value : Handle} (hdictionary : dictionary.Newer n) :
    Ends (putEntry dictionary key value) heap
      (fun _ heap' => heap'.heldSince n ≤ heap.heldSince n + {value, key}) fun _ _ => True := by
  refine ends_putEntry (fun index text mutable entries hindex _ _ hbody _ => ?_)
    (fun index text mutable entries place old hindex _ _ hbody _ hold => ?_) fun _ _ => trivial
  · subst hindex
    have hsame : ∀ handle, ((heap.retained value).retained key).body? handle = heap.body? handle :=
      fun handle => (body?_retained handle).trans (body?_retained handle)
    refine heldSince_refilled_le hbody hdictionary hsame (size_retained.trans size_retained) ?_
    have hpair : ({value, key} : Multiset Handle) = {key} + {value} := Multiset.pair_comm value key
    rw [hpair]
    simp [Content.children, ← Multiset.coe_add, ← Multiset.cons_coe]
  · subst hindex
    refine ((leaves_release old.2 _).heldSince_le n).trans ?_
    refine heldSince_refilled_le hbody hdictionary body?_retained size_retained ?_
    calc ((Content.dictionary (entries.modify place fun entry => (entry.1, value))).children :
            Multiset Handle)
        ≤ (Content.dictionary (entries.modify place fun entry => (entry.1, value))).children +
            {old.2} := Multiset.le_add_right _ _
      _ = (Content.dictionary entries).children + {value} := Extends.children_modify value hold
      _ ≤ (Content.dictionary entries).children + {value, key} :=
          add_le_add_right (Multiset.cons_le_cons value (Multiset.zero_le _)) _

end Heap

/-! ## Keeping the books -/

/-- References are in order, and no new object has two that are counted or held.  To be held
comes instead of being counted, even where the reference is still owned. -/
structure Sole (base : Heap) (unfinished owned counted : Multiset Handle) (heap : Heap) : Prop where
  grows : Heap.Grows base unfinished heap owned
  counted_le : counted ≤ owned
  unshared : Heap.Unshared base.slots.size (unfinished + counted + heap.heldSince base.slots.size)

namespace Sole

theorem newer (h : Sole base unfinished owned counted heap) (hmem : handle ∈ unfinished) :
    handle.Newer base.slots.size := by
  obtain ⟨index, rfl, hindex⟩ := h.grows.new handle hmem
  exact hindex

/-- An object that is finished is owned and counted like any other. -/
theorem finish (h : Sole base (handle ::ₘ unfinished) owned counted heap) :
    Sole base unfinished (handle ::ₘ owned) (handle ::ₘ counted) heap where
  grows := h.grows.finish
  counted_le := Multiset.cons_le_cons handle h.counted_le
  unshared := by
    rw [Multiset.add_cons, ← Multiset.cons_add]
    exact h.unshared

/-- What comes next was not counted so far. -/
theorem cons_next (h : Sole base unfinished owned counted heap) :
    Heap.Unshared base.slots.size
      (heap.next ::ₘ (unfinished + counted + heap.heldSince base.slots.size)) := by
  obtain ⟨htotal, hheld⟩ := h.grows.next_not_mem
  have hfresh : heap.next ∉ unfinished + counted + heap.heldSince base.slots.size := by
    intro hmem
    rcases Multiset.mem_add.mp hmem with hmem | hmem
    · exact htotal (Multiset.mem_of_le (add_le_add_right h.counted_le _) hmem)
    · exact hheld hmem
  intro index hindex
  by_cases heq : Handle.object index = heap.next
  · rw [heq, Multiset.count_cons_self, Multiset.count_eq_zero.mpr hfresh]
  · rw [Multiset.count_cons_of_ne heq]
    exact h.unshared index hindex

/-- A new object that holds nothing is unfinished at first. -/
theorem created {o : Object} (h : Sole base unfinished owned counted heap)
    (hchildren : o.children = []) (hcount : o.count = 1) :
    Sole base (heap.next ::ₘ unfinished) owned counted (heap.pushed o) where
  grows := h.grows.created hchildren hcount
  counted_le := h.counted_le
  unshared := by
    have hheld : (heap.pushed o).heldSince base.slots.size = heap.heldSince base.slots.size := by
      rw [Heap.heldSince_pushed h.grows.conserved.size_le, hchildren]
      exact add_zero _
    rw [hheld, Multiset.cons_add, Multiset.cons_add]
    exact h.cons_next

/-- An old object is referred to once more, by its owner. -/
theorem shared (h : Sole base unfinished owned counted heap)
    (hgrows : Heap.Grows base unfinished heap' (handle ::ₘ owned))
    (hheld : heap'.heldSince base.slots.size = heap.heldSince base.slots.size)
    (hold : ¬ handle.Newer base.slots.size) :
    Sole base unfinished (handle ::ₘ owned) (handle ::ₘ counted) heap' where
  grows := hgrows
  counted_le := Multiset.cons_le_cons handle h.counted_le
  unshared := by
    rw [hheld, Multiset.add_cons, Multiset.cons_add]
    exact h.unshared.cons hold

/-- A container takes references of its own instead of those that were counted. -/
theorem spend (h : Sole base unfinished owned (added + counted) heap)
    (hgrows : Heap.Grows base unfinished heap' owned)
    (hheld : heap'.heldSince base.slots.size ≤ heap.heldSince base.slots.size + added) :
    Sole base unfinished owned counted heap' where
  grows := hgrows
  counted_le := (Multiset.le_add_left _ _).trans h.counted_le
  unshared := by
    refine h.unshared.mono ?_
    calc unfinished + counted + heap'.heldSince base.slots.size
        ≤ unfinished + counted + (heap.heldSince base.slots.size + added) :=
          add_le_add_right hheld _
      _ = unfinished + (added + counted) + heap.heldSince base.slots.size := by abel

theorem release (h : Sole base unfinished (handle ::ₘ owned) counted heap)
    (hle : counted ≤ owned) : Sole base unfinished owned counted (heap.release handle) where
  grows := h.grows.release
  counted_le := hle
  unshared := h.unshared.mono
    (add_le_add_right ((Heap.leaves_release handle heap).heldSince_le base.slots.size) _)

/-- A sealed copy holds what the container held that is given up. -/
theorem replaced {content : Content}
    (h : Sole base (.object index ::ₘ unfinished) owned counted heap)
    (hgrows : Heap.Grows base (.object index ::ₘ unfinished) (heap.collected { content })
      (heap.next ::ₘ owned))
    (hcontent : (content.children : Multiset Handle) = heap.refs index) :
    Sole base unfinished (heap.next ::ₘ owned) (heap.next ::ₘ counted)
      ((heap.collected { content }).release (.object index)) := by
  have hindex : base.slots.size ≤ index := h.newer (Multiset.mem_cons_self _ _)
  have hleaves := Heap.leaves_release (.object index) (heap.collected { content })
  have hsize : heap.slots.size ≤ (heap.collected { content }).slots.size := by
    rw [Heap.collected, Heap.size_pushed, Heap.size_retainedAll]
    exact Nat.le_succ _
  have hcopied : (heap.collected { content }).heldSince base.slots.size =
      heap.heldSince base.slots.size + heap.refs index := by
    rw [Heap.collected, Heap.heldSince_pushed, Heap.heldSince_congr (Heap.size_retainedAll _)
      fun _ _ => Heap.refs_congr (Heap.body?_retainedAll _ _), ← hcontent]
    · rfl
    · rw [Heap.size_retainedAll]
      exact h.grows.conserved.size_le
  -- the container is gone, and so are its references
  have hgone : ((heap.collected { content }).release (.object index)).refs index = 0 :=
    Heap.refs_of_not_live hgrows.not_live_release
  have hrefs : (heap.collected { content }).refs index = heap.refs index := by
    refine Heap.refs_congr (Heap.body?_collected_of_ne ?_)
    have hlive : heap.Live (.object index) :=
      h.grows.conserved.live_of_owned (Multiset.mem_add.mpr (.inl (Multiset.mem_cons_self _ _)))
    exact Heap.ne_new_of_live hlive
  have hheld : ((heap.collected { content }).release (.object index)).heldSince base.slots.size ≤
      heap.heldSince base.slots.size := by
    refine le_of_add_le_add_right (a := heap.refs index) ?_
    rw [← hcopied, ← hrefs]
    exact hleaves.heldSince_add_refs_le hindex hgone
  refine ⟨hgrows.finish.release, Multiset.cons_le_cons _ h.counted_le, ?_⟩
  have hle : unfinished + heap.next ::ₘ counted +
      ((heap.collected { content }).release (.object index)).heldSince base.slots.size ≤
      heap.next ::ₘ (.object index ::ₘ unfinished + counted + heap.heldSince base.slots.size) := by
    rw [Multiset.add_cons, Multiset.cons_add]
    exact Multiset.cons_le_cons _
      (add_le_add (add_le_add_left (Multiset.le_cons_self _ _) _) hheld)
  exact h.cons_next.mono hle

end Sole

/-- An action hands over a reference, which counts from then on. -/
def LowersSole (base : Heap) (x : Action Heap Handle) : Prop :=
  ∀ unfinished owned counted heap, Sole base unfinished owned counted heap →
    Ends x heap (fun handle => Sole base unfinished (handle ::ₘ owned) (handle ::ₘ counted))
      fun _ _ => True

/-- An action hands over an unfinished object. -/
def CreatesSole (base : Heap) (x : Action Heap Handle) : Prop :=
  ∀ unfinished owned counted heap, Sole base unfinished owned counted heap →
    Ends x heap (fun handle => Sole base (handle ::ₘ unfinished) owned counted) fun _ _ => True

/-- An action on an unfinished object leaves counted what was counted. -/
def FillsSole (base : Heap) (fill : Handle → Action Heap Unit) : Prop :=
  ∀ handle unfinished owned counted heap, handle ∈ unfinished →
    Sole base unfinished owned counted heap →
    Ends (fill handle) heap (fun _ => Sole base unfinished owned counted) fun _ _ => True

theorem CreatesSole.lowers {x : Action Heap Handle} (hx : CreatesSole base x) :
    LowersSole base x := by
  intro unfinished owned counted heap hs
  exact (hx unfinished owned counted heap hs).mono (fun _ _ hs' => hs'.finish) fun _ _ => id

theorem lowersSole_throw (failure : Failure) : LowersSole base (throw failure) :=
  fun _ _ _ _ _ => ends_throw trivial

/-! ## The steps of lowering -/

theorem Sole.ends_allocate {o : Object} (h : Sole base unfinished owned counted heap)
    (hchildren : o.children = []) (hcount : o.count = 1) :
    Ends (Heap.allocate o) heap (fun handle => Sole base (handle ::ₘ unfinished) owned counted)
      fun _ _ => True :=
  Heap.ends_allocate (h.created hchildren hcount) fun _ _ => trivial

/-- Containers of integers hold nothing. -/
theorem Sole.ends_change {kind : Container} {f : Content → Content}
    (h : Sole base unfinished owned counted heap) (hmem : handle ∈ unfinished)
    (hchildren : ∀ content, (f content).children = content.children) :
    Ends (Heap.change kind handle f) heap (fun _ => Sole base unfinished owned counted)
      fun _ _ => True := by
  have hheld : Ends (Heap.change kind handle f) heap
      (fun _ heap' => heap'.heldSince base.slots.size ≤ heap.heldSince base.slots.size + 0)
      fun _ _ => True := by
    refine Heap.ends_change (fun index content hindex hbody _ => ?_) fun _ _ => trivial
    subst hindex
    refine Heap.heldSince_refilled_le hbody (h.newer hmem) (fun _ => rfl) rfl ?_
    rw [hchildren, add_zero]
  refine ((h.grows.ends_change hmem hchildren).and hheld).mono (fun _ heap' hgood => ?_)
    fun _ _ _ => trivial
  have hnone : Sole base unfinished owned (0 + counted) heap := by
    rw [zero_add]
    exact h
  exact hnone.spend hgood.1 hgood.2

namespace Marshaller.Sharing

variable {m : Marshaller Heap} (h : m.Sharing)

include h

/-- A container takes references to what is counted. -/
theorem ends_spend {request : Request} {rest : Multiset Handle}
    (hs : Sole base unfinished owned (added + counted) heap)
    (hgrows : Ends (Heap.answer request) heap
      (fun _ heap' => Heap.Grows base unfinished heap' owned)
      fun _ heap' => Heap.Grows base unfinished heap' rest)
    (hheld : Ends (Heap.answer request) heap
      (fun _ heap' => heap'.heldSince base.slots.size ≤ heap.heldSince base.slots.size + added)
      fun _ _ => True) :
    Ends (m.store.ask request) heap (fun _ => Sole base unfinished owned counted)
      fun _ _ => True := by
  refine h.ends_ask ((hgrows.and hheld).mono (fun _ heap' hgood => ?_) fun _ _ _ => trivial)
  exact hs.spend hgood.1 hgood.2

/-- What was acquired is used up and released. -/
theorem ends_use {acquire : Action Heap Handle} {body : Handle → Action Heap Unit}
    {counted' : Multiset Handle} (hacquire : LowersSole base acquire)
    (hs : Sole base unfinished owned counted heap) (hle : counted' ≤ owned)
    (hbody : ∀ handle heap, Sole base unfinished (handle ::ₘ owned) (handle ::ₘ counted) heap →
      Ends (body handle) heap (fun _ => Sole base unfinished (handle ::ₘ owned) counted')
        fun _ _ => True) :
    Ends (m.store.withReference acquire body) heap (fun _ => Sole base unfinished owned counted')
      fun _ _ => True := by
  rw [h.store]
  refine Marshal.ends_withReference ((hacquire unfinished owned counted heap hs).mono
    (fun handle heap' hs' => ?_) fun _ _ => id)
  exact (hbody handle heap' hs').mono (fun _ _ hs'' => hs''.release hle) fun _ _ => id

theorem createsSole_building (kind : Container) {fill : Handle → Action Heap Unit}
    (hfill : FillsSole base fill) :
    CreatesSole base (m.store.building (m.store.ask (.create kind)) fill) := by
  intro unfinished owned counted heap hs
  have hcreate : Ends (m.store.ask (.create kind)) heap
      (fun handle => Sole base (handle ::ₘ unfinished) owned counted) fun _ _ => True :=
    h.ends_ask (hs.ends_allocate (o := { content := .empty kind, mutable := true })
      (Content.children_empty kind) rfl)
  refine ends_building (hcreate.mono (fun handle heap' hs' => ?_) fun _ _ => id)
  exact hfill handle _ owned counted heap' (Multiset.mem_cons_self _ _) hs'

/-- The copy takes the place of what was staged. -/
theorem lowersSole_sealed (kind : Container) {staged : Action Heap Handle}
    (hstaged : CreatesSole base staged) : LowersSole base (m.sealed kind staged) := by
  intro unfinished owned counted heap hs
  unfold sealed
  rw [h.store]
  refine Marshal.ends_withReference ((hstaged unfinished owned counted heap hs).mono
    (fun handle heap' hs' => Marshal.ends_ask ?_) fun _ _ => id)
  obtain ⟨index, rfl, hindex⟩ := hs'.grows.new handle (Multiset.mem_cons_self _ _)
  refine Heap.ends_copy (fun _ _ hbody => (hs'.grows.copied hindex hbody).1)
    (fun content mutable hbody _ => ?_) fun _ _ => trivial
  have hcopied := (hs'.grows.copied hindex hbody).2
  exact hs'.replaced hcopied.finish (Heap.refs_of_body? hbody).symm

/-- The steps of lowering share nothing that they create. -/
theorem makesSole (base : Heap) :
    m.Makes (fun handles => ∀ handle ∈ handles, ¬ handle.Newer base.slots.size) (LowersSole base)
      (CreatesSole base) (FillsSole base) where
  parts hhandles := List.forall_mem_append.mp hhandles
  failed := lowersSole_throw
  boolean b unfinished owned counted heap hs :=
    ends_pure (hs.shared (hs.grows.boolean b) rfl id)
  -- a new object has the one reference that is handed over
  number number := CreatesSole.lowers fun _ _ _ _ hs => h.ends_ask
    (hs.ends_allocate (o := { content := .number (.known number) }) rfl rfl)
  text text := CreatesSole.lowers fun _ _ _ _ hs => h.ends_ask
    (hs.ends_allocate (o := { content := .text text }) rfl rfl)
  bytes bytes := CreatesSole.lowers fun _ _ _ _ hs => h.ends_ask
    (hs.ends_allocate (o := { content := .data bytes }) rfl rfl)
  object o ho := by
    -- what is wrapped is an old object, whose references are not counted here
    rcases h.registry.lower_cases m.store o with ⟨handle, hhandle, heq⟩ | ⟨failure, heq⟩
    · rw [heq]
      intro unfinished owned counted heap hs
      have hold : ¬ handle.Newer base.slots.size := ho handle (by simp [hhandle])
      refine ends_bind (h.ends_ask (Heap.ends_retain (fun hlive => ends_pure ?_)
        fun _ _ => trivial))
      exact hs.shared (hs.grows.retained hlive fun hmem => hold (hs.newer hmem))
        (Heap.heldSince_congr Heap.size_retained fun _ _ => Heap.refs_congr
          (Heap.body?_retained _)) hold
    · rw [heq]
      exact lowersSole_throw failure
  refused failure _ _ _ _ _ := ends_throw trivial
  building kind _ hfill := h.createsSole_building kind hfill
  sealed kind _ hstaged := h.lowersSole_sealed kind hstaged
  idle _ _ _ _ _ _ hs := ends_pure hs
  seq hfirst hsecond := by
    intro handle unfinished owned counted heap hmem hs
    refine ends_bind ((hfirst handle unfinished owned counted heap hmem hs).mono
      (fun _ heap' hs' => ?_) fun _ _ => id)
    exact hsecond handle unfinished owned counted heap' hmem hs'
  -- the container holds a reference of its own then, and the one that was made for it is released
  append hitem := by
    intro array unfinished owned counted heap harray hs
    refine h.ends_use hitem hs hs.counted_le fun item heap' hs' => ?_
    have hspent : Sole base unfinished (item ::ₘ owned) ({item} + counted) heap' := by
      rwa [Multiset.singleton_add]
    exact h.ends_spend hspent
      (hs'.grows.ends_append harray (Multiset.mem_cons_self _ _))
      (Heap.ends_append_held (hs'.newer harray))
  addMember hmember := by
    intro set unfinished owned counted heap hset hs
    refine h.ends_use hmember hs hs.counted_le fun member heap' hs' => ?_
    have hspent : Sole base unfinished (member ::ₘ owned) ({member} + counted) heap' := by
      rwa [Multiset.singleton_add]
    exact h.ends_spend hspent
      (hs'.grows.ends_addMember hset (Multiset.mem_cons_self _ _))
      (Heap.ends_addMember_held (hs'.newer hset))
  putEntry hkey hvalue := by
    intro dictionary unfinished owned counted heap hdictionary hs
    refine h.ends_use hkey hs hs.counted_le fun key heap' hs' => ?_
    have hle : counted ≤ key ::ₘ owned := hs.counted_le.trans (Multiset.le_cons_self _ _)
    refine h.ends_use hvalue hs' hle fun value heap'' hs'' => ?_
    have hpair : ({value, key} + counted : Multiset Handle) = value ::ₘ key ::ₘ counted := by
      rw [Multiset.insert_eq_cons, Multiset.cons_add, Multiset.singleton_add]
    exact h.ends_spend (hpair ▸ hs'')
      (hs''.grows.ends_putEntry hdictionary (Multiset.mem_cons_of_mem (Multiset.mem_cons_self _ _))
        (Multiset.mem_cons_self _ _))
      (Heap.ends_putEntry_held (hs''.newer hdictionary))
  appendIndex value _ _ _ _ _ harray hs := h.ends_ask
    (hs.ends_change harray fun content => by cases content <;> rfl)
  addIndex value _ _ _ _ _ hset hs := h.ends_ask
    (hs.ends_change hset fun content => by cases content <;> rfl)
  addPair index value _ _ _ _ _ hset hs := h.ends_ask
    (hs.ends_change hset fun content => by cases content <;> rfl)

/-- When a value was lowered, there is one reference to each new object. -/
theorem ends_unshared {room : Nat} {v : Value} (hpos : heap.Positive)
    (hv : ∀ handle ∈ v.wrapped, heap.Live handle) :
    Ends (m.lowerWithin room v) heap
      (fun handle heap' => Heap.Grows heap 0 heap' {handle} ∧
        Heap.Unshared heap.slots.size (handle ::ₘ heap'.heldSince heap.slots.size))
      fun _ _ => True := by
  have hsole : Sole heap 0 0 0 heap := by
    refine ⟨hpos.grows, le_rfl, fun index _ => ?_⟩
    rw [Heap.heldSince_size]
    exact Nat.zero_le 1
  have hold : ∀ handle ∈ v.wrapped, ¬ handle.Newer heap.slots.size := by
    intro handle hmem hnewer
    obtain ⟨index, rfl, hindex⟩ := hnewer.exists_index
    exact absurd (Heap.lt_size_of_live (hv _ hmem)) (Nat.not_lt.mpr hindex)
  refine ((h.makesSole heap).within room v hold 0 0 0 heap hsole).mono (fun handle heap' hs => ?_)
    fun _ _ => id
  refine ⟨hs.grows, ?_⟩
  have hunshared := hs.unshared
  rwa [zero_add, Multiset.cons_add, zero_add] at hunshared

end Marshaller.Sharing

end Marshal
