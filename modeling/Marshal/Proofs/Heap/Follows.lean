import Marshal.Proofs.Heap.Reachable

/-!
# What becomes of an object

Whatever is done to a heap, an object stays what it is as long as it is live, with
one exception: a container that can be changed may get other contents of the same
kind (`Becomes`).  A sealed container in particular keeps its contents, since each
request that changes contents asks for a container that can be changed.

`Follows opened heap heap'` says this of all objects, and of those that were created
in between that they are well formed, and sealed unless some were `opened`.  It
holds for each of the changes that operations consist of, and it is transitive, so it
holds for any run of operations (`Follows.perform`).  It does not matter here whether
references are released that nobody owns: that decides which objects are live, and not
what they are.
-/

namespace Marshal

/-- A custom object has the type of one. -/
def Content.WellFormed : Content → Prop
  | .custom type _ => type.isCustom
  | _ => True

/-- The request creates an object that can be changed. -/
def Request.opens : Request → Bool
  | .create _ => true
  | .createText _ mutable | .createData _ mutable => mutable
  | _ => false

/-- What a new object may be.  If nothing was opened, it cannot be changed. -/
structure Made (opened : Bool) (body : Content × Bool) : Prop where
  wellFormed : body.1.WellFormed
  shut : opened = false → body.2 = false

/-- What an object is may become this, as long as it is live. -/
def Becomes (before after : Content × Bool) : Prop :=
  after = before ∨ before.2 = true ∧ after.2 = true ∧
    ∃ kind, before.1.container? = some kind ∧ after.1.container? = some kind

theorem Content.wellFormed_of_container? {content : Content} {kind : Container}
    (h : content.container? = some kind) : content.WellFormed := by
  cases content with
  | custom => exact nomatch h
  | _ => trivial

namespace Becomes

variable {before between after : Content × Bool}

theorem refl (body : Content × Bool) : Becomes body body := .inl rfl

theorem trans (h : Becomes before between) (h' : Becomes between after) : Becomes before after := by
  rcases h' with rfl | ⟨hopen, hopen', kind, hkind, hkind'⟩
  · exact h
  · rcases h with rfl | ⟨hbefore, -, kind', hbefore', hbetween⟩
    · exact .inr ⟨hopen, hopen', kind, hkind, hkind'⟩
    · obtain rfl : kind = kind' := Option.some.inj (hkind.symm.trans hbetween)
      exact .inr ⟨hbefore, hopen', kind, hbefore', hkind'⟩

/-- What is sealed stays as it is. -/
theorem eq_of_sealed (h : Becomes before after) (hsealed : before.2 = false) : after = before := by
  rcases h with heq | ⟨hopen, -⟩
  · exact heq
  · rw [hsealed] at hopen
    exact nomatch hopen

theorem made {opened : Bool} (h : Becomes before after) (hbefore : Made opened before) :
    Made opened after := by
  rcases h with rfl | ⟨hopen, -, kind, hkind, hkind'⟩
  · exact hbefore
  · refine ⟨Content.wellFormed_of_container? hkind', fun hopened => ?_⟩
    exact nomatch hopen.symm.trans (hbefore.shut hopened)

end Becomes

namespace Heap

variable {heap heap' heap'' : Heap} {handle : Handle} {index : Nat}

/-- Objects of `heap` that are still live in `heap'` are what they may have become,
and the other ones are what new objects may be. -/
structure Follows (opened : Bool) (heap heap' : Heap) : Prop where
  size_le : heap.slots.size ≤ heap'.slots.size
  becomes : ∀ index body', index < heap.slots.size → heap'.body? (.object index) = some body' →
    ∃ body, heap.body? (.object index) = some body ∧ Becomes body body'
  made : ∀ index body', heap.slots.size ≤ index → heap'.body? (.object index) = some body' →
    Made opened body'

variable {opened : Bool}

namespace Follows

/-- Counts, types, budget and notices do not matter. -/
theorem of_body?_eq (hsize : heap'.slots.size = heap.slots.size)
    (hbody : ∀ index body', heap'.body? (.object index) = some body' →
      heap.body? (.object index) = some body') : Follows opened heap heap' where
  size_le := hsize.ge
  becomes index body' _ hbody' := ⟨body', hbody index body' hbody', .refl body'⟩
  made index body' hle hbody' := by
    have hlt := lt_size_of_live (live_of_body? (hbody index body' hbody'))
    omega

theorem refl (heap : Heap) : Follows opened heap heap := of_body?_eq rfl fun _ _ => id

theorem trans (h : Follows opened heap heap') (h' : Follows opened heap' heap'') :
    Follows opened heap heap'' where
  size_le := h.size_le.trans h'.size_le
  becomes index body'' hlt hbody'' := by
    obtain ⟨body', hbody', hbecomes'⟩ := h'.becomes index body'' (hlt.trans_le h.size_le) hbody''
    obtain ⟨body, hbody, hbecomes⟩ := h.becomes index body' hlt hbody'
    exact ⟨body, hbody, hbecomes.trans hbecomes'⟩
  made index body'' hle hbody'' := by
    by_cases hlt : index < heap'.slots.size
    · obtain ⟨body', hbody', hbecomes'⟩ := h'.becomes index body'' hlt hbody''
      exact hbecomes'.made (h.made index body' hle hbody')
    · exact h'.made index body'' (Nat.le_of_not_lt hlt) hbody''

/-- Whether containers were opened need not be said. -/
theorem weaken (h : Follows opened heap heap') : Follows true heap heap' :=
  ⟨h.size_le, h.becomes, fun index body' hle hbody' => ⟨(h.made index body' hle hbody').1, nofun⟩⟩

/-! ## The changes that operations consist of -/

theorem retained (heap : Heap) (handle : Handle) : Follows opened heap (heap.retained handle) :=
  of_body?_eq size_retained fun _ _ hbody => by rwa [body?_retained] at hbody

theorem pushed {o : Object} (heap : Heap) (ho : Made opened (o.content, o.mutable)) :
    Follows opened heap (heap.pushed o) where
  size_le := by
    rw [size_pushed]
    exact Nat.le_succ _
  becomes index body' hlt hbody' := by
    rw [body?, get?_pushed_of_ne (Handle.object_ne hlt.ne)] at hbody'
    exact ⟨body', hbody', .refl body'⟩
  made index body' hle hbody' := by
    rcases hle.eq_or_lt with rfl | hlt
    · rw [body?_of_get? get?_pushed_new] at hbody'
      exact Option.some.inj hbody' ▸ ho
    · have hsize := lt_size_of_live (live_of_body? hbody')
      rw [size_pushed] at hsize
      omega

/-- A container that can be changed gets other contents of its kind. -/
theorem refilled {content content' : Content} {kind : Container}
    (hbody : heap.body? (.object index) = some (content, true))
    (hkind : content.container? = some kind) (hkind' : content'.container? = some kind) :
    Follows opened heap (heap.refilled (.object index) content') where
  size_le := (size_alter _).ge
  becomes other body' _ hbody' := by
    by_cases hother : other = index
    · subst hother
      rw [Heap.refilled, body?_alter_self, hbody] at hbody'
      obtain rfl := Option.some.inj hbody'
      exact ⟨_, hbody, .inr ⟨rfl, rfl, kind, hkind, hkind'⟩⟩
    · rw [Heap.refilled, body?_alter_of_ne _ (Handle.object_ne hother)] at hbody'
      exact ⟨body', hbody', .refl body'⟩
  made other body' hle hbody' := by
    have hlt := lt_size_of_live (live_of_body? hbody')
    rw [Heap.refilled, size_alter] at hlt
    omega

theorem dropOne (heap : Heap) (handle : Handle) : Follows opened heap (heap.dropOne handle).1 := by
  refine dropOne_cases (P := fun result => Follows opened heap result.1) ?_ ?_ ?_ ?_
  · exact fun _ _ => refl heap
  · exact fun _ => of_body?_eq rfl fun _ _ => id
  · intro index o _ ho _
    refine of_body?_eq (size_set _) fun other body' hbody' => ?_
    by_cases hother : other = index
    · subst hother
      rw [body?, get?_set_self _ (lt_size_of_live (live_of_get? ho))] at hbody'
      cases hbody'
    · rwa [body?_set_of_ne _ (Handle.object_ne hother)] at hbody'
  · intro index o _ ho _
    exact of_body?_eq (size_set _) fun other body' hbody' => by rwa [body?_recount ho] at hbody'

theorem releaseAll (pending : List Handle) (heap : Heap) :
    Follows opened heap (heap.releaseAll pending) := by
  fun_induction Heap.releaseAll pending heap with
  | case1 heap => exact refl heap
  | case2 heap handle pending ih => exact (dropOne heap handle).trans ih

theorem release (heap : Heap) (handle : Handle) : Follows opened heap (heap.release handle) :=
  releaseAll [handle] heap

/-! ## Requests -/

theorem ends_allocate {o : Object} (heap : Heap) (ho : Made opened (o.content, o.mutable)) :
    Ends (allocate o) heap (fun _ => Follows opened heap) fun _ => Follows opened heap :=
  Heap.ends_allocate (pushed heap ho) fun _ _ => refl heap

theorem ends_retainAll (handles : List Handle) (heap : Heap) :
    Ends (retainAll handles) heap (fun _ => Follows opened heap) fun _ => Follows opened heap := by
  induction handles generalizing heap with
  | nil => exact ends_pure (refl heap)
  | cons first rest ih =>
      refine ends_bind (ends_retain (fun _ => ?_) fun _ _ => refl heap)
      exact (ih (heap.retained first)).mono (fun _ _ h => (retained heap first).trans h)
        fun _ _ h => (retained heap first).trans h

/-- This holds as well of a creation that is refused in the end. -/
theorem ends_collect {content : Content} {kind : Container} (heap : Heap)
    (hkind : content.container? = some kind) :
    Ends (collect { content }) heap (fun _ => Follows opened heap)
      fun _ => Follows opened heap := by
  have hmade : Made opened (content, false) :=
    ⟨Content.wellFormed_of_container? hkind, fun _ => rfl⟩
  refine ends_bind ((ends_allocate heap hmade).mono (fun handle heap' h => ?_) fun _ _ => id)
  have hretained : Ends (retainAll content.children) heap' (fun _ => Follows opened heap')
      fun _ => Follows opened heap' := ends_retainAll content.children heap'
  apply ends_bind
  apply hretained.mono
  · intro _ heap'' h'
    exact ends_pure (h.trans h')
  · intro _ heap'' h'
    exact h.trans h'

theorem ends_change {kind : Container} {f : Content → Content}
    (hf : ∀ content, content.container? = some kind → (f content).container? = some kind) :
    Ends (change kind handle f) heap (fun _ => Follows opened heap)
      fun _ => Follows opened heap := by
  refine Heap.ends_change (fun index content hindex hbody hkind => ?_) fun _ _ => refl heap
  subst hindex
  exact refilled hbody hkind (hf content hkind)

/-- No request changes what is sealed, whether it is refused or not. -/
theorem ends_answer (heap : Heap) (request : Request) :
    Ends (answer request) heap (fun _ => Follows request.opens heap)
      fun _ => Follows request.opens heap := by
  cases request with
  | retain handle => exact ends_retain (fun _ => retained heap handle) fun _ _ => refl heap
  | createText text mutable | createData bytes mutable => exact ends_allocate heap ⟨trivial, id⟩
  | createNumber number => exact ends_allocate heap ⟨trivial, fun _ => rfl⟩
  | create kind => exact ends_allocate heap ⟨by cases kind <;> trivial, nofun⟩
  | copy kind handle =>
      refine ends_bind (ends_reading (fun content hcontent => ?_) fun _ _ => refl heap)
      obtain ⟨mutable, -, hkind⟩ := containerOf_eq_ok.mp hcontent
      exact ends_collect heap hkind
  | members set =>
      exact ends_bind (ends_reading (fun members _ => ends_collect heap rfl) fun _ _ => refl heap)
  | createCustom type bytes =>
      refine ends_bind (ends_reading (fun _ hregistered => ?_) fun _ _ => refl heap)
      refine ends_allocate heap ⟨?_, fun _ => rfl⟩
      split at hregistered
      · next h => exact h.1
      · exact nomatch hregistered
  -- counting a reference changes no contents, and what is refilled stays of its kind
  | append array item =>
      refine ends_append (fun index items hindex hbody _ => ?_) fun _ _ => refl heap
      subst hindex
      exact (retained heap item).trans (refilled ((body?_retained _).trans hbody) rfl rfl)
  | addMember set member =>
      refine ends_addMember (fun _ _ _ _ _ _ => refl heap)
        (fun index content mutable members hindex _ hbody _ => ?_) fun _ _ => refl heap
      subst hindex
      exact (retained heap member).trans (refilled ((body?_retained _).trans hbody) rfl rfl)
  | putEntry dictionary key value =>
      refine ends_putEntry (fun index text mutable entries hindex _ _ hbody _ => ?_)
        (fun index text mutable entries place old hindex _ _ hbody _ _ => ?_) fun _ _ => refl heap
      · subst hindex
        have hbody' : ((heap.retained value).retained key).body? (.object index) =
            some (.dictionary entries, true) := by
          rw [body?_retained, body?_retained, hbody]
        exact ((retained heap value).trans (retained _ key)).trans (refilled hbody' rfl rfl)
      · subst hindex
        have hbody' : (heap.retained value).body? (.object index) =
            some (.dictionary entries, true) := by
          rw [body?_retained, hbody]
        exact ((retained heap value).trans (refilled hbody' rfl rfl)).trans (release _ _)
  | appendIndex | addIndex | addPair =>
      refine ends_change fun content hkind => ?_
      cases content <;> first | rfl | exact nomatch hkind
  | typeOf | textBytes | readNumber | readBoolean | dataBytes | count | itemAt | entries | indexAt
  | firstIndex | lastIndex | pairAt | customBytes =>
      exact ends_reading (fun _ _ => refl heap) fun _ _ => refl heap

/-- No operation changes what is sealed. -/
theorem perform (operation : Operation) (heap : Heap) :
    Follows true heap (operation.perform heap).2 := by
  cases operation with
  | ask request =>
      exact Operation.attempted_of_ends (Q := fun _ => Follows true heap)
        ((ends_answer heap request).mono (fun _ _ => weaken) fun _ _ => weaken)
  | release handle => exact release heap handle
  | createUnreadable layout =>
      exact Operation.attempted_of_ends (Q := fun _ => Follows true heap)
        (ends_allocate heap ⟨trivial, nofun⟩)
  | registerType name =>
      show Follows true heap (heap.registerType name).2
      unfold registerType
      split
      · exact refl heap
      · exact of_body?_eq rfl fun _ _ => id
  | setBudget budget => exact of_body?_eq rfl fun _ _ => id
  | log notice harmless => exact of_body?_eq rfl fun _ _ => id

end Follows

/-- A heap that operations lead to has made all its objects itself. -/
theorem Reachable.follows (h : heap.Reachable) : Follows true {} heap := by
  induction h with
  | fresh => exact .refl _
  | step operation _ ih => exact ih.trans (.perform operation _)

/-- Custom objects of a heap that operations lead to have types of their own. -/
theorem Reachable.wellFormed (h : heap.Reachable) {body : Content × Bool}
    (hbody : heap.body? handle = some body) : body.1.WellFormed := by
  cases handle with
  | boolean b => exact Option.some.inj hbody ▸ trivial
  | outside address => exact nomatch hbody
  | object index => exact (h.follows.made index body (Nat.zero_le index) hbody).wellFormed

end Heap

end Marshal
