import Marshal.Proofs.Heap.Follows
import Marshal.Proofs.Marshaller.Delivering

/-!
# Lowering leaves nothing open

A container is filled as long as it can be changed, and it is given up when a sealed
copy of it was made.  Its maker has the only reference to it, so it is gone then.  At
any time the objects that can be changed are the unfinished containers (`Heap.Shut`),
and in the end there are none: whatever a value was lowered to is sealed
(`Marshaller.Plain.ends_shut`).

Requests other than `create` make nothing that can be changed, unless they are asked
to, and they open nothing, by `Heap.Follows`.  What remains to be seen is that
containers are given up in time.
-/

namespace Marshal

variable {base heap heap' : Heap} {n : Nat} {unfinished owned : Multiset Handle}
  {handle : Handle}

/-! ## Open objects -/

/-- From slot `n` on, only unfinished objects can be changed. -/
def Heap.Shut (n : Nat) (unfinished : Multiset Handle) (heap : Heap) : Prop :=
  ∀ index content, n ≤ index → heap.body? (.object index) = some (content, true) →
    .object index ∈ unfinished

namespace Heap.Shut

/-- At first there is nothing. -/
theorem of_size (heap : Heap) : Shut heap.slots.size unfinished heap := by
  intro index content hle hbody
  have hlt := lt_size_of_live (live_of_body? hbody)
  omega

/-- Nothing is opened, unless an open object is created. -/
theorem follows (h : Shut n unfinished heap) (hfollows : Follows false heap heap') :
    Shut n unfinished heap' := by
  intro index content hle hbody
  by_cases hlt : index < heap.slots.size
  · obtain ⟨body, hbefore, hbecomes⟩ := hfollows.becomes index _ hlt hbody
    rcases hbecomes with rfl | ⟨hopen, -⟩
    · exact h index content hle hbefore
    · -- an open container that has other contents now
      exact h index body.1 hle (hopen ▸ hbefore)
  · have hmade := hfollows.made index _ (Nat.le_of_not_lt hlt) hbody
    exact nomatch hmade.shut rfl

/-- A container is created and remains to be finished. -/
theorem opened (h : Shut n unfinished heap) (o : Object) :
    Shut n (heap.next ::ₘ unfinished) (heap.pushed o) := by
  intro index content hle hbody
  by_cases heq : index = heap.slots.size
  · subst heq
    exact Multiset.mem_cons_self _ _
  · rw [body?, get?_pushed_of_ne (Handle.object_ne heq)] at hbody
    exact Multiset.mem_cons_of_mem (h index content hle hbody)

/-- An unfinished container is given up and gone. -/
theorem discard (h : Shut n (handle ::ₘ unfinished) heap)
    (hgone : ¬ (heap.release handle).Live handle) : Shut n unfinished (heap.release handle) := by
  intro index content hle hbody
  have hmem := h.follows (.release heap handle) index content hle hbody
  rcases Multiset.mem_cons.mp hmem with rfl | hmem
  · exact absurd (live_of_body? hbody) hgone
  · exact hmem

end Heap.Shut

/-! ## Keeping track of open objects -/

/-- References are in order, and only unfinished objects can be changed. -/
structure Neat (base : Heap) (unfinished owned : Multiset Handle) (heap : Heap) : Prop where
  grows : Heap.Grows base unfinished heap owned
  shut : Heap.Shut base.slots.size unfinished heap

namespace Neat

theorem follows {owned' : Multiset Handle} (h : Neat base unfinished owned heap)
    (hgrows : Heap.Grows base unfinished heap' owned') (hfollows : Heap.Follows false heap heap') :
    Neat base unfinished owned' heap' where
  grows := hgrows
  shut := h.shut.follows hfollows

theorem release (h : Neat base unfinished (handle ::ₘ owned) heap) :
    Neat base unfinished owned (heap.release handle) :=
  h.follows h.grows.release (.release heap handle)

theorem discard (h : Neat base (handle ::ₘ unfinished) owned heap) :
    Neat base unfinished owned (heap.release handle) where
  grows := h.grows.finish.release
  shut := h.shut.discard h.grows.not_live_release

end Neat

/-- An action hands over a reference and opens nothing. -/
def LowersNeatly (base : Heap) (x : Action Heap Handle) : Prop :=
  ∀ unfinished owned heap, Neat base unfinished owned heap →
    Ends x heap (fun handle => Neat base unfinished (handle ::ₘ owned))
      fun _ => Neat base unfinished owned

/-- An action opens a container and hands it over unfinished. -/
def CreatesNeatly (base : Heap) (x : Action Heap Handle) : Prop :=
  ∀ unfinished owned heap, Neat base unfinished owned heap →
    Ends x heap (fun handle => Neat base (handle ::ₘ unfinished) owned)
      fun _ => Neat base unfinished owned

/-- An action on an unfinished object opens nothing. -/
def FillsNeatly (base : Heap) (fill : Handle → Action Heap Unit) : Prop :=
  ∀ handle unfinished owned, handle ∈ unfinished →
    Keeps (Neat base unfinished owned) (fill handle)

/-- An action leaves every object what it is, and all that it creates is sealed. -/
def Shuts {α : Type} (x : Action Heap α) : Prop :=
  ∀ heap, Ends x heap (fun _ => Heap.Follows false heap) fun _ => Heap.Follows false heap

theorem Shuts.ends {α : Type} {x : Action Heap α} {owned' : α → Multiset Handle} (hx : Shuts x)
    (h : Neat base unfinished owned heap)
    (hsound : ∀ bound, Ends x heap (fun a => Sound id base bound unfinished (owned' a))
      fun _ => Sound id base bound unfinished owned) :
    Ends x heap (fun a => Neat base unfinished (owned' a)) fun _ => Neat base unfinished owned := by
  refine ((ends_of_sound hsound).and (hx heap)).mono (fun a heap' hgood => ?_)
    fun failure heap' hbad => ?_
  · exact h.follows hgood.1 hgood.2
  · exact h.follows hbad.1 hbad.2

theorem Shuts.lowers {x : Action Heap Handle} (hx : Shuts x)
    (hlowers : ∀ bound, Lowers id base bound x) : LowersNeatly base x := by
  intro unfinished owned heap h
  exact hx.ends h fun bound => hlowers bound unfinished owned heap fun _ => h.grows

theorem Shuts.keeps {x : Action Heap Unit} (hx : Shuts x)
    (hkeeps : ∀ bound, Keeps (Sound id base bound unfinished owned) x) :
    Keeps (Neat base unfinished owned) x := by
  intro heap h
  exact hx.ends h fun bound => hkeeps bound heap fun _ => h.grows

theorem shuts_throw {α : Type} (failure : Failure) : Shuts (throw failure : Action Heap α) :=
  fun heap => ends_throw (.refl heap)

theorem shuts_pure {α : Type} (a : α) : Shuts (pure a) := fun heap => ends_pure (.refl heap)

/-! ## The steps of lowering -/

namespace Marshaller.Plain

variable {m : Marshaller Heap} (h : m.Plain)

include h

theorem shuts_ask {request : Request} (hopens : request.opens = false) :
    Shuts (m.store.ask request) := by
  intro heap
  have hanswer := Heap.Follows.ends_answer heap request
  rw [hopens] at hanswer
  exact h.ends_ask hanswer

theorem keepsNeatly_withReference {acquire : Action Heap Handle} {body : Handle → Action Heap Unit}
    (hacquire : LowersNeatly base acquire)
    (hbody : ∀ handle, Keeps (Neat base unfinished (handle ::ₘ owned)) (body handle)) :
    Keeps (Neat base unfinished owned) (m.store.withReference acquire body) := by
  intro heap hneat
  rw [h.store]
  refine Marshal.ends_withReference ((hacquire unfinished owned heap hneat).mono
    (fun handle heap' hneat' => ?_) fun _ _ => id)
  exact (hbody handle heap' hneat').mono (fun _ _ hneat'' => hneat''.release)
    fun _ _ hneat'' => hneat''.release

/-- A container that cannot be filled is given up. -/
theorem createsNeatly_building (kind : Container) {fill : Handle → Action Heap Unit}
    (hfill : FillsNeatly base fill) :
    CreatesNeatly base (m.store.building (m.store.ask (.create kind)) fill) := by
  intro unfinished owned heap hneat
  have hcreate : Ends (m.store.ask (.create kind)) heap
      (fun handle => Neat base (handle ::ₘ unfinished) owned)
      fun _ => Neat base unfinished owned := by
    refine h.ends_ask (Heap.ends_allocate ⟨?_, ?_⟩ fun _ _ => hneat)
    · exact hneat.grows.created (Content.children_empty kind) rfl
    · exact hneat.shut.opened _
  rw [h.store] at hcreate ⊢
  refine ends_building (hcreate.mono (fun handle heap' hneat' => ?_) fun _ _ => id)
  exact (hfill handle _ owned (Multiset.mem_cons_self _ _) heap' hneat').mono (fun _ _ => id)
    fun _ _ hneat'' => hneat''.discard

/-- The copy is sealed, and what it was made from is given up. -/
theorem lowersNeatly_sealed (kind : Container) {staged : Action Heap Handle}
    (hstaged : CreatesNeatly base staged) : LowersNeatly base (m.sealed kind staged) := by
  intro unfinished owned heap hneat
  unfold sealed
  have hcopy : ∀ handle heap, Neat base (handle ::ₘ unfinished) owned heap →
      Ends (m.store.ask (.copy kind handle)) heap
        (fun copy => Neat base (handle ::ₘ unfinished) (copy ::ₘ owned))
        fun _ => Neat base (handle ::ₘ unfinished) owned := by
    intro handle heap hneat
    obtain ⟨index, rfl, hindex⟩ := hneat.grows.new handle (Multiset.mem_cons_self _ _)
    have hcreated : Ends (m.store.ask (.copy kind (.object index))) heap
        (Heap.Grows.Created base (.object index ::ₘ unfinished) owned)
        fun _ heap' => Heap.Grows base (.object index ::ₘ unfinished) heap' owned :=
      h.ends_ask (hneat.grows.ends_copy hindex)
    refine (hcreated.and (h.shuts_ask rfl heap)).mono (fun copy heap' hgood => ?_)
      fun failure heap' hbad => ?_
    · exact hneat.follows (Heap.Grows.finish hgood.1) hgood.2
    · exact hneat.follows hbad.1 hbad.2
  rw [h.store] at hcopy ⊢
  refine Marshal.ends_withReference ((hstaged unfinished owned heap hneat).mono
    (fun handle heap' hneat' => ?_) fun _ _ => id)
  exact (hcopy handle heap' hneat').mono (fun _ _ hneat'' => hneat''.discard)
    fun _ _ hneat'' => hneat''.discard

/-- The steps of lowering open nothing that is not given up in the end. -/
theorem makesNeatly (base : Heap) :
    m.Makes (fun handles => handles = []) (LowersNeatly base) (CreatesNeatly base)
      (FillsNeatly base) where
  parts hhandles := List.append_eq_nil_iff.mp hhandles
  failed failure := (shuts_throw failure).lowers fun _ => lowers_throw failure
  boolean b := (shuts_pure _).lowers fun _ => lowers_boolean b
  number number :=
    (h.shuts_ask rfl).lowers fun _ => (creates_number h.fronts.store number).lowers
  text text :=
    (h.shuts_ask rfl).lowers fun _ => (creates_text h.fronts.store text false).lowers
  bytes bytes :=
    (h.shuts_ask rfl).lowers fun _ => (creates_bytes h.fronts.store bytes false).lowers
  object o _ := by
    rw [h.registry]
    exact (shuts_throw _).lowers fun _ => lowers_throw _
  refused failure unfinished owned heap hneat := ends_throw hneat
  building kind _ hfill := h.createsNeatly_building kind hfill
  sealed kind _ hstaged := h.lowersNeatly_sealed kind hstaged
  idle _ _ _ _ := keeps_pure _
  seq hfirst hsecond := by
    intro handle unfinished owned hmem
    apply (hfirst handle unfinished owned hmem).bind
    intro _
    exact hsecond handle unfinished owned hmem
  append hitem _ _ _ harray := h.keepsNeatly_withReference hitem fun _ =>
    (h.shuts_ask rfl).keeps fun _ => keeps_append h.fronts.store harray
  addMember hmember _ _ _ hset := h.keepsNeatly_withReference hmember fun _ =>
    (h.shuts_ask rfl).keeps fun _ => keeps_addMember h.fronts.store hset
  putEntry hkey hvalue _ _ _ hdictionary := h.keepsNeatly_withReference hkey fun _ =>
    h.keepsNeatly_withReference hvalue fun _ =>
      (h.shuts_ask rfl).keeps fun _ => keeps_putEntry h.fronts.store hdictionary
  appendIndex value _ _ _ harray :=
    (h.shuts_ask rfl).keeps fun _ => keeps_appendIndex h.fronts.store harray value
  addIndex value _ _ _ hset :=
    (h.shuts_ask rfl).keeps fun _ => keeps_addIndex h.fronts.store hset value
  addPair index value _ _ _ hset :=
    (h.shuts_ask rfl).keeps fun _ => keeps_addPair h.fronts.store hset index value

/-- When a value was lowered, everything that was made and is still there is sealed. -/
theorem ends_shut {room : Nat} {v : Value} (hv : v.wrapped = []) (hpos : heap.Positive) :
    Ends (m.lowerWithin room v) heap (fun _ => Heap.Shut heap.slots.size 0)
      fun _ => Heap.Shut heap.slots.size 0 := by
  have hneat : Neat heap 0 0 heap := ⟨hpos.grows, .of_size heap⟩
  have hends := (h.makesNeatly heap).within room v hv 0 0 heap hneat
  exact hends.mono (fun _ _ hneat' => hneat'.shut) fun _ _ hneat' => hneat'.shut

end Marshaller.Plain

end Marshal
