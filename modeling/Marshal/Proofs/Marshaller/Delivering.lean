import Marshal.Proofs.Heap.Staged
import Marshal.Proofs.Heap.Types
import Marshal.Proofs.Marshaller.Conserving
import Marshal.Proofs.Marshaller.Convertible

/-!
# Lowering delivers what a value denotes

Lowered in any heap, a value becomes an object that stands for its normal form
(`Storable.delivers`), where what domain objects wrap stands for them.  What is lowered
is put together from outside to inside and released from inside to outside.  The container
is created first, and whatever is created for an element lies in later slots, so nothing
that is done for one element touches what stands for another (`Stages`).

Nothing but the budget can get in the way.  `Heap.Short` is a failure for want of
budget, and a heap without a limit never falls short.
-/

namespace Marshal

variable {kept : Handle → Prop} {heap heap' base : Heap} {room : Nat} {v w w' : Value}

/-! ## Want of budget -/

/-- The failure is for want of budget, which the heap has a limited amount of. -/
def Heap.Short (heap : Heap) (failure : Failure) : Prop :=
  heap.budget ≠ none ∧ ∃ name, failure = .refused (.allocationFailed name)

theorem Heap.Spent.short {refusal : Refusal} (h : heap.Spent refusal) :
    heap.Short (.refused refusal) := by
  obtain ⟨hbudget, name, rfl⟩ := h
  exact ⟨by simp [hbudget], name, rfl⟩

/-- Where there was no limit at first, there is none later. -/
theorem Heap.Short.earlier {failure : Failure} (h : heap'.Short failure)
    (hbudget : heap.budget = none → heap'.budget = none) : heap.Short failure :=
  ⟨fun hnone => h.1 (hbudget hnone), h.2⟩

/-! ## Plain marshallers -/

/-- A marshaller that works on the heap itself. -/
structure Marshaller.OnHeap (m : Marshaller Heap) : Prop where
  store : m.store = Heap.store

theorem Marshaller.OnHeap.ends_ask {m : Marshaller Heap} (h : m.OnHeap) {request : Request}
    {good : request.Answer → Heap → Prop} {bad : Failure → Heap → Prop}
    (hanswer : Ends (Heap.answer request) heap good fun refusal => bad (.refused refusal)) :
    Ends (m.store.ask request) heap good bad := by
  rw [h.store]
  exact Marshal.ends_ask hanswer

/-- A marshaller of the heap that reads the standard types as such. -/
structure Marshaller.Standard (m : Marshaller Heap) : Prop extends m.OnHeap where
  kindOf : ∀ type : StandardType, m.types.kindOf type.id = .standard type

/-- A marshaller of the heap without converters, which knows the standard types. -/
structure Marshaller.Plain (m : Marshaller Heap) : Prop extends m.Standard where
  registry : m.registry = {}

theorem Heap.Reachable.plain (h : heap.Reachable) (limits : Limits) :
    (Marshaller.make Heap.store heap {} limits).Plain where
  store := rfl
  kindOf := TypeTable.kindOf_build h.standardFirst {}
  registry := rfl

/-- A marshaller of the heap whose converters only share. -/
structure Marshaller.Sharing (m : Marshaller Heap) : Prop extends m.OnHeap where
  registry : m.registry.SharesOnly

theorem Marshaller.Plain.sharing {m : Marshaller Heap} (h : m.Plain) : m.Sharing where
  store := h.store
  registry := by
    rw [h.registry]
    exact fun converter hmem => absurd hmem List.not_mem_nil

theorem Marshaller.Sharing.fronts {m : Marshaller Heap} (h : m.Sharing) : m.Fronts id where
  store := by
    rw [h.store]
    exact Heap.fronts
  registry := h.registry

theorem Marshaller.Plain.fronts {m : Marshaller Heap} (h : m.Plain) : m.Fronts id :=
  h.sharing.fronts

/-- The converters retain what the object wraps. -/
def Marshaller.Retains (m : Marshaller Heap) (o : DomainObject) : Prop :=
  ∃ handle, o.handle = some handle ∧
    m.registry.lower m.store o = do
      m.store.ask (.retain handle)
      pure handle

/-! ## What is delivered -/

/-- From `heap` on, an object was made that stands for the value, and there is one
reference to it.  Unless the object was made, it is one of those that are kept. -/
structure Yields (kept : Handle → Prop) (heap : Heap) (room : Nat) (v : Value) (handle : Handle)
    (heap' : Heap) : Prop where
  grows : Heap.Grows heap 0 heap' {handle}
  stands : Heap.Stands kept heap.slots.size heap' room handle v
  unlimited : heap.budget = none → heap'.budget = none

/-- Where nothing is kept, the object was made. -/
theorem Yields.denotes {handle : Handle} (h : Yields (fun _ => False) heap room v handle heap') :
    Heap.Denotes heap.slots.size heap' room handle v :=
  h.stands.denotes fun _ => id

/-- The action makes or shares an object that stands for the value, or falls short. -/
structure Delivers (kept : Handle → Prop) (acquire : Action Heap Handle) (room : Nat) (v : Value) :
    Prop where
  lowers : ∀ base bound, base.Provides kept → Lowers id base bound acquire
  stands : ∀ heap : Heap, heap.Positive → heap.Provides kept → Ends acquire heap
    (fun handle heap' => Heap.Stands kept heap.slots.size heap' room handle v ∧
      (heap.budget = none → heap'.budget = none))
    fun failure _ => heap.Short failure

theorem Delivers.ends {acquire : Action Heap Handle} (h : Delivers kept acquire room v)
    (hpos : heap.Positive) (hkept : heap.Provides kept) :
    Ends acquire heap (Yields kept heap room v) fun failure _ => heap.Short failure := by
  -- that references are conserved is known from `Lowers`, whatever stands for what
  have hgrows : Ends acquire heap (fun handle heap' => Heap.Grows heap 0 heap' (handle ::ₘ 0))
      fun _ heap' => Heap.Grows heap 0 heap' 0 :=
    ends_of_sound fun bound => h.lowers heap bound hkept 0 0 heap fun _ => hpos.grows
  refine (hgrows.and (h.stands heap hpos hkept)).mono (fun handle heap' hgood => ?_)
    fun _ _ hbad => hbad.2
  exact ⟨hgood.1, hgood.2.1, hgood.2.2⟩

/-! ## Filling a container -/

/-- A container created in `base` is being filled and stands for the value by now. -/
structure Stages (kept : Handle → Prop) (base : Heap) (room : Nat) (v : Value) (heap : Heap) :
    Prop where
  provides : base.Provides kept
  grows : Heap.Grows base {base.next} heap 0
  staged : Heap.Staged kept base heap room v
  unlimited : base.budget = none → heap.budget = none

theorem Stages.provides_now (h : Stages kept base room w heap) : heap.Provides kept :=
  h.provides.later h.grows.conserved

/-- A step of filling: the container stands for something else afterwards. -/
theorem Stages.step {α : Type} {x : Action Heap α} (h : Stages kept base room w heap)
    (hkeeps : ∀ bound, Keeps (Sound id base bound {base.next} 0) x)
    (hx : Ends x heap
      (fun _ heap' => Heap.Left kept base room w' heap' ∧
        (heap.budget = none → heap'.budget = none))
      fun failure _ => heap.Short failure) :
    Ends x heap (fun _ => Stages kept base room w') fun failure _ => base.Short failure := by
  have hgrows : Ends x heap (fun _ heap' => Heap.Grows base {base.next} heap' 0)
      fun _ heap' => Heap.Grows base {base.next} heap' 0 :=
    ends_of_sound fun bound => hkeeps bound heap fun _ => h.grows
  refine (hgrows.and hx).mono (fun _ heap' hgood => ?_) fun _ _ hbad => hbad.2.earlier h.unlimited
  obtain ⟨hgrows', hleft, hunlimited⟩ := hgood
  -- the releases of the step took nothing away that the container holds
  exact ⟨h.provides, hgrows', hleft.staged hgrows', fun hnone => hunlimited (h.unlimited hnone)⟩

namespace Marshaller.Sharing

variable {m : Marshaller Heap} (h : m.Sharing)

include h

/-- Something is made, used to fill a container, and released. -/
theorem ends_withReference {acquire : Action Heap Handle} {body : Handle → Action Heap Unit}
    (hacquire : Delivers kept acquire room v) (hpos : heap.Positive) (hkept : heap.Provides kept)
    (hbody : ∀ handle heap', Yields kept heap room v handle heap' → Ends (body handle) heap'
      (fun _ heap'' => Heap.Left kept base room w heap'' ∧
        (heap'.budget = none → heap''.budget = none))
      fun failure _ => heap'.Short failure) :
    Ends (m.store.withReference acquire body) heap
      (fun _ heap' => Heap.Left kept base room w heap' ∧
        (heap.budget = none → heap'.budget = none))
      fun failure _ => heap.Short failure := by
  rw [h.store]
  refine Marshal.ends_withReference ((hacquire.ends hpos hkept).mono
    (fun handle heap' hyields => ?_)
    fun _ _ => id)
  refine (hbody handle heap' hyields).mono (fun _ heap'' hgood => ⟨hgood.1.release handle, ?_⟩)
    fun _ _ hshort => hshort.earlier hyields.unlimited
  exact fun hnone => Heap.stable_unlimited.release handle (hgood.2 (hyields.unlimited hnone))

/-- An item is lowered and appended to an array. -/
theorem ends_item {item : Value} {built : List Value}
    (hitem : Delivers kept (m.lowerWithin room item) room v)
    (hs : Stages kept base room (.list built) heap) :
    Ends (m.store.withReference (m.lowerWithin room item) fun handle =>
        m.store.ask (.append base.next handle)) heap
      (fun _ => Stages kept base room (.list (built ++ [v])))
      fun failure _ => base.Short failure := by
  refine hs.step (fun bound => ?_)
    (h.ends_withReference hitem hs.grows.conserved.positive hs.provides_now ?_)
  · exact (hitem.lowers base bound hs.provides).withReference h.fronts.store fun _ =>
      keeps_append h.fronts.store (Multiset.mem_singleton_self _)
  · intro handle heap' hyields
    have happend := hs.staged.ends_append hs.provides hyields.grows.conserved hyields.stands
    exact h.ends_ask (happend.mono (fun _ _ => id) fun _ _ => False.elim)

/-- A member is lowered and added to a set. -/
theorem ends_member {member : Value} {built : List Value}
    (hmember : Delivers kept (m.lowerWithin room member) room v) (hv : v.scalar?.isSome)
    (hscalars : ∀ w ∈ built, w.scalar?.isSome) (hs : Stages kept base room (.set built) heap) :
    Ends (m.store.withReference (m.lowerWithin room member) fun handle =>
        m.store.ask (.addMember base.next handle)) heap
      (fun _ => Stages kept base room (.set (Value.adjoin v built)))
      fun failure _ => base.Short failure := by
  refine hs.step (fun bound => ?_)
    (h.ends_withReference hmember hs.grows.conserved.positive hs.provides_now ?_)
  · exact (hmember.lowers base bound hs.provides).withReference h.fronts.store fun _ =>
      keeps_addMember h.fronts.store (Multiset.mem_singleton_self _)
  · intro handle heap' hyields
    have hadd := hs.staged.ends_addMember hs.provides hyields.grows.conserved hyields.stands hv
      hscalars
    exact h.ends_ask (hadd.mono (fun _ _ => id) fun _ _ => False.elim)

/-- A key and a value are lowered and put into a dictionary. -/
theorem ends_entry {key : String} {value : Value} {built : List (Value × Value)}
    (hkey : Delivers kept (m.store.lowerText key false) room (.text key))
    (hvalue : Delivers kept (m.lowerWithin room value) room v)
    (htexts : ∀ entry ∈ built, ∃ s, entry.1 = .text s)
    (hs : Stages kept base room (.dict built) heap) :
    Ends (m.store.withReference (m.store.lowerText key false) fun keyHandle =>
        m.store.withReference (m.lowerWithin room value) fun valueHandle =>
          m.store.ask (.putEntry base.next keyHandle valueHandle)) heap
      (fun _ => Stages kept base room (.dict (Value.put (.text key) v built)))
      fun failure _ => base.Short failure := by
  refine hs.step (fun bound => ?_)
    (h.ends_withReference hkey hs.grows.conserved.positive hs.provides_now ?_)
  · exact (hkey.lowers base bound hs.provides).withReference h.fronts.store fun _ =>
      (hvalue.lowers base bound hs.provides).withReference h.fronts.store fun _ =>
        keeps_putEntry h.fronts.store (Multiset.mem_singleton_self _)
  · intro keyHandle heap' hkeyYields
    refine h.ends_withReference hvalue hkeyYields.grows.conserved.positive
      (hs.provides_now.later hkeyYields.grows.conserved) ?_
    intro valueHandle heap'' hvalueYields
    have hext := (hkeyYields.grows.trans hvalueYields.grows).conserved
    have hput := hs.staged.ends_putEntry hs.provides hext
      (hkeyYields.stands.later hvalueYields.grows.conserved)
      (hvalueYields.stands.mono hkeyYields.grows.conserved.size_le) htexts
    exact h.ends_ask (hput.mono (fun _ _ => id) fun _ _ => False.elim)

/-! ### All elements -/

theorem ends_items {items built : List Value}
    (hitems : ∀ item ∈ items, Delivers kept (m.lowerWithin room item) room item.normal)
    (hs : Stages kept base room (.list built) heap) :
    Ends (m.appendAll room base.next items) heap
      (fun _ => Stages kept base room (.list (built ++ items.map Value.normal)))
      fun failure _ => base.Short failure := by
  induction items generalizing built heap with
  | nil =>
      rw [List.map_nil, List.append_nil]
      exact ends_pure hs
  | cons item items ih =>
      rw [List.forall_mem_cons] at hitems
      refine ends_bind ((h.ends_item hitems.1 hs).mono (fun _ heap' hs' => ?_) fun _ _ => id)
      rw [List.map_cons, List.append_cons]
      exact ih hitems.2 hs'

theorem ends_members {members built : List Value}
    (hmembers : ∀ member ∈ members, Delivers kept (m.lowerWithin room member) room member)
    (hscalars : ∀ member ∈ members, member.scalar?.isSome) (hbuilt : ∀ w ∈ built, w.scalar?.isSome)
    (hs : Stages kept base room (.set built) heap) :
    Ends (m.addAll room base.next members) heap
      (fun _ => Stages kept base room (.set (Value.gathered built members)))
      fun failure _ => base.Short failure := by
  induction members generalizing built heap with
  | nil => exact ends_pure hs
  | cons member members ih =>
      rw [List.forall_mem_cons] at hmembers hscalars
      refine ends_bind ((h.ends_member hmembers.1 hscalars.1 hbuilt hs).mono (fun _ heap' hs' => ?_)
        fun _ _ => id)
      refine ih hmembers.2 hscalars.2 (fun w hw => ?_) hs'
      rcases Value.mem_of_mem_adjoin hw with rfl | hold
      · exact hscalars.1
      · exact hbuilt w hold

/-! ### Scalars and domain objects -/

/-- What is kept is not handed out on the way. -/
theorem lowers_within (hwrapped : ∀ handle ∈ v.wrapped, kept handle) (base : Heap) (bound : Nat)
    (hkept : base.Provides kept) : Lowers id base bound (m.lowerWithin room v) := by
  apply h.fronts.lowers_within room v
  intro index hmem
  exact .inl (Heap.lt_size_of_live (hkept _ (hwrapped _ hmem)))

omit h in
theorem ends_created {o : Object} (hv : v.scalar? = some o.content)
    (hfits : ∀ handle : Handle, handle.Fits v) :
    Ends (Heap.allocate o) heap
      (fun handle heap' => Heap.Stands kept heap.slots.size heap' room handle v ∧
        (heap.budget = none → heap'.budget = none))
      fun refusal _ => heap.Short (.refused refusal) := by
  refine Heap.ends_allocate ⟨?_, fun hbudget => ?_⟩ fun refusal hspent => hspent.short
  · exact .of_scalar hv (Handle.since_object le_rfl)
      (Heap.body?_of_get? Heap.get?_pushed_new) (hfits _)
  · rw [Heap.pushed, hbudget]
    rfl

theorem delivers_scalar (hv : v.scalar?.isSome) :
    Delivers kept (m.lowerWithin room v) room v where
  lowers := h.lowers_within fun handle hmem => by
    rw [Value.wrapped_of_scalar hv] at hmem
    exact absurd hmem List.not_mem_nil
  stands heap _ _ := by
    cases v with
    | bool b => exact ends_pure ⟨.of_scalar rfl (fun _ => nofun) rfl rfl, id⟩
    | int n => exact h.ends_ask (ends_created rfl fun _ => trivial)
    | float x => exact h.ends_ask (ends_created rfl fun _ => trivial)
    | complex z => exact h.ends_ask (ends_created rfl fun _ => trivial)
    | text s => exact h.ends_ask (ends_created rfl fun _ => trivial)
    | bytes b => exact h.ends_ask (ends_created rfl fun _ => trivial)
    | _ => exact nomatch hv

/-- What an object wraps stands for it. -/
theorem delivers_object {o : DomainObject} (ho : m.Retains o)
    (hwrapped : ∀ handle ∈ (Value.object o).wrapped, kept handle) :
    Delivers kept (m.lowerWithin room (.object o)) room (.object o) where
  lowers := h.lowers_within hwrapped
  stands heap _ hkept := by
    obtain ⟨handle, hhandle, heq⟩ := ho
    have hold : kept handle := hwrapped handle (by simp [Value.wrapped, hhandle])
    show Ends (m.registry.lower m.store o) heap _ _
    rw [heq]
    refine ends_bind (h.ends_ask (Heap.ends_retain (fun hlive => ends_pure ⟨?_, fun hbudget => ?_⟩)
      fun hdead => absurd (hkept handle hold) hdead))
    · exact .of_wraps ⟨o, rfl, hhandle, hold, Heap.live_retained.mpr hlive⟩
    · rw [Heap.budget_retained, hbudget]

/-! ### Dictionaries -/

theorem ends_entries {entries built : List (Value × Value)} {keys : List String}
    (hkeys : keyTexts entries = .ok keys)
    (hvalues : ∀ entry ∈ entries, Delivers kept (m.lowerWithin room entry.2) room entry.2.normal)
    (htexts : ∀ entry ∈ built, ∃ s, entry.1 = .text s)
    (hs : Stages kept base room (.dict built) heap) :
    Ends (m.putAll room base.next keys entries) heap
      (fun _ => Stages kept base room (.dict (Value.merged built (Value.normalEntries entries))))
      fun failure _ => base.Short failure := by
  induction entries generalizing keys built heap with
  | nil => cases keys <;> exact ends_pure hs
  | cons entry entries ih =>
      rw [List.forall_mem_cons] at hvalues
      obtain ⟨key, rest, hkey, hrest, rfl⟩ := keyTexts_cons.mp hkeys
      have htext : Delivers kept (m.store.lowerText key false) room (.text key) :=
        h.delivers_scalar (v := .text key) rfl
      refine ends_bind ((h.ends_entry htext hvalues.1 htexts hs).mono (fun _ heap' hs' => ?_)
        fun _ _ => id)
      have hnormal : Value.merged built (Value.normalEntries (entry :: entries)) =
          Value.merged (Value.put (.text key) entry.2.normal built)
            (Value.normalEntries entries) := by
        rw [← Value.textual_of_keyText hkey]
        rfl
      rw [hnormal]
      refine ih hrest hvalues.2 (fun other hother => ?_) hs'
      have hall : ∀ other ∈ Value.put (.text key) entry.2.normal built,
          (∃ s, other.1 = .text s) ∧ True :=
        Value.forall_put (P := fun key => ∃ s, key = .text s) (Q := fun _ => True) ⟨key, rfl⟩
          trivial fun other hother => ⟨htexts other hother, trivial⟩
      exact (hall other hother).1

/-! ### Staging and sealing -/

/-- A container is created and filled. -/
theorem ends_stage {β : Type} {kind : Container} {checked : β}
    {fill : Nat → β → Handle → Action Heap Unit} (hpos : base.Positive)
    (hkept : base.Provides kept)
    (hempty : ∀ child, Shows (some child) (.empty kind) w)
    (hfill : ∀ heap, Stages kept base room w heap → Ends (fill room checked base.next) heap
      (fun _ => Stages kept base room w') fun failure _ => base.Short failure) :
    Ends (m.stage kind (room + 1) (.ok checked) fill) base
      (fun handle heap => handle = base.next ∧ Stages kept base room w' heap)
      fun failure _ => base.Short failure := by
  have hcreate : Ends (m.store.ask (.create kind)) base
      (fun handle heap => handle = base.next ∧ Stages kept base room w heap)
      fun failure _ => base.Short failure := by
    refine h.ends_ask (Heap.ends_allocate ?_ fun refusal hspent => hspent.short)
    refine ⟨rfl, hkept, ?_, ⟨_, Heap.body?_of_get? Heap.get?_pushed_new, hempty _⟩,
      fun hbudget => ?_⟩
    · exact hpos.grows.created (Content.children_empty kind) rfl
    · rw [Heap.pushed, hbudget]
      rfl
  refine ends_building (hcreate.mono (fun handle heap hcreated => ?_) fun _ _ => id)
  obtain ⟨rfl, hs⟩ := hcreated
  exact (hfill heap hs).mono (fun _ heap' hs' => ⟨rfl, hs'⟩) fun _ _ => id

/-- A filled container is replaced by a sealed copy. -/
theorem ends_sealed {kind : Container} {staged : Action Heap Handle}
    (hstaged : Ends staged base
      (fun handle heap => handle = base.next ∧ Stages kept base room w heap)
      fun failure _ => base.Short failure)
    (hfits : ∀ handle : Handle, handle.Fits w)
    (hkind : ∀ content child, Shows (some child) content w → content.container? = some kind) :
    Ends (m.sealed kind staged) base
      (fun handle heap => Heap.Stands kept base.slots.size heap (room + 1) handle w ∧
        (base.budget = none → heap.budget = none))
      fun failure _ => base.Short failure := by
  unfold sealed
  rw [h.store]
  refine Marshal.ends_withReference (hstaged.mono (fun handle heap hfilled => ?_) fun _ _ => id)
  obtain ⟨rfl, hs⟩ := hfilled
  have hcopy : Ends (Heap.copy kind base.next) heap
      (fun handle heap' => Heap.Grows.Created base 0 {base.next} handle heap' ∧
        Heap.Stands kept base.slots.size heap' (room + 1) handle w ∧
        (heap.budget = none → heap'.budget = none))
      fun refusal _ => heap.Short (.refused refusal) := by
    have hstands := hs.staged.ends_copy hs.grows.conserved.closedSince hfits hkind
    have hcreated : Ends (Heap.copy kind base.next) heap (Heap.Grows.Created base 0 {base.next})
        fun _ heap' => Heap.Grows base 0 heap' {base.next} := hs.grows.finish.ends_copy le_rfl
    exact (hcreated.and hstands).mono (fun _ _ => id) fun _ _ hbad => hbad.2.short
  refine Marshal.ends_ask (hcopy.mono (fun handle heap' hgood => ?_) fun _ _ hshort =>
    hshort.earlier hs.unlimited)
  obtain ⟨hcreated, hstands, hunlimited⟩ := hgood
  -- the container is given up, and the copy keeps what both of them held
  have hreleased := hcreated.release.finish
  refine ⟨?_, fun hnone => Heap.stable_unlimited.release _ (hunlimited (hs.unlimited hnone))⟩
  exact hstands.leaves (Heap.leaves_release base.next heap') hreleased.conserved.closedSince
    (hreleased.live_of_owned (Multiset.mem_cons_self _ _))

/-! ### Containers -/

theorem ends_stageArray {items : List Value}
    (hitems : ∀ item ∈ items, Delivers kept (m.lowerWithin room item) room item.normal)
    (hpos : base.Positive) (hkept : base.Provides kept) :
    Ends (m.stageArray (room + 1) items) base
      (fun handle heap => handle = base.next ∧ Stages kept base room (Value.list items).normal heap)
      fun failure _ => base.Short failure := by
  rw [Value.normal_list]
  exact h.ends_stage hpos hkept (fun child => .list rfl .nil) fun heap hs => h.ends_items hitems hs

theorem ends_stageDictionary {entries : List (Value × Value)}
    (hkeys : ∀ entry ∈ entries, ∃ s, entry.1.keyText = .ok s)
    (hvalues : ∀ entry ∈ entries, Delivers kept (m.lowerWithin room entry.2) room entry.2.normal)
    (hpos : base.Positive) (hkept : base.Provides kept) :
    Ends (m.stageDictionary (room + 1) entries) base
      (fun handle heap =>
        handle = base.next ∧ Stages kept base room (Value.dict entries).normal heap)
      fun failure _ => base.Short failure := by
  obtain ⟨keys, hok⟩ := exists_keyTexts.mpr hkeys
  rw [stageDictionary, hok]
  exact h.ends_stage hpos hkept (fun child => .dict rfl .nil) fun heap hs =>
    h.ends_entries hok hvalues (List.forall_mem_nil _) hs

theorem ends_stageSet {members : List Value} (hscalars : ∀ member ∈ members, member.scalar?.isSome)
    (hpos : base.Positive) (hkept : base.Provides kept) :
    Ends (m.stageSet (room + 1) members) base
      (fun handle heap =>
        handle = base.next ∧ Stages kept base room (Value.set members).normal heap)
      fun failure _ => base.Short failure := by
  rw [stageSet, checkMembers_of_scalars hscalars]
  exact h.ends_stage hpos hkept (fun child => .set rfl .nil) fun heap hs =>
    h.ends_members (fun member hmember => h.delivers_scalar (hscalars member hmember)) hscalars
      (List.forall_mem_nil _) hs

end Marshaller.Sharing

/-- What stands for a list is an array, and so on. -/
theorem Shows.container?_eq {child : Handle → Value → Prop} {content : Content}
    (h : Shows (some child) content v) :
    content.container? = match v with
      | .list _ => some .array
      | .dict _ => some .dictionary
      | .set _ => some .valueSet
      | _ => none := by
  cases h with
  | scalar h => cases v <;> cases h <;> rfl
  | list => rfl
  | dict => rfl
  | set => rfl

/-- Every value that can be stored is delivered, in its normal form, if it has no domain objects
in sets. -/
theorem Value.Storable.delivers {m : Marshaller Heap} (hm : m.Sharing)
    (h : Storable m.Retains room v) (hbare : v.bareSets)
    (hwrapped : ∀ handle ∈ v.wrapped, kept handle) :
    Delivers kept (m.lowerWithin room v) room v.normal := by
  refine ⟨hm.lowers_within hwrapped, ?_⟩
  induction h with
  | scalar h =>
      obtain ⟨content, hcontent⟩ := Option.isSome_iff_exists.mp h
      rw [normal_of_scalar hcontent]
      exact (hm.delivers_scalar h).stands
  | object ho => exact (hm.delivers_object ho hwrapped).stands
  | list hitems ih =>
      intro heap hpos hkept
      have hparts := forall_wrappedIn.mp hwrapped
      have hstage := hm.ends_stageArray (fun item hitem => ⟨hm.lowers_within (hparts item hitem),
        ih item hitem (bareSetsIn_iff.mp hbare item hitem) (hparts item hitem)⟩) hpos hkept
      exact hm.ends_sealed hstage (fun _ => trivial) fun content child hshows =>
        hshows.container?_eq
  | dict hkeys hvalues ih =>
      intro heap hpos hkept
      have hparts := forall_wrappedUnder.mp hwrapped
      have hstage := hm.ends_stageDictionary hkeys (fun entry hentry =>
        ⟨hm.lowers_within (hparts entry hentry),
          ih entry hentry (bareSetsUnder_iff.mp hbare entry hentry) (hparts entry hentry)⟩)
        hpos hkept
      exact hm.ends_sealed hstage (Handle.fits_normal hkeys) fun content child hshows =>
        hshows.container?_eq
  | set hflat hmembers =>
      intro heap hpos hkept
      have hscalars := isSome_of_bareSets hbare hflat hmembers
      exact hm.ends_sealed (hm.ends_stageSet hscalars hpos hkept) (fun _ => trivial)
        fun content child hshows => hshows.container?_eq

/-- Without domain objects, nothing is kept. -/
theorem Value.Convertible.delivers {m : Marshaller Heap} (hm : m.Plain) (h : Convertible room v) :
    Delivers (fun _ => False) (m.lowerWithin room v) room v.normal := by
  refine h.storable.delivers hm.sharing h.bareSets fun handle hmem => ?_
  rw [h.wrapped_eq_nil] at hmem
  exact absurd hmem List.not_mem_nil

theorem Value.Convertible.ends {m : Marshaller Heap} (hm : m.Plain) (h : Convertible room v)
    (hpos : heap.Positive) :
    Ends (m.lowerWithin room v) heap (Yields (fun _ => False) heap room v.normal)
      fun failure _ => heap.Short failure :=
  (h.delivers hm).ends hpos fun _ => False.elim

/-- Where budget is not wanting, exactly what can be stored is lowered. -/
theorem Marshaller.Plain.lower_iff {m : Marshaller Heap} (h : m.Plain) (hpos : heap.Positive)
    (hpaid : ∀ failure heap', m.lower v heap = .error failure heap' → ¬ heap.Short failure) :
    (∃ handle heap', m.lower v heap = .ok handle heap') ↔ v.Convertible m.limits.maxDepth := by
  constructor
  · rintro ⟨handle, heap', hrun⟩
    exact (tells_within h.registry m.limits.maxDepth v heap).of_ok hrun
  · intro hx
    cases hrun : m.lower v heap with
    | ok handle heap' => exact ⟨handle, heap', rfl⟩
    | error failure heap' =>
        exact absurd ((hx.ends h hpos).of_error hrun) (hpaid failure heap' hrun)

end Marshal
