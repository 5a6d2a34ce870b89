import Marshal.Proofs.Heap.Follows
import Marshal.Proofs.Heap.Grounded

/-!
# Where contents come from

After an operation an object has contents that some object had before, or contents that
the operation made of what it found.  There are few ways to do that, and `Heap.Origin`
lists them, each with what the operation made sure of before.

So what requests do to contents is looked up once, in `Arises.perform`.  An invariant of
contents is kept by every operation if it is kept by each way in the list.
-/

namespace Marshal

/-- Contents that may be in a slot whatever else is there: without references or sorted keys,
and of a type that need not be registered. -/
def Content.isBare : Content → Bool
  | text _ | number _ | data _ | indexArray _ => true
  | _ => false

namespace Heap

variable {heap heap' : Heap} {content : Content}

/-- What the contents of an object can be after an operation on the heap. -/
inductive Origin (heap : Heap) : Content → Prop
  | bare {content : Content} (hbare : content.isBare) : Origin heap content
  | empty (kind : Container) : Origin heap (.empty kind)
  | custom {type : TypeId} (bytes : List UInt8) (htype : type.isCustom)
      (hlisted : (heap.typeName? type).isSome) : Origin heap (.custom type bytes)
  /-- Some object has them, maybe another one. -/
  | kept {index : Nat} {content : Content} {mutable : Bool}
      (hbody : heap.body? (.object index) = some (content, mutable)) : Origin heap content
  | listed {set : Handle} {members : List Handle} {mutable : Bool}
      (hbody : heap.body? set = some (.members members, mutable)) :
      Origin heap (.array members.toArray)
  | appended {array item : Handle} {items : Array Handle}
      (hbody : heap.body? array = some (.array items, true)) (hitem : heap.Live item) :
      Origin heap (.array (items.push item))
  | added {set member : Handle} {members : List Handle} {content : Content} {mutable : Bool}
      (hbody : heap.body? set = some (.members members, true))
      (hmember : heap.body? member = some (content, mutable))
      (hnew : heap.hasMember members member content = false) :
      Origin heap (.members (members ++ [member]))
  | entered {dictionary key value : Handle} {entries : List (Handle × Handle)} {text : String}
      {mutable : Bool} (hbody : heap.body? dictionary = some (.dictionary entries, true))
      (hkey : heap.body? key = some (.text text, mutable)) (hvalue : heap.Live value)
      (hnew : heap.keyPlace? entries key text = none) :
      Origin heap (.dictionary (entries ++ [(key, value)]))
  | replaced {dictionary value : Handle} {entries : List (Handle × Handle)} {place : Nat}
      {old : Handle × Handle} (hbody : heap.body? dictionary = some (.dictionary entries, true))
      (hvalue : heap.Live value) (hold : entries[place]? = some old) :
      Origin heap (.dictionary (entries.modify place fun entry => (entry.1, value)))
  | indexed {set : Handle} {values : List Int64} (value : Int64)
      (hbody : heap.body? set = some (.indexSet values, true)) :
      Origin heap (.indexSet (Sorted.insert Sorted.descending value values))
  | paired {set : Handle} {pairs : List (Int64 × Int64)} (index value : Int64)
      (hbody : heap.body? set = some (.pairSet pairs, true)) :
      Origin heap (.pairSet (Sorted.put Sorted.descending index value pairs))

/-- The contents of the second heap come from the first one. -/
def Arises (heap heap' : Heap) : Prop := ∀ index content mutable,
  heap'.body? (.object index) = some (content, mutable) → heap.Origin content

namespace Arises

variable {between : Heap}

/-! ## The changes that operations consist of -/

/-- What is still there comes from where it came from. -/
theorem congr (h : heap.Arises between)
    (hbody : ∀ handle, heap'.Live handle → heap'.body? handle = between.body? handle) :
    heap.Arises heap' := by
  intro index content mutable hcontent
  rw [hbody _ (live_of_body? hcontent)] at hcontent
  exact h index content mutable hcontent

theorem refl (heap : Heap) : heap.Arises heap := fun _ _ _ hbody => .kept hbody

theorem retained (h : heap.Arises between) (handle : Handle) :
    heap.Arises (between.retained handle) := h.congr fun other _ => body?_retained other

theorem pushed {o : Object} (h : heap.Arises between) (ho : heap.Origin o.content) :
    heap.Arises (between.pushed o) := by
  intro index content mutable hcontent
  by_cases hnew : index = between.slots.size
  · subst hnew
    rw [body?_of_get? get?_pushed_new] at hcontent
    obtain ⟨rfl, -⟩ := Prod.mk.inj (Option.some.inj hcontent)
    exact ho
  · rw [body?, get?_pushed_of_ne (Handle.object_ne hnew)] at hcontent
    exact h index content mutable hcontent

theorem refilled (h : heap.Arises between) (index : Nat) (hcontent : heap.Origin content) :
    heap.Arises (between.refilled (.object index) content) := by
  intro other found mutable hfound
  by_cases hself : other = index
  · subst hself
    rw [Heap.refilled, body?_alter_self] at hfound
    obtain ⟨body, -, hbody⟩ := Option.map_eq_some_iff.mp hfound
    obtain ⟨rfl, -⟩ := Prod.mk.inj hbody
    exact hcontent
  · rw [Heap.refilled, body?_alter_of_ne _ (Handle.object_ne hself)] at hfound
    exact h other found mutable hfound

theorem release (h : heap.Arises between) (handle : Handle) :
    heap.Arises (between.release handle) := h.congr (leaves_release handle between).body?_eq

/-! ## Requests -/

theorem ends_allocate {o : Object} (ho : heap.Origin o.content) :
    Ends (allocate o) heap (fun _ => heap.Arises) fun _ => heap.Arises :=
  Heap.ends_allocate ((refl heap).pushed ho) fun _ _ => refl heap

theorem ends_retainAll (h : heap.Arises between) (handles : List Handle) :
    Ends (retainAll handles) between (fun _ => heap.Arises) fun _ => heap.Arises := by
  induction handles generalizing between with
  | nil => exact ends_pure h
  | cons first rest ih =>
      exact ends_bind (ends_retain (fun _ => ih (h.retained first)) fun _ _ => h)

theorem ends_collect (hcontent : heap.Origin content) :
    Ends (collect { content }) heap (fun _ => heap.Arises) fun _ => heap.Arises := by
  have hallocate : Ends (allocate { content }) heap (fun _ => heap.Arises) fun _ => heap.Arises :=
    ends_allocate hcontent
  refine ends_bind (hallocate.mono (fun handle heap' h' => ?_) fun _ _ => id)
  exact ends_bind ((h'.ends_retainAll content.children).mono (fun _ _ h'' => ends_pure h'')
    fun _ _ => id)

/-- However a request is answered, what objects contain comes from what was there. -/
theorem ends_answer (heap : Heap) (request : Request) :
    Ends (answer request) heap (fun _ => heap.Arises) fun _ => heap.Arises := by
  have h := refl heap
  cases request with
  | retain handle => exact ends_retain (fun _ => h.retained handle) fun _ _ => h
  | createText | createNumber | createData => exact ends_allocate (.bare rfl)
  | create kind => exact ends_allocate (.empty kind)
  | createCustom type bytes =>
      refine ends_bind (ends_reading (fun _ hregistered => ?_) fun _ _ => h)
      split at hregistered
      · next htype => exact ends_allocate (.custom bytes htype.1 htype.2)
      · exact nomatch hregistered
  -- these two create an object around contents that they have read
  | copy kind handle =>
      refine ends_bind (ends_reading (fun content hcontent => ?_) fun _ _ => h)
      obtain ⟨mutable, hbody, hkind⟩ := containerOf_eq_ok.mp hcontent
      obtain ⟨index, rfl⟩ := exists_index_of_container hbody hkind
      exact ends_collect (.kept hbody)
  | members set =>
      refine ends_bind (ends_reading (fun members hmembers => ?_) fun _ _ => h)
      obtain ⟨mutable, hbody⟩ := membersOf_eq_ok.mp hmembers
      exact ends_collect (.listed hbody)
  -- new contents are described by the heap before the request, where nothing was counted yet
  | append array item =>
      refine ends_append (fun index items hindex hbody hitem => ?_) fun _ _ => h
      have horigin : heap.Origin (.array (items.push item)) := .appended hbody hitem
      subst hindex
      exact (h.retained item).refilled index horigin
  | addMember set member =>
      refine ends_addMember (fun _ _ _ _ _ _ => h)
        (fun index content mutable members hindex hmember hbody hnew => ?_) fun _ _ => h
      have horigin : heap.Origin (.members (members ++ [member])) := .added hbody hmember hnew
      subst hindex
      exact (h.retained member).refilled index horigin
  | putEntry dictionary key value =>
      refine ends_putEntry (fun index text mutable entries hindex hkey hvalue hbody hnew => ?_)
        (fun index text mutable entries place old hindex _ hvalue hbody _ hold => ?_) fun _ _ => h
      · have horigin : heap.Origin (.dictionary (entries ++ [(key, value)])) :=
          .entered hbody hkey hvalue hnew
        subst hindex
        exact ((h.retained value).retained key).refilled index horigin
      · have horigin := Origin.replaced hbody hvalue hold
        subst hindex
        exact ((h.retained value).refilled index horigin).release old.2
  | appendIndex array value =>
      refine ends_change (fun index content hindex _ hkind => ?_) fun _ _ => h
      subst hindex
      cases content with
      | indexArray => exact h.refilled index (.bare rfl)
      | _ => exact nomatch hkind
  | addIndex set value =>
      refine ends_change (fun index content hindex hbody hkind => ?_) fun _ _ => h
      cases content with
      | indexSet =>
          have horigin := Origin.indexed value hbody
          subst hindex
          exact h.refilled index horigin
      | _ => exact nomatch hkind
  | addPair set key value =>
      refine ends_change (fun index content hindex hbody hkind => ?_) fun _ _ => h
      cases content with
      | pairSet =>
          have horigin := Origin.paired key value hbody
          subst hindex
          exact h.refilled index horigin
      | _ => exact nomatch hkind
  | typeOf | textBytes | readNumber | readBoolean | dataBytes | count | itemAt | entries | indexAt
  | firstIndex | lastIndex | pairAt | customBytes =>
      exact ends_reading (fun _ _ => h) fun _ _ => h

/-- An operation makes contents of what was there in one of the listed ways. -/
theorem perform (operation : Operation) (heap : Heap) :
    heap.Arises (operation.perform heap).2 := by
  have hslots : ∀ heap' : Heap, heap'.slots = heap.slots → heap.Arises heap' := fun heap' heq =>
    (refl heap).congr fun handle _ => by cases handle <;> simp [body?, get?, heq]
  cases operation with
  | ask request =>
      exact Operation.attempted_of_ends (Q := fun _ => heap.Arises) (ends_answer heap request)
  | release handle => exact (refl heap).release handle
  | createUnreadable layout =>
      exact Operation.attempted_of_ends (Q := fun _ => heap.Arises) (ends_allocate (.bare rfl))
  | registerType name =>
      refine hslots _ ?_
      show (heap.registerType name).2.slots = heap.slots
      unfold registerType
      split <;> rfl
  | setBudget budget => exact hslots _ rfl
  | log notice harmless => exact hslots _ rfl

end Arises

end Heap

end Marshal
