import Marshal.Proofs.Heap.Refused
import Marshal.Proofs.Marshaller.Depicting

/-!
# Reading finds the picture

A reader whose converters claim nothing answers the picture of an object
(`Heap.picture?`), or it fails.  It fails if there is no picture, or for want of budget, and
for no other reason (`Marshaller.Direct.depicts_within`).  This is so on every coherent heap,
also where objects hold what is gone, and for every handle, dead or alive.  Where all is live,
a missing picture means that the nesting is too deep or that there is something wrong with the
store.

The picture of a container is put together from those of what it holds, and a reader goes down
in the same way (`Depicts`).  A set with a member that is gone has no picture, and nothing is
read of it.
-/

namespace Marshal

variable {heap heap' : Heap} {handle : Handle} {content : Content} {mutable : Bool}
  {α : Type} {room : Nat} {sound : Prop}

/-! ## Coherent heaps -/

theorem Spares.coherent (h : Spares heap heap') (hcoherent : heap.Coherent) : heap'.Coherent where
  positive := h.grows.conserved.positive
  issued := hcoherent.issued.congr h.grows.conserved.size_le fun handle _ => h.body?_eq handle
  wellFormed handle content mutable hbody := by
    rw [h.body?_eq] at hbody
    exact hcoherent.wellFormed handle content mutable hbody

/-- The array in which members are collected is all that is new. -/
theorem Heap.Coherent.collected {collected : Heap} {members : List Handle} (h : heap.Coherent)
    (hpos : collected.Positive)
    (harray : collected.body? heap.next = some (.array members.toArray, false))
    (hother : ∀ other, other ≠ heap.next → collected.body? other = heap.body? other)
    (hlive : ∀ member ∈ members, heap.Live member) : collected.Coherent := by
  have hsize : heap.slots.size < collected.slots.size := lt_size_of_live (live_of_body? harray)
  refine ⟨hpos, fun handle content mutable hbody child hchild => ?_,
    fun handle content mutable hbody => ?_⟩
  · by_cases hnew : handle = heap.next
    · rw [hnew, harray] at hbody
      obtain ⟨rfl, -⟩ := Prod.mk.inj (Option.some.inj hbody)
      exact (hlive child (by simpa [Content.children] using hchild)).before.mono hsize.le
    · rw [hother handle hnew] at hbody
      exact (h.issued handle content mutable hbody child hchild).mono hsize.le
  · by_cases hnew : handle = heap.next
    · rw [hnew, harray] at hbody
      obtain ⟨rfl, -⟩ := Prod.mk.inj (Option.some.inj hbody)
      trivial
    · rw [hother handle hnew] at hbody
      exact h.wellFormed handle content mutable hbody

/-- No member that is gone is collected. -/
theorem Heap.Closed.collected {collected : Heap} {members : List Handle} (h : heap.Closed)
    (harray : collected.body? heap.next = some (.array members.toArray, false))
    (hother : ∀ other, other ≠ heap.next → collected.body? other = heap.body? other)
    (hlive : ∀ member ∈ members, heap.Live member) : collected.Closed := by
  have hkept : ∀ other, heap.Live other → collected.Live other := by
    intro other hother'
    rwa [live_iff_body?, hother other (ne_new_of_live hother'), ← live_iff_body?]
  intro handle content mutable hbody child hchild
  by_cases hnew : handle = heap.next
  · rw [hnew, harray] at hbody
    obtain ⟨rfl, -⟩ := Prod.mk.inj (Option.some.inj hbody)
    exact hkept child (hlive child (by simpa [Content.children] using hchild))
  · rw [hother handle hnew] at hbody
    exact hkept child (h handle content mutable hbody child hchild)

/-- What was handed out is pictured alike when an object was created. -/
theorem Heap.Issued.picture?_eq {window : Nat} (h : heap.Issued)
    (hother : ∀ other, other ≠ heap.next → heap'.body? other = heap.body? other)
    (hhandle : handle.Before heap.slots.size) :
    heap'.picture? window room handle = heap.picture? window room handle := by
  refine picture?_congr (Handle.Before heap.slots.size) (fun other hbefore => hother other ?_)
    (fun other content mutable _ hbody => h other content mutable hbody) hhandle
  rintro rfl
  exact absurd (hbefore _ rfl) (Nat.lt_irrefl _)

/-- An object is only created around what is live. -/
theorem Heap.ends_collect_live {content : Content} :
    Ends (collect { content }) heap
      (fun _ _ => ∀ child ∈ content.children, (heap.pushed { content }).Live child)
      fun _ _ => True := by
  refine ends_bind (ends_allocate ?_ fun _ _ => trivial)
  refine ends_bind (Heap.ends_retainAll _ (fun hlive => ends_pure hlive) fun _ _ _ _ _ _ => trivial)

/-! ## Direct marshallers -/

/-- A marshaller of the heap that reads the standard types as such and knows no others. -/
structure Marshaller.Direct (m : Marshaller Heap) : Prop extends m.Standard where
  unknown : ∀ id : TypeId, id.isCustom → m.types.kindOf id = .unknown id

/-- Where nothing is claimed, converters have no part in reading. -/
theorem TypeTable.build_of_unclaimed {registry : Registry Heap}
    (hclaims : ∀ name, registry.claimant? name = none) (types : List TypeEntry) :
    build types registry = build types ({} : Registry Heap) := by
  have hkind : kindNamed? registry = kindNamed? ({} : Registry Heap) := by
    funext name
    unfold kindNamed?
    rw [hclaims name]
    rfl
  have hentered : entered registry = entered {} := by
    funext table entry
    unfold entered
    rw [hkind]
  rw [build_eq, build_eq, hentered]

theorem Heap.Reachable.direct {registry : Registry Heap} (h : heap.Reachable) (limits : Limits)
    (hclaims : ∀ name, registry.claimant? name = none) :
    (Marshaller.make Heap.store heap registry limits).Direct where
  store := rfl
  kindOf type := by
    show (TypeTable.build heap.types registry).kindOf type.id = .standard type
    rw [TypeTable.build_of_unclaimed hclaims]
    exact TypeTable.kindOf_build h.standardFirst {} type
  unknown id hid := by
    show (TypeTable.build heap.types registry).kindOf id = .unknown id
    rw [TypeTable.build_of_unclaimed hclaims]
    exact TypeTable.kindOf_build_custom h.standardFirst hid

/-- The elements of a container are read where there is a level left for them. -/
theorem Marshaller.depicts_deeper {m : Marshaller Heap}
    {read : (Handle → Action Heap Value) → Action Heap α} {q : (Handle → Option Value) → Option α}
    (hread : ∀ deeper, room = deeper + 1 →
      Depicts m sound (q (heap.picture? m.window deeper)) (read (m.liftWithin deeper)) heap) :
    Depicts m sound ((heap.pictures? m.window room).bind q) (m.deeper (m.element? room) read)
      heap := by
  cases room with
  | zero => exact .throw m.rejects_tooDeep
  | succ deeper => exact hread deeper rfl

/-! ## Containers of objects -/

/-- The reader finds the picture of every object, with so many levels left. -/
def Finds (m : Marshaller Heap) (sound : Prop) (element : Handle → Action Heap Value)
    (room : Nat) : Prop :=
  ∀ (heap : Heap) (handle : Handle), heap.Coherent → (sound → heap.Closed ∧ heap.Live handle) →
    Depicts m sound (heap.picture? m.window room handle) (element handle) heap

section Elements

variable {m : Marshaller Heap} {element : Handle → Action Heap Value}
  (helement : Finds m sound element room)

include helement

/-- An element is read as it was pictured before others were read. -/
theorem Finds.still (hcoherent : heap.Coherent) (hsound : sound → heap.Closed ∧ heap.Live handle) :
    StillDepicts m sound (heap.picture? m.window room handle) (element handle) heap := by
  intro heap' hspares
  rw [← Heap.picture?_eq_of_body? hspares.body?_eq]
  refine helement heap' handle (hspares.coherent hcoherent) fun h => ?_
  exact ⟨hspares.closed (hsound h).1, hspares.live (hsound h).2⟩

variable (h : m.OnHeap) (hcoherent : heap.Coherent) (hclosed : sound → heap.Closed)

include hcoherent hclosed

/-- So are the contents of a container. -/
theorem Finds.still_child (hbody : heap.body? handle = some (content, mutable)) :
    ∀ child ∈ content.children,
      StillDepicts m sound (heap.picture? m.window room child) (element child) heap :=
  fun child hchild => helement.still hcoherent fun hsound =>
    ⟨hclosed hsound, hclosed hsound handle content mutable hbody child hchild⟩

include h

namespace Marshaller.OnHeap

theorem finds_array {items : Array Handle}
    (hbody : heap.body? handle = some (.array items, mutable)) :
    Depicts m sound (items.toList.mapM (heap.picture? m.window room)) (m.readArray element handle)
      heap :=
  h.depicts_readArray hcoherent.positive hbody
    (List.forall₂_same.mpr (helement.still_child hcoherent hclosed hbody))

theorem finds_dictionary {entries : List (Handle × Handle)}
    (hbody : heap.body? handle = some (.dictionary entries, mutable)) :
    Depicts m sound (entries.mapM (readBoth (heap.picture? m.window room)))
      (m.readDictionary element handle) heap := by
  have hchildren := Content.forall_children_dictionary.mp
    (helement.still_child hcoherent hclosed hbody)
  refine h.depicts_readDictionary hcoherent.positive hbody (List.forall₂_same.mpr ?_)
  exact fun entry hentry => depicts_readEntry (hchildren entry hentry).1 (hchildren entry hentry).2

/-- Nothing is read of a set with a member that is gone, and such a set has no picture. -/
theorem finds_members {members : List Handle}
    (hbody : heap.body? handle = some (.members members, mutable)) :
    Depicts m sound (members.mapM (heap.picture? m.window room)) (m.readSet element handle)
      heap := by
  by_cases hlive : ∀ member ∈ members, heap.Live member
  · refine h.depicts_readSet hcoherent.positive hbody hlive fun collected hpos harray hother => ?_
    have hcollected := hcoherent.collected hpos harray hother hlive
    have hclosed' : sound → collected.Closed :=
      fun hsound => (hclosed hsound).collected harray hother hlive
    refine List.forall₂_same.mpr fun member hmember => ?_
    rw [← hcoherent.issued.picture?_eq hother (hlive member hmember).before]
    exact helement.still_child hcollected hclosed' harray member hmember
  · have hunsound : ¬ sound :=
      fun hsound => hlive (hclosed hsound handle _ mutable hbody)
    have hnone : members.mapM (heap.picture? m.window room) = none := by
      refine Option.eq_none_iff_forall_ne_some.mpr fun values hvalues => ?_
      apply hlive
      intro member hmember
      obtain ⟨v, hv⟩ := exists_of_forall₂ (mapM_eq_some.mp hvalues) hmember
      by_contra hdead
      rw [Heap.picture?_of_not_live hdead] at hv
      exact nomatch hv
    have hask : Ends (m.store.ask (.members handle)) heap (fun _ _ => False) fun _ _ => True := by
      refine h.ends_ask (ends_bind (Heap.ends_reading_of_ok
        (Heap.membersOf_eq_ok.mpr ⟨mutable, hbody⟩) ?_))
      refine Heap.ends_collect_live.mono (fun _ _ hall => hlive fun member hmember => ?_)
        fun _ _ => id
      -- what was handed out is not what is created now
      have hpushed := hall member (by simpa [Content.children] using hmember)
      have hbefore := hcoherent.issued handle _ mutable hbody member hmember
      rwa [Heap.Live, Heap.get?_pushed_of_ne] at hpushed
      rintro rfl
      exact absurd (hbefore _ rfl) (Nat.lt_irrefl _)
    rw [hnone]
    refine ends_withReference (hask.mono (fun _ _ => False.elim) fun _ _ _ => ?_)
    exact .inr ⟨rfl, fun hsound => absurd hsound hunsound⟩

end Marshaller.OnHeap

end Elements

/-! ## Objects -/

namespace Marshaller.Direct

variable {m : Marshaller Heap} (h : m.Direct)

include h

/-- An object of a registered type comes back as a token. -/
theorem depicts_custom {element? : Option (Handle → Action Heap Value)} {type : TypeId}
    {bytes : List UInt8} (hpos : heap.Positive)
    (hbody : heap.body? handle = some (.custom type bytes, mutable)) (htype : type.isCustom) :
    Depicts m sound (some (.token handle)) (m.liftObject element? handle) heap := by
  have hidentify : m.identify handle heap = .ok (m.types.kindOf type) heap :=
    h.identify_of_body? hbody
  rw [h.unknown type htype] at hidentify
  exact ends_bind (ends_of_ok hidentify (Depicts.pure hpos _))

/-- What is gone cannot even be asked for its type. -/
theorem depicts_dead {element? : Option (Handle → Action Heap Value)}
    (hdead : ¬ heap.Live handle) (hunsound : ¬ sound) :
    Depicts m sound none (m.liftObject element? handle) heap := by
  refine ends_bind (ends_bind (h.ends_ask (Heap.ends_reading (fun a ha => ?_) fun _ _ =>
    .inr ⟨rfl, fun hsound => absurd hsound hunsound⟩)))
  rw [Heap.look, Option.not_isSome_iff_eq_none.mp hdead] at ha
  exact nomatch ha

theorem depicts_object (hcoherent : heap.Coherent)
    (hsound : sound → heap.Closed ∧ heap.Live handle)
    (helement : ∀ deeper, room = deeper + 1 → Finds m sound (m.liftWithin deeper) deeper) :
    Depicts m sound (heap.picture? m.window room handle) (m.liftObject (m.element? room) handle)
      heap := by
  have hpos := hcoherent.positive
  have hclosed : sound → heap.Closed := fun h => (hsound h).1
  by_cases hlive : heap.Live handle
  · obtain ⟨⟨content, mutable⟩, hbody⟩ :=
      Option.isSome_iff_exists.mp (Heap.live_iff_body?.mp hlive)
    rw [Heap.picture?_of_body? hbody]
    cases content with
    | text | number | boolean | data =>
        rw [Content.picture?_of_isScalar rfl]
        exact h.depicts_scalar hpos hbody rfl
    | array items =>
        refine h.depicts_standard hbody rfl (Depicts.map (depicts_deeper fun deeper hroom => ?_) _)
        exact h.finds_array (helement deeper hroom) hcoherent hclosed hbody
    | dictionary entries =>
        refine h.depicts_standard hbody rfl (Depicts.map (depicts_deeper fun deeper hroom => ?_) _)
        exact h.finds_dictionary (helement deeper hroom) hcoherent hclosed hbody
    | members members =>
        refine h.depicts_standard hbody rfl (Depicts.map (depicts_deeper fun deeper hroom => ?_) _)
        exact h.finds_members (helement deeper hroom) hcoherent hclosed hbody
    | indexArray values =>
        exact h.depicts_standard hbody rfl ((h.depicts_indexArray hpos hbody).map _)
    | indexSet values => exact h.depicts_standard hbody rfl ((h.depicts_indexSet hpos hbody).map _)
    | pairSet pairs => exact h.depicts_standard hbody rfl ((h.depicts_pairs hpos hbody).map _)
    | custom type bytes =>
        exact h.depicts_custom hpos hbody (hcoherent.wellFormed handle _ mutable hbody)
  · rw [Heap.picture?_of_not_live hlive]
    exact h.depicts_dead hlive fun h => hlive (hsound h).2

/-- With so many levels, every object is read as pictured with them. -/
theorem depicts_within (room : Nat) : Finds m sound (m.liftWithin room) room := by
  induction room with
  | zero =>
      intro heap handle hcoherent hsound
      rw [liftWithin_eq]
      exact h.depicts_object hcoherent hsound fun deeper hroom => nomatch hroom
  | succ room ih =>
      intro heap handle hcoherent hsound
      rw [liftWithin_eq]
      apply h.depicts_object hcoherent hsound
      rintro deeper ⟨⟩
      exact ih

/-- What is answered is the picture, in whatever way the budget is limited. -/
theorem picture?_of_lift {v : Value} (hcoherent : heap.Coherent)
    (hrun : m.lift (some handle) heap = .ok v heap') :
    heap.picture? m.window m.limits.maxDepth handle = some v :=
  ((h.depicts_within m.limits.maxDepth heap handle hcoherent False.elim).of_ok hrun).1

end Marshaller.Direct

end Marshal
