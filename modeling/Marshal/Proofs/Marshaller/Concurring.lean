import Marshal.Proofs.Marshaller.Recovering

/-!
# Reading depends on what is read

Two heaps agree on some objects if these are the same in both and lead to each other
only (`Heap.Agree`).  An object on which two heaps agree and which stands for a value is
read alike in both of them (`Marshaller.Steady.concurs_within`), whatever else there may
be in the one or in the other.  So a reader can be run in both heaps side by side, and
each step has the same answer (`Concurs`).

The array in which the members of a set are collected is where the two runs come apart,
for it lies in different slots.  But it has the same items.

A converter that claims a standard type has its own way to read.  All that is asked of it
is that it, too, depends on what it reads (`Converter.Steady`).
-/

namespace Marshal

variable {heap heap' s s' : Heap} {good : Handle → Prop} {handle : Handle} {v : Value}
  {n room : Nat} {α β : Type}

/-! ## Heaps that agree -/

/-- Two heaps without limits show the same `good` objects, and all that these hold is good.
The second heap may know more types. -/
structure Heap.Agree (good : Handle → Prop) (heap heap' : Heap) : Prop where
  body?_eq : ∀ handle, good handle → heap'.body? handle = heap.body? handle
  live : ∀ handle, good handle → heap.Live handle
  children : ∀ handle content mutable, good handle →
    heap.body? handle = some (content, mutable) → ∀ child ∈ content.children, good child
  positive : heap.Positive ∧ heap'.Positive
  unlimited : heap.budget = none ∧ heap'.budget = none
  types : heap.types <+: heap'.types

namespace Heap.Agree

theorem body? (h : Agree good heap heap') (hgood : good handle) {body : Content × Bool}
    (hbody : heap.body? handle = some body) : heap'.body? handle = some body :=
  (h.body?_eq handle hgood).trans hbody

theorem live' (h : Agree good heap heap') (hgood : good handle) : heap'.Live handle := by
  rw [live_iff_body?, h.body?_eq handle hgood, ← live_iff_body?]
  exact h.live handle hgood

/-- What good objects stand for is the same in both heaps. -/
theorem denotes (h : Agree good heap heap') (hgood : good handle)
    (hdenotes : Denotes n heap room handle v) : Denotes n heap' room handle v := by
  apply Denotes.transport good _ _ _ hgood hdenotes
  · exact fun _ _ => id
  · exact fun handle hgood _ _ => h.body?_eq handle hgood
  · exact fun handle content mutable hgood _ => h.children handle content mutable hgood

/-- Readings do not put an end to agreement. -/
theorem spares (h : Agree good heap heap') (hs : Spares heap s) (hs' : Spares heap' s') :
    Agree good s s' where
  body?_eq handle hgood := by rw [hs'.body?_eq, hs.body?_eq, h.body?_eq handle hgood]
  live handle hgood := by
    rw [live_iff_body?, hs.body?_eq, ← live_iff_body?]
    exact h.live handle hgood
  children handle content mutable hgood hbody := by
    rw [hs.body?_eq] at hbody
    exact h.children handle content mutable hgood hbody
  positive := ⟨hs.grows.conserved.positive, hs'.grows.conserved.positive⟩
  unlimited := ⟨hs.unlimited h.unlimited.1, hs'.unlimited h.unlimited.2⟩
  types := by
    rw [hs.grows.types_eq, hs'.grows.types_eq]
    exact h.types

/-- Members may be collected in both heaps. -/
theorem collected {members : List Handle} (h : Agree good heap heap')
    (hmembers : ∀ member ∈ members, good member) :
    Agree good (heap.collected { content := .array members.toArray })
      (heap'.collected { content := .array members.toArray }) where
  body?_eq handle hgood := by
    rw [body?_collected_of_ne (ne_new_of_live (h.live' hgood)),
      body?_collected_of_ne (ne_new_of_live (h.live handle hgood)), h.body?_eq handle hgood]
  live handle hgood := by
    have hlive := h.live handle hgood
    rw [live_iff_body?, body?_collected_of_ne (ne_new_of_live hlive), ← live_iff_body?]
    exact hlive
  children handle content mutable hgood hbody := by
    rw [body?_collected_of_ne (ne_new_of_live (h.live handle hgood))] at hbody
    exact h.children handle content mutable hgood hbody
  positive :=
    ⟨(h.positive.1.grows_collected fun member hmem =>
        h.live member (hmembers member hmem)).conserved.positive,
      (h.positive.2.grows_collected fun member hmem =>
        h.live' (hmembers member hmem)).conserved.positive⟩
  unlimited := ⟨budget_collected h.unlimited.1, budget_collected h.unlimited.2⟩
  types := by
    show (heap.retainedAll _).types <+: (heap'.retainedAll _).types
    rw [types_retainedAll, types_retainedAll]
    exact h.types

end Heap.Agree

/-! ## Runs that concur -/

/-- Two runs have the same answer and leave the heaps as they were, or they fail in the
same way. -/
def Concurs (x x' : Action Heap α) (heap heap' : Heap) : Prop :=
  (∃ a s s', x heap = .ok a s ∧ x' heap' = .ok a s' ∧ Spares heap s ∧ Spares heap' s') ∨
  ∃ failure s s', x heap = .error failure s ∧ x' heap' = .error failure s'

/-- What a converter reads depends only on what is read, and nothing is changed by it. -/
def Converter.Steady (converter : Converter Heap) : Prop :=
  ∀ good heap heap' handle, Heap.Agree good heap heap' → good handle →
    Concurs (converter.lift Heap.store handle) (converter.lift Heap.store handle) heap heap'

theorem concurs_pure (hpos : heap.Positive) (hpos' : heap'.Positive) (a : α) :
    Concurs (pure a) (pure a) heap heap' :=
  .inl ⟨a, heap, heap', rfl, rfl, hpos.spares, hpos'.spares⟩

/-- Both runs have an answer that is known. -/
theorem concurs_of_ends {x x' : Action Heap α} {a : α}
    (hx : Ends x heap (fun b s => b = a ∧ Spares heap s) fun _ _ => False)
    (hx' : Ends x' heap' (fun b s => b = a ∧ Spares heap' s) fun _ _ => False) :
    Concurs x x' heap heap' := by
  obtain ⟨b, s, hrun, rfl, hs⟩ := hx.exists_ok
  obtain ⟨b, s', hrun', rfl, hs'⟩ := hx'.exists_ok
  exact .inl ⟨b, s, s', hrun, hrun', hs, hs'⟩

namespace Concurs

variable {x x' : Action Heap α}

theorem outcome_eq (h : Concurs x x' heap heap') : outcome x' heap' = outcome x heap := by
  rcases h with ⟨a, s, s', hrun, hrun', -, -⟩ | ⟨failure, s, s', hrun, hrun'⟩
  · rw [outcome_of_ok hrun, outcome_of_ok hrun']
  · rw [outcome_of_error hrun, outcome_of_error hrun']

theorem bind {f f' : α → Action Heap β} (h : Concurs x x' heap heap')
    (hf : ∀ a s s', Spares heap s → Spares heap' s' → Concurs (f a) (f' a) s s') :
    Concurs (x >>= f) (x' >>= f') heap heap' := by
  rcases h with ⟨a, s, s', hrun, hrun', hs, hs'⟩ | ⟨failure, s, s', hrun, hrun'⟩
  · have hconcurs := hf a s s' hs hs'
    rcases hconcurs with ⟨b, t, t', hrest, hrest', ht, ht'⟩ | ⟨failure, t, t', hrest, hrest'⟩
    · exact .inl ⟨b, t, t', (bind_of_ok hrun).trans hrest, (bind_of_ok hrun').trans hrest',
        hs.trans ht, hs'.trans ht'⟩
    · exact .inr ⟨failure, t, t', (bind_of_ok hrun).trans hrest, (bind_of_ok hrun').trans hrest'⟩
  · exact .inr ⟨failure, s, s', bind_of_error hrun, bind_of_error hrun'⟩

/-- A step that only looks has a known answer. -/
theorem after {f f' : α → Action Heap β} {a : α}
    (hx : Ends x heap (fun b s => b = a ∧ s = heap) fun _ _ => False)
    (hx' : Ends x' heap' (fun b s => b = a ∧ s = heap') fun _ _ => False)
    (hf : Concurs (f a) (f' a) heap heap') : Concurs (x >>= f) (x' >>= f') heap heap' := by
  have hrun := hx.eq_ok
  have hrun' := hx'.eq_ok
  rcases hf with ⟨c, t, t', hrest, hrest', ht, ht'⟩ | ⟨failure, t, t', hrest, hrest'⟩
  · exact .inl ⟨c, t, t', (bind_of_ok hrun).trans hrest, (bind_of_ok hrun').trans hrest', ht, ht'⟩
  · exact .inr ⟨failure, t, t', (bind_of_ok hrun).trans hrest, (bind_of_ok hrun').trans hrest'⟩

theorem map (h : Concurs x x' heap heap') (f : α → β) :
    Concurs (f <$> x) (f <$> x') heap heap' := by
  rw [map_eq_pure_bind, map_eq_pure_bind]
  exact h.bind fun a s s' hs hs' =>
    concurs_pure hs.grows.conserved.positive hs'.grows.conserved.positive (f a)

theorem mapM {f f' : α → Action Heap β} {items : List α} (hs : Spares heap s)
    (hs' : Spares heap' s')
    (hf : ∀ a ∈ items, ∀ s s', Spares heap s → Spares heap' s' → Concurs (f a) (f' a) s s') :
    Concurs (items.mapM f) (items.mapM f') s s' := by
  induction items generalizing s s' with
  | nil => exact concurs_pure hs.grows.conserved.positive hs'.grows.conserved.positive []
  | cons a items ih =>
      rw [List.forall_mem_cons] at hf
      rw [List.mapM_cons, List.mapM_cons]
      refine (hf.1 s s' hs hs').bind fun b t t' ht ht' => ?_
      refine (ih (hs.trans ht) (hs'.trans ht') hf.2).bind fun bs u u' hu hu' => ?_
      exact concurs_pure hu.grows.conserved.positive hu'.grows.conserved.positive (b :: bs)

/-- Different objects may be used meanwhile, if they are given up without a trace. -/
theorem withReference {store : Store Heap} {acquire acquire' : Action Heap Handle}
    {body body' : Handle → Action Heap α} {made made' : Heap} {held held' : Handle}
    (hrun : acquire heap = .ok held made) (hrun' : acquire' heap' = .ok held' made')
    (hbody : Concurs (body held) (body' held') made made')
    (hspares : ∀ s, Spares made s → Spares heap (store.release held s))
    (hspares' : ∀ s, Spares made' s → Spares heap' (store.release held' s)) :
    Concurs (store.withReference acquire body) (store.withReference acquire' body') heap heap' := by
  unfold Concurs Store.withReference
  simp only [hrun, hrun']
  rcases hbody with ⟨a, s, s', hrest, hrest', hs, hs'⟩ | ⟨failure, s, s', hrest, hrest'⟩
  · simp only [hrest, hrest']
    exact .inl ⟨a, _, _, rfl, rfl, hspares s hs, hspares' s' hs'⟩
  · simp only [hrest, hrest']
    exact .inr ⟨failure, _, _, rfl, rfl⟩

end Concurs

/-- The objects that the reader is for are read alike in heaps that agree on them. -/
def Concurrent (n : Nat) (element : Handle → Action Heap Value) (room : Nat) : Prop :=
  ∀ good heap heap' handle v, Heap.Agree good heap heap' → good handle →
    Heap.Denotes n heap room handle v → Concurs (element handle) (element handle) heap heap'

/-! ## Steady marshallers -/

/-- A marshaller of the heap that reads the standard types as such, or has a steady
converter read them. -/
structure Marshaller.Steady (m : Marshaller Heap) : Prop extends m.OnHeap where
  kindOf : ∀ type : StandardType, m.types.kindOf type.id = .standard type ∨
    ∃ place, m.types.kindOf type.id = .extension place ∧
      ∀ converter ∈ m.registry.converters[place]?, converter.Steady

namespace Marshaller.Steady

variable {m : Marshaller Heap} (h : m.Steady) {element : Handle → Action Heap Value}

include h

/-- Looking at an object in either heap gives a known answer. -/
theorem ends_look {request : Request} {f : Heap → Except Refusal request.Answer}
    {a : request.Answer} (hrequest : Heap.answer request = Heap.reading f) (hf : f heap = .ok a) :
    Ends (m.store.ask request) heap (fun b s => b = a ∧ s = heap) fun _ _ => False := by
  refine h.ends_ask ?_
  rw [hrequest]
  exact Heap.ends_reading_of_ok hf ⟨rfl, rfl⟩

/-! ### Containers -/

/-- Arrays with the same items are read alike. -/
theorem concurs_readArray (helement : Concurrent n element room)
    (hagree : Heap.Agree good heap heap') {array array' : Handle} {items : Array Handle}
    {mutable mutable' : Bool} (hbody : heap.body? array = some (.array items, mutable))
    (hbody' : heap'.body? array' = some (.array items, mutable'))
    (hitems : ∀ item ∈ items, good item ∧ ∃ v, Heap.Denotes n heap room item v) :
    Concurs (m.readArray element array) (m.readArray element array') heap heap' := by
  refine .after (h.ends_look rfl (Heap.size_containerOf hbody rfl))
    (h.ends_look rfl (Heap.size_containerOf hbody' rfl)) ?_
  refine .mapM hagree.positive.1.spares hagree.positive.2.spares fun index hindex s s' hs hs' => ?_
  have hlt : index < items.size := List.mem_range.mp hindex
  have hat : ∀ {heap s : Heap} {array : Handle} {mutable : Bool},
      heap.body? array = some (.array items, mutable) → Spares heap s →
      (do Heap.itemIn (← s.itemsOf array) index) = .ok items[index] := by
    intro heap s array mutable hbody hs
    rw [Heap.itemsOf_eq_ok.mpr ⟨mutable, (hs.body?_eq array).trans hbody⟩]
    show Heap.itemIn items index = .ok items[index]
    rw [Heap.itemIn, Array.getElem?_eq_getElem hlt]
  refine .after (h.ends_look rfl (hat hbody hs)) (h.ends_look rfl (hat hbody' hs')) ?_
  obtain ⟨hgood, v, hdenotes⟩ := hitems items[index] (Array.getElem_mem hlt)
  exact helement good s s' _ v (hagree.spares hs hs') hgood (hs.denotes hdenotes)

theorem concurs_readDictionary (helement : Concurrent n element room)
    (hagree : Heap.Agree good heap heap') (hgood : good handle)
    {entries : List (Handle × Handle)} {mutable : Bool}
    (hbody : heap.body? handle = some (.dictionary entries, mutable))
    (hentries : ∀ entry ∈ entries, ∃ pair, Both (Heap.Denotes n heap room) entry pair) :
    Concurs (m.readDictionary element handle) (m.readDictionary element handle) heap heap' := by
  have hbuffers : ∀ {heap : Heap}, heap.body? handle = some (.dictionary entries, mutable) →
      (do Heap.buffers (← heap.entriesOf handle) entries.length entries.length) =
        .ok (entries.map fun entry => some entry.1, entries.map fun entry => some entry.2) := by
    intro heap hbody
    rw [Heap.entriesOf_eq_ok.mpr ⟨mutable, hbody⟩]
    show Heap.buffers entries entries.length entries.length = _
    simp [Heap.buffers]
  have hbody' := hagree.body? hgood hbody
  refine .after (h.ends_look rfl (Heap.size_containerOf hbody rfl))
    (h.ends_look rfl (Heap.size_containerOf hbody' rfl)) ?_
  refine .after (h.ends_look rfl (hbuffers hbody)) (h.ends_look rfl (hbuffers hbody')) ?_
  show Concurs (List.mapM _ (List.zip (entries.map _) (entries.map _)))
    (List.mapM _ (List.zip (entries.map _) (entries.map _))) heap heap'
  rw [List.zip_map']
  refine .mapM hagree.positive.1.spares hagree.positive.2.spares fun slots hslots s s' hs hs' => ?_
  obtain ⟨entry, hentry, rfl⟩ := List.mem_map.mp hslots
  obtain ⟨pair, hkey, hvalue⟩ := hentries entry hentry
  have hchild : ∀ child ∈ [entry.1, entry.2], good child := fun child hmem =>
    hagree.children handle _ mutable hgood hbody child (List.mem_flatMap.mpr ⟨entry, hentry, hmem⟩)
  have hread := helement good s s' entry.1 pair.1 (hagree.spares hs hs')
    (hchild _ (by simp)) (hs.denotes hkey)
  refine hread.bind fun key t t' ht ht' => ?_
  have hread' := helement good t t' entry.2 pair.2
    (hagree.spares (hs.trans ht) (hs'.trans ht')) (hchild _ (by simp))
    ((hs.trans ht).denotes hvalue)
  refine hread'.bind fun value u u' hu hu' => ?_
  exact concurs_pure hu.grows.conserved.positive hu'.grows.conserved.positive (key, value)

/-- Without a limit, members are collected for certain. -/
theorem ask_members {members : List Handle} {mutable : Bool} (hnone : heap.budget = none)
    (hbody : heap.body? handle = some (.members members, mutable))
    (hlive : ∀ member ∈ members, heap.Live member) :
    m.store.ask (.members handle) heap =
      .ok heap.next (heap.collected { content := .array members.toArray }) := by
  have hends := (h.ends_members hbody hlive).mono (fun _ _ => id) fun _ _ hshort => hshort.1 hnone
  exact hends.eq_ok

/-- The members are collected in arrays that lie in different slots. -/
theorem concurs_readSet (helement : Concurrent n element room)
    (hagree : Heap.Agree good heap heap') (hgood : good handle) {members : List Handle}
    {mutable : Bool} (hbody : heap.body? handle = some (.members members, mutable))
    (hmembers : ∀ member ∈ members, ∃ v, Heap.Denotes n heap room member v) :
    Concurs (m.readSet element handle) (m.readSet element handle) heap heap' := by
  have hgoods : ∀ member ∈ members, good member :=
    hagree.children handle _ mutable hgood hbody
  have hlive : ∀ member ∈ members, heap.Live member := fun member hmem =>
    hagree.live member (hgoods member hmem)
  have hlive' : ∀ member ∈ members, heap'.Live member := fun member hmem =>
    hagree.live' (hgoods member hmem)
  have hrun := h.ask_members hagree.unlimited.1 hbody hlive
  have hrun' := h.ask_members hagree.unlimited.2 (hagree.body? hgood hbody) hlive'
  have hitems : ∀ item ∈ members.toArray, good item ∧
      ∃ v, Heap.Denotes n (heap.collected { content := .array members.toArray }) room item v := by
    intro item hitem
    have hmem : item ∈ members := List.mem_toArray.mp hitem
    obtain ⟨v, hdenotes⟩ := hmembers item hmem
    refine ⟨hgoods item hmem, v, hdenotes.congr fun other _ hlive => ?_⟩
    exact Heap.body?_collected_of_ne (Heap.ne_new_of_live hlive)
  have hread : Concurs (m.readArray element heap.next) (m.readArray element heap'.next) _ _ :=
    h.concurs_readArray helement (hagree.collected hgoods)
      (Heap.body?_of_get? Heap.get?_collected_new) (Heap.body?_of_get? Heap.get?_collected_new)
      hitems
  unfold readSet
  rw [h.store] at hrun hrun' ⊢
  refine .withReference hrun hrun' hread (fun s hs => ?_) fun s hs => ?_
  · exact hs.release hagree.positive.1 hlive
  · exact hs.release hagree.positive.2 hlive'

/-! ### Objects -/

/-- An object is read by the reader of its type, or by a converter that is steady. -/
theorem concurs_liftObject {element? : Option (Handle → Action Heap Value)}
    (hagree : Heap.Agree good heap heap') (hgood : good handle) {content : Content}
    {mutable : Bool} {type : StandardType}
    (hbody : heap.body? handle = some (content, mutable))
    (htype : ({ content, mutable } : Object).type = .inl type)
    (hstandard : Concurs (m.liftStandard element? type handle) (m.liftStandard element? type handle)
      heap heap') :
    Concurs (m.liftObject element? handle) (m.liftObject element? handle) heap heap' := by
  have hidentify : ∀ {heap : Heap}, heap.body? handle = some (content, mutable) →
      Ends (m.identify handle) heap (fun kind s => kind = m.types.kindOf type.id ∧ s = heap)
        fun _ _ => False :=
    fun hbody => ends_of_ok (h.identify_of_type hbody htype) ⟨rfl, rfl⟩
  refine .after (hidentify hbody) (hidentify (hagree.body? hgood hbody)) ?_
  rcases h.kindOf type with hkind | ⟨place, hkind, hsteady⟩
  · rw [hkind]
    exact hstandard
  · rw [hkind]
    dsimp only
    cases hconverter : m.registry.converters[place]? with
    | none => exact concurs_pure hagree.positive.1 hagree.positive.2 _
    | some converter =>
        rw [h.store]
        exact hsteady converter hconverter good heap heap' handle hagree hgood

theorem concurs_scalar {element? : Option (Handle → Action Heap Value)}
    (hagree : Heap.Agree good heap heap') (hgood : good handle) {content : Content}
    {mutable : Bool} (hbody : heap.body? handle = some (content, mutable))
    (hv : v.scalar? = some content) :
    Concurs (m.liftObject element? handle) (m.liftObject element? handle) heap heap' := by
  obtain ⟨hscalar, hvalue⟩ := Value.value?_of_scalar hv
  obtain ⟨type, htype⟩ := exists_type_of_isScalar hscalar mutable
  have hread : ∀ {heap : Heap}, heap.Positive → heap.budget = none →
      heap.body? handle = some (content, mutable) →
      Ends (m.liftStandard element? type handle) heap (fun w s => w = v ∧ Spares heap s)
        fun _ _ => False := by
    intro heap hpos hnone hbody
    have hdepicts : Depicts m False (some v) (m.liftStandard element? type handle) heap :=
      hvalue ▸ h.depicts_liftStandard hpos hbody htype hscalar
    exact hdepicts.ends.mono (fun _ _ => id) fun _ _ hshort => hshort.1 hnone
  have hconcurs := concurs_of_ends (hread hagree.positive.1 hagree.unlimited.1 hbody)
    (hread hagree.positive.2 hagree.unlimited.2 (hagree.body? hgood hbody))
  exact h.concurs_liftObject hagree hgood hbody htype hconcurs

/-- Every object that stands for a value is read alike in heaps that agree on it. -/
theorem concurs_within (n room : Nat) : Concurrent n (m.liftWithin room) room := by
  induction room with
  | zero =>
      intro good heap heap' handle v hagree hgood hdenotes
      obtain ⟨-, content, mutable, hbody, hshows⟩ := hdenotes
      cases hshows with
      | scalar hv => exact h.concurs_scalar hagree hgood hbody hv
      | list hchild => exact nomatch hchild
      | dict hchild => exact nomatch hchild
      | set hchild => exact nomatch hchild
  | succ room ih =>
      intro good heap heap' handle v hagree hgood hdenotes
      obtain ⟨-, content, mutable, hbody, hshows⟩ := hdenotes
      have hchildren := hagree.children handle content mutable hgood hbody
      cases hshows with
      | scalar hv => exact h.concurs_scalar hagree hgood hbody hv
      | @list _ items values hchild hitems =>
          obtain rfl := Option.some.inj hchild
          refine h.concurs_liftObject hagree hgood hbody rfl (.map ?_ Value.list)
          refine h.concurs_readArray ih hagree hbody (hagree.body? hgood hbody) fun item hitem => ?_
          exact ⟨hchildren item (Array.mem_toList_iff.mpr hitem),
            exists_of_forall₂ hitems (Array.mem_toList_iff.mpr hitem)⟩
      | dict hchild hentries =>
          obtain rfl := Option.some.inj hchild
          refine h.concurs_liftObject hagree hgood hbody rfl (.map ?_ Value.dict)
          exact h.concurs_readDictionary ih hagree hgood hbody fun entry hentry =>
            exists_of_forall₂ hentries hentry
      | set hchild hmembers =>
          obtain rfl := Option.some.inj hchild
          refine h.concurs_liftObject hagree hgood hbody rfl (.map ?_ Value.set)
          exact h.concurs_readSet ih hagree hgood hbody fun member hmember =>
            exists_of_forall₂ hmembers hmember

end Marshaller.Steady

end Marshal
