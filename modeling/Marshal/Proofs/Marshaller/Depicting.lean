import Marshal.Proofs.Marshaller.Probing

/-!
# What readers answer

`Depicts m sound p x heap` says of a reader `x` that it answers what is in `p` and leaves the
heap as it found it (`Spares`), so that what is read next is still what it was at first.  If
there is nothing in `p`, or the budget falls short, the reader fails, and nothing is said of the
heap, for then nothing more is read.  Where all is live, which is what `sound` stands for, it
objects to too deep a nesting or to what is wrong with the store, if it objects
(`Marshaller.Rejects`).

Readers and what they answer are put together in the same way: what is bound or mapped on one
side is so on the other.  So a container is read as its elements are, whatever is known of
these (`Marshaller.OnHeap.depicts_readArray` and its like).

Only the array in which the members of a set are collected is ever created, so nothing but the
budget can get in the way.
-/

namespace Marshal

variable {heap heap' heap'' : Heap} {handle : Handle} {content : Content} {mutable : Bool}
  {α β γ : Type} {sound : Prop}

/-! ## Texts and numbers -/

theorem Utf8.decode_encode (s : String) : decode (encode s) = .ok s := by
  have hbytes : (⟨(encode s).toArray⟩ : ByteArray) = s.toByteArray := by simp [encode]
  have hvalid : s.toByteArray.IsValidUTF8 := s.isValidUTF8
  rw [decode, hbytes, String.fromUTF8?, dif_pos hvalid]
  rfl

/-- The object of a scalar has a standard type. -/
theorem exists_type_of_isScalar (h : content.isScalar) (mutable : Bool) :
    ∃ type, ({ content, mutable } : Object).type = .inl type := by
  cases content with
  | text | number | boolean | data => exact ⟨_, rfl⟩
  | _ => exact nomatch h

/-! ## Heaps that are left alone -/

/-- Nothing is left behind, and there is a budget as there was. -/
structure Spares (heap heap' : Heap) : Prop where
  grows : Heap.Grows heap 0 heap' 0
  unlimited : heap.budget = none → heap'.budget = none

theorem Heap.Positive.spares (h : heap.Positive) : Spares heap heap := ⟨h.grows, id⟩

/-- A warning about what is read is harmless. -/
theorem Heap.Positive.spares_warned {notice? : Option Notice} (hpos : heap.Positive)
    (hnotice : notice? ≠ some .deadRelease) : Spares heap (heap.warned notice?) := by
  cases notice? with
  | none => exact hpos.spares
  | some notice => exact ⟨hpos.grows.note fun heq => hnotice (congrArg some heq), id⟩

theorem Heap.budget_collected {o : Object} (hnone : heap.budget = none) :
    (heap.collected o).budget = none := by
  rw [Heap.collected, Heap.pushed, Heap.budget_retainedAll, hnone]
  rfl

/-- The array in which members are collected is owned by whoever has them collected. -/
theorem Heap.Positive.grows_collected {members : List Handle} (hpos : heap.Positive)
    (hlive : ∀ member ∈ members, heap.Live member) :
    Heap.Grows heap 0 (heap.collected { content := .array members.toArray }) {heap.next} := by
  have hchildren : ∀ child ∈ ({ content := .array members.toArray } : Object).children,
      heap.Live child := hlive
  exact (hpos.grows.collected hchildren rfl fun child _ => Multiset.notMem_zero child).finish

namespace Spares

theorem trans (h : Spares heap heap') (h' : Spares heap' heap'') : Spares heap heap'' where
  grows := by
    have hgrows := h.grows.trans h'.grows
    rwa [zero_add] at hgrows
  unlimited := h'.unlimited ∘ h.unlimited

theorem body?_eq (h : Spares heap heap') (handle : Handle) :
    heap'.body? handle = heap.body? handle := by
  rw [Heap.body?, Heap.body?, h.grows.same.get?_eq]

theorem live (h : Spares heap heap') (hlive : heap.Live handle) : heap'.Live handle := by
  rwa [Heap.live_iff_body?, h.body?_eq, ← Heap.live_iff_body?]

theorem closed (h : Spares heap heap') (hclosed : heap.Closed) : heap'.Closed := by
  intro handle content mutable hbody child hchild
  rw [h.body?_eq] at hbody
  exact h.live (hclosed handle content mutable hbody child hchild)

/-- With the array of the members released, nothing is left of reading a set. -/
theorem release {members : List Handle} (hpos : heap.Positive)
    (hlive : ∀ member ∈ members, heap.Live member)
    (h : Spares (heap.collected { content := .array members.toArray }) heap') :
    Spares heap (heap'.release heap.next) where
  grows := ((hpos.grows_collected hlive).trans h.grows).release
  unlimited hnone := Heap.stable_unlimited.release _ (h.unlimited (Heap.budget_collected hnone))

end Spares

/-! ## Failures of readers -/

/-- What a reader may object to: too deep a nesting, or what is wrong with the store, which is
not the budget. -/
def Marshaller.Rejects (m : Marshaller Heap) (failure : Failure) : Prop :=
  (failure = m.tooDeep ∨ failure.kind = .runtime) ∧
    ∀ name, failure ≠ .refused (.allocationFailed name)

namespace Marshaller

theorem rejects_tooDeep (m : Marshaller Heap) : m.Rejects m.tooDeep := ⟨.inl rfl, nofun⟩

theorem rejects_unsignedTooLarge (m : Marshaller Heap) (n : UInt64) :
    m.Rejects (.unsignedTooLarge n) := ⟨.inr rfl, nofun⟩

/-- A number that cannot be read is too large. -/
theorem rejects_of_numberValue (m : Marshaller Heap) {number : Number} {failure : Failure}
    (h : Store.numberValue number = .error failure) : m.Rejects failure := by
  cases number with
  | uint64 n =>
      rw [Store.numberValue] at h
      split at h
      · cases h
      · obtain rfl := Except.error.inj h
        exact m.rejects_unsignedTooLarge n
  | _ => cases h

theorem rejects_unknownLayout (m : Marshaller Heap) (layout : UInt8) (name : String) :
    m.Rejects (.refused (.unknownLayout layout name)) := ⟨.inr rfl, nofun⟩

end Marshaller

/-! ## What readers answer -/

/-- The reader answers what is pictured and leaves the heap alone.  If nothing is, or the
budget falls short, it fails.  Where all is sound there is something to object to if nothing
is pictured. -/
def Depicts (m : Marshaller Heap) (sound : Prop) (picture? : Option α) (x : Action Heap α)
    (heap : Heap) : Prop :=
  Ends x heap (fun a heap' => picture? = some a ∧ Spares heap heap')
    fun failure _ => heap.Short failure ∨ picture? = none ∧ (sound → m.Rejects failure)

namespace Depicts

variable {m : Marshaller Heap} {p : Option α} {x : Action Heap α}

theorem pure (hpos : heap.Positive) (a : α) :
    Depicts m sound (some a) (pure a : Action Heap α) heap := ends_pure ⟨rfl, hpos.spares⟩

theorem throw {failure : Failure} (hrejects : m.Rejects failure) :
    Depicts m sound none (throw failure : Action Heap α) heap :=
  ends_throw (.inr ⟨rfl, fun _ => hrejects⟩)

theorem map (h : Depicts m sound p x heap) (f : α → β) :
    Depicts m sound (f <$> p) (f <$> x) heap := by
  apply ends_map
  apply h.mono
  · rintro a heap' ⟨rfl, hspares⟩
    exact ⟨rfl, hspares⟩
  · rintro failure heap' (hshort | ⟨rfl, hrejects⟩)
    · exact .inl hshort
    · exact .inr ⟨rfl, hrejects⟩

theorem bind {f : α → Action Heap β} {q : α → Option β} (h : Depicts m sound p x heap)
    (hf : ∀ a heap', Spares heap heap' → Depicts m sound (q a) (f a) heap') :
    Depicts m sound (p >>= q) (x >>= f) heap := by
  apply ends_bind
  apply h.mono
  · rintro a heap' ⟨rfl, hspares⟩
    apply (hf a heap' hspares).mono
    · rintro b heap'' ⟨hpicture, hspares'⟩
      exact ⟨hpicture, hspares.trans hspares'⟩
    · rintro failure heap'' (hshort | ⟨hnone, hrejects⟩)
      · exact .inl (hshort.earlier hspares.unlimited)
      · exact .inr ⟨hnone, hrejects⟩
  · rintro failure heap' (hshort | ⟨rfl, hrejects⟩)
    · exact .inl hshort
    · exact .inr ⟨rfl, hrejects⟩

end Depicts

/-- The reader does so also when others have read before. -/
def StillDepicts (m : Marshaller Heap) (sound : Prop) (picture? : Option α) (x : Action Heap α)
    (heap : Heap) : Prop :=
  ∀ heap', Spares heap heap' → Depicts m sound picture? x heap'

namespace Depicts

variable {m : Marshaller Heap}

/-- Each element on the one side is read as pictured on the other. -/
theorem mapM {f : α → Action Heap β} {q : γ → Option β} {xs : List α} {ys : List γ}
    (h : List.Forall₂ (fun x y => StillDepicts m sound (q y) (f x) heap) xs ys)
    (hs : Spares heap heap') : Depicts m sound (ys.mapM q) (xs.mapM f) heap' := by
  induction h generalizing heap' with
  | nil => exact pure hs.grows.conserved.positive []
  | cons hhead _ ih =>
      rw [List.mapM_cons, List.mapM_cons]
      apply (hhead heap' hs).bind
      intro b s hs'
      apply (ih (hs.trans hs')).bind
      intro bs t ht
      exact pure ht.grows.conserved.positive (b :: bs)

end Depicts

/-! ## Readers of contents -/

/-- The items of an array, with what belongs to them, by their places. -/
theorem forall₂_range {α β : Type} {R : α → β → Prop} {S : Nat → β → Prop} {items : Array α}
    {ys : List β} (h : List.Forall₂ R items.toList ys)
    (himp : ∀ index item y, items[index]? = some item → R item y → S index y) :
    List.Forall₂ S (List.range items.size) ys := by
  rw [List.forall₂_iff_get] at h ⊢
  obtain ⟨hlength, hget⟩ := h
  refine ⟨by simpa using hlength, fun index hindex hy => ?_⟩
  have hlt : index < items.size := by simpa using hindex
  have hitem := hget index (by simpa using hlt) hy
  simpa using himp index items[index] _ (by simp [hlt]) (by simpa using hitem)

namespace Marshaller.OnHeap

variable {m : Marshaller Heap} (h : m.OnHeap)

include h

theorem ends_liftText {s : String} {good : String → Heap → Prop}
    {bad : Failure → Heap → Prop} (hbody : heap.body? handle = some (.text s, mutable))
    (hgood : good s heap) : Ends (m.store.liftText handle) heap good bad := by
  have hread : (fun s => [Utf8.encode s]) <$> heap.textOf handle = .ok [Utf8.encode s] := by
    rw [Heap.textOf_eq_ok.mpr ⟨mutable, hbody⟩]
    rfl
  refine ends_bind (h.ends_ask (Heap.ends_reading_of_ok hread ?_))
  simp only [List.getLast?_singleton, Utf8.decode_encode]
  exact ends_pure hgood

theorem ends_liftBytes {bytes : List UInt8} {good : List UInt8 → Heap → Prop}
    {bad : Failure → Heap → Prop} (hbody : heap.body? handle = some (.data bytes, mutable))
    (hgood : good bytes heap) : Ends (m.store.liftBytes handle) heap good bad := by
  have hread : (fun bytes => [bytes]) <$> heap.dataOf handle = .ok [bytes] := by
    rw [Heap.dataOf_eq_ok.mpr ⟨mutable, hbody⟩]
    rfl
  exact ends_bind (h.ends_ask (Heap.ends_reading_of_ok hread (ends_pure hgood)))

theorem depicts_number {numeral : Numeral} (hpos : heap.Positive)
    (hbody : heap.body? handle = some (.number numeral, mutable)) :
    Depicts m sound (Content.number numeral).value? (m.store.liftNumber handle) heap := by
  cases numeral with
  | known number =>
      refine ends_bind (h.ends_ask (Heap.ends_reading_of_ok (Heap.numberOf_of_body? hbody) ?_))
      show Depicts m sound (Store.numberValue number).toOption
        (Store.numberValue number).toAction heap
      cases hvalue : Store.numberValue number with
      | ok v => exact Depicts.pure hpos v
      | error failure => exact Depicts.throw (m.rejects_of_numberValue hvalue)
  | unreadable layout =>
      obtain ⟨name, hread⟩ := Heap.numberOf_of_unreadable hbody
      have hask : m.store.ask (.readNumber handle) heap =
          .error (.refused (.unknownLayout layout name)) heap := by
        rw [h.store]
        simp only [Store.ask, Heap.store, Heap.answer, Heap.reading, hread]
      have hrejects := m.rejects_unknownLayout layout name
      exact ends_bind (ends_of_error hask (.inr ⟨rfl, fun _ => hrejects⟩))

/-- A scalar is read as what it is, by the reader of its type. -/
theorem depicts_liftStandard {element? : Option (Handle → Action Heap Value)}
    {type : StandardType} (hpos : heap.Positive)
    (hbody : heap.body? handle = some (content, mutable))
    (htype : ({ content, mutable } : Object).type = .inl type) (hscalar : content.isScalar) :
    Depicts m sound content.value? (m.liftStandard element? type handle) heap := by
  cases content with
  | text s =>
      cases htype
      exact Depicts.map (h.ends_liftText hbody ⟨rfl, hpos.spares⟩) Value.text
  | number numeral =>
      cases htype
      exact h.depicts_number hpos hbody
  | boolean b =>
      cases htype
      refine Depicts.map (p := some b) ?_ Value.bool
      exact h.ends_ask (Heap.ends_reading_of_ok (Heap.booleanOf_eq_ok.mpr ⟨mutable, hbody⟩)
        ⟨rfl, hpos.spares⟩)
  | data bytes =>
      cases htype
      exact Depicts.map (h.ends_liftBytes hbody ⟨rfl, hpos.spares⟩) Value.bytes
  | _ => exact nomatch hscalar

/-! ### Containers of integers -/

theorem depicts_indexArray {values : Array Int64} (hpos : heap.Positive)
    (hbody : heap.body? handle = some (.indexArray values, mutable)) :
    Depicts m sound (some values.toList) (m.liftIndexArray handle) heap := by
  rw [← mapM_some values.toList]
  refine ends_bind (h.ends_ask (Heap.ends_reading_of_ok (Heap.size_containerOf hbody rfl) ?_))
  refine Depicts.mapM (forall₂_range (List.forall₂_same.mpr fun value _ => rfl) ?_) hpos.spares
  rintro index value _ hvalue rfl heap' hspares
  have hat : (do Heap.itemIn (← heap'.indicesOf handle) index) = .ok value := by
    rw [Heap.indicesOf_eq_ok.mpr ⟨mutable, (hspares.body?_eq handle).trans hbody⟩]
    show Heap.itemIn values index = .ok value
    rw [Heap.itemIn, hvalue]
  exact h.ends_ask (Heap.ends_reading_of_ok hat ⟨rfl, hspares.grows.conserved.positive.spares⟩)

theorem depicts_indexSet {values : List Int64} (hpos : heap.Positive)
    (hbody : heap.body? handle = some (.indexSet values, mutable)) :
    Depicts m sound (some (Content.readIndices values)) (m.liftIndexSet handle) heap :=
  h.ends_liftIndexSet hbody ⟨rfl, hpos.spares_warned (Content.indicesNotice?_ne values)⟩

theorem depicts_pairs {pairs : List (Int64 × Int64)} (hpos : heap.Positive)
    (hbody : heap.body? handle = some (.pairSet pairs, mutable)) :
    Depicts m sound (some (Content.readPairs pairs m.window 0 pairs.length)) (m.liftPairs handle)
      heap :=
  h.ends_liftPairs hbody ⟨rfl, hpos.spares_warned (Content.pairsNotice?_ne _ _ _)⟩

/-! ### Containers of objects -/

section Elements

variable {element : Handle → Action Heap Value} {ys : List γ}

theorem depicts_readArray {items : Array Handle} {q : γ → Option Value} (hpos : heap.Positive)
    (hbody : heap.body? handle = some (.array items, mutable))
    (hitems : List.Forall₂ (fun item y => StillDepicts m sound (q y) (element item) heap)
      items.toList ys) :
    Depicts m sound (ys.mapM q) (m.readArray element handle) heap := by
  refine ends_bind (h.ends_ask (Heap.ends_reading_of_ok (Heap.size_containerOf hbody rfl) ?_))
  -- the items are asked for one by one, by their places
  refine Depicts.mapM (forall₂_range hitems fun index item y hitem hread heap' hspares => ?_)
    hpos.spares
  have hat : (do Heap.itemIn (← heap'.itemsOf handle) index) = .ok item := by
    rw [Heap.itemsOf_eq_ok.mpr ⟨mutable, (hspares.body?_eq handle).trans hbody⟩]
    show Heap.itemIn items index = .ok item
    rw [Heap.itemIn, hitem]
  exact ends_bind (h.ends_ask (Heap.ends_reading_of_ok hat (hread heap' hspares)))

omit h in
/-- Of an entry, the key is read first. -/
theorem depicts_readEntry {entry : Handle × Handle} {p q : Option Value}
    (hkey : StillDepicts m sound p (element entry.1) heap)
    (hvalue : StillDepicts m sound q (element entry.2) heap) :
    StillDepicts m sound (do let key ← p; let value ← q; pure (key, value))
      (readEntry element (some entry.1, some entry.2)) heap := by
  intro heap' hspares
  apply (hkey heap' hspares).bind
  intro key heap'' hspares'
  apply (hvalue heap'' (hspares.trans hspares')).bind
  intro value s hs
  exact .pure hs.grows.conserved.positive (key, value)

theorem depicts_readDictionary {entries : List (Handle × Handle)} {q : γ → Option (Value × Value)}
    (hpos : heap.Positive) (hbody : heap.body? handle = some (.dictionary entries, mutable))
    (hentries : List.Forall₂ (fun entry y =>
      StillDepicts m sound (q y) (readEntry element (some entry.1, some entry.2)) heap)
      entries ys) :
    Depicts m sound (ys.mapM q) (m.readDictionary element handle) heap := by
  have hbuffers : (do Heap.buffers (← heap.entriesOf handle) entries.length entries.length) =
      .ok (entries.map fun entry => some entry.1, entries.map fun entry => some entry.2) := by
    rw [Heap.entriesOf_eq_ok.mpr ⟨mutable, hbody⟩]
    show Heap.buffers entries entries.length entries.length = _
    simp [Heap.buffers]
  refine ends_bind (h.ends_ask (Heap.ends_reading_of_ok (Heap.size_containerOf hbody rfl) ?_))
  refine ends_bind (h.ends_ask (Heap.ends_reading_of_ok hbuffers ?_))
  show Depicts m sound _
    (List.mapM (readEntry element) (List.zip (entries.map _) (entries.map _))) heap
  rw [List.zip_map', List.mapM_map]
  exact Depicts.mapM hentries hpos.spares

/-- The members of a set are collected in an array. -/
theorem ends_members {members : List Handle}
    (hbody : heap.body? handle = some (.members members, mutable))
    (hlive : ∀ member ∈ members, heap.Live member) :
    Ends (m.store.ask (.members handle)) heap
      (fun array heap' => array = heap.next ∧
        heap' = heap.collected { content := .array members.toArray })
      fun failure _ => heap.Short failure := by
  refine h.ends_ask (ends_bind (Heap.ends_reading_of_ok
    (Heap.membersOf_eq_ok.mpr ⟨mutable, hbody⟩) ?_))
  exact Heap.ends_collect hlive ⟨rfl, rfl⟩ fun refusal hspent => hspent.short

/-- The members of a set are read from an array of them, which is there only meanwhile. -/
theorem ends_withMembers {α : Type} {body : Handle → Action Heap α} {good : α → Prop}
    {bad : Failure → Prop} {members : List Handle} (hpos : heap.Positive)
    (hbody : heap.body? handle = some (.members members, mutable))
    (hlive : ∀ member ∈ members, heap.Live member)
    (hshort : ∀ failure, heap.Short failure → bad failure)
    (hread : ∀ collected : Heap, collected.Positive →
      collected.body? heap.next = some (.array members.toArray, false) →
      (∀ other, other ≠ heap.next → collected.body? other = heap.body? other) →
      (heap.budget = none → collected.budget = none) →
      Ends (body heap.next) collected (fun a heap' => good a ∧ Spares collected heap')
        fun failure _ => bad failure) :
    Ends (m.store.withReference (m.store.ask (.members handle)) body) heap
      (fun a heap' => good a ∧ Spares heap heap') fun failure _ => bad failure := by
  have hcollect := (h.ends_members hbody hlive).mono (fun _ _ => id)
    fun failure _ hfailure => hshort failure hfailure
  rw [h.store] at hcollect ⊢
  refine Marshal.ends_withReference (hcollect.mono (fun array heap' hgood => ?_) fun _ _ => id)
  obtain ⟨rfl, rfl⟩ := hgood
  have hcollected := hpos.grows_collected hlive
  refine (hread _ hcollected.conserved.positive (Heap.body?_of_get? Heap.get?_collected_new)
    (fun other hother => Heap.body?_collected_of_ne hother) Heap.budget_collected).mono
    (fun a heap' hgood => ?_) fun _ _ => id
  exact ⟨hgood.1, hgood.2.release hpos hlive⟩

/-- What is known of the members when they have been collected is known of the set. -/
theorem depicts_readSet {members : List Handle} {q : γ → Option Value} (hpos : heap.Positive)
    (hbody : heap.body? handle = some (.members members, mutable))
    (hlive : ∀ member ∈ members, heap.Live member)
    (hmembers : ∀ collected : Heap, collected.Positive →
      collected.body? heap.next = some (.array members.toArray, false) →
      (∀ other, other ≠ heap.next → collected.body? other = heap.body? other) →
      List.Forall₂ (fun member y => StillDepicts m sound (q y) (element member) collected)
        members ys) :
    Depicts m sound (ys.mapM q) (m.readSet element handle) heap := by
  refine h.ends_withMembers hpos hbody hlive (fun _ => .inl)
    fun collected hpos' harray hother hunlimited => ?_
  apply (h.depicts_readArray hpos' harray (hmembers collected hpos' harray hother)).mono
    fun _ _ => id
  rintro failure _ (hshort | ⟨hnone, hrejects⟩)
  · exact .inl (hshort.earlier hunlimited)
  · exact .inr ⟨hnone, hrejects⟩

end Elements

/-! ### Objects -/

/-- An object is identified by its type, whichever that is. -/
theorem identify_of_body? (hbody : heap.body? handle = some (content, mutable)) :
    m.identify handle heap = .ok (m.types.kindOf ({ content, mutable } : Object).typeId) heap := by
  obtain ⟨o, ho, rfl, rfl⟩ := Heap.exists_of_body? hbody
  have hlook : Object.typeId <$> heap.look handle = .ok o.typeId := by
    rw [Heap.look_eq_ok.mpr ho]
    rfl
  have hask : Ends (m.store.ask (.typeOf handle)) heap
      (fun id heap' => id = o.typeId ∧ heap' = heap) fun _ _ => False :=
    h.ends_ask (Heap.ends_reading_of_ok hlook ⟨rfl, rfl⟩)
  exact bind_of_ok hask.eq_ok

theorem identify_of_type {type : StandardType}
    (hbody : heap.body? handle = some (content, mutable))
    (htype : ({ content, mutable } : Object).type = .inl type) :
    m.identify handle heap = .ok (m.types.kindOf type.id) heap := by
  have hid : ({ content, mutable } : Object).typeId = type.id := by
    rw [Object.typeId, htype]
    rfl
  rw [h.identify_of_body? hbody, hid]

end Marshaller.OnHeap

/-! ## Readers of objects -/

namespace Marshaller

variable {m : Marshaller Heap} {element? : Option (Handle → Action Heap Value)}

/-- An object of a type that is read as such is read by the reader of its type. -/
theorem OnHeap.lift_eq (h : m.OnHeap) {type : StandardType}
    (hkind : m.types.kindOf type.id = .standard type)
    (hbody : heap.body? handle = some (content, mutable))
    (htype : ({ content, mutable } : Object).type = .inl type) :
    m.lift (some handle) heap = m.liftStandard (m.element? m.limits.maxDepth) type handle heap := by
  have hidentify := h.identify_of_type hbody htype
  rw [hkind] at hidentify
  show m.liftWithin m.limits.maxDepth handle heap = _
  rw [m.liftWithin_eq]
  exact bind_of_ok hidentify

namespace Standard

variable (h : m.Standard)

include h

theorem depicts_standard {type : StandardType} {p : Option Value}
    (hbody : heap.body? handle = some (content, mutable))
    (htype : ({ content, mutable } : Object).type = .inl type)
    (hread : Depicts m sound p (m.liftStandard element? type handle) heap) :
    Depicts m sound p (m.liftObject element? handle) heap := by
  have hidentify := h.identify_of_type hbody htype
  rw [h.kindOf] at hidentify
  exact ends_bind (ends_of_ok hidentify hread)

/-- A scalar is read as what it is, wherever it stands. -/
theorem depicts_scalar (hpos : heap.Positive)
    (hbody : heap.body? handle = some (content, mutable)) (hscalar : content.isScalar) :
    Depicts m sound content.value? (m.liftObject element? handle) heap := by
  obtain ⟨type, htype⟩ := exists_type_of_isScalar hscalar mutable
  exact h.depicts_standard hbody htype (h.depicts_liftStandard hpos hbody htype hscalar)

end Standard

end Marshaller

end Marshal
