import Marshal.Proofs.Heap.Clients
import Marshal.Proofs.Heap.MembersApart
import Marshal.Proofs.Heap.Types
import Marshal.Proofs.Numeric.Widening

/-!
# What the objects of a heap are like

An object has contents of the sort that its type names, the members of a set are told
apart, and so are the keys of a dictionary, which are texts (`Heap.Represents`).

Two of these come from what contents may arise from.  Contents that an operation makes are
such as the heap `Permits` before the operation: a key is put into a dictionary only if it
was looked for in vain there, a custom object is made only of a registered type, and no
operation makes a boolean.  What is permitted stays so, because texts never change and types
are never taken off the list.  The members of sets are treated in the same way elsewhere
(`Reachable.membersApart`).

That the keys are there is another matter.  It takes a client that releases only what it
owns, since nothing that is held is gone then.
-/

namespace Marshal

/-! ## Contents that count as one -/

theorem Number.sameInexact_comm (a b : Number) : sameInexact a b = sameInexact b a := by
  cases a <;> cases b <;> first | rfl | exact BEq.comm

theorem Number.same_comm (a b : Number) : a.same b = b.same a := by
  unfold same
  cases a.integer? <;> cases b.integer? <;>
    first | rfl | exact sameInexact_comm a b | exact BEq.comm

/-- It does not matter which of two contents is compared with the other one. -/
theorem Content.same_comm (c d : Content) : c.same d = d.same c := by
  cases c with
  | number m =>
      cases d with
      | number n => cases m <;> cases n <;> first | rfl | exact Number.same_comm _ _
      | _ => simp [same]
  | _ => cases d <;> first | rfl | exact BEq.comm | simp [same]

/-! ## Types and contents -/

/-- Contents of the sort that a standard type names. -/
inductive StandardType.Shapes : StandardType → Content → Prop
  | text (mutable : Bool) (s : String) : Shapes (.text mutable) (.text s)
  | number (numeral : Numeral) : Shapes .number (.number numeral)
  | boolean (b : Bool) : Shapes .boolean (.boolean b)
  | data (mutable : Bool) (bytes : List UInt8) : Shapes (.data mutable) (.data bytes)
  | container {kind : Container} (mutable : Bool) {content : Content}
      (hkind : content.container? = some kind) : Shapes (.container kind mutable) content

theorem StandardType.id_inj {type type' : StandardType} : type.id = type'.id ↔ type = type' := by
  rw [id, id, TypeId.mk.injEq, Nat.add_right_cancel_iff]
  exact List.idxOf_inj (mem_all type)

namespace Object

variable {o : Object}

theorem shapes_of_type {type : StandardType} (h : o.type = .inl type) : type.Shapes o.content := by
  unfold Object.type at h
  cases hcontent : o.content <;> rw [hcontent] at h <;> cases h
  case text => exact .text ..
  case number => exact .number _
  case boolean => exact .boolean _
  case data => exact .data ..
  all_goals exact .container _ rfl

theorem content_of_type {type : TypeId} (h : o.type = .inr type) :
    ∃ bytes, o.content = .custom type bytes := by
  unfold Object.type at h
  cases hcontent : o.content <;> rw [hcontent] at h <;> cases h
  exact ⟨_, rfl⟩

theorem typeId_of_inl {type : StandardType} (h : o.type = .inl type) : o.typeId = type.id := by
  rw [typeId, h]
  rfl

theorem typeId_of_inr {type : TypeId} (h : o.type = .inr type) : o.typeId = type := by
  rw [typeId, h]
  rfl

end Object

namespace Heap

variable {heap heap' : Heap} {handle key : Handle} {keys : List Handle} {content : Content}
  {opened : Bool}

/-- The object is of the sort that its type names, and what it holds is told apart where
that is asked for. -/
structure Represents (heap : Heap) (o : Object) : Prop where
  registered : (heap.typeName? o.typeId).isSome
  known : (∃ type : StandardType, o.typeId = type.id) ∨ o.typeId.isCustom
  standard : ∀ type : StandardType, o.typeId = type.id → type.Shapes o.content
  custom : o.typeId.isCustom ↔ ∃ type bytes, o.content = .custom type bytes
  /-- No member is there twice, and no two members count as one, in whatever order they are
  compared. -/
  members : ∀ members, o.content = .members members →
    members.Nodup ∧ ∀ member ∈ members, ∀ other ∈ members, member ≠ other →
      ¬ heap.Alike Content.same member other
  /-- The keys are live texts, and no two of them are the same text. -/
  keys : ∀ entries, o.content = .dictionary entries → ∃ texts : List String, texts.Nodup ∧
    List.Forall₂ (fun key text => heap.textOf key = .ok text) (entries.map Prod.fst) texts

/-! ## What a heap permits -/

/-- The handle leads to a text or to nothing. -/
def Textual (heap : Heap) (handle : Handle) : Prop := ∀ content mutable,
  heap.body? handle = some (content, mutable) → ∃ text, content = .text text

/-- The handles lead to different texts, as far as they lead anywhere. -/
structure Keyed (heap : Heap) (keys : List Handle) : Prop where
  textual : ∀ key ∈ keys, heap.Textual key
  unlike : keys.Pairwise heap.Unlike

/-- What the contents of a slot may be. -/
def Permits (heap : Heap) : Content → Prop
  | .dictionary entries => heap.Keyed (entries.map Prod.fst)
  | .custom type _ => type.isCustom ∧ (heap.typeName? type).isSome
  | .boolean _ => False
  | _ => True

/-- All slots have contents that are permitted. -/
def Lawful (heap : Heap) : Prop := ∀ index content mutable,
  heap.body? (.object index) = some (content, mutable) → heap.Permits content

/-- A key that was looked for in vain may join the others. -/
theorem Keyed.append {text : String} {mutable : Bool} (h : heap.Keyed keys)
    (hkey : heap.body? key = some (.text text, mutable))
    (hnew : heap.hasMember keys key (.text text) = false) : heap.Keyed (keys ++ [key]) where
  textual := by
    rw [List.forall_mem_append, List.forall_mem_singleton]
    refine ⟨h.textual, fun content mutable' hbody => ⟨text, ?_⟩⟩
    exact (Prod.mk.inj (Option.some.inj (hbody.symm.trans hkey))).1
  unlike := by
    refine List.pairwise_append.mpr ⟨h.unlike, List.pairwise_singleton _ _, ?_⟩
    intro other hother last hlast
    obtain rfl := List.mem_singleton.mp hlast
    exact unlike_of_hasMember hkey hnew other hother

theorem hasMember_keys {entries : List (Handle × Handle)} {text : String}
    (h : heap.keyPlace? entries key text = none) :
    heap.hasMember (entries.map Prod.fst) key (.text text) = false := by
  rw [hasMember, List.any_map, List.any_eq_false]
  exact fun entry hentry => Bool.eq_false_iff.mp (List.findIdx?_eq_none_iff.mp h entry hentry)

theorem map_fst_modify (entries : List (Handle × Handle)) (place : Nat) (value : Handle) :
    (entries.modify place fun entry => (entry.1, value)).map Prod.fst = entries.map Prod.fst := by
  refine List.ext_getElem? fun other => ?_
  rw [List.getElem?_map, List.getElem?_map, List.getElem?_modify]
  cases entries[other]? <;> simp [apply_ite]

/-- An operation makes only such contents as are permitted before it. -/
theorem Lawful.permits_of_origin (h : heap.Lawful) (horigin : heap.Origin content) :
    heap.Permits content := by
  have hdictionary : ∀ {dictionary : Handle} {entries : List (Handle × Handle)},
      heap.body? dictionary = some (.dictionary entries, true) →
      heap.Keyed (entries.map Prod.fst) := by
    intro dictionary entries hbody
    obtain ⟨index, rfl⟩ := exists_index_of_container hbody rfl
    exact h index (.dictionary entries) true hbody
  cases horigin with
  | bare hbare => cases content <;> trivial
  | empty kind => cases kind <;> first | trivial | exact ⟨List.forall_mem_nil _, .nil⟩
  | custom bytes htype hlisted => exact ⟨htype, hlisted⟩
  | kept hbody => exact h _ content _ hbody
  | listed | appended | added | indexed | paired => trivial
  | @entered dictionary key value entries text mutable hbody hkey _ hnew =>
      show heap.Keyed ((entries ++ [(key, value)]).map Prod.fst)
      rw [List.map_append]
      exact (hdictionary hbody).append hkey (hasMember_keys hnew)
  | @replaced dictionary value entries place old hbody _ _ =>
      show heap.Keyed ((entries.modify place _).map Prod.fst)
      rw [map_fst_modify]
      exact hdictionary hbody

/-! ## What is permitted stays so -/

/-- Texts stay what they are. -/
theorem Textual.follows (h : heap.Textual handle) (hbefore : handle.Before heap.slots.size)
    (hfollows : Follows opened heap heap') : heap'.Textual handle := by
  intro content mutable hbody'
  obtain ⟨body, hbody, hbecomes⟩ := hfollows.exists_of_before hbefore hbody'
  obtain ⟨text, htext⟩ := h body.1 body.2 hbody
  rcases hbecomes with rfl | ⟨-, -, kind, hkind, -⟩
  · exact ⟨text, htext⟩
  · rw [htext] at hkind
    exact nomatch hkind

theorem Keyed.follows (h : heap.Keyed keys) (hbefore : ∀ key ∈ keys, key.Before heap.slots.size)
    (hfollows : Follows opened heap heap') : heap'.Keyed keys where
  textual key hkey := (h.textual key hkey).follows (hbefore key hkey) hfollows
  unlike := h.unlike.imp_of_mem fun ha hb hunlike =>
    hunlike.follows (hbefore _ ha) (hbefore _ hb) hfollows

theorem typeName?_isSome_mono {type : TypeId} (h : (heap.typeName? type).isSome)
    (htypes : heap.types <+: heap'.types) : (heap'.typeName? type).isSome := by
  unfold typeName? at h ⊢
  rw [Option.isSome_map] at h ⊢
  obtain ⟨entry, hmem, heq⟩ := List.find?_isSome.mp h
  exact List.find?_isSome.mpr ⟨entry, htypes.subset hmem, heq⟩

theorem Permits.follows (h : heap.Permits content)
    (hbefore : ∀ child ∈ content.children, child.Before heap.slots.size)
    (hfollows : Follows opened heap heap') (htypes : heap.types <+: heap'.types) :
    heap'.Permits content := by
  cases content with
  | dictionary entries =>
      refine Keyed.follows h (fun key hkey => hbefore key ?_) hfollows
      obtain ⟨entry, hentry, rfl⟩ := List.mem_map.mp hkey
      exact List.mem_flatMap.mpr ⟨entry, hentry, List.mem_cons_self ..⟩
  | custom type bytes => exact ⟨h.1, typeName?_isSome_mono h.2 htypes⟩
  | boolean => exact h
  | text | number | data | array | members | indexArray | indexSet | pairSet => trivial

/-- Whatever was done to a heap, its slots have contents that are permitted. -/
theorem Reachable.lawful (h : heap.Reachable) : heap.Lawful := by
  induction h with
  | fresh =>
      intro index content mutable hbody
      exact absurd (lt_size_of_live (live_of_body? hbody)) (Nat.not_lt_zero index)
  | @step heap operation hheap ih =>
      intro index content mutable hbody
      have horigin := Arises.perform operation heap index content mutable hbody
      exact (ih.permits_of_origin horigin).follows (hheap.issued.before_of_origin horigin)
        (Follows.perform operation heap) (types_prefix_perform operation heap)

/-! ## Objects -/

/-- Two handles of one text are not told apart. -/
theorem not_unlike_of_text {other : Handle} {text : String} (h : heap.textOf handle = .ok text)
    (hother : heap.textOf other = .ok text) : ¬ heap.Unlike handle other := by
  obtain ⟨mutable, hbody⟩ := textOf_eq_ok.mp h
  obtain ⟨mutable', hbody'⟩ := textOf_eq_ok.mp hother
  exact fun hunlike => hunlike.2 ((alike_iff hbody hbody').mpr (by simp [Content.same]))

/-- Where the keys are there, each of them is a text of its own. -/
theorem Keyed.exists_texts (h : heap.Keyed keys) (hlive : ∀ key ∈ keys, heap.Live key) :
    ∃ texts : List String, texts.Nodup ∧
      List.Forall₂ (fun key text => heap.textOf key = .ok text) keys texts := by
  obtain ⟨htextual, hunlike⟩ := h
  induction keys with
  | nil => exact ⟨[], .nil, .nil⟩
  | cons key keys ih =>
      rw [List.forall_mem_cons] at htextual hlive
      rw [List.pairwise_cons] at hunlike
      obtain ⟨texts, hnodup, hall⟩ := ih hlive.2 htextual.2 hunlike.2
      obtain ⟨⟨content, mutable⟩, hbody⟩ := Option.isSome_iff_exists.mp (live_iff_body?.mp hlive.1)
      obtain ⟨text, rfl⟩ := htextual.1 content mutable hbody
      have htext : heap.textOf key = .ok text := textOf_eq_ok.mpr ⟨mutable, hbody⟩
      refine ⟨text :: texts, List.nodup_cons.mpr ⟨fun hmem => ?_, hnodup⟩, .cons htext hall⟩
      obtain ⟨place, hplace, rfl⟩ := List.getElem_of_mem hmem
      have hother := hall.get (hall.length_eq ▸ hplace) hplace
      exact not_unlike_of_text htext hother (hunlike.1 _ (List.getElem_mem _))

theorem Unlike.symm {other : Handle} (h : heap.Unlike handle other) :
    heap.Unlike other handle := by
  refine ⟨h.1.symm, ?_⟩
  rintro ⟨content, mutable, content', mutable', hbody, hbody', hsame⟩
  exact h.2 ⟨content', mutable', content, mutable, hbody', hbody, by rwa [Content.same_comm]⟩

/-- The type of a live object is a standard one, which its contents fit, or a registered one. -/
theorem Reachable.typeId_cases {o : Object} (h : heap.Reachable) (ho : heap.get? handle = some o) :
    (∃ type : StandardType, o.typeId = type.id ∧ type.Shapes o.content) ∨
      o.typeId.isCustom ∧ (heap.typeName? o.typeId).isSome ∧
        ∃ bytes, o.content = .custom o.typeId bytes := by
  cases htype : o.type with
  | inl type => exact .inl ⟨type, Object.typeId_of_inl htype, Object.shapes_of_type htype⟩
  | inr type =>
      obtain ⟨bytes, hcontent⟩ := Object.content_of_type htype
      have hbody := body?_of_get? ho
      rw [hcontent] at hbody
      cases handle with
      | boolean b => exact nomatch hbody
      | outside address => exact nomatch hbody
      | object index =>
          obtain ⟨hcustom, hlisted⟩ := h.lawful index _ o.mutable hbody
          rw [Object.typeId_of_inr htype]
          exact .inr ⟨hcustom, hlisted, bytes, hcontent⟩

theorem Reachable.typeName?_isSome (h : heap.Reachable) (type : StandardType) :
    (heap.typeName? type.id).isSome := by
  obtain ⟨registered, htypes, -⟩ := h.standardFirst
  rw [typeName?, Option.isSome_map, List.find?_isSome]
  refine ⟨⟨type.id, type.name⟩, ?_, decide_eq_true rfl⟩
  rw [htypes]
  exact List.mem_append_left _ (List.mem_map_of_mem type.mem_all)

theorem Reachable.represents {o : Object} (h : heap.Reachable) (hclosed : heap.Closed)
    (ho : heap.get? handle = some o) : heap.Represents o where
  registered := by
    rcases h.typeId_cases ho with ⟨type, htype, -⟩ | ⟨-, hlisted, -⟩
    · rw [htype]
      exact h.typeName?_isSome type
    · exact hlisted
  known := by
    rcases h.typeId_cases ho with ⟨type, htype, -⟩ | ⟨hcustom, -⟩
    · exact .inl ⟨type, htype⟩
    · exact .inr hcustom
  standard type heq := by
    rcases h.typeId_cases ho with ⟨type', htype, hshapes⟩ | ⟨hcustom, -⟩
    · obtain rfl := StandardType.id_inj.mp (heq.symm.trans htype)
      exact hshapes
    · exact absurd (heq ▸ hcustom) type.not_isCustom
  custom := by
    rcases h.typeId_cases ho with ⟨type, htype, hshapes⟩ | ⟨hcustom, -, bytes, hcontent⟩
    · refine iff_of_false (htype ▸ type.not_isCustom) ?_
      rintro ⟨_, _, hcontent⟩
      rw [hcontent] at hshapes
      cases hshapes with
      | container _ hkind => exact nomatch hkind
    · exact iff_of_true hcustom ⟨_, bytes, hcontent⟩
  members members hcontent := by
    have hbody := body?_of_get? ho
    rw [hcontent] at hbody
    have hunlike := h.membersApart handle members o.mutable hbody
    have : Std.Symm heap.Unlike := ⟨fun _ _ => Unlike.symm⟩
    refine ⟨hunlike.imp fun hne => hne.1, fun member hmember other hother hne => ?_⟩
    exact (hunlike.forall hmember hother hne).2
  keys entries hcontent := by
    have hbody := body?_of_get? ho
    rw [hcontent] at hbody
    obtain ⟨index, rfl⟩ := exists_index_of_container hbody rfl
    refine (h.lawful index _ o.mutable hbody).exists_texts fun key hkey => ?_
    obtain ⟨entry, hentry, rfl⟩ := List.mem_map.mp hkey
    refine hclosed _ _ o.mutable hbody entry.1 ?_
    exact List.mem_flatMap.mpr ⟨entry, hentry, List.mem_cons_self ..⟩

/-- Only the booleans have the type of booleans. -/
theorem Reachable.boolean_of_typeId {o : Object} (h : heap.Reachable)
    (ho : heap.get? handle = some o) (htype : o.typeId = StandardType.boolean.id) :
    ∃ b, handle = .boolean b := by
  have hbody := body?_of_get? ho
  rcases h.typeId_cases ho with ⟨type, hid, hshapes⟩ | ⟨hcustom, -⟩
  · obtain rfl := StandardType.id_inj.mp (hid.symm.trans htype)
    cases handle with
    | boolean b => exact ⟨b, rfl⟩
    | outside address => exact nomatch hbody
    | object index =>
        have hpermits := h.lawful index o.content o.mutable hbody
        generalize o.content = content at hshapes hpermits
        cases hshapes
        exact hpermits.elim
  · exact absurd (htype ▸ hcustom) StandardType.boolean.not_isCustom

end Heap

namespace Client

variable {client : Client}

/-- Whatever a client does that releases only what it owns, each live object is of the sort
that its type names, the members of sets are told apart by identity and by contents, and the
keys of dictionaries are live texts that differ.  The live objects with the type of booleans
are the two booleans, at any time. -/
theorem Reachable.represented (h : client.Reachable) :
    (∀ handle o, client.heap.get? handle = some o → client.heap.Represents o) ∧
    ∀ handle, (∃ o, client.heap.get? handle = some o ∧ o.typeId = StandardType.boolean.id) ↔
      ∃ b, handle = .boolean b := by
  refine ⟨fun handle o ho => h.heap_reachable.represents h.closed ho, fun handle => ⟨?_, ?_⟩⟩
  · rintro ⟨o, ho, htype⟩
    exact h.heap_reachable.boolean_of_typeId ho htype
  · rintro ⟨b, rfl⟩
    exact ⟨.boolean b, Heap.get?_boolean b, rfl⟩

/-- A set that was given one text twice, as two objects, and a copy of it. -/
theorem Reachable.represented_of_copy :
    let client := (((((({} : Client).step (.ask (.createText "shared" false))).step
      (.ask (.createText "shared" true))).step (.ask (.create .valueSet))).step
        (.ask (.addMember (.object 2) (.object 0)))).step
          (.ask (.addMember (.object 2) (.object 1)))).step (.ask (.copy .valueSet (.object 2)))
    client.heap.get? (.object 3) = some { content := .members [.object 0] } ∧
      client.heap.Represents { content := .members [.object 0] } := by
  intro client
  have hclient : client.Reachable :=
    (((((Reachable.fresh.ask _).ask _).ask _).ask _).ask _).ask _
  have hcopy : client.heap.get? (.object 3) = some { content := .members [.object 0] } := by
    decide
  exact ⟨hcopy, hclient.represented.1 (.object 3) _ hcopy⟩

end Client

end Marshal
