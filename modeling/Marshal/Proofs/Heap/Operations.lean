import Marshal.Heap.Answer
import Marshal.Proofs.Heap.View
import Marshal.Proofs.Outcome

/-!
# What the operations of a heap do

Every operation of a heap either refuses and leaves the heap as it was, or does
what its rule in this file says.  The rules name the heap that comes out, built
from four changes: counting a reference (`Heap.retained`), creating an object
(`Heap.pushed`), putting new contents into one (`Heap.alter` with constant
contents) and releasing a reference.

An operation that would create an object first and count its references after
that is put in the other order (`retainAll_pushed`), so it refuses before it
changes anything, as long as what the object is to hold is live.
-/

namespace Marshal.Heap

variable {heap : Heap} {handle : Handle} {index : Nat} {α : Type}

/-! ## Looking at a heap -/

theorem ends_reading {f : Heap → Except Refusal α} {good : α → Heap → Prop}
    {bad : Refusal → Heap → Prop} (hgood : ∀ a, f heap = .ok a → good a heap)
    (hbad : ∀ refusal, f heap = .error refusal → bad refusal heap) :
    Ends (reading f) heap good bad := by
  cases hread : f heap with
  | ok a =>
      refine ends_of_ok ?_ (hgood a hread)
      rw [reading, hread]
  | error refusal =>
      refine ends_of_error ?_ (hbad refusal hread)
      rw [reading, hread]

/-- What is known to be read is read. -/
theorem ends_reading_of_ok {f : Heap → Except Refusal α} {a : α} {good : α → Heap → Prop}
    {bad : Refusal → Heap → Prop} (hread : f heap = .ok a) (hgood : good a heap) :
    Ends (reading f) heap good bad := by
  refine ends_reading (fun b hb => ?_) fun refusal herror => ?_
  · obtain rfl := Except.ok.inj (hread.symm.trans hb)
    exact hgood
  · rw [hread] at herror
    exact nomatch herror

theorem look_eq_ok {o : Object} : heap.look handle = .ok o ↔ heap.get? handle = some o := by
  unfold look
  cases heap.get? handle <;> simp

/-- An object is looked up, or there is none. -/
theorem ends_looking {good : Object → Heap → Prop} {bad : Refusal → Heap → Prop}
    (hgood : ∀ o, heap.get? handle = some o → good o heap)
    (hbad : ¬ heap.Live handle → ∀ refusal, bad refusal heap) :
    Ends (reading fun heap => heap.look handle) heap good bad := by
  refine ends_reading (fun o ho => hgood o (look_eq_ok.mp ho)) fun refusal herror => ?_
  refine hbad (fun hlive => ?_) refusal
  obtain ⟨o, ho⟩ := live_iff_exists.mp hlive
  rw [look_eq_ok.mpr ho] at herror
  exact nomatch herror

theorem expect_eq_ok {expected : String} {part : Content → Option α} {a : α} :
    heap.expect expected part handle = .ok a ↔
      ∃ content mutable, heap.body? handle = some (content, mutable) ∧ part content = some a := by
  unfold expect body?
  cases hget : heap.get? handle with
  | none => simp
  | some o => cases hpart : part o.content <;> simp [hpart]

/-- A part that only one sort of contents has tells the contents. -/
theorem expect_eq_ok_of_part {expected : String} {part : Content → Option α} {a : α}
    {make : α → Content} (hpart : ∀ content, part content = some a ↔ content = make a) :
    heap.expect expected part handle = .ok a ↔
      ∃ mutable, heap.body? handle = some (make a, mutable) := by
  rw [expect_eq_ok]
  constructor
  · rintro ⟨content, mutable, hbody, hsome⟩
    exact ⟨mutable, (hpart content).mp hsome ▸ hbody⟩
  · rintro ⟨mutable, hbody⟩
    exact ⟨make a, mutable, hbody, (hpart _).mpr rfl⟩

theorem textOf_eq_ok {text : String} :
    heap.textOf handle = .ok text ↔ ∃ mutable, heap.body? handle = some (.text text, mutable) :=
  expect_eq_ok_of_part fun content => by cases content <;> simp [Content.text?]

theorem numberOf_of_body? {n : Number} {mutable : Bool}
    (hbody : heap.body? handle = some (.number (.known n), mutable)) :
    heap.numberOf handle = .ok n := by
  have hread : heap.expect StandardType.number.name Content.number? handle = .ok (.known n) :=
    expect_eq_ok.mpr ⟨_, mutable, hbody, rfl⟩
  rw [numberOf, hread]

/-- A number in an unknown layout is there, but cannot be read. -/
theorem numberOf_of_unreadable {layout : UInt8} {mutable : Bool}
    (hbody : heap.body? handle = some (.number (.unreadable layout), mutable)) :
    ∃ name, heap.numberOf handle = .error (.unknownLayout layout name) := by
  have hread : heap.expect StandardType.number.name Content.number? handle =
      .ok (.unreadable layout) := expect_eq_ok.mpr ⟨_, mutable, hbody, rfl⟩
  exact ⟨_, by rw [numberOf, hread]⟩

theorem booleanOf_eq_ok {b : Bool} :
    heap.booleanOf handle = .ok b ↔ ∃ mutable, heap.body? handle = some (.boolean b, mutable) :=
  expect_eq_ok_of_part fun content => by cases content <;> simp [Content.boolean?]

theorem dataOf_eq_ok {bytes : List UInt8} :
    heap.dataOf handle = .ok bytes ↔ ∃ mutable, heap.body? handle = some (.data bytes, mutable) :=
  expect_eq_ok_of_part fun content => by cases content <;> simp [Content.data?]

theorem itemsOf_eq_ok {items : Array Handle} :
    heap.itemsOf handle = .ok items ↔
      ∃ mutable, heap.body? handle = some (.array items, mutable) :=
  expect_eq_ok_of_part fun content => by cases content <;> simp [Content.array?]

theorem entriesOf_eq_ok {entries : List (Handle × Handle)} :
    heap.entriesOf handle = .ok entries ↔
      ∃ mutable, heap.body? handle = some (.dictionary entries, mutable) :=
  expect_eq_ok_of_part fun content => by cases content <;> simp [Content.dictionary?]

theorem membersOf_eq_ok {members : List Handle} :
    heap.membersOf handle = .ok members ↔
      ∃ mutable, heap.body? handle = some (.members members, mutable) :=
  expect_eq_ok_of_part fun content => by cases content <;> simp [Content.members?]

theorem containerOf_eq_ok {kind : Container} {content : Content} :
    heap.containerOf kind handle = .ok content ↔
      ∃ mutable, heap.body? handle = some (content, mutable) ∧
        content.container? = some kind := by
  rw [containerOf, expect_eq_ok]
  constructor
  · rintro ⟨held, mutable, hbody, hpart⟩
    unfold Content.ofKind? at hpart
    split at hpart
    · next hkind => exact ⟨mutable, Option.some.inj hpart ▸ hbody, Option.some.inj hpart ▸ hkind⟩
    · simp at hpart
  · rintro ⟨mutable, hbody, hkind⟩
    exact ⟨content, mutable, hbody, if_pos hkind⟩

theorem indicesOf_eq_ok {values : Array Int64} :
    heap.indicesOf handle = .ok values ↔
      ∃ mutable, heap.body? handle = some (.indexArray values, mutable) :=
  expect_eq_ok_of_part fun content => by cases content <;> simp [Content.indexArray?]

theorem indexSetOf_eq_ok {values : List Int64} :
    heap.indexSetOf handle = .ok values ↔
      ∃ mutable, heap.body? handle = some (.indexSet values, mutable) :=
  expect_eq_ok_of_part fun content => by cases content <;> simp [Content.indexSet?]

theorem pairsOf_eq_ok {pairs : List (Int64 × Int64)} :
    heap.pairsOf handle = .ok pairs ↔
      ∃ mutable, heap.body? handle = some (.pairSet pairs, mutable) :=
  expect_eq_ok_of_part fun content => by cases content <;> simp [Content.pairSet?]

/-- The size of a container can be asked for. -/
theorem size_containerOf {kind : Container} {content : Content} {mutable : Bool}
    (hbody : heap.body? handle = some (content, mutable))
    (hkind : content.container? = some kind) :
    Content.size <$> heap.containerOf kind handle = .ok content.size := by
  rw [containerOf_eq_ok.mpr ⟨mutable, hbody, hkind⟩]
  rfl

theorem type_eq_container {o : Object} {kind : Container} :
    o.type = .inl (.container kind true) ↔
      o.mutable = true ∧ o.content.container? = some kind := by
  unfold Object.type Content.container?
  cases o.content <;> simp [and_comm]

theorem expectMutable_eq_ok {kind : Container} :
    heap.expectMutable kind handle = .ok () ↔
      ∃ content, heap.body? handle = some (content, true) ∧ content.container? = some kind := by
  unfold expectMutable body?
  cases hget : heap.get? handle with
  | none => simp
  | some o =>
      simp only [type_eq_container, Option.map_some, Option.some.injEq, Prod.mk.injEq]
      by_cases hcontainer : o.mutable = true ∧ o.content.container? = some kind
      · simp [hcontainer]
      · have hright : ¬ ∃ content, (o.content = content ∧ o.mutable = true) ∧
            content.container? = some kind := by
          rintro ⟨_, ⟨rfl, hmutable⟩, hkind⟩
          exact hcontainer ⟨hmutable, hkind⟩
        rw [iff_false_right hright]
        split
        · next h => exact absurd h hcontainer
        · split <;> simp

/-- A container has a slot. -/
theorem exists_index_of_container {content : Content} {mutable : Bool} {kind : Container}
    (hbody : heap.body? handle = some (content, mutable))
    (hkind : content.container? = some kind) : ∃ index, handle = .object index := by
  cases handle with
  | boolean b =>
      obtain ⟨rfl, -⟩ : Content.boolean b = content ∧ false = mutable := by simpa using hbody
      exact nomatch hkind
  | outside address => simp at hbody
  | object index => exact ⟨index, rfl⟩

/-! ## Counting references -/

/-- The heap after one more reference to a live object was counted. -/
def retained (heap : Heap) (handle : Handle) : Heap :=
  match heap.get? handle with
  | some o => heap.set handle (some { o with count := o.count + 1 })
  | none => heap

theorem retained_of_get? {o : Object} (ho : heap.get? handle = some o) :
    heap.retained handle = heap.set handle (some { o with count := o.count + 1 }) := by
  rw [retained, ho]

theorem retain_of_live (h : heap.Live handle) :
    retain handle heap = .ok () (heap.retained handle) := by
  obtain ⟨o, ho⟩ := live_iff_exists.mp h
  simp only [retain, retained, ho]

theorem ends_retain {good : Unit → Heap → Prop} {bad : Refusal → Heap → Prop}
    (hgood : heap.Live handle → good () (heap.retained handle))
    (hbad : ¬ heap.Live handle → ∀ refusal, bad refusal heap) :
    Ends (retain handle) heap good bad := by
  by_cases hlive : heap.Live handle
  · exact ends_of_ok (retain_of_live hlive) (hgood hlive)
  · have hnone : heap.get? handle = none := Option.not_isSome_iff_eq_none.mp hlive
    refine ends_of_error ?_ (hbad hlive .invalidHandle)
    simp only [retain, hnone]

@[simp] theorem body?_retained (other : Handle) :
    (heap.retained handle).body? other = heap.body? other := by
  unfold retained
  cases ho : heap.get? handle with
  | none => rfl
  | some o => exact body?_recount ho _ other

@[simp] theorem size_retained : (heap.retained handle).slots.size = heap.slots.size := by
  unfold retained
  cases heap.get? handle <;> simp

@[simp] theorem types_retained : (heap.retained handle).types = heap.types := by
  unfold retained
  cases heap.get? handle <;> simp

@[simp] theorem budget_retained : (heap.retained handle).budget = heap.budget := by
  unfold retained
  cases heap.get? handle with
  | none => rfl
  | some o => cases handle <;> rfl

@[simp] theorem live_retained {other : Handle} :
    (heap.retained handle).Live other ↔ heap.Live other := by
  rw [live_iff_body?, body?_retained, ← live_iff_body?]

/-- Counting a reference to an old object and creating one do not meet. -/
theorem retained_pushed {o : Object} (h : handle ≠ .object heap.slots.size) :
    (heap.pushed o).retained handle = (heap.retained handle).pushed o := by
  unfold retained
  rw [get?_pushed_of_ne h]
  cases hget : heap.get? handle with
  | none => rfl
  | some old =>
      cases handle with
      | boolean b => rfl
      | outside address => rfl
      | object index =>
          have hlt : index < heap.slots.size := lt_size_of_live (live_of_get? hget)
          simp only [set, pushed, mk.injEq, and_true]
          -- the slot that is counted in is not the one that is added
          refine Array.ext_getElem? fun other => ?_
          rw [Array.getElem?_setIfInBounds, Array.getElem?_push, Array.getElem?_push,
            Array.getElem?_setIfInBounds, Array.size_setIfInBounds, Array.size_push]
          by_cases hself : index = other
          · have hne : other ≠ heap.slots.size := by omega
            rw [if_pos hself, if_neg hne, if_pos hself, if_pos (by omega), if_pos hlt]
          · rw [if_neg hself, if_neg hself]

/-- The heap after one reference to each of several objects was counted. -/
def retainedAll (heap : Heap) (handles : List Handle) : Heap := handles.foldl retained heap

@[simp] theorem body?_retainedAll (handles : List Handle) (other : Handle) :
    (heap.retainedAll handles).body? other = heap.body? other := by
  induction handles generalizing heap with
  | nil => rfl
  | cons first rest ih => exact ih.trans (body?_retained other)

@[simp] theorem size_retainedAll (handles : List Handle) :
    (heap.retainedAll handles).slots.size = heap.slots.size := by
  induction handles generalizing heap with
  | nil => rfl
  | cons first rest ih => exact ih.trans size_retained

@[simp] theorem types_retainedAll (handles : List Handle) :
    (heap.retainedAll handles).types = heap.types := by
  induction handles generalizing heap with
  | nil => rfl
  | cons first rest ih => exact ih.trans types_retained

@[simp] theorem budget_retainedAll (handles : List Handle) :
    (heap.retainedAll handles).budget = heap.budget := by
  induction handles generalizing heap with
  | nil => rfl
  | cons first rest ih => exact ih.trans budget_retained

/-- References of live objects may be counted before an object that holds them is
created. -/
theorem retainAll_pushed {o : Object} {handles : List Handle}
    (h : ∀ child ∈ handles, heap.Live child) :
    retainAll handles (heap.pushed o) = .ok () ((heap.retainedAll handles).pushed o) := by
  induction handles generalizing heap with
  | nil => rfl
  | cons first rest ih =>
      have hfirst : heap.Live first := h first (List.mem_cons_self ..)
      have hpushed : (heap.pushed o).Live first := by
        rw [Live, get?_pushed_of_live hfirst]
        exact hfirst
      have hrest : ∀ child ∈ rest, (heap.retained first).Live child := fun child hchild =>
        live_retained.mpr (h child (List.mem_cons_of_mem _ hchild))
      calc retainAll (first :: rest) (heap.pushed o)
          = retainAll rest ((heap.pushed o).retained first) := by
            show EStateM.bind (retain first) (fun _ => retainAll rest) (heap.pushed o) = _
            rw [EStateM.bind, retain_of_live hpushed]
        _ = retainAll rest ((heap.retained first).pushed o) := by
            rw [retained_pushed (ne_new_of_live hfirst)]
        _ = .ok () ((heap.retainedAll (first :: rest)).pushed o) := ih hrest

/-! ## Creating objects -/

/-- The refusal is for want of budget. -/
def Spent (heap : Heap) (refusal : Refusal) : Prop :=
  heap.budget = some 0 ∧ ∃ name, refusal = .allocationFailed name

theorem ends_allocate {o : Object} {good : Handle → Heap → Prop} {bad : Refusal → Heap → Prop}
    (hgood : good (.object heap.slots.size) (heap.pushed o))
    (hbad : ∀ refusal, heap.Spent refusal → bad refusal heap) :
    Ends (allocate o) heap good bad := by
  by_cases hbudget : heap.budget = some 0
  · refine ends_of_error ?_ (hbad (.allocationFailed o.creationName) ⟨hbudget, _, rfl⟩)
    rw [allocate_eq, if_pos hbudget]
  · refine ends_of_ok ?_ hgood
    rw [allocate_eq, if_neg hbudget]

/-- The heap after an object was created that holds references to others. -/
def collected (heap : Heap) (o : Object) : Heap := (heap.retainedAll o.children).pushed o

theorem get?_collected_new {o : Object} :
    (heap.collected o).get? (.object heap.slots.size) = some o := by
  rw [collected, ← size_retainedAll o.children]
  exact get?_pushed_new

theorem body?_collected_of_ne {o : Object} (h : handle ≠ .object heap.slots.size) :
    (heap.collected o).body? handle = heap.body? handle := by
  rw [← size_retainedAll o.children] at h
  rw [collected, body?, get?_pushed_of_ne h, ← body?, body?_retainedAll]

theorem ends_collect {o : Object} {good : Handle → Heap → Prop} {bad : Refusal → Heap → Prop}
    (hlive : ∀ child ∈ o.children, heap.Live child)
    (hgood : good (.object heap.slots.size) (heap.collected o))
    (hbad : ∀ refusal, heap.Spent refusal → bad refusal heap) :
    Ends (collect o) heap good bad := by
  refine ends_bind (ends_allocate ?_ hbad)
  refine ends_bind (ends_of_ok (retainAll_pushed hlive) ?_)
  exact ends_pure hgood

/-- A sealed copy is a new object with what a container holds. -/
theorem ends_copy {kind : Container} {good : Handle → Heap → Prop} {bad : Refusal → Heap → Prop}
    (hlive : ∀ content mutable, heap.body? handle = some (content, mutable) →
      ∀ child ∈ content.children, heap.Live child)
    (hgood : ∀ content mutable, heap.body? handle = some (content, mutable) →
      content.container? = some kind →
      good (.object heap.slots.size) (heap.collected { content }))
    (hbad : ∀ refusal, (∀ content mutable, heap.body? handle = some (content, mutable) →
      content.container? = some kind → heap.Spent refusal) → bad refusal heap) :
    Ends (copy kind handle) heap good bad := by
  refine ends_bind (ends_reading (fun content hcontent => ?_) fun refusal herror => ?_)
  · obtain ⟨mutable, hbody, hkind⟩ := containerOf_eq_ok.mp hcontent
    exact ends_collect (hlive content mutable hbody) (hgood content mutable hbody hkind)
      fun refusal hspent => hbad refusal fun _ _ _ _ => hspent
  · refine hbad refusal fun content mutable hbody hkind => ?_
    rw [containerOf_eq_ok.mpr ⟨mutable, hbody, hkind⟩] at herror
    exact nomatch herror

/-! ## New contents -/

/-- The heap after an object was given new contents. -/
def refilled (heap : Heap) (handle : Handle) (content : Content) : Heap :=
  heap.alter handle fun _ => content

/-- What new contents are depends on the old ones only. -/
theorem alter_eq_refilled {content : Content} {mutable : Bool} {f : Content → Content}
    (hbody : heap.body? (.object index) = some (content, mutable)) :
    heap.alter (.object index) f = heap.refilled (.object index) (f content) := by
  obtain ⟨o, ho, rfl, -⟩ := exists_of_body? hbody
  have hslot : heap.slots[index]? = some (some o) := by
    have hget : heap.slots.getD index none = some o := ho
    rw [Array.getD_eq_getD_getElem?] at hget
    cases hindex : heap.slots[index]? <;> simp_all
  simp only [refilled, alter, mk.injEq, and_true]
  refine Array.ext_getElem? fun other => ?_
  rw [Array.getElem?_modify, Array.getElem?_modify]
  by_cases hother : index = other
  · subst hother
    simp [hslot]
  · rw [if_neg hother, if_neg hother]

theorem ends_expectMutable {kind : Container} {good : Unit → Heap → Prop}
    {bad : Refusal → Heap → Prop}
    (hgood : ∀ index content, handle = .object index →
      heap.body? handle = some (content, true) → content.container? = some kind → good () heap)
    (hbad : (∀ content, heap.body? handle = some (content, true) →
      content.container? ≠ some kind) → ∀ refusal, bad refusal heap) :
    Ends (reading fun heap => heap.expectMutable kind handle) heap good bad := by
  refine ends_reading (fun _ hok => ?_) fun refusal herror => ?_
  · obtain ⟨content, hbody, hkind⟩ := expectMutable_eq_ok.mp hok
    obtain ⟨index, hindex⟩ := exists_index_of_container hbody hkind
    exact hgood index content hindex hbody hkind
  · refine hbad (fun content hbody hkind => ?_) refusal
    rw [expectMutable_eq_ok.mpr ⟨content, hbody, hkind⟩] at herror
    exact nomatch herror

/-- An item is added to a live array that can be changed, if it is live itself. -/
theorem ends_append {array item : Handle} {good : Unit → Heap → Prop}
    {bad : Refusal → Heap → Prop}
    (hgood : ∀ index items, array = .object index → heap.body? array = some (.array items, true) →
      heap.Live item →
      good () ((heap.retained item).refilled array (.array (items.push item))))
    (hbad : (∀ items, heap.body? array = some (.array items, true) → ¬ heap.Live item) →
      ∀ refusal, bad refusal heap) : Ends (append array item) heap good bad := by
  refine ends_bind (ends_expectMutable (fun index content hindex hbody hkind => ?_) fun hnone => ?_)
  · cases content <;> simp [Content.container?] at hkind
    next items =>
    refine ends_bind (ends_retain (fun hlive => ?_) fun hdead => ?_)
    · subst hindex
      have hafter : (heap.retained item).body? (.object index) = some (.array items, true) := by
        rw [body?_retained, hbody]
      refine ends_modify ?_
      rw [alter_eq_refilled hafter]
      exact hgood index items rfl hbody hlive
    · exact hbad fun _ _ => hdead
  · exact hbad fun items hbody _ => hnone _ hbody rfl

/-- A container of integers that can be changed is changed. -/
theorem ends_change {kind : Container} {f : Content → Content} {good : Unit → Heap → Prop}
    {bad : Refusal → Heap → Prop}
    (hgood : ∀ index content, handle = .object index →
      heap.body? handle = some (content, true) → content.container? = some kind →
      good () (heap.refilled handle (f content)))
    (hbad : (∀ content, heap.body? handle = some (content, true) →
      content.container? ≠ some kind) → ∀ refusal, bad refusal heap) :
    Ends (change kind handle f) heap good bad := by
  refine ends_bind (ends_expectMutable (fun index content hindex hbody hkind => ?_) hbad)
  refine ends_modify ?_
  subst hindex
  rw [alter_eq_refilled hbody]
  exact hgood index content rfl hbody hkind

/-- A live object is added to a set that can be changed, unless the set has an
equal member. -/
theorem ends_addMember {set member : Handle} {good : Unit → Heap → Prop}
    {bad : Refusal → Heap → Prop}
    (hpresent : ∀ content mutable members, heap.body? member = some (content, mutable) →
      heap.body? set = some (.members members, true) →
      heap.hasMember members member content = true → good () heap)
    (habsent : ∀ index content mutable members, set = .object index →
      heap.body? member = some (content, mutable) →
      heap.body? set = some (.members members, true) →
      heap.hasMember members member content = false →
      good () ((heap.retained member).refilled set (.members (members ++ [member]))))
    (hbad : (∀ members, heap.body? set = some (.members members, true) → ¬ heap.Live member) →
      ∀ refusal, bad refusal heap) : Ends (addMember set member) heap good bad := by
  refine ends_bind (ends_expectMutable (fun index content hindex hbody hkind => ?_) fun hnone => ?_)
  · cases content <;> simp [Content.container?] at hkind
    next members =>
    refine ends_bind (ends_looking (fun o hmember => ?_) fun hdead => hbad fun _ _ => hdead)
    have hlive := live_of_get? hmember
    have hread : heap.membersOf set = .ok members := membersOf_eq_ok.mpr ⟨true, hbody⟩
    refine ends_bind (ends_reading_of_ok hread (ends_bind (ends_get ?_)))
    split
    · next hhas => exact hpresent _ _ members (body?_of_get? hmember) hbody hhas
    · next hhas =>
      refine ends_bind (ends_retain (fun _ => ?_) fun hdead => absurd hlive hdead)
      exact habsent index _ _ members hindex (body?_of_get? hmember) hbody
        (Bool.eq_false_iff.mpr hhas)
  · exact hbad fun members hbody _ => hnone _ hbody rfl

/-- A live value is put under a text key of a dictionary that can be changed: in
place of the value under an equal key, which is released, or else at the end. -/
theorem ends_putEntry {dictionary key value : Handle} {good : Unit → Heap → Prop}
    {bad : Refusal → Heap → Prop}
    (hnew : ∀ index text mutable entries, dictionary = .object index →
      heap.body? key = some (.text text, mutable) → heap.Live value →
      heap.body? dictionary = some (.dictionary entries, true) →
      heap.keyPlace? entries key text = none →
      good () (((heap.retained value).retained key).refilled dictionary
        (.dictionary (entries ++ [(key, value)]))))
    (hold : ∀ index text mutable entries place old, dictionary = .object index →
      heap.body? key = some (.text text, mutable) → heap.Live value →
      heap.body? dictionary = some (.dictionary entries, true) →
      heap.keyPlace? entries key text = some place → entries[place]? = some old →
      good () (((heap.retained value).refilled dictionary
        (.dictionary (entries.modify place fun entry => (entry.1, value)))).release old.2))
    (hbad : (∀ entries text mutable, heap.body? dictionary = some (.dictionary entries, true) →
      heap.body? key = some (.text text, mutable) → ¬ heap.Live value) →
      ∀ refusal, bad refusal heap) : Ends (putEntry dictionary key value) heap good bad := by
  refine ends_bind (ends_expectMutable (fun index content hindex hbody hkind => ?_) fun hnone => ?_)
  · cases content <;> simp [Content.container?] at hkind
    next entries =>
    refine ends_bind (ends_reading (fun text htext => ?_) fun refusal herror => ?_)
    · obtain ⟨mutable, hkey⟩ := textOf_eq_ok.mp htext
      refine ends_bind (ends_looking (fun o ho => ?_) fun hdead => hbad fun _ _ _ _ _ => hdead)
      have hvalue := live_of_get? ho
      have hread : heap.entriesOf dictionary = .ok entries := entriesOf_eq_ok.mpr ⟨true, hbody⟩
      refine ends_bind (ends_reading_of_ok hread (ends_bind (ends_get ?_)))
      -- the value is retained before it is known whether the key is there
      refine ends_bind (ends_retain (fun _ => ?_) fun hdead => absurd hvalue hdead)
      split
      · next hplace =>
        have hkeyLive : (heap.retained value).Live key :=
          live_retained.mpr (live_of_body? hkey)
        refine ends_bind (ends_retain (fun _ => ?_) fun hdead => absurd hkeyLive hdead)
        exact hnew index text mutable entries hindex hkey hvalue hbody hplace
      · next place hplace =>
        obtain ⟨hlt, -⟩ := List.findIdx?_eq_some_iff_getElem.mp hplace
        have hold' : entries[place]? = some entries[place] := List.getElem?_eq_getElem hlt
        refine ends_bind (ends_modify ?_)
        rw [hold']
        exact hold index text mutable entries place _ hindex hkey hvalue hbody hplace hold'
    · refine hbad (fun _ text mutable _ hkey _ => ?_) refusal
      rw [textOf_eq_ok.mpr ⟨mutable, hkey⟩] at herror
      exact nomatch herror
  · exact hbad fun entries _ _ hbody _ _ => hnone _ hbody rfl

end Marshal.Heap
