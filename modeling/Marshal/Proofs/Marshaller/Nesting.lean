import Marshal.Proofs.Marshaller.Convertible
import Marshal.Proofs.Marshaller.Picturing

/-!
# How deep a value nests that was read

The limit of nesting counts the arrays, dictionaries and sets on the way down to an object.
Containers of integers have no elements to go down to, so readers take no step for them;
but what they are read as are lists, sets and dictionaries all the same.  Where such a
container lies right at the limit (`Heap.Overhangs`), the value that is read has one level
more than the limit allows.

That is the only exception (`Heap.nesting_le_iff`): everywhere else a value that was read
nests no deeper than is allowed, and then it is not refused for its depth when it is
lowered (`Marshaller.averts_within`).  A value with a level too many cannot be lowered at
all, in whatever heap (`Value.Convertible.nesting_le`).
-/

namespace Marshal

/-! ## Levels of a value -/

namespace Value

mutual

/-- The number of lists, dictionaries and sets that lie in one another. -/
def nesting : Value → Nat
  | list items => nestingIn items + 1
  | set members => nestingIn members + 1
  | dict entries => nestingUnder entries + 1
  | _ => 0
termination_by structural v => v

/-- The levels of the value among several that has most of them. -/
def nestingIn : List Value → Nat
  | [] => 0
  | v :: vs => max (nesting v) (nestingIn vs)
termination_by structural vs => vs

/-- The levels of the key or value that has most of them. -/
def nestingUnder : List (Value × Value) → Nat
  | [] => 0
  | (key, v) :: entries => max (max (nesting key) (nesting v)) (nestingUnder entries)
termination_by structural entries => entries

end

variable {n room : Nat} {v : Value} {items : List Value} {entries : List (Value × Value)}

theorem nestingIn_le : nestingIn items ≤ n ↔ ∀ item ∈ items, item.nesting ≤ n := by
  induction items with
  | nil => simp [nestingIn]
  | cons item items ih => rw [nestingIn, max_le_iff, ih, List.forall_mem_cons]

theorem nestingUnder_le :
    nestingUnder entries ≤ n ↔ ∀ entry ∈ entries, entry.1.nesting ≤ n ∧ entry.2.nesting ≤ n := by
  induction entries with
  | nil => simp [nestingUnder]
  | cons entry entries ih => rw [nestingUnder, max_le_iff, max_le_iff, ih, List.forall_mem_cons]

theorem nesting_list_le : (list items).nesting ≤ n + 1 ↔ ∀ item ∈ items, item.nesting ≤ n := by
  rw [nesting, Nat.add_le_add_iff_right, nestingIn_le]

theorem nesting_set_le : (set items).nesting ≤ n + 1 ↔ ∀ member ∈ items, member.nesting ≤ n := by
  rw [nesting, Nat.add_le_add_iff_right, nestingIn_le]

theorem nesting_dict_le : (dict entries).nesting ≤ n + 1 ↔
    ∀ entry ∈ entries, entry.1.nesting ≤ n ∧ entry.2.nesting ≤ n := by
  rw [nesting, Nat.add_le_add_iff_right, nestingUnder_le]

theorem nesting_of_scalar (h : v.scalar?.isSome) : v.nesting = 0 := by
  cases v <;> first | rfl | exact nomatch h

/-- What has a text as a key is no container. -/
theorem nesting_of_keyText {s : String} (h : v.keyText = .ok s) : v.nesting = 0 := by
  cases v with
  | list | dict | set => exact nomatch h
  | _ => rfl

/-- What can be stored with so many levels has no more. -/
theorem Convertible.nesting_le (h : Convertible room v) : v.nesting ≤ room := by
  induction h with
  | scalar h =>
      rw [nesting_of_scalar h]
      exact Nat.zero_le _
  | list _ ih => exact nesting_list_le.mpr ih
  | dict hkeys _ ih =>
      refine nesting_dict_le.mpr fun entry hentry => ⟨?_, ih entry hentry⟩
      obtain ⟨s, hs⟩ := hkeys entry hentry
      rw [nesting_of_keyText hs]
      exact Nat.zero_le _
  | set hmembers =>
      refine nesting_set_le.mpr fun member hmember => ?_
      rw [nesting_of_scalar (hmembers member hmember)]
      exact Nat.zero_le _

end Value

/-! ## Levels of a picture -/

/-- The contents of a container of integers. -/
def Content.isIndices : Content → Bool
  | .indexArray _ | .indexSet _ | .pairSet _ => true
  | _ => false

/-- Some chain of objects from the handle on leads, after `room` steps from a container to
what it holds, to a container of integers. -/
def Heap.Overhangs (heap : Heap) : (room : Nat) → Handle → Prop
  | 0, handle => ∃ content mutable, heap.body? handle = some (content, mutable) ∧ content.isIndices
  | room + 1, handle => ∃ child, heap.Holds handle child ∧ heap.Overhangs room child

section Pictures

variable {heap : Heap} {window room : Nat} {handle : Handle} {content : Content} {mutable : Bool}
  {v : Value} {child? : Option (Handle → Option Value)}

/-- A property of all results is one of all elements. -/
theorem forall_of_mapM {α β : Type} {f : α → Option β} {xs : List α} {ys : List β} {P : β → Prop}
    (h : xs.mapM f = some ys) : (∀ y ∈ ys, P y) ↔ ∀ x ∈ xs, ∃ y, f x = some y ∧ P y := by
  induction mapM_eq_some.mp h with
  | nil => simp
  | @cons x y xs ys hhead htail ih =>
      rw [List.forall_mem_cons, List.forall_mem_cons, ih (mapM_eq_some.mpr htail)]
      refine and_congr_left fun _ => ⟨fun hy => ⟨y, hhead, hy⟩, ?_⟩
      rintro ⟨y', hy', hP⟩
      rwa [Option.some.inj (hhead.symm.trans hy')]

/-- Integers are read as a list, a set or a dictionary without containers in it. -/
theorem Content.nesting_of_isIndices (hindices : content.isIndices)
    (h : content.picture? window handle child? = some v) : v.nesting = 1 := by
  have hints : ∀ ns : List Int64, Value.nestingIn (ns.map Value.int) = 0 := by
    intro ns
    refine Nat.le_zero.mp (Value.nestingIn_le.mpr fun item hitem => ?_)
    obtain ⟨n, -, rfl⟩ := List.mem_map.mp hitem
    exact le_rfl
  cases content with
  | indexArray | indexSet =>
      obtain rfl := Option.some.inj h
      rw [Value.nesting, hints]
  | pairSet pairs =>
      obtain rfl := Option.some.inj h
      rw [Value.nesting, Nat.le_zero.mp (Value.nestingUnder_le.mpr fun entry hentry => ?_)]
      obtain ⟨pair, -, rfl⟩ := List.mem_map.mp hentry
      exact ⟨le_rfl, le_rfl⟩
  | _ => exact nomatch hindices

/-- A picture has no levels, or one level of integers, or one more than what the contents
hold is read as. -/
theorem Content.nesting_cases (h : content.picture? window handle child? = some v) :
    (content.nests = false ∧ content.isIndices = false ∧ v.nesting = 0) ∨
    (content.nests = false ∧ content.isIndices = true ∧ v.nesting = 1) ∨
    ∃ child, child? = some child ∧ content.isIndices = false ∧ 0 < v.nesting ∧
      ∀ n, v.nesting ≤ n + 1 ↔ ∀ c ∈ content.children, ∃ w, child c = some w ∧ w.nesting ≤ n := by
  cases content with
  | text | boolean | data | custom =>
      obtain rfl := Option.some.inj h
      exact .inl ⟨rfl, rfl, rfl⟩
  | number numeral =>
      rw [picture?_of_isScalar rfl] at h
      obtain ⟨_, _, -, ⟨n, rfl⟩ | ⟨x, rfl⟩ | ⟨z, rfl⟩⟩ := value?_number h
      all_goals exact .inl ⟨rfl, rfl, rfl⟩
  | indexArray | indexSet | pairSet => exact .inr (.inl ⟨rfl, rfl, nesting_of_isIndices rfl h⟩)
  -- a container has a picture only if each of its elements has one, which tells the levels
  | array items =>
      obtain ⟨values, hvalues, rfl⟩ := Option.map_eq_some_iff.mp h
      obtain ⟨child, rfl, hitems⟩ := Option.bind_eq_some_iff.mp hvalues
      refine .inr (.inr ⟨child, rfl, rfl, Nat.succ_pos _, fun n => ?_⟩)
      rw [Value.nesting_list_le]
      exact forall_of_mapM hitems
  | members members =>
      obtain ⟨values, hvalues, rfl⟩ := Option.map_eq_some_iff.mp h
      obtain ⟨child, rfl, hmembers⟩ := Option.bind_eq_some_iff.mp hvalues
      refine .inr (.inr ⟨child, rfl, rfl, Nat.succ_pos _, fun n => ?_⟩)
      rw [Value.nesting_set_le]
      exact forall_of_mapM hmembers
  | dictionary entries =>
      obtain ⟨pairs, hpairs, rfl⟩ := Option.map_eq_some_iff.mp h
      obtain ⟨child, rfl, hentries⟩ := Option.bind_eq_some_iff.mp hpairs
      refine .inr (.inr ⟨child, rfl, rfl, Nat.succ_pos _, fun n => ?_⟩)
      rw [Value.nesting_dict_le, Content.forall_children_dictionary, forall_of_mapM hentries]
      refine forall₂_congr fun entry hentry => ⟨?_, ?_⟩
      · rintro ⟨pair, hpair, hkey, hvalue⟩
        have hboth := readBoth_eq_some.mp hpair
        exact ⟨⟨pair.1, hboth.1, hkey⟩, pair.2, hboth.2, hvalue⟩
      · rintro ⟨⟨key, hkey, hle⟩, value, hvalue, hle'⟩
        exact ⟨(key, value), readBoth_eq_some.mpr ⟨hkey, hvalue⟩, hle, hle'⟩

namespace Heap

/-- What is no container leads nowhere. -/
theorem not_overhangs_of_not_nests (hbody : heap.body? handle = some (content, mutable))
    (hnests : content.nests = false) (room : Nat) : ¬ heap.Overhangs (room + 1) handle := by
  rintro ⟨child, hholds, -⟩
  have hcontainer := hholds.nests
  rw [nests_of_body? hbody, hnests] at hcontainer
  exact nomatch hcontainer

theorem overhangs_zero (hbody : heap.body? handle = some (content, mutable)) :
    heap.Overhangs 0 handle ↔ content.isIndices = true := by
  constructor
  · rintro ⟨found, mutable', hfound, hindices⟩
    obtain ⟨rfl, -⟩ := Prod.mk.inj (Option.some.inj (hbody.symm.trans hfound))
    exact hindices
  · intro hindices
    exact ⟨content, mutable, hbody, hindices⟩

/-- A value that was read has at most one level too many, and it has it just when a container
of integers lies at the limit. -/
theorem nesting_le_iff (h : heap.picture? window room handle = some v) :
    v.nesting ≤ room + 1 ∧ (v.nesting ≤ room ↔ ¬ heap.Overhangs room handle) := by
  -- by induction on the room, which is the number of steps to the limit
  induction room generalizing handle v with
  | zero =>
      obtain ⟨content, mutable, hbody, hpicture⟩ := exists_of_picture? h
      rw [overhangs_zero hbody]
      rcases Content.nesting_cases hpicture with ⟨-, hindices, hnesting⟩ |
        ⟨-, hindices, hnesting⟩ | ⟨child, hchild, -⟩
      · simp [hindices, hnesting]
      · simp [hindices, hnesting]
      · exact nomatch hchild
  | succ room ih =>
      obtain ⟨content, mutable, hbody, hpicture⟩ := exists_of_picture? h
      rcases Content.nesting_cases hpicture with ⟨hnests, -, hnesting⟩ |
        ⟨hnests, -, hnesting⟩ | ⟨child, hchild, -, -, hnesting⟩
      · have hnone := not_overhangs_of_not_nests hbody hnests room
        exact ⟨by omega, iff_of_true (by omega) hnone⟩
      · have hnone := not_overhangs_of_not_nests hbody hnests room
        exact ⟨by omega, iff_of_true (by omega) hnone⟩
      · obtain rfl := Option.some.inj hchild
        have hall : ∀ c ∈ content.children, ∃ w, heap.picture? window room c = some w := by
          intro c hc
          obtain ⟨w, hw, -⟩ := (hnesting v.nesting).mp (Nat.le_succ _) c hc
          exact ⟨w, hw⟩
        constructor
        · refine (hnesting (room + 1)).mpr fun c hc => ?_
          obtain ⟨w, hw⟩ := hall c hc
          exact ⟨w, hw, (ih hw).1⟩
        · rw [hnesting]
          constructor
          · rintro hle ⟨c, hholds, hover⟩
            obtain ⟨w, hw, hwle⟩ := hle c ((holds_iff hbody).mp hholds)
            exact (ih hw).2.mp hwle hover
          · intro hnone c hc
            obtain ⟨w, hw⟩ := hall c hc
            refine ⟨w, hw, (ih hw).2.mpr fun hover => hnone ⟨c, ?_, hover⟩⟩
            exact (holds_iff hbody).mpr hc

end Heap

end Pictures

/-! ## Lowering within the levels that are left -/

/-- However the action ends, it does not fail for too deep a nesting. -/
def Averts {σ α : Type} (limit : Nat) (x : Action σ α) : Prop :=
  ∀ s, Ends x s (fun _ _ => True) fun failure _ => failure ≠ .tooDeep limit

section Averts

variable {σ α β : Type} {limit : Nat}

theorem averts_pure (a : α) : Averts limit (pure a : Action σ α) := fun _ => ends_pure trivial

theorem averts_throw {failure : Failure} (h : failure ≠ .tooDeep limit) :
    Averts limit (throw failure : Action σ α) := fun _ => ends_throw h

theorem Averts.bind {x : Action σ α} {f : α → Action σ β} (hx : Averts limit x)
    (hf : ∀ a, Averts limit (f a)) : Averts limit (x >>= f) := by
  intro s
  apply ends_bind
  exact (hx s).mono (fun a s' _ => hf a s') fun _ _ => id

variable {store : Store σ} {acquire : Action σ Handle}

/-- A refusal of the store is another failure. -/
theorem averts_ask (request : Request) : Averts limit (store.ask request) := by
  intro s
  apply ends_ask
  exact ends_intro (fun _ _ _ => trivial) fun refusal _ _ => by simp

theorem Averts.withReference {body : Handle → Action σ α} (hacquire : Averts limit acquire)
    (hbody : ∀ handle, Averts limit (body handle)) :
    Averts limit (store.withReference acquire body) := by
  intro s
  apply ends_withReference
  exact (hacquire s).mono (fun handle s' _ => hbody handle s') fun _ _ => id

theorem Averts.building {fill : Handle → Action σ Unit} (hacquire : Averts limit acquire)
    (hfill : ∀ handle, Averts limit (fill handle)) :
    Averts limit (store.building acquire fill) := by
  intro s
  apply ends_building
  exact (hacquire s).mono (fun handle s' _ => hfill handle s') fun _ _ => id

end Averts

/-- A key that has no text is wrong for another reason. -/
theorem Value.keyText_ne_tooDeep (v : Value) (limit : Nat) :
    v.keyText ≠ .error (.tooDeep limit) := by
  cases v with
  | object o =>
      unfold keyText
      dsimp only
      split <;> simp
  | bool b => cases b <;> simp [keyText]
  | _ => simp [keyText]

namespace Marshaller

variable {σ β : Type} {m : Marshaller σ} {room levels : Nat}

theorem keyTexts_ne_tooDeep (entries : List (Value × Value)) (limit : Nat) :
    keyTexts entries ≠ .error (.tooDeep limit) := by
  induction entries with
  | nil => simp [keyTexts, pure, Except.pure]
  | cons entry entries ih =>
      unfold keyTexts at ih ⊢
      rw [List.mapM_cons]
      have hkey := entry.1.keyText_ne_tooDeep limit
      cases htext : entry.1.keyText with
      | error failure => simpa [bind, Except.bind, htext] using hkey
      | ok key =>
          cases hrest : entries.mapM fun entry => entry.1.keyText with
          | error failure => simpa [bind, Except.bind, hrest] using ih
          | ok rest => simp [bind, Except.bind, pure, Except.pure]

theorem checkMembers_ne_tooDeep (members : List Value) (limit : Nat) :
    checkMembers members ≠ .error (.tooDeep limit) := by
  unfold checkMembers
  split <;> simp

theorem averts_sealed {kind : Container} {staged : Action σ Handle}
    (hstaged : Averts m.limits.maxDepth staged) :
    Averts m.limits.maxDepth (m.sealed kind staged) :=
  hstaged.withReference fun handle => averts_ask (.copy kind handle)

/-- There is a level left for the container, and enough for what it contains. -/
theorem averts_stage {kind : Container} {check : Result β}
    {fill : Nat → β → Handle → Action σ Unit} (hlevels : levels + 1 ≤ room)
    (hcheck : check ≠ .error m.tooDeep)
    (hfill : ∀ deeper checked handle, levels ≤ deeper →
      Averts m.limits.maxDepth (fill deeper checked handle)) :
    Averts m.limits.maxDepth (m.stage kind room check fill) := by
  cases room with
  | zero => exact absurd hlevels (Nat.not_succ_le_zero levels)
  | succ deeper =>
      cases check with
      | error failure => exact averts_throw fun heq => hcheck (congrArg Except.error heq)
      | ok checked =>
          apply (averts_ask (.create kind)).building
          intro handle
          exact hfill deeper checked handle (Nat.le_of_succ_le_succ hlevels)

mutual

/-- A value with no more levels than are left is not refused for its depth. -/
theorem averts_within (hm : m.registry = {}) : ∀ (room : Nat) (v : Value), v.nesting ≤ room →
    Averts m.limits.maxDepth (m.lowerWithin room v)
  | _, .null, _ => averts_throw (by simp)
  | _, .bool _, _ => averts_pure _
  | _, .int _, _ => averts_ask _
  | _, .float _, _ => averts_ask _
  | _, .complex _, _ => averts_ask _
  | _, .text _, _ => averts_ask _
  | _, .bytes _, _ => averts_ask _
  | _, .list items, hv => averts_sealed <| averts_stage hv (by simp) fun deeper _ array hlevels =>
    averts_items hm deeper array items hlevels
  | _, .dict entries, hv => averts_sealed <| averts_stage hv (keyTexts_ne_tooDeep entries _)
    fun deeper keys dictionary hlevels => averts_entries hm deeper dictionary keys entries hlevels
  | _, .set members, hv => averts_sealed <| averts_stage hv (checkMembers_ne_tooDeep members _)
    fun deeper _ set hlevels => averts_members hm deeper set members hlevels
  | _, .object o, _ => by
    rw [lowerWithin, hm]
    have hother : Failure.noConverter o.typeName ≠ .tooDeep m.limits.maxDepth := by simp
    exact averts_throw hother
  | _, .token _, _ => averts_throw (by simp)
termination_by structural _ v => v

theorem averts_items (hm : m.registry = {}) : ∀ (room : Nat) (array : Handle)
    (items : List Value), Value.nestingIn items ≤ room →
    Averts m.limits.maxDepth (m.appendAll room array items)
  | _, _, [], _ => averts_pure ()
  | room, array, item :: items, hlevels =>
    have hparts := max_le_iff.mp hlevels
    have hitem : Averts m.limits.maxDepth (m.store.withReference (m.lowerWithin room item)
        fun handle => m.store.ask (.append array handle)) :=
      (averts_within hm room item hparts.1).withReference fun _ => averts_ask _
    hitem.bind fun _ => averts_items hm room array items hparts.2
termination_by structural _ _ items => items

theorem averts_members (hm : m.registry = {}) : ∀ (room : Nat) (set : Handle)
    (members : List Value), Value.nestingIn members ≤ room →
    Averts m.limits.maxDepth (m.addAll room set members)
  | _, _, [], _ => averts_pure ()
  | room, set, member :: members, hlevels =>
    have hparts := max_le_iff.mp hlevels
    have hmember : Averts m.limits.maxDepth (m.store.withReference (m.lowerWithin room member)
        fun handle => m.store.ask (.addMember set handle)) :=
      (averts_within hm room member hparts.1).withReference fun _ => averts_ask _
    hmember.bind fun _ => averts_members hm room set members hparts.2
termination_by structural _ _ members => members

theorem averts_entries (hm : m.registry = {}) : ∀ (room : Nat) (dictionary : Handle)
    (keys : List String) (entries : List (Value × Value)), Value.nestingUnder entries ≤ room →
    Averts m.limits.maxDepth (m.putAll room dictionary keys entries)
  | _, _, [], [], _ => averts_pure ()
  | _, _, [], _ :: _, _ => averts_pure ()
  | _, _, _ :: _, [], _ => averts_pure ()
  | room, dictionary, key :: keys, (_, value) :: entries, hlevels =>
    have hparts := max_le_iff.mp hlevels
    have hvalue := averts_within hm room value (max_le_iff.mp hparts.1).2
    have hentry : Averts m.limits.maxDepth (m.store.withReference (m.store.lowerText key false)
        fun keyHandle => m.store.withReference (m.lowerWithin room value) fun valueHandle =>
          m.store.ask (.putEntry dictionary keyHandle valueHandle)) :=
      (averts_ask (.createText key false)).withReference fun _ =>
        hvalue.withReference fun _ => averts_ask _
    hentry.bind fun _ => averts_entries hm room dictionary keys entries hparts.2
termination_by structural _ _ _ entries => entries

end

end Marshaller

/-! ## Reading what nests too deep -/

namespace Heap

variable {start heap heap' : Heap} {handle : Handle} {v : Value}

/-- A value that was read has a level too many just when a container of integers lies right
at the limit, and no more than one.  All others are not refused for their depth when they
are lowered again; such a value is not lowered in any heap. -/
theorem nesting_of_lift (hstart : start.Reachable) (hheap : heap.Reachable) (limits : Limits)
    (hrun : (Marshaller.make Heap.store start {} limits).lift (some handle) heap = .ok v heap') :
    v.nesting ≤ limits.maxDepth + 1 ∧
    (v.nesting ≤ limits.maxDepth ↔ ¬ heap.Overhangs limits.maxDepth handle) ∧
    (v.nesting ≤ limits.maxDepth → ∀ other,
      outcome ((Marshaller.make Heap.store start {} limits).lower v) other ≠
        .error (.tooDeep limits.maxDepth)) ∧
    (limits.maxDepth < v.nesting → ∀ other handle' other',
      (Marshaller.make Heap.store start {} limits).lower v other ≠ .ok handle' other') := by
  have hm : (Marshaller.make Heap.store start {} limits).Direct :=
    hstart.direct limits fun _ => rfl
  have hpicture := hm.picture?_of_lift hheap.coherent hrun
  obtain ⟨hle, hiff⟩ := nesting_le_iff hpicture
  refine ⟨hle, hiff, fun hshallow other herror => ?_, fun hdeep other handle' other' hlower => ?_⟩
  · have haverts := Marshaller.averts_within (m := .make Heap.store start {} limits) rfl
      limits.maxDepth v hshallow other
    cases hlower : (Marshaller.make Heap.store start {} limits).lower v other with
    | ok handle' other' =>
        rw [outcome_of_ok hlower] at herror
        exact nomatch herror
    | error failure other' =>
        rw [outcome_of_error hlower] at herror
        exact haverts.of_error hlower (Except.error.inj herror)
  · have htells := Marshaller.tells_within (m := .make Heap.store start {} limits) rfl
      limits.maxDepth v other
    exact absurd (htells.of_ok hlower).nesting_le (Nat.not_le_of_lt hdeep)

/-- An array that holds a container of integers. -/
def overhanging : Heap where
  slots := #[some { content := .indexArray #[5], mutable := true, count := 2 },
    some { content := .array #[.object 0], mutable := true }]

theorem overhanging_reachable : overhanging.Reachable :=
  (((Reachable.fresh.step (.ask (.create .indexArray))).step
    (.ask (.appendIndex (.object 0) 5))).step (.ask (.create .array))).step
    (.ask (.append (.object 1) (.object 0)))

/-- One level is allowed, and two are read. -/
theorem lift_of_overhanging :
    (Marshaller.make Heap.store {} {} { maxDepth := 1 }).lift (some (.object 1)) overhanging =
      .ok (.list [.list [.int 5]]) overhanging := rfl

theorem nesting_of_lift_overhanging :
    overhanging.Reachable ∧
    (Marshaller.make Heap.store {} {} { maxDepth := 1 }).lift (some (.object 1)) overhanging =
      .ok (.list [.list [.int 5]]) overhanging ∧
    (Value.list [.list [.int 5]]).nesting ≤ 1 + 1 ∧
    ((Value.list [.list [.int 5]]).nesting ≤ 1 ↔ ¬ overhanging.Overhangs 1 (.object 1)) ∧
    ∀ other handle' other', (Marshaller.make Heap.store {} {} { maxDepth := 1 }).lower
      (.list [.list [.int 5]]) other ≠ .ok handle' other' := by
  obtain ⟨hle, hiff, -, hdeep⟩ :=
    nesting_of_lift Reachable.fresh overhanging_reachable { maxDepth := 1 } lift_of_overhanging
  exact ⟨overhanging_reachable, lift_of_overhanging, hle, hiff, hdeep (by decide)⟩

/-- It is not so that what is read within the limit can be lowered within it. -/
theorem reads_too_deep :
    ¬ ∀ (heap heap' other : Heap) (limits : Limits) (handle : Handle) (v : Value),
      heap.Reachable →
      (Marshaller.make Heap.store heap {} limits).lift (some handle) heap = .ok v heap' →
      v.nesting ≤ limits.maxDepth ∧
        outcome ((Marshaller.make Heap.store heap {} limits).lower v) other ≠
          .error (.tooDeep limits.maxDepth) := by
  intro h
  have hlift : (Marshaller.make Heap.store overhanging {} { maxDepth := 1 }).lift
      (some (.object 1)) overhanging = .ok (.list [.list [.int 5]]) overhanging := rfl
  exact (h overhanging _ {} _ _ _ overhanging_reachable hlift).2 rfl

end Heap

end Marshal
