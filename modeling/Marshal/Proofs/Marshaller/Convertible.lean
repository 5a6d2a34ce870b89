import Marshal.Proofs.Marshaller.Conversion
import Marshal.Proofs.Outcome
import Marshal.Proofs.Value.Normal

/-!
# Only what can be stored is lowered

Whether a value is lowered does not depend on the heap, apart from refusals.  A
lowering that answers tells that the value is `Storable` (`tells_storable`), since
each check on the way is one of the conditions for that.  Which domain objects can be
shared is up to the converters, and without converters there are none, so the value is
`Convertible` (`tells_within`).
-/

namespace Marshal

variable {room : Nat} {v : Value}

/-! ## Key texts -/

theorem Marshaller.keyTexts_cons {entry : Value × Value} {entries : List (Value × Value)}
    {keys : List String} :
    keyTexts (entry :: entries) = .ok keys ↔
      ∃ key rest, entry.1.keyText = .ok key ∧ keyTexts entries = .ok rest ∧ keys = key :: rest := by
  unfold keyTexts
  rw [List.mapM_cons]
  cases entry.1.keyText with
  | error failure => simp [bind, Except.bind]
  | ok key =>
      cases entries.mapM fun entry => entry.1.keyText with
      | error failure => simp [bind, Except.bind]
      | ok rest => simp [bind, Except.bind, pure, Except.pure, eq_comm]

theorem Marshaller.exists_keyTexts {entries : List (Value × Value)} :
    (∃ keys, keyTexts entries = .ok keys) ↔ ∀ entry ∈ entries, ∃ s, entry.1.keyText = .ok s := by
  induction entries with
  | nil => exact ⟨fun _ => List.forall_mem_nil _, fun _ => ⟨[], rfl⟩⟩
  | cons entry entries ih =>
      rw [List.forall_mem_cons, ← ih]
      simp only [keyTexts_cons]
      constructor
      · rintro ⟨_, key, rest, hkey, hrest, rfl⟩
        exact ⟨⟨key, hkey⟩, rest, hrest⟩
      · rintro ⟨⟨key, hkey⟩, rest, hrest⟩
        exact ⟨key :: rest, key, rest, hkey, hrest, rfl⟩

/-! ## Wrapped objects -/

namespace Value

theorem forall_wrappedIn {P : Handle → Prop} {items : List Value} :
    (∀ handle ∈ wrappedIn items, P handle) ↔ ∀ item ∈ items, ∀ handle ∈ item.wrapped, P handle := by
  induction items with
  | nil => simp [wrappedIn]
  | cons item items ih => rw [wrappedIn, List.forall_mem_append, List.forall_mem_cons, ih]

theorem forall_wrappedUnder {P : Handle → Prop} {entries : List (Value × Value)} :
    (∀ handle ∈ wrappedUnder entries, P handle) ↔
      ∀ entry ∈ entries, ∀ handle ∈ entry.2.wrapped, P handle := by
  induction entries with
  | nil => simp [wrappedUnder]
  | cons entry entries ih => rw [wrappedUnder, List.forall_mem_append, List.forall_mem_cons, ih]

theorem wrappedIn_eq_nil {items : List Value} (h : ∀ item ∈ items, item.wrapped = []) :
    wrappedIn items = [] := by
  induction items with
  | nil => rfl
  | cons item items ih =>
      rw [List.forall_mem_cons] at h
      rw [wrappedIn, h.1, ih h.2, List.append_nil]

theorem wrappedUnder_eq_nil {entries : List (Value × Value)}
    (h : ∀ entry ∈ entries, entry.2.wrapped = []) : wrappedUnder entries = [] := by
  induction entries with
  | nil => rfl
  | cons entry entries ih =>
      rw [List.forall_mem_cons] at h
      rw [wrappedUnder, h.1, ih h.2, List.append_nil]

theorem wrapped_of_scalar (h : v.scalar?.isSome) : v.wrapped = [] := by
  cases v <;> first | rfl | exact nomatch h

theorem bareSetsIn_iff {items : List Value} :
    bareSetsIn items ↔ ∀ item ∈ items, item.bareSets := by
  induction items with
  | nil => simp [bareSetsIn]
  | cons item items ih => rw [bareSetsIn, Bool.and_eq_true, List.forall_mem_cons, ih]

theorem bareSetsUnder_iff {entries : List (Value × Value)} :
    bareSetsUnder entries ↔ ∀ entry ∈ entries, entry.2.bareSets := by
  induction entries with
  | nil => simp [bareSetsUnder]
  | cons entry entries ih => rw [bareSetsUnder, Bool.and_eq_true, List.forall_mem_cons, ih]

theorem bareSets_of_scalar (h : v.scalar?.isSome) : v.bareSets := by
  cases v <;> first | rfl | exact nomatch h

theorem bareSets_set {members : List Value} :
    (set members).bareSets ↔ ∀ member ∈ members, ¬ member.isObject := by
  simp [bareSets]

/-- What can be stored without converters has no domain objects in sets. -/
theorem Convertible.bareSets (h : Convertible room v) : v.bareSets := by
  induction h with
  | scalar h => exact bareSets_of_scalar h
  | list _ ih => exact bareSetsIn_iff.mpr ih
  | dict _ _ ih => exact bareSetsUnder_iff.mpr ih
  | set hmembers =>
      refine bareSets_set.mpr fun member hmember hobject => ?_
      have hscalar := hmembers member hmember
      cases member with
      | object => exact nomatch hscalar
      | _ => exact nomatch hobject

/-- Members that can be stored are scalars, if there are no domain objects among them. -/
theorem isSome_of_bareSets {shared : DomainObject → Prop} {members : List Value}
    (hbare : (set members).bareSets) (hflat : ∀ member ∈ members, ¬ member.isContainer)
    (hmembers : ∀ member ∈ members, Storable shared room member) :
    ∀ member ∈ members, member.scalar?.isSome := by
  intro member hmember
  rcases (hmembers member hmember).cases_of_flat (hflat member hmember) with hscalar | ⟨o, rfl, -⟩
  · exact hscalar
  · exact absurd rfl (bareSets_set.mp hbare _ hmember)

/-- What can be stored without converters wraps nothing. -/
theorem Convertible.wrapped_eq_nil (h : Convertible room v) : v.wrapped = [] := by
  induction h with
  | scalar h => exact wrapped_of_scalar h
  | list _ ih => exact wrappedIn_eq_nil ih
  | dict _ _ ih => exact wrappedUnder_eq_nil ih
  | set hmembers =>
      exact wrappedIn_eq_nil fun member hmember => wrapped_of_scalar (hmembers member hmember)

end Value

/-! ## What an answer tells -/

/-- If the action answers, then `P` holds. -/
def Tells {σ α : Type} (x : Action σ α) (P : Prop) : Prop :=
  ∀ s, Ends x s (fun _ _ => P) fun _ _ => True

section Tells

variable {σ α β : Type} {P Q : Prop} {x : Action σ α}

theorem tells_of_true (h : P) : Tells x P := by
  intro s
  exact ends_intro (fun _ _ _ => h) fun _ _ _ => trivial

theorem Tells.mono (hx : Tells x P) (hPQ : P → Q) : Tells x Q := by
  intro s
  exact (hx s).mono (fun _ _ => hPQ) fun _ _ => id

theorem tells_throw (failure : Failure) : Tells (throw failure : Action σ α) P := fun _ =>
  ends_throw trivial

theorem Tells.bind {f : α → Action σ β} (hx : Tells x P) (hf : ∀ a, Tells (f a) Q) :
    Tells (x >>= f) (P ∧ Q) := by
  intro s
  refine ends_bind ((hx s).mono (fun a s' hP => ?_) fun _ _ => id)
  exact (hf a s').mono (fun _ _ hQ => ⟨hP, hQ⟩) fun _ _ => id

theorem tells_withReference {store : Store σ} {acquire : Action σ Handle}
    {body : Handle → Action σ α} (hacquire : Tells acquire P) :
    Tells (store.withReference acquire body) P := by
  intro s
  refine ends_withReference ((hacquire s).mono (fun handle s' hP => ?_) fun _ _ => id)
  exact ends_intro (fun _ _ _ => hP) fun _ _ _ => trivial

theorem tells_using {store : Store σ} {acquire : Action σ Handle} {body : Handle → Action σ α}
    (hbody : ∀ handle, Tells (body handle) P) : Tells (store.withReference acquire body) P := by
  intro s
  refine ends_withReference (ends_intro (fun handle s' _ => ?_) fun _ _ _ => trivial)
  exact hbody handle s'

end Tells

namespace Marshaller

variable {σ β : Type} {m : Marshaller σ} {P : Prop}

theorem tells_stage {kind : Container} {check : Result β}
    {fill : Nat → β → Handle → Action σ Unit}
    (hfill : ∀ deeper checked handle, room = deeper + 1 → check = .ok checked →
      Tells (fill deeper checked handle) P) : Tells (m.stage kind room check fill) P := by
  cases room with
  | zero => exact tells_throw _
  | succ deeper =>
      cases check with
      | error failure => exact tells_throw failure
      | ok checked =>
          intro s
          refine ends_building (ends_intro (fun handle s' _ => ?_) fun _ _ _ => trivial)
          exact hfill deeper checked handle rfl rfl s'

theorem tells_scalar {shared : DomainObject → Prop} {v : Value} {x : Action σ Handle}
    (h : v.scalar?.isSome) : Tells x (v.Storable shared room) := tells_of_true (.scalar h)

/-- No container is let into a set. -/
theorem checkMembers_iff {members : List Value} :
    checkMembers members = .ok () ↔ ∀ member ∈ members, ¬ member.isContainer := by
  rw [← List.find?_eq_none, checkMembers]
  cases members.find? Value.isContainer with
  | none => exact ⟨fun _ => rfl, fun _ => rfl⟩
  | some member => exact ⟨nofun, nofun⟩

/-- Scalars are let into a set. -/
theorem checkMembers_of_scalars {members : List Value}
    (hscalars : ∀ member ∈ members, member.scalar?.isSome) : checkMembers members = .ok () :=
  checkMembers_iff.mpr fun member hmember =>
    Value.not_isContainer_of_scalar (hscalars member hmember)

/-! ## What is checked on the way -/

section Storable

variable {shared : DomainObject → Prop}

theorem tells_stageArray {items : List Value}
    (hitems : ∀ deeper array,
      Tells (m.appendAll deeper array items) (∀ item ∈ items, item.Storable shared deeper)) :
    Tells (m.stageArray room items) ((Value.list items).Storable shared room) := by
  refine tells_stage fun deeper _ array hroom _ => ?_
  subst hroom
  exact (hitems deeper array).mono .list

theorem tells_stageDictionary {entries : List (Value × Value)}
    (hentries : ∀ deeper dictionary keys, keyTexts entries = .ok keys →
      Tells (m.putAll deeper dictionary keys entries)
        (∀ entry ∈ entries, entry.2.Storable shared deeper)) :
    Tells (m.stageDictionary room entries) ((Value.dict entries).Storable shared room) := by
  refine tells_stage fun deeper keys dictionary hroom hkeys => ?_
  subst hroom
  have htexts : ∀ entry ∈ entries, ∃ s, entry.1.keyText = .ok s := exists_keyTexts.mp ⟨keys, hkeys⟩
  exact (hentries deeper dictionary keys hkeys).mono (.dict htexts)

theorem tells_stageSet {members : List Value}
    (hmembers : ∀ deeper set,
      Tells (m.addAll deeper set members) (∀ member ∈ members, member.Storable shared deeper)) :
    Tells (m.stageSet room members) ((Value.set members).Storable shared room) := by
  refine tells_stage fun deeper _ set hroom hcheck => ?_
  subst hroom
  exact (hmembers deeper set).mono (.set (checkMembers_iff.mp hcheck))

mutual

/-- Only what can be stored is lowered. -/
theorem tells_storable (hm : ∀ o, Tells (m.registry.lower m.store o) (shared o)) :
    ∀ (room : Nat) (v : Value),
    Tells (m.lowerWithin room v) (v.Storable shared room)
  | _, .null => tells_throw _
  | _, .bool _ => tells_scalar rfl
  | _, .int _ => tells_scalar rfl
  | _, .float _ => tells_scalar rfl
  | _, .complex _ => tells_scalar rfl
  | _, .text _ => tells_scalar rfl
  | _, .bytes _ => tells_scalar rfl
  | _, .list items =>
    tells_withReference (tells_stageArray fun deeper array => tells_items hm deeper array items)
  | _, .dict entries =>
    tells_withReference (tells_stageDictionary fun deeper dictionary keys hkeys =>
      tells_entries hm deeper dictionary keys entries hkeys)
  | _, .set members =>
    tells_withReference (tells_stageSet fun deeper set => tells_members hm deeper set members)
  | _, .object o => (hm o).mono .object
  | _, .token _ => tells_throw _
termination_by structural _ v => v

theorem tells_items (hm : ∀ o, Tells (m.registry.lower m.store o) (shared o)) :
    ∀ (room : Nat) (array : Handle) (items : List Value),
    Tells (m.appendAll room array items) (∀ item ∈ items, item.Storable shared room)
  | _, _, [] => tells_of_true (List.forall_mem_nil _)
  | room, array, item :: items =>
    (Tells.bind (tells_withReference (tells_storable hm room item)) fun _ =>
      tells_items hm room array items).mono List.forall_mem_cons.mpr
termination_by structural _ _ items => items

theorem tells_members (hm : ∀ o, Tells (m.registry.lower m.store o) (shared o)) :
    ∀ (room : Nat) (set : Handle) (members : List Value),
    Tells (m.addAll room set members) (∀ member ∈ members, member.Storable shared room)
  | _, _, [] => tells_of_true (List.forall_mem_nil _)
  | room, set, member :: members =>
    (Tells.bind (tells_withReference (tells_storable hm room member)) fun _ =>
      tells_members hm room set members).mono List.forall_mem_cons.mpr
termination_by structural _ _ members => members

theorem tells_entries (hm : ∀ o, Tells (m.registry.lower m.store o) (shared o)) :
    ∀ (room : Nat) (dictionary : Handle) (keys : List String) (entries : List (Value × Value)),
    keyTexts entries = .ok keys →
    Tells (m.putAll room dictionary keys entries) (∀ entry ∈ entries, entry.2.Storable shared room)
  | _, _, _, [], _ => tells_of_true (List.forall_mem_nil _)
  | _, _, [], _ :: _, hkeys => by
    obtain ⟨_, _, _, _, hnil⟩ := keyTexts_cons.mp hkeys
    exact nomatch hnil
  | room, dictionary, key :: keys, (_, value) :: entries, hkeys => by
    obtain ⟨_, _, _, hrest, heq⟩ := keyTexts_cons.mp hkeys
    obtain ⟨rfl, rfl⟩ := List.cons.inj heq
    have hvalue : ∀ keyHandle, Tells (m.store.withReference (m.lowerWithin room value)
        fun valueHandle => m.store.ask (.putEntry dictionary keyHandle valueHandle))
        (value.Storable shared room) := fun _ => tells_withReference (tells_storable hm room value)
    exact (Tells.bind (tells_using hvalue) fun _ =>
      tells_entries hm room dictionary keys entries hrest).mono fun hall =>
        List.forall_mem_cons.mpr hall
termination_by structural _ _ _ entries => entries

end

end Storable

/-! ## Without converters -/

/-- Without converters, no domain object is lowered. -/
theorem tells_object (hm : m.registry = {}) (o : DomainObject) :
    Tells (m.registry.lower m.store o) False := by
  rw [hm]
  exact tells_throw (.noConverter o.typeName)

theorem tells_within (hm : m.registry = {}) (room : Nat) (v : Value) :
    Tells (m.lowerWithin room v) (v.Convertible room) :=
  (tells_storable (tells_object hm) room v).mono fun hv => hv.convertible fun _ => id

end Marshaller

end Marshal
