import Marshal.Proofs.Heap.Operations
import Marshal.Proofs.Marshaller.Conversion

/-!
# Input is checked before anything is created

Containers of integers, dictionaries and sets check their whole input first.  A conversion lists
the parts that it looks at, in the order in which it does (`Conversion.inspected`), which of them
it refuses (`Conversion.forbids`), and with what failure (`Conversion.complaint`).  `Vets` says of
a check that it fails for the first refused part, and passes if there is none.

So a conversion fails in this order (`Conversion.checks_first`): for want of depth, for the first
refused part, and for want of budget, and in each case it leaves the heap as it was.
-/

namespace Marshal

/-! ## Failures of type -/

theorem message_of_kind {failure : Failure} (h : failure.kind = .type) :
    failure.message = "type error: " ++ failure.detail := by
  unfold Failure.message
  split
  · exact nomatch h
  · rw [h]

namespace Value

/-- The failure of a value that has no text as a key. -/
def keyComplaint : Value → Failure
  | object o => .noKeyText o.typeName
  | v => .unhashableKey v.typeName

theorem keyText_eq_error {v : Value} {failure : Failure} (h : v.keyText = .error failure) :
    failure = v.keyComplaint := by
  cases v with
  | object o =>
      rw [keyText] at h
      cases htext : o.keyText with
      | some key =>
          rw [htext] at h
          exact nomatch h
      | none =>
          rw [htext] at h
          exact (Except.error.inj h).symm
  | list | dict | set => exact (Except.error.inj h).symm
  | bool b => cases b <;> exact nomatch h
  | _ => exact nomatch h

end Value

/-! ## Checks -/

/-- The check fails for the offender, where there is one, with the complaint about it, and passes
otherwise. -/
structure Vets {β : Type} (complaint : Value → Failure) (check : Result β)
    (offender? : Option Value) : Prop where
  fails : ∀ v, offender? = some v → check = .error (complaint v)
  passes : offender? = none → ∃ checked, check = .ok checked

section Vets

variable {ι β γ : Type} {complaint : Value → Failure} {offender? offender?' : Option Value}

theorem vets_pure (b : β) : Vets complaint (pure b : Result β) none := ⟨nofun, fun _ => ⟨b, rfl⟩⟩

theorem vets_error (v : Value) : Vets complaint (.error (complaint v) : Result β) (some v) := by
  refine ⟨?_, nofun⟩
  rintro _ ⟨⟩
  rfl

/-- Of two checks the first one decides, if it fails. -/
theorem Vets.bind {check : Result β} {further : β → Result γ} (h : Vets complaint check offender?)
    (hfurther : ∀ checked, Vets complaint (further checked) offender?') :
    Vets complaint (check >>= further) (offender?.or offender?') := by
  cases offender? with
  | some v =>
      rw [h.fails v rfl]
      exact vets_error v
  | none =>
      obtain ⟨checked, rfl⟩ := h.passes rfl
      exact hfurther checked

/-- What consists of parts is checked in the order of the parts. -/
theorem vets_mapM {f : ι → Result β} {parts : ι → List Value} {refuses : Value → Bool}
    (h : ∀ i, Vets complaint (f i) ((parts i).find? refuses)) (is : List ι) :
    Vets complaint (is.mapM f) ((is.flatMap parts).find? refuses) := by
  induction is with
  | nil => exact vets_pure []
  | cons i is ih =>
      rw [List.mapM_cons, List.flatMap_cons, List.find?_append]
      refine (h i).bind fun b => ?_
      have hrest := ih.bind fun bs => vets_pure (b :: bs)
      rwa [Option.or_none] at hrest

end Vets

namespace Marshaller

theorem vets_integer (kind : Container) (v : Value) :
    Vets (fun v => .notInteger kind v.typeName) (integer kind v)
      ([v].find? fun v => v.int?.isNone) := by
  rw [integer, List.find?_singleton]
  cases v.int? with
  | some n => exact vets_pure n
  | none => exact vets_error v

theorem vets_integers (kind : Container) (values : List Value) :
    Vets (fun v => .notInteger kind v.typeName) (integers kind values)
      (values.find? fun v => v.int?.isNone) := by
  have hvets := vets_mapM (vets_integer kind) values
  rwa [List.flatMap_singleton'] at hvets

theorem vets_integerPairs (entries : List (Value × Value)) :
    Vets (fun v => .notInteger .pairSet v.typeName) (integerPairs entries)
      ((entries.flatMap fun entry => [entry.1, entry.2]).find? fun v => v.int?.isNone) := by
  refine vets_mapM (fun entry => ?_) entries
  rw [← List.singleton_append, List.find?_append]
  refine (vets_integer .pairSet entry.1).bind fun index => ?_
  have hvalue := (vets_integer .pairSet entry.2).bind fun value => vets_pure (index, value)
  rwa [Option.or_none] at hvalue

theorem vets_keyText (v : Value) :
    Vets Value.keyComplaint v.keyText ([v].find? fun v => !v.keyText.isOk) := by
  rw [List.find?_singleton]
  cases htext : v.keyText with
  | ok s => exact vets_pure s
  | error failure =>
      rw [Value.keyText_eq_error htext]
      exact vets_error v

theorem vets_keyTexts (entries : List (Value × Value)) :
    Vets Value.keyComplaint (keyTexts entries)
      ((entries.map Prod.fst).find? fun v => !v.keyText.isOk) := by
  rw [List.map_eq_flatMap]
  exact vets_mapM (fun entry => vets_keyText entry.1) entries

theorem vets_checkMembers (members : List Value) :
    Vets (fun v => .unhashableMember v.typeName) (checkMembers members)
      (members.find? Value.isContainer) := by
  rw [checkMembers]
  cases members.find? Value.isContainer with
  | none => exact vets_pure ()
  | some member => exact vets_error member

end Marshaller

/-! ## What comes first -/

/-- Before it does anything else, the action fails for the offender, with the complaint about it;
where there is none, it creates an object, if that is possible. -/
structure ChecksFirst (complaint : Value → Failure) (x : Action Heap Handle) (heap : Heap)
    (offender? : Option Value) : Prop where
  fails : ∀ v, offender? = some v → x heap = .error (complaint v) heap
  spent : offender? = none → heap.budget = some 0 →
    ∃ name, x heap = .error (.refused (.allocationFailed name)) heap

namespace Marshaller

variable {β : Type} {m : Marshaller Heap} {heap : Heap} {offender? : Option Value}
  {complaint : Value → Failure} {check : Result β} {kind : Container}

/-- With the budget spent, no container is created. -/
theorem ask_create_of_spent (hstore : m.store = Heap.store) (kind : Container)
    (hbudget : heap.budget = some 0) :
    ∃ name, m.store.ask (.create kind) heap = .error (.refused (.allocationFailed name)) heap := by
  have hanswer : Heap.store.answer (.create kind) heap = _ :=
    (Heap.allocate_eq heap _).trans (if_pos hbudget)
  rw [hstore]
  exact ⟨_, ask_of_error hanswer⟩

theorem checksFirst_sealed {staged : Action Heap Handle}
    (h : ChecksFirst complaint staged heap offender?) :
    ChecksFirst complaint (m.sealed kind staged) heap offender? where
  fails v hv := withReference_of_error (h.fails v hv)
  spent hnone hbudget := by
    obtain ⟨name, hrun⟩ := h.spent hnone hbudget
    exact ⟨name, withReference_of_error hrun⟩

theorem checksFirst_lowerIndices (hstore : m.store = Heap.store) {elements : Result (List β)}
    (h : Vets complaint elements offender?) (kind : Container)
    (insertion : Handle → β → Request) :
    ChecksFirst complaint (m.lowerIndices kind elements insertion) heap offender? where
  fails v hv := by
    rw [h.fails v hv]
    rfl
  spent hnone hbudget := by
    obtain ⟨checked, rfl⟩ := h.passes hnone
    obtain ⟨name, hcreate⟩ := ask_create_of_spent hstore kind hbudget
    exact ⟨name, withReference_of_error (building_of_error hcreate)⟩

theorem checksFirst_stage (hstore : m.store = Heap.store) (h : Vets complaint check offender?)
    (kind : Container) {room : Nat} (hroom : 1 ≤ room)
    (fill : Nat → β → Handle → Action Heap Unit) :
    ChecksFirst complaint (m.stage kind room check fill) heap offender? := by
  obtain ⟨room, rfl⟩ := Nat.exists_eq_add_of_le' hroom
  constructor
  · intro v hv
    rw [h.fails v hv]
    rfl
  · intro hnone hbudget
    obtain ⟨checked, rfl⟩ := h.passes hnone
    obtain ⟨name, hcreate⟩ := ask_create_of_spent hstore kind hbudget
    exact ⟨name, building_of_error hcreate⟩

end Marshaller

namespace Conversion

/-- Whether the conversion takes input that it checks as a whole. -/
def isChecked : Conversion → Bool
  | dict _ _ | set _ _ | indexArray _ | indexSet _ | pairs _ => true
  | _ => false

/-- Whether what the conversion takes may nest. -/
def isNested : Conversion → Bool
  | value _ | list _ _ | dict _ _ | set _ _ => true
  | _ => false

/-- The parts of the input that are checked, in the order in which they are. -/
def inspected : Conversion → List Value
  | dict entries _ => entries.map Prod.fst
  | set members _ => members
  | indexArray values | indexSet values => values
  | pairs entries => entries.flatMap fun entry => [entry.1, entry.2]
  | _ => []

/-- Whether a part must not be where it is checked. -/
def forbids : Conversion → Value → Bool
  | dict _ _, v => !v.keyText.isOk
  | set _ _, v => v.isContainer
  | indexArray _, v | indexSet _, v | pairs _, v => v.int?.isNone
  | _, _ => false

/-- The failure of a conversion that finds a part which must not be there. -/
def complaint : Conversion → Value → Failure
  | dict _ _, v => v.keyComplaint
  | set _ _, v => .unhashableMember v.typeName
  | indexSet _, v => .notInteger .indexSet v.typeName
  | pairs _, v => .notInteger .pairSet v.typeName
  | _, v => .notInteger .indexArray v.typeName

/-- The words of the complaint about a part, among them the name of its type. -/
def wording : Conversion → Value → String
  | dict _ _, .object o => o.typeName ++ " cannot be used as a dictionary key"
  | dict _ _, v => "unhashable dictionary key of type " ++ v.typeName
  | set _ _, v => "unhashable set element of type " ++ v.typeName
  | indexSet _, v => "index set requires integers, got " ++ v.typeName
  | pairs _, v => "index pair map requires integers, got " ++ v.typeName
  | _, v => "index array requires integers, got " ++ v.typeName

/-- The first part that must not be there. -/
def offender? (conversion : Conversion) : Option Value :=
  conversion.inspected.find? conversion.forbids

variable {m : Marshaller Heap} {conversion : Conversion}

theorem kind_complaint (conversion : Conversion) (v : Value) :
    (conversion.complaint v).kind = .type := by
  cases conversion <;> cases v <;> rfl

theorem message_complaint (conversion : Conversion) (v : Value) :
    (conversion.complaint v).message = "type error: " ++ conversion.wording v := by
  rw [message_of_kind (kind_complaint conversion v)]
  congr 1
  cases conversion with
  | dict => cases v <;> rfl
  | _ => rfl

theorem run_of_no_depth (hchecked : conversion.isChecked) (hnested : conversion.isNested)
    (hdepth : m.limits.maxDepth = 0) (heap : Heap) :
    conversion.run m heap = .error (.tooDeep 0) heap := by
  have hstage : ∀ {β : Type} (kind : Container) (check : Result β) fill,
      m.stage kind m.limits.maxDepth check fill heap = .error (.tooDeep 0) heap := by
    intro β kind check fill
    have htooDeep : m.tooDeep = .tooDeep 0 := by rw [Marshaller.tooDeep, hdepth]
    rw [hdepth, ← htooDeep]
    rfl
  cases conversion with
  | dict entries mutable =>
      cases mutable with
      | true => exact hstage _ _ _
      | false => exact withReference_of_error (hstage _ _ _)
  | set members mutable =>
      cases mutable with
      | true => exact hstage _ _ _
      | false => exact withReference_of_error (hstage _ _ _)
  | indexArray | indexSet | pairs => exact nomatch hnested
  | _ => exact nomatch hchecked

theorem checksFirst_run (hstore : m.store = Heap.store) (hchecked : conversion.isChecked)
    (hdepth : conversion.isNested → 1 ≤ m.limits.maxDepth) (heap : Heap) :
    ChecksFirst conversion.complaint (conversion.run m) heap conversion.offender? := by
  cases conversion with
  | dict entries mutable =>
      have hstage : ChecksFirst Value.keyComplaint (m.stageDictionary m.limits.maxDepth entries)
          heap _ :=
        Marshaller.checksFirst_stage hstore (Marshaller.vets_keyTexts entries) _ (hdepth rfl) _
      cases mutable with
      | true => exact hstage
      | false => exact Marshaller.checksFirst_sealed hstage
  | set members mutable =>
      have hstage : ChecksFirst _ (m.stageSet m.limits.maxDepth members) heap _ :=
        Marshaller.checksFirst_stage hstore (Marshaller.vets_checkMembers members) _ (hdepth rfl) _
      cases mutable with
      | true => exact hstage
      | false => exact Marshaller.checksFirst_sealed hstage
  | indexArray values =>
      exact Marshaller.checksFirst_lowerIndices hstore (Marshaller.vets_integers _ values) _ _
  | indexSet values =>
      exact Marshaller.checksFirst_lowerIndices hstore (Marshaller.vets_integers _ values) _ _
  | pairs entries =>
      exact Marshaller.checksFirst_lowerIndices hstore (Marshaller.vets_integerPairs entries) _ _
  | _ => exact nomatch hchecked

/-- A conversion that checks its input fails for want of depth first, then for the first part of
its input that must not be there, whose type it names, and only then for want of budget.  The heap
stays as it was. -/
theorem checks_first (hstore : m.store = Heap.store) (conversion : Conversion)
    (hchecked : conversion.isChecked) (heap : Heap) :
    (conversion.isNested → m.limits.maxDepth = 0 →
      conversion.run m heap = .error (.tooDeep 0) heap) ∧
    ((conversion.isNested → 1 ≤ m.limits.maxDepth) →
      (∀ v, conversion.offender? = some v →
        conversion.run m heap = .error (conversion.complaint v) heap ∧
        (conversion.complaint v).kind = .type ∧
        (conversion.complaint v).message = "type error: " ++ conversion.wording v) ∧
      (conversion.offender? = none → heap.budget = some 0 →
        ∃ name, conversion.run m heap = .error (.refused (.allocationFailed name)) heap)) := by
  constructor
  · intro hnested hdepth
    exact run_of_no_depth hchecked hnested hdepth heap
  · intro hdepth
    have hfirst := checksFirst_run hstore hchecked hdepth heap
    refine ⟨fun v hv => ?_, hfirst.spent⟩
    exact ⟨hfirst.fails v hv, kind_complaint conversion v, message_complaint conversion v⟩

/-- With the budget spent, pairs are refused for the value of the second one and not for what
comes after it; a set is refused for the list in it and not for the set after that, and without
depth for that. -/
theorem checks_first_of_spent :
    let m : Marshaller Heap := { store := Heap.store, types := {}, limits := { maxDepth := 1 } }
    let flat : Marshaller Heap := { m with limits := { maxDepth := 0 } }
    let heap : Heap := { budget := some 0 }
    let pairs : Conversion := .pairs [(.int 1, .int 2), (.int 3, .text "x"), (.null, .int 4)]
    let set : Conversion := .set [.int 1, .list [], .set []] true
    pairs.run m heap = .error (.notInteger .pairSet "text") heap ∧
    (Failure.notInteger .pairSet "text").message =
      "type error: " ++ ("index pair map requires integers, got " ++ "text") ∧
    set.run m heap = .error (.unhashableMember "list") heap ∧
    (Failure.unhashableMember "list").message =
      "type error: " ++ ("unhashable set element of type " ++ "list") ∧
    set.run flat heap = .error (.tooDeep 0) heap ∧
    ∃ name, (Conversion.set [.int 1] true).run m heap =
      .error (.refused (.allocationFailed name)) heap := by
  intro m flat heap pairs set
  have hstore : m.store = Heap.store := rfl
  have hstore' : flat.store = Heap.store := rfl
  have hpairs := ((checks_first hstore pairs rfl heap).2 nofun).1 (.text "x") rfl
  have hset := ((checks_first hstore set rfl heap).2 fun _ => Nat.le_refl 1).1 (.list []) rfl
  have hflat := (checks_first hstore' set rfl heap).1 rfl rfl
  have hallowed := (checks_first hstore (.set [.int 1] true) rfl heap).2 fun _ => Nat.le_refl 1
  exact ⟨hpairs.1, hpairs.2.2, hset.1, hset.2.2, hflat, hallowed.2 rfl rfl⟩

end Conversion

end Marshal
