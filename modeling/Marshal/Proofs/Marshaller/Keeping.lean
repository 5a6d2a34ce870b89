import Marshal.Proofs.Marshaller.Accounting
import Marshal.Proofs.Marshaller.Choosing
import Marshal.Proofs.Marshaller.Concurring
import Marshal.Proofs.Marshaller.RoundTrip
import Marshal.Proofs.Marshaller.Sealing

/-!
# What was lowered stays as it is

A value that was lowered is read as the same value ever after, by a client that keeps
its reference to it (`Client.Reachable.sealed_value_kept`).  Whatever else the client
does, alone or by marshallers, three things come together.

* What stands for the value is sealed, as far as it consists of containers
  (`Heap.Shut`), and no operation changes what is sealed (`Heap.Follows`).
* The reference that is kept keeps the object of the handle alive.
* In a heap where nothing is held that is gone, everything that the object leads to is
  alive with it.

So the value is still denoted by the handle, and it is read as what it is.

The value contains no domain objects, so it does not matter for lowering it which
converters there are.  It does not matter for reading it either, as long as they claim
no standard type.
-/

namespace Marshal

/-! ## Values without domain objects -/

namespace Value

mutual

/-- Whether neither the value nor a part of it is a domain object.  Keys of dictionaries
are not looked at, for only their texts are lowered. -/
def objectFree : Value → Bool
  | list items => objectFreeIn items
  | set members => objectFreeIn members
  | dict entries => objectFreeUnder entries
  | object _ => false
  | _ => true
termination_by structural v => v

/-- Whether there are no domain objects in several values. -/
def objectFreeIn : List Value → Bool
  | [] => true
  | v :: vs => objectFree v && objectFreeIn vs
termination_by structural vs => vs

/-- Whether there are no domain objects in the values of entries. -/
def objectFreeUnder : List (Value × Value) → Bool
  | [] => true
  | (_, v) :: entries => objectFree v && objectFreeUnder entries
termination_by structural entries => entries

end

theorem objectFreeIn_of_forall {items : List Value} (h : ∀ item ∈ items, item.objectFree) :
    objectFreeIn items := by
  induction items with
  | nil => rfl
  | cons item items ih =>
      rw [List.forall_mem_cons] at h
      exact Bool.and_eq_true_iff.mpr ⟨h.1, ih h.2⟩

theorem objectFreeUnder_of_forall {entries : List (Value × Value)}
    (h : ∀ entry ∈ entries, entry.2.objectFree) : objectFreeUnder entries := by
  induction entries with
  | nil => rfl
  | cons entry entries ih =>
      rw [List.forall_mem_cons] at h
      exact Bool.and_eq_true_iff.mpr ⟨h.1, ih h.2⟩

theorem objectFree_of_scalar {v : Value} (h : v.scalar?.isSome) : v.objectFree := by
  cases v <;> first | rfl | exact nomatch h

/-- What can be stored without converters has no domain objects. -/
theorem Convertible.objectFree {room : Nat} {v : Value} (h : Convertible room v) :
    v.objectFree := by
  induction h with
  | scalar h => exact objectFree_of_scalar h
  | list _ ih => exact objectFreeIn_of_forall ih
  | dict _ _ ih => exact objectFreeUnder_of_forall ih
  | set hmembers =>
      exact objectFreeIn_of_forall fun member hmember =>
        objectFree_of_scalar (hmembers member hmember)

end Value

namespace Marshaller

variable {σ : Type} (m : Marshaller σ) (types : TypeTable) (registry : Registry σ)

mutual

/-- What has no domain objects is lowered without regard to types and converters. -/
theorem lowerWithin_of_objectFree : ∀ (room : Nat) (v : Value), v.objectFree →
    ({ m with types, registry } : Marshaller σ).lowerWithin room v = m.lowerWithin room v
  | _, .null, _ => rfl
  | _, .bool _, _ => rfl
  | _, .int _, _ => rfl
  | _, .float _, _ => rfl
  | _, .complex _, _ => rfl
  | _, .text _, _ => rfl
  | _, .bytes _, _ => rfl
  | room, .list items, hv =>
    congrArg (fun fill => m.sealed .array (m.stage .array room (.ok ()) fill))
      (funext fun room => funext fun _ => funext fun array =>
        appendAll_of_objectFree room array items hv)
  | room, .dict entries, hv =>
    congrArg (fun fill => m.sealed .dictionary (m.stage .dictionary room (keyTexts entries) fill))
      (funext fun room => funext fun keys => funext fun dictionary =>
        putAll_of_objectFree room dictionary keys entries hv)
  | room, .set members, hv =>
    congrArg (fun fill => m.sealed .valueSet (m.stage .valueSet room (checkMembers members) fill))
      (funext fun room => funext fun _ => funext fun set =>
        addAll_of_objectFree room set members hv)
  | _, .token _, _ => rfl
termination_by structural _ v => v

theorem appendAll_of_objectFree : ∀ (room : Nat) (array : Handle) (items : List Value),
    Value.objectFreeIn items →
    ({ m with types, registry } : Marshaller σ).appendAll room array items =
      m.appendAll room array items
  | _, _, [], _ => rfl
  | room, array, item :: items, hitems => by
    have hparts := Bool.and_eq_true_iff.mp hitems
    rw [appendAll, appendAll, lowerWithin_of_objectFree room item hparts.1,
      appendAll_of_objectFree room array items hparts.2]
termination_by structural _ _ items => items

theorem addAll_of_objectFree : ∀ (room : Nat) (set : Handle) (members : List Value),
    Value.objectFreeIn members →
    ({ m with types, registry } : Marshaller σ).addAll room set members = m.addAll room set members
  | _, _, [], _ => rfl
  | room, set, member :: members, hmembers => by
    have hparts := Bool.and_eq_true_iff.mp hmembers
    rw [addAll, addAll, lowerWithin_of_objectFree room member hparts.1,
      addAll_of_objectFree room set members hparts.2]
termination_by structural _ _ members => members

theorem putAll_of_objectFree : ∀ (room : Nat) (dictionary : Handle) (keys : List String)
    (entries : List (Value × Value)), Value.objectFreeUnder entries →
    ({ m with types, registry } : Marshaller σ).putAll room dictionary keys entries =
      m.putAll room dictionary keys entries
  | _, _, [], [], _ => rfl
  | _, _, [], _ :: _, _ => rfl
  | _, _, _ :: _, [], _ => rfl
  | room, dictionary, key :: keys, (_, value) :: entries, hentries => by
    have hparts := Bool.and_eq_true_iff.mp hentries
    rw [putAll, putAll, lowerWithin_of_objectFree room value hparts.1,
      putAll_of_objectFree room dictionary keys entries hparts.2]
termination_by structural _ _ _ entries => entries

end

/-- Converters have no part in lowering a value without domain objects. -/
theorem lower_of_objectFree {start : Heap} {registry : Registry Heap} {limits : Limits} {v : Value}
    (hv : v.objectFree) :
    (make Heap.store start registry limits).lower v = (make Heap.store start {} limits).lower v :=
  (make Heap.store start {} limits).lowerWithin_of_objectFree
    (.build (Heap.store.types start) registry) registry limits.maxDepth v hv

end Marshaller

/-! ## What is sealed stands for what it stood for -/

namespace Heap

variable {n room : Nat} {heap heap' : Heap} {handle : Handle} {v : Value}

/-- A sealed object that is still live is what it was. -/
theorem Follows.body?_eq (h : Follows true heap heap') (hshut : Shut n 0 heap)
    (hsince : handle.Since n) (hlive : heap.Live handle) (hlive' : heap'.Live handle) :
    heap'.body? handle = heap.body? handle := by
  obtain ⟨body', hbody'⟩ := Option.isSome_iff_exists.mp (live_iff_body?.mp hlive')
  obtain ⟨body, hbody, hbecomes⟩ := h.exists_of_before hlive.before hbody'
  have hsealed : body.2 = false := by
    cases handle with
    | boolean b => exact Option.some.inj hbody ▸ rfl
    | outside address => exact nomatch hbody
    | object index =>
        -- from slot `n` on nothing is open
        refine Bool.eq_false_iff.mpr fun hopen => ?_
        have hmem := hshut index body.1 (hsince index rfl) (hopen ▸ hbody)
        exact Multiset.notMem_zero _ hmem
  rw [hbody', hbody, hbecomes.eq_of_sealed hsealed]

/-- What is sealed and still live is shown alike before and after a run. -/
theorem Follows.agree (h : Follows true heap heap') (hshut : Shut n 0 heap)
    (hpos : heap.Positive ∧ heap'.Positive) (hclosed : heap'.Closed)
    (htypes : heap.types <+: heap'.types) :
    Agree (fun handle => heap'.Live handle ∧ ∃ room v, Denotes n heap room handle v)
      (heap.setBudget none) (heap'.setBudget none) where
  body?_eq handle hgood := by
    obtain ⟨hlive', room, v, hdenotes⟩ := hgood
    exact h.body?_eq hshut hdenotes.since hdenotes.live hlive'
  live handle hgood := by
    obtain ⟨-, room, v, hdenotes⟩ := hgood
    exact hdenotes.live
  children handle content mutable hgood hbody child hchild := by
    obtain ⟨hlive', room, v, hdenotes⟩ := hgood
    have hbody' := (h.body?_eq hshut hdenotes.since hdenotes.live hlive').trans hbody
    exact ⟨hclosed handle content mutable hbody' child hchild,
      hdenotes.exists_of_child hbody hchild⟩
  positive := ⟨hpos.1.congr rfl, hpos.2.congr rfl⟩
  unlimited := ⟨rfl, rfl⟩
  types := htypes

end Heap

/-! ## Marshallers that know the standard types -/

namespace Heap.Reachable

variable {heap : Heap} {registry : Registry Heap}

theorem standard (h : heap.Reachable) (limits : Limits)
    (hclaims : ∀ type : StandardType, registry.claimant? type.name = none) :
    (Marshaller.make Heap.store heap registry limits).Standard where
  store := rfl
  kindOf type := by
    have hkind := TypeTable.kindOf_build h.standardFirst registry type
    rwa [hclaims type] at hkind

theorem steady (h : heap.Reachable) (limits : Limits)
    (hsteady : ∀ converter ∈ registry.converters, ∀ type : StandardType,
      converter.claims = some type.name → converter.Steady) :
    (Marshaller.make Heap.store heap registry limits).Steady where
  store := rfl
  kindOf type := by
    have hkind := TypeTable.kindOf_build h.standardFirst registry type
    cases hclaimant : registry.claimant? type.name with
    | none =>
        rw [hclaimant] at hkind
        exact .inl hkind
    | some place =>
        rw [hclaimant] at hkind
        refine .inr ⟨place, hkind, fun converter hconverter => ?_⟩
        obtain ⟨c, hget, hclaims⟩ := (Registry.claimant?_eq_some_iff.mp hclaimant).1
        obtain rfl := Option.some.inj (hget.symm.trans hconverter)
        exact hsteady c (List.mem_of_getElem? hget) type hclaims

end Heap.Reachable

/-! ## Values that are kept -/

/-- Without a limit, what is recovered is read. -/
theorem Form.Recovers.outcome_eq {m : Marshaller Heap} {heap : Heap} {handle : Handle} {v : Value}
    (h : Form.value.Recovers m heap handle v) :
    outcome (m.lift (some handle)) (heap.setBudget none) = .ok v := by
  have hends : Ends (m.lift (some handle)) (heap.setBudget none) (fun w _ => w = v)
      fun _ _ => False := (h none).mono (fun _ _ => id) fun _ _ hshort => hshort.1 rfl
  obtain ⟨w, after, hrun, rfl⟩ := hends.exists_ok
  exact outcome_of_ok hrun

namespace Client

variable {client later : Client} {start heap' : Heap} {registry : Registry Heap} {limits : Limits}
  {v : Value} {handle : Handle} {room : Nat}

/-- A client had the value lowered: the object that it was given stands for the normal
form, and it is sealed with all that it leads to. -/
structure Lowered (client : Client) (room : Nat) (v : Value) (handle : Handle) (heap' : Heap) :
    Prop where
  denotes : Heap.Denotes client.heap.slots.size heap' room handle v.normal
  shut : Heap.Shut client.heap.slots.size 0 heap'
  runs : client.Runs ⟨heap', handle ::ₘ client.owned⟩

/-- Values without domain objects are lowered as if there were no converters. -/
theorem Reachable.lowered (hclient : client.Reachable) (hstart : start.Reachable)
    (hv : v.objectFree)
    (hrun : (Marshaller.make Heap.store start registry limits).lower v client.heap =
      .ok handle heap') :
    client.Lowered limits.maxDepth v handle heap' := by
  have hpos := hclient.heap_reachable.positive
  have hplain := hstart.plain limits
  have hrun' : Form.value.lower (.make Heap.store start {} limits) v client.heap =
      .ok handle heap' := by
    rw [← hrun]
    exact congrFun (Marshaller.lower_of_objectFree hv).symm client.heap
  have hx := Form.convertible_of_ok hplain .value hrun'
  constructor
  · exact ((Form.ends_lower hplain .value hpos hx).of_ok hrun').2
  · exact (hplain.ends_shut hx.wrapped_eq_nil hpos).of_ok hrun'
  · have hhands := hplain.fronts.honest.hands_run (.value v) client.heap client.owned
    exact hhands.of_ok hrun'

/-- What is owned is live. -/
theorem Reachable.live_of_owned (h : client.Reachable) (hmem : handle ∈ client.owned) :
    client.heap.Live handle := by
  obtain ⟨base, -, -, hextends⟩ := h.balanced
  exact hextends.live_of_owned hmem

namespace Lowered

variable (h : client.Lowered room v handle heap') (hclient : client.Reachable)
  (hruns : Runs ⟨heap', handle ::ₘ client.owned⟩ later) (hkept : handle ∈ later.owned)

include h hclient hruns

theorem reachable : later.Reachable := hruns.reachable (h.runs.reachable hclient)

include hkept

/-- The object that is kept, with all that it leads to, is the same ever after. -/
theorem exists_agree : ∃ good : Handle → Prop, good handle ∧
    Heap.Agree good (heap'.setBudget none) (later.heap.setBudget none) := by
  have hlater := h.reachable hclient hruns
  have hpos := (h.runs.reachable hclient).heap_reachable.positive
  exact ⟨_, ⟨hlater.live_of_owned hkept, room, v.normal, h.denotes⟩,
    hruns.follows.agree h.shut ⟨hpos, hlater.heap_reachable.positive⟩ hlater.closed
      hruns.types_prefix⟩

/-- It is read alike. -/
theorem concurs_later {m : Marshaller Heap} (hm : m.Steady) :
    Concurs (m.liftWithin room handle) (m.liftWithin room handle) (heap'.setBudget none)
      (later.heap.setBudget none) := by
  obtain ⟨good, hgood, hagree⟩ := h.exists_agree hclient hruns hkept
  exact hm.concurs_within client.heap.slots.size room good _ _ handle v.normal hagree hgood
    (h.denotes.congr fun _ _ _ => rfl)

/-- It stands for what it stood for. -/
theorem denotes_later :
    Heap.Denotes client.heap.slots.size later.heap room handle v.normal := by
  obtain ⟨good, hgood, hagree⟩ := h.exists_agree hclient hruns hkept
  have hdenotes := hagree.denotes hgood (h.denotes.congr fun _ _ _ => rfl)
  exact hdenotes.congr fun _ _ _ => rfl

end Lowered

/-- A value that was lowered is read ever after as it is read right away, as long as the
client keeps the reference that it was given.  If no converter claims a standard type,
that is its normal form, and nothing but the budget for reading can get in the way. -/
theorem Reachable.sealed_value_kept (hclient : client.Reachable) (hstart : start.Reachable)
    (hsteady : ∀ converter ∈ registry.converters, ∀ type : StandardType,
      converter.claims = some type.name → converter.Steady)
    (hv : v.objectFree)
    (hrun : (Marshaller.make Heap.store start registry limits).lower v client.heap =
      .ok handle heap')
    (hlater : Relation.ReflTransGen Calls ⟨heap', handle ::ₘ client.owned⟩ later)
    (hkept : handle ∈ later.owned) :
    let m := Marshaller.make Heap.store start registry limits
    outcome (m.lift (some handle)) (later.heap.setBudget none) =
      outcome (m.lift (some handle)) (heap'.setBudget none) ∧
    ((∀ type : StandardType, registry.claimant? type.name = none) →
      outcome (m.lift (some handle)) (heap'.setBudget none) = .ok v.normal ∧
      Form.value.Recovers m heap' handle v.normal ∧
      Form.value.Recovers m later.heap handle v.normal) := by
  intro m
  have hlowered := hclient.lowered hstart hv hrun
  have hruns := runs_of_calls hlater
  constructor
  · have hconcurs := hlowered.concurs_later hclient hruns hkept (hstart.steady limits hsteady)
    exact hconcurs.outcome_eq
  · intro hclaims
    have hm := hstart.standard limits hclaims
    have hmade : Form.value.Recovers m heap' handle v.normal :=
      Form.recovers_of_denotes hm .value (hlowered.runs.reachable hclient).heap_reachable.positive
        hlowered.denotes
    have hread : Form.value.Recovers m later.heap handle v.normal :=
      Form.recovers_of_denotes hm .value
        (hlowered.reachable hclient hruns).heap_reachable.positive
        (hlowered.denotes_later hclient hruns hkept)
    exact ⟨hmade.outcome_eq, hmade, hread⟩

/-- A list is put into an array that can be changed, and it is read as before, by a
marshaller without converters as well as by one that makes tokens of texts. -/
theorem Reachable.sealed_value_kept_of_shared :
    let v : Value := .list [.text "kept"]
    let plain : Marshaller Heap := .make Heap.store {} {} {}
    let tokens : Registry Heap := ⟨[.naming "tokens" .quantity (some "OCString")]⟩
    let claimed : Marshaller Heap := .make Heap.store {} tokens {}
    ∃ handle heap', plain.lower v {} = .ok handle heap' ∧
      let later := ((⟨heap', {handle}⟩ : Client).step (.ask (.create .array))).step
        (.ask (.append heap'.next handle))
      outcome (plain.lift (some handle)) (later.heap.setBudget none) = .ok v ∧
      outcome (claimed.lift (some handle)) (later.heap.setBudget none) =
        outcome (claimed.lift (some handle)) (heap'.setBudget none) := by
  intro v plain tokens claimed
  have hplain : plain.Plain := Heap.Reachable.fresh.plain {}
  have hx : v.Convertible 256 := .list fun item hitem => by
    obtain rfl := List.mem_singleton.mp hitem
    exact .scalar rfl
  have hends := Form.ends_lower hplain .value Heap.Reachable.fresh.positive hx
  have hsteady : ∀ converter ∈ tokens.converters, ∀ type : StandardType,
      converter.claims = some type.name → converter.Steady := by
    intro converter hmem type _ good heap heap' handle hagree _
    obtain rfl := List.mem_singleton.mp hmem
    exact concurs_pure hagree.positive.1 hagree.positive.2 _
  cases hrun : plain.lower v {} with
  | error failure heap' => exact absurd rfl (hends.of_error hrun).1
  | ok handle heap' =>
      have hrun' : claimed.lower v {} = .ok handle heap' := by
        rw [← hrun]
        exact congrFun (plain.lowerWithin_of_objectFree claimed.types tokens 256 v rfl) {}
      have hlater : Relation.ReflTransGen Calls ⟨heap', {handle}⟩ _ :=
        .tail (.single (.operation (.ask (.create .array)) (Multiset.zero_le _)))
          (.operation (.ask (.append heap'.next handle)) (Multiset.zero_le _))
      have hkept : handle ∈ (((⟨heap', {handle}⟩ : Client).step (.ask (.create .array))).step
          (.ask (.append heap'.next handle))).owned := by
        simp [Client.step, Operation.released]
      refine ⟨handle, heap', rfl, ?_, ?_⟩
      · obtain ⟨hsame, hread⟩ := Reachable.sealed_value_kept .fresh .fresh
          (fun converter hmem => absurd hmem List.not_mem_nil) rfl hrun hlater hkept
        rw [hsame]
        exact (hread fun _ => rfl).1
      · exact (Reachable.sealed_value_kept .fresh .fresh hsteady rfl hrun' hlater hkept).1

end Client

end Marshal
