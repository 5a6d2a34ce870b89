import Marshal.Proofs.Heap.Costs
import Marshal.Proofs.Marshaller.Keeping
import Marshal.Proofs.Value.Tidy

/-!
# Equal values are stored alike

Two tidy values that are equal are lowered both or neither, as long as the budgets are
enough, and what is read back from their objects is equal
(`Client.Reachable.lower_respects_beq`).  The two runs have only the marshaller in common.
They may start in different heaps, and whatever the clients do before they read is of no
account, as long as they keep the references that they were given.

Nothing is compared step by step, for equal dictionaries may have their entries in different
orders.  Each run is described by its value alone: it answers if the value is `Convertible`,
and what is read is the normal form.  So all depends on how these two treat equal values.

The two zeros are equal, but as keys of dictionaries they have different texts.  So equality
is lost where zeros of different signs meet as keys (`Client.reads_zeros_apart`).
-/

namespace Marshal

variable {start : Heap} {limits : Limits} {v w : Value}

/-- Without a limit, what can be stored is read back in its normal form. -/
theorem Marshaller.Plain.outcome_trip {m : Marshaller Heap} {heap : Heap} (h : m.Plain)
    (hpos : heap.Positive) (hbudget : heap.budget = none)
    (hx : v.Convertible m.limits.maxDepth) :
    outcome (m.lower v >>= fun handle => m.lift (some handle)) heap = .ok v.normal := by
  have hyields := hx.ends h hpos
  cases hrun : m.lower v heap with
  | error failure heap' => exact absurd hbudget (hyields.of_error hrun).1
  | ok handle heap' =>
      have hread := (Form.ends_recovers h .value hpos hx).of_ok hrun
      have hsame : heap'.setBudget none = heap' := by
        rw [← (hyields.of_ok hrun).unlimited hbudget]
        rfl
      calc outcome (m.lower v >>= fun handle => m.lift (some handle)) heap
          = outcome (m.lift (some handle)) heap' := by rw [outcome, bind_of_ok hrun, outcome]
        _ = .ok v.normal := hsame ▸ Form.Recovers.outcome_eq hread

namespace Client

variable {client other later later' : Client} {handle handle' : Handle}

/-- The client had the value lowered, and later it still owns the reference that it was
given. -/
def Retains (client : Client) (m : Marshaller Heap) (v : Value) (handle : Handle)
    (later : Client) : Prop :=
  ∃ heap', m.lower v client.heap = .ok handle heap' ∧
    Relation.ReflTransGen Calls ⟨heap', handle ::ₘ client.owned⟩ later ∧ handle ∈ later.owned

/-- Whatever was lowered can be stored, and its normal form is read ever after. -/
theorem Reachable.recovers_of_retains (hclient : client.Reachable) (hstart : start.Reachable)
    (h : client.Retains (.make Heap.store start {} limits) v handle later) :
    v.Convertible limits.maxDepth ∧
      Form.value.Recovers (.make Heap.store start {} limits) later.heap handle v.normal := by
  obtain ⟨heap', hrun, hcalls, hkept⟩ := h
  have hplain := hstart.plain limits
  have hx : v.Convertible limits.maxDepth := Form.convertible_of_ok hplain .value hrun
  have hlowered := hclient.lowered hstart hx.objectFree hrun
  have hruns := runs_of_calls hcalls
  have hpos := (hlowered.reachable hclient hruns).heap_reachable.positive
  have hdenotes := hlowered.denotes_later hclient hruns hkept
  exact ⟨hx, Form.recovers_of_denotes hplain.toStandard .value hpos hdenotes⟩

/-- Of two tidy values that are equal both are lowered or neither is, unless for want of
budget.  What is read from their objects, then or later, is equal, provided that no zeros
of different signs meet as keys of dictionaries. -/
theorem Reachable.lower_respects_beq (hclient : client.Reachable) (hother : other.Reachable)
    (hstart : start.Reachable) (hv : v.Tidy) (hw : w.Tidy) (h : v == w) :
    let m := Marshaller.make Heap.store start {} limits
    ((∀ failure heap', m.lower v client.heap = .error failure heap' → ¬ failure.Unpaid) →
      (∀ failure heap', m.lower w other.heap = .error failure heap' → ¬ failure.Unpaid) →
      ((∃ handle heap', m.lower v client.heap = .ok handle heap') ↔
        ∃ handle heap', m.lower w other.heap = .ok handle heap')) ∧
    ((∀ key key', Value.Meets v w key key' → key.signs = key'.signs) →
      ∀ handle handle' later later', client.Retains m v handle later →
        other.Retains m w handle' later' →
        ∃ a b, a == b ∧ Form.value.Recovers m later.heap handle a ∧
          Form.value.Recovers m later'.heap handle' b) := by
  intro m
  have hplain : m.Plain := hstart.plain limits
  constructor
  · intro hpaid hpaid'
    rw [hplain.lower_iff hclient.heap_reachable.positive
        fun failure heap' hrun hshort => hpaid failure heap' hrun hshort.2,
      hplain.lower_iff hother.heap_reachable.positive
        fun failure heap' hrun hshort => hpaid' failure heap' hrun hshort.2]
    exact hv.convertible_iff hw h
  · intro hsigns handle handle' later later' hretains hretains'
    obtain ⟨hx, hread⟩ := hclient.recovers_of_retains hstart hretains
    obtain ⟨-, hread'⟩ := hother.recovers_of_retains hstart hretains'
    exact ⟨v.normal, w.normal, hv.normal_beq hw h hx hsigns, hread, hread'⟩

/-- The entries are in another order, and a value is the other zero. -/
theorem Reachable.lower_respects_beq_of_reordered :
    let m : Marshaller Heap := .make Heap.store {} {} {}
    let v : Value := .dict [(.text "x", .float ⟨0⟩), (.bool true, .int 1)]
    let w : Value := .dict [(.bool true, .int 1), (.text "x", .float ⟨0x8000000000000000⟩)]
    v.Tidy ∧ w.Tidy ∧ v == w ∧ ∃ handle heap' handle' other' a b,
      m.lower v {} = .ok handle heap' ∧ m.lower w {} = .ok handle' other' ∧ a == b ∧
        Form.value.Recovers m heap' handle a ∧ Form.value.Recovers m other' handle' b := by
  intro m v w
  have hplain : m.Plain := Heap.Reachable.fresh.plain {}
  have hpair : ∀ e f : Value × Value, (∀ u ∈ [e.1, e.2, f.1, f.2], u.scalar?.isSome) →
      (e.1 == f.1) = false → e.1.keyText ≠ f.1.keyText →
      (Value.dict [e, f]).Tidy ∧ (Value.dict [e, f]).Convertible 256 := by
    intro e f hscalars hdistinct htexts
    have hkeys : ∀ d ∈ [e, f], d.1.scalar?.isSome := by simp_all
    have hvalues : ∀ d ∈ [e, f], d.2.scalar?.isSome := by simp_all
    constructor
    · refine .dict (fun d hd => .simple (Value.isSimple_of_scalar (hkeys d hd)))
        (fun d hd => .simple (Value.isSimple_of_scalar (hvalues d hd)))
        (List.pairwise_pair.mpr hdistinct) (List.pairwise_pair.mpr fun s hs hs' => ?_)
      exact htexts (hs.trans hs'.symm)
    · exact .dict (fun d hd => Value.exists_keyText (Value.isSimple_of_scalar (hkeys d hd)))
        fun d hd => .scalar (hvalues d hd)
  obtain ⟨hv, hx⟩ : v.Tidy ∧ v.Convertible 256 :=
    hpair _ _ (by decide) (by show Value.equals _ _ = false; simp [Value.equals])
      (by simp [Value.keyText])
  obtain ⟨hw, hy⟩ : w.Tidy ∧ w.Convertible 256 :=
    hpair _ _ (by decide) (by show Value.equals _ _ = false; simp [Value.equals])
      (by simp [Value.keyText])
  have h : v == w := by
    show Value.equals _ _ = true
    simp [v, w, Value.equals, Binary.zeros_beq]
  -- neither text nor a boolean has a sign
  have hsigns : ∀ key key', Value.Meets v w key key' → key.signs = key'.signs := by
    intro key key' hmeets
    change Value.Meets (.dict _) (.dict _) key key' at hmeets
    cases hmeets with
    | key he hf _ =>
        obtain rfl | rfl := List.mem_pair.mp he <;> obtain rfl | rfl := List.mem_pair.mp hf <;> rfl
    | value he _ _ hmeets => obtain rfl | rfl := List.mem_pair.mp he <;> cases hmeets
  have hlower : ∀ {u : Value}, u.Convertible 256 →
      ∃ handle heap', m.lower u {} = .ok handle heap' :=
    (hplain.lower_iff Heap.Reachable.fresh.positive fun _ _ _ hshort => hshort.1 rfl).mpr
  obtain ⟨handle, heap', hrun⟩ := hlower hx
  obtain ⟨handle', other', hrun'⟩ := hlower hy
  obtain ⟨-, hequal⟩ := Reachable.lower_respects_beq .fresh .fresh .fresh hv hw h
  obtain ⟨a, b, hequal, hread, hread'⟩ := hequal hsigns
    handle handle' ⟨heap', {handle}⟩ ⟨other', {handle'}⟩
    ⟨heap', hrun, .refl, Multiset.mem_singleton_self handle⟩
    ⟨other', hrun', .refl, Multiset.mem_singleton_self handle'⟩
  exact ⟨hv, hw, h, handle, heap', handle', other', a, b, hrun, hrun', hequal, hread, hread'⟩

/-- As keys of dictionaries the two zeros are equal, but they are read as different texts. -/
theorem reads_zeros_apart :
    let m : Marshaller Heap := .make Heap.store {} {} {}
    let trip (v : Value) : Action Heap Value := m.lower v >>= fun handle => m.lift (some handle)
    let v : Value := .dict [(.float ⟨0⟩, .int 1)]
    let w : Value := .dict [(.float ⟨0x8000000000000000⟩, .int 1)]
    v.Tidy ∧ w.Tidy ∧ v == w ∧ ∃ a b, outcome (trip v) {} = .ok a ∧ outcome (trip w) {} = .ok b ∧
      (a == b) = false := by
  intro m trip v w
  have hplain : m.Plain := Heap.Reachable.fresh.plain {}
  have hsimple : ∀ x : Binary64, ∀ e ∈ [(Value.float x, Value.int 1)],
      e.1.isSimple ∧ e.2.scalar?.isSome := by simp [Value.isSimple, Value.scalar?]
  have htidy : ∀ x : Binary64, (Value.dict [(.float x, .int 1)]).Tidy := by
    intro x
    refine .dict (fun e he => .simple (hsimple x e he).1) (fun e he => ?_)
      (List.pairwise_singleton _ _) (List.pairwise_singleton _ _)
    exact .simple (Value.isSimple_of_scalar (hsimple x e he).2)
  have htrip : ∀ x : Binary64, outcome (trip (.dict [(.float x, .int 1)])) {} =
      .ok (Value.dict [(.float x, .int 1)]).normal := by
    intro x
    refine hplain.outcome_trip Heap.Reachable.fresh.positive rfl (.dict ?_ ?_)
    · exact fun e he => Value.exists_keyText (hsimple x e he).1
    · exact fun e he => .scalar (hsimple x e he).2
  refine ⟨htidy _, htidy _, ?_, .dict [(.text "0.0", .int 1)], .dict [(.text "-0.0", .int 1)],
    htrip _, htrip _, ?_⟩
  · show Value.equals _ _ = true
    simp [v, w, Value.equals, Binary.zeros_beq]
  · show Value.equals _ _ = false
    simp [Value.equals]

end Client

end Marshal
