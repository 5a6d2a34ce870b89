import Marshal.Proofs.Heap.Costs
import Marshal.Proofs.Marshaller.Delivering
import Marshal.Proofs.Marshaller.Keeping

/-!
# What lowering a value costs

Lowering a value that can be stored costs what its shape tells (`Value.cost`): nothing
for a boolean, one object for any other scalar, and two for a container, which is staged
and sealed, besides what its elements cost.  Nothing is saved on members that the set
has already, on entries whose key comes again, or on keys, each of which is a text of
its own.

With a budget the lowering answers if and only if the value can be stored and the budget
covers the cost.  If the budget does not cover it, all of it is spent.
-/

namespace Marshal

namespace Value

mutual

/-- The number of objects that are created to store the value. -/
def cost : Value → Nat
  | bool _ => 0
  | list items => 2 + costAll items
  | dict entries => 2 + costUnder entries
  | set members => 2 + costAll members
  | _ => 1
termination_by structural v => v

def costAll : List Value → Nat
  | [] => 0
  | v :: vs => cost v + costAll vs
termination_by structural vs => vs

/-- The cost of entries, each with a text for its key. -/
def costUnder : List (Value × Value) → Nat
  | [] => 0
  | (_, v) :: entries => 1 + cost v + costUnder entries
termination_by structural entries => entries

end

end Value

namespace Marshaller.OnHeap

variable {m : Marshaller Heap} (h : m.OnHeap) {room n k : Nat}

include h

theorem costs_ask (request : Request) (hanswer : Costs Refusal.Unpaid (Heap.answer request) n) :
    Costs Failure.Unpaid (m.store.ask request) n := by
  rw [h.store]
  exact hanswer.ask

theorem costs_withReference {α : Type} {acquire : Action Heap Handle}
    {body : Handle → Action Heap α} (hacquire : Costs Failure.Unpaid acquire n)
    (hbody : ∀ handle, Costs Failure.Unpaid (body handle) k) :
    Costs Failure.Unpaid (m.store.withReference acquire body) (n + k) := by
  rw [h.store]
  exact hacquire.withReference hbody

/-! ## Elements -/

theorem costs_items {items : List Value} (array : Handle)
    (hitems : ∀ item ∈ items, Costs Failure.Unpaid (m.lowerWithin room item) item.cost) :
    Costs Failure.Unpaid (m.appendAll room array items) (Value.costAll items) := by
  induction items with
  | nil => exact costs_pure ()
  | cons item items ih =>
      rw [List.forall_mem_cons] at hitems
      have hitem := h.costs_withReference hitems.1 fun handle =>
        h.costs_ask (.append array handle) (Heap.costs_append array handle)
      exact hitem.bind fun _ => ih hitems.2

theorem costs_members {members : List Value} (set : Handle)
    (hmembers : ∀ member ∈ members, Costs Failure.Unpaid (m.lowerWithin room member) member.cost) :
    Costs Failure.Unpaid (m.addAll room set members) (Value.costAll members) := by
  induction members with
  | nil => exact costs_pure ()
  | cons member members ih =>
      rw [List.forall_mem_cons] at hmembers
      have hmember := h.costs_withReference hmembers.1 fun handle =>
        h.costs_ask (.addMember set handle) (Heap.costs_addMember set handle)
      exact hmember.bind fun _ => ih hmembers.2

theorem costs_entries {entries : List (Value × Value)} {keys : List String} (dictionary : Handle)
    (hkeys : keyTexts entries = .ok keys)
    (hvalues : ∀ entry ∈ entries, Costs Failure.Unpaid (m.lowerWithin room entry.2) entry.2.cost) :
    Costs Failure.Unpaid (m.putAll room dictionary keys entries) (Value.costUnder entries) := by
  induction entries generalizing keys with
  | nil => cases keys <;> exact costs_pure ()
  | cons entry entries ih =>
      rw [List.forall_mem_cons] at hvalues
      obtain ⟨key, rest, -, hrest, rfl⟩ := keyTexts_cons.mp hkeys
      have hkey : Costs Failure.Unpaid (m.store.lowerText key false) 1 :=
        h.costs_ask _ (Heap.costs_allocate _)
      have hentry := h.costs_withReference hkey fun keyHandle =>
        h.costs_withReference hvalues.1 fun valueHandle =>
          h.costs_ask (.putEntry dictionary keyHandle valueHandle)
            (Heap.costs_putEntry dictionary keyHandle valueHandle)
      exact hentry.bind fun _ => ih hrest hvalues.2

/-! ## Values -/

/-- A container costs one object when it is staged and another when it is sealed. -/
theorem costs_sealed {β : Type} {kind : Container} {checked : β}
    {fill : Nat → β → Handle → Action Heap Unit}
    (hfill : ∀ handle, Costs Failure.Unpaid (fill room checked handle) n) :
    Costs Failure.Unpaid (m.sealed kind (m.stage kind (room + 1) (.ok checked) fill)) (2 + n) := by
  have hcreate : Costs Failure.Unpaid (m.store.ask (.create kind)) 1 :=
    h.costs_ask _ (Heap.costs_allocate _)
  have hstage : Costs Failure.Unpaid (m.stage kind (room + 1) (.ok checked) fill) (1 + n) := by
    unfold stage
    rw [h.store] at hcreate ⊢
    exact hcreate.building hfill
  have hseal := h.costs_withReference hstage fun handle =>
    h.costs_ask (.copy kind handle) (Heap.costs_copy kind handle)
  exact hseal.of_eq (by omega)

theorem costs_scalar {v : Value} (hv : v.scalar?.isSome) :
    Costs Failure.Unpaid (m.lowerWithin room v) v.cost := by
  cases v with
  | bool b => exact costs_pure _
  | int | float | complex | text | bytes => exact h.costs_ask _ (Heap.costs_allocate _)
  | _ => exact nomatch hv

/-- Lowering a value that can be stored costs what the value costs. -/
theorem costs_within {v : Value} (hv : v.Convertible room) :
    Costs Failure.Unpaid (m.lowerWithin room v) v.cost := by
  induction hv with
  | scalar hv => exact h.costs_scalar hv
  | list _ ih => exact h.costs_sealed fun array => h.costs_items array ih
  | dict hkeys _ ih =>
      obtain ⟨keys, hok⟩ := exists_keyTexts.mpr hkeys
      rw [lowerWithin, hok]
      exact h.costs_sealed fun dictionary => h.costs_entries dictionary hok ih
  | set hmembers =>
      rw [lowerWithin, checkMembers_of_scalars hmembers]
      refine h.costs_sealed fun set => h.costs_members set fun member hmember => ?_
      exact h.costs_scalar (hmembers member hmember)

end Marshaller.OnHeap

/-! ## Budgets -/

namespace Heap

variable {heap start : Heap} {v : Value} {limits : Limits} {registry : Registry Heap}

/-- With a budget of `n`, a value without domain objects is lowered if and only if it can be
stored and costs no more than `n`.  If it can be stored, as many objects are created as
the budget and the cost allow, and a failure passes on the refusal for want of budget.
Without a budget whatever can be stored is lowered. -/
theorem Reachable.lower_iff_affordable (hheap : heap.Reachable) (hstart : start.Reachable)
    (hv : v.objectFree) (n : Nat) :
    let lower := (Marshaller.make Heap.store start registry limits).lower v
    ((∃ handle heap', lower (heap.setBudget (some n)) = .ok handle heap') ↔
      v.Convertible limits.maxDepth ∧ v.cost ≤ n) ∧
    (v.Convertible limits.maxDepth → Ends lower (heap.setBudget (some n))
      (fun _ heap' => heap.Drawn n v.cost heap')
      fun failure heap' => heap.Drawn n v.cost heap' ∧ failure.kind = .runtime ∧
        ∃ name, failure.source = some (.allocationFailed name)) ∧
    ((∃ handle heap', lower (heap.setBudget none) = .ok handle heap') ↔
      v.Convertible limits.maxDepth) := by
  intro lower
  let plain := Marshaller.make Heap.store start {} limits
  have hplain : plain.Plain := hstart.plain limits
  have hsame : lower = plain.lower v := Marshaller.lower_of_objectFree hv
  -- what can be stored fails for want of budget only
  have hdelivers : v.Convertible limits.maxDepth →
      Ends lower (heap.setBudget (some n)) (fun _ _ => True) fun failure _ => failure.Unpaid := by
    intro hx
    rw [hsame]
    have hpos : (heap.setBudget (some n)).Positive := hheap.positive.congr rfl
    have hends := hx.ends hplain hpos
    exact hends.mono (fun _ _ _ => trivial) fun _ _ hshort => hshort.2
  -- and the cost tells whether it fails
  have hdrawn : v.Convertible limits.maxDepth → Ends lower (heap.setBudget (some n))
      (fun _ heap' => v.cost ≤ n ∧ heap.Drawn n v.cost heap')
      fun failure heap' => n < v.cost ∧ heap.Drawn n v.cost heap' ∧ failure.Unpaid := by
    intro hx
    have hcosts : Costs Failure.Unpaid lower v.cost := hsame ▸ hplain.costs_within hx
    refine ((hcosts.with_budget heap n).and (hdelivers hx)).mono
      (fun _ _ hgood => hgood.1) fun failure heap' hbad => ?_
    obtain ⟨hspent, hunpaid⟩ := hbad
    obtain ⟨hless, hleft⟩ := hspent hunpaid
    exact ⟨hless, hleft, hunpaid⟩
  refine ⟨⟨?_, ?_⟩, fun hx => ?_, ?_⟩
  · rintro ⟨handle, heap', hrun⟩
    have hrun' : plain.lower v (heap.setBudget (some n)) = .ok handle heap' := hsame ▸ hrun
    have hx := (Marshaller.tells_within hplain.registry limits.maxDepth v _).of_ok hrun'
    exact ⟨hx, ((hdrawn hx).of_ok hrun).1⟩
  · rintro ⟨hx, hcost⟩
    cases hrun : lower (heap.setBudget (some n)) with
    | ok handle heap' => exact ⟨handle, heap', rfl⟩
    | error failure heap' =>
        have hless := ((hdrawn hx).of_error hrun).1
        omega
  · refine (hdrawn hx).mono (fun _ _ hgood => hgood.2) fun failure heap' hbad => ?_
    obtain ⟨-, hleft, name, rfl⟩ := hbad
    exact ⟨hleft, rfl, name, rfl⟩
  · rw [hsame]
    exact hplain.lower_iff (hheap.positive.congr rfl) fun _ _ _ hshort => hshort.1 rfl

/-- A dictionary that has an entry twice costs six objects, although one entry is left.
With five the last one, the sealed dictionary, is missing. -/
theorem Reachable.lower_iff_affordable_of_repeated_key :
    let v : Value := .dict [(.text "k", .text "v"), (.text "k", .text "v")]
    let m : Marshaller Heap := .make Heap.store {} {} {}
    v.cost = 6 ∧
      (∃ handle heap', m.lower v (Heap.setBudget {} (some 6)) = .ok handle heap') ∧
      ¬ ∃ handle heap', m.lower v (Heap.setBudget {} (some 5)) = .ok handle heap' := by
  intro v m
  have hx : v.Convertible 256 := by
    refine .dict (fun entry hentry => ?_) fun entry hentry => ?_
    · obtain rfl | rfl := List.mem_pair.mp hentry <;> exact ⟨"k", rfl⟩
    · obtain rfl | rfl := List.mem_pair.mp hentry <;> exact .scalar rfl
  have hcost : v.cost = 6 := rfl
  refine ⟨hcost, ?_, fun hok => ?_⟩
  · exact (Reachable.lower_iff_affordable .fresh .fresh rfl 6).1.mpr ⟨hx, hcost.le⟩
  · have hfive := ((Reachable.lower_iff_affordable .fresh .fresh rfl 5).1.mp hok).2
    omega

end Heap

end Marshal
