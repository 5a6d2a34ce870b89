import Marshal.Proofs.Heap.Grounded
import Marshal.Proofs.Heap.Operations

/-!
# What computations on a heap cost

A heap pays for each object that it creates with one unit of its budget, and the only
refusal that tells of the budget is the one for want of it.  `Heap.Paid n heap heap'`
says that `n` objects were created and paid for.

`Costs unpaid x n` says this of every run of a computation: one that answers pays for
`n` objects, and one that fails for want of budget (`unpaid`) paid for fewer and has
nothing left.  So whether the budget is enough is decided by `n` alone.  Runs that fail
for another reason are of no account here.

Creating an object costs one, whatever it holds, and all other requests are for free.
Costs of parts add up, and a release gives nothing back.
-/

namespace Marshal

variable {ε α β : Type} {n k : Nat}

/-- The refusal is for want of budget. -/
def Refusal.Unpaid (refusal : Refusal) : Prop := ∃ name, refusal = .allocationFailed name

/-- The failure passes on a refusal for want of budget. -/
def Failure.Unpaid (failure : Failure) : Prop := ∃ name, failure = .refused (.allocationFailed name)

/-- `n` objects were created and paid for. -/
structure Heap.Paid (n : Nat) (heap heap' : Heap) : Prop where
  size_eq : heap'.slots.size = heap.slots.size + n
  budget_eq : heap.budget = heap'.budget.map (· + n)

/-- Fewer than `n` objects were created and paid for, and nothing is left to pay with. -/
def Heap.Exhausted (n : Nat) (heap heap' : Heap) : Prop :=
  ∃ k < n, heap.Paid k heap' ∧ heap'.budget = some 0

namespace Heap

variable {heap heap' heap'' : Heap}

/-! ## Budgets -/

theorem Paid.of_same (hsize : heap'.slots.size = heap.slots.size)
    (hbudget : heap'.budget = heap.budget) : Paid 0 heap heap' where
  size_eq := hsize
  budget_eq := by
    rw [hbudget]
    cases heap.budget <;> rfl

theorem Paid.trans (h : Paid n heap heap') (h' : Paid k heap' heap'') :
    Paid (n + k) heap heap'' where
  size_eq := by rw [h'.size_eq, h.size_eq, Nat.add_assoc]
  budget_eq := by
    rw [h.budget_eq, h'.budget_eq, Option.map_map]
    congr 1
    funext left
    simp only [Function.comp_apply]
    omega

theorem budget_dropOne (heap : Heap) (handle : Handle) :
    (heap.dropOne handle).1.budget = heap.budget := by
  apply dropOne_cases (P := fun result => result.1.budget = heap.budget)
  · exact fun _ _ => rfl
  · exact fun _ => rfl
  · exact fun _ _ _ _ _ => budget_set _
  · exact fun _ _ _ _ _ => budget_set _

theorem budget_releaseAll (pending : List Handle) (heap : Heap) :
    (heap.releaseAll pending).budget = heap.budget := by
  fun_induction Heap.releaseAll pending heap with
  | case1 heap => rfl
  | case2 heap handle pending ih => rw [ih, budget_dropOne]

/-- What is freed is not paid back. -/
theorem paid_release (handle : Handle) (heap : Heap) : Paid 0 heap (heap.release handle) :=
  .of_same (leaves_release handle heap).size_eq (budget_releaseAll [handle] heap)

/-- Want of budget at first is want of budget for the whole. -/
theorem Exhausted.mono (h : Exhausted n heap heap') (hle : n ≤ k) : Exhausted k heap heap' := by
  obtain ⟨total, hless, hpaid⟩ := h
  exact ⟨total, hless.trans_le hle, hpaid⟩

/-- What was paid before counts towards the whole. -/
theorem Exhausted.after (h : Exhausted n heap' heap'') (hpaid : Paid k heap heap') :
    Exhausted (k + n) heap heap'' := by
  obtain ⟨total, hless, hpaid', hspent⟩ := h
  exact ⟨k + total, Nat.add_lt_add_left hless k, hpaid.trans hpaid', hspent⟩

theorem Exhausted.release (h : Exhausted n heap heap') (handle : Handle) :
    Exhausted n heap (heap'.release handle) := by
  obtain ⟨total, hless, hpaid, hspent⟩ := h
  have hbudget : (heap'.release handle).budget = heap'.budget := budget_releaseAll [handle] heap'
  exact ⟨total, hless, hpaid.trans (paid_release handle heap'), hbudget.trans hspent⟩

/-- The new object took one unit, so there was one. -/
theorem paid_pushed {o : Object} (hbudget : heap.budget ≠ some 0) :
    Paid 1 heap (heap.pushed o) where
  size_eq := size_pushed
  budget_eq := by
    rw [pushed]
    cases hleft : heap.budget with
    | none => rfl
    | some left =>
        cases left with
        | zero => exact absurd hleft hbudget
        | succ left => rfl

end Heap

/-! ## Computations -/

/-- Whoever gets an answer paid for `n` objects, and whoever is short of budget paid for
fewer and spent all of it. -/
def Costs (unpaid : ε → Prop) (x : EStateM ε Heap α) (n : Nat) : Prop := ∀ heap,
  Ends x heap (fun _ => heap.Paid n) fun e heap' => unpaid e → heap.Exhausted n heap'

section Rules

variable {unpaid : ε → Prop} {x : EStateM ε Heap α}

theorem Costs.of_eq (h : Costs unpaid x n) (heq : n = k) : Costs unpaid x k := heq ▸ h

theorem costs_pure (a : α) : Costs unpaid (pure a : EStateM ε Heap α) 0 := fun _ =>
  ends_pure (.of_same rfl rfl)

theorem costs_get : Costs unpaid (get : EStateM ε Heap Heap) 0 := fun _ =>
  ends_get (.of_same rfl rfl)

theorem costs_modify {f : Heap → Heap} (h : ∀ heap : Heap, heap.Paid 0 (f heap)) :
    Costs unpaid (modify f : EStateM ε Heap Unit) 0 := fun heap => ends_modify (h heap)

theorem Costs.bind {f : α → EStateM ε Heap β} (hx : Costs unpaid x n)
    (hf : ∀ a, Costs unpaid (f a) k) : Costs unpaid (x >>= f) (n + k) := by
  intro heap
  refine ends_bind ((hx heap).mono (fun a heap' hpaid => ?_) fun e heap' hbad hunpaid => ?_)
  · exact (hf a heap').mono (fun _ _ => hpaid.trans) fun _ _ hbad hunpaid =>
      (hbad hunpaid).after hpaid
  · exact (hbad hunpaid).mono (Nat.le_add_right n k)

/-- `heap'` is what is left of `heap` with a budget of `n` when as much of `k` was paid as
the budget allows. -/
def Heap.Drawn (heap : Heap) (n k : Nat) (heap' : Heap) : Prop :=
  heap'.allocations = heap.allocations + min n k ∧ heap'.budget = some (n - min n k)

/-- What was paid was taken from the budget. -/
theorem Heap.Paid.budget_left {heap heap' : Heap}
    (h : (heap.setBudget (some n)).Paid k heap') : k ≤ n ∧ heap'.budget = some (n - k) := by
  have hbudget : some n = heap'.budget.map (· + k) := h.budget_eq
  cases hleft : heap'.budget with
  | none =>
      rw [hleft] at hbudget
      exact nomatch hbudget
  | some left =>
      rw [hleft] at hbudget
      have heq : n = left + k := Option.some.inj hbudget
      exact ⟨by omega, by rw [heq, Nat.add_sub_cancel]⟩

/-- With a budget of `n`, an answer means that this was enough, and want of budget that it
was not. -/
theorem Costs.with_budget (h : Costs unpaid x k) (heap : Heap) (n : Nat) :
    Ends x (heap.setBudget (some n)) (fun _ heap' => k ≤ n ∧ heap.Drawn n k heap')
      fun e heap' => unpaid e → n < k ∧ heap.Drawn n k heap' := by
  refine (h (heap.setBudget (some n))).mono (fun _ heap' hpaid => ?_)
    fun e heap' hbad hunpaid => ?_
  · obtain ⟨hle, hleft⟩ := hpaid.budget_left
    rw [Heap.Drawn, Nat.min_eq_right hle]
    exact ⟨hle, hpaid.size_eq, hleft⟩
  · obtain ⟨total, hless, hpaid, hspent⟩ := hbad hunpaid
    obtain ⟨hle, hleft⟩ := hpaid.budget_left
    have hall : n - total = 0 := Option.some.inj (hleft.symm.trans hspent)
    obtain rfl : total = n := by omega
    rw [Heap.Drawn, Nat.min_eq_left hless.le]
    exact ⟨hless, hpaid.size_eq, hleft⟩

/-- What is for free adds nothing. -/
theorem Costs.bind_free {f : α → EStateM ε Heap β} (hx : Costs unpaid x 0)
    (hf : ∀ a, Costs unpaid (f a) n) : Costs unpaid (x >>= f) n :=
  (hx.bind hf).of_eq (Nat.zero_add n)

end Rules

section References

variable {acquire : Action Heap Handle}

/-- A failure passes on whatever the request was refused for. -/
theorem Costs.ask {request : Request} (h : Costs Refusal.Unpaid (Heap.answer request) n) :
    Costs Failure.Unpaid (Heap.store.ask request) n := by
  intro heap
  refine ends_ask ((h heap).mono (fun _ _ => id) fun refusal heap' hbad hunpaid => hbad ?_)
  obtain ⟨name, hfailure⟩ := hunpaid
  exact ⟨name, Failure.refused.inj hfailure⟩

theorem Costs.withReference {body : Handle → Action Heap α}
    (hacquire : Costs Failure.Unpaid acquire n)
    (hbody : ∀ handle, Costs Failure.Unpaid (body handle) k) :
    Costs Failure.Unpaid (Heap.store.withReference acquire body) (n + k) := by
  intro heap
  refine ends_withReference ((hacquire heap).mono (fun handle heap' hpaid => ?_)
    fun failure heap' hbad hunpaid => (hbad hunpaid).mono (Nat.le_add_right n k))
  refine (hbody handle heap').mono (fun _ heap'' hpaid' => ?_) fun failure heap'' hbad hunpaid => ?_
  · exact (hpaid.trans hpaid').trans (Heap.paid_release handle heap'')
  · exact ((hbad hunpaid).after hpaid).release handle

theorem Costs.building {fill : Handle → Action Heap Unit}
    (hacquire : Costs Failure.Unpaid acquire n)
    (hfill : ∀ handle, Costs Failure.Unpaid (fill handle) k) :
    Costs Failure.Unpaid (Heap.store.building acquire fill) (n + k) := by
  intro heap
  refine ends_building ((hacquire heap).mono (fun handle heap' hpaid => ?_)
    fun failure heap' hbad hunpaid => (hbad hunpaid).mono (Nat.le_add_right n k))
  refine (hfill handle heap').mono (fun _ _ => hpaid.trans) fun failure heap'' hbad hunpaid => ?_
  exact ((hbad hunpaid).after hpaid).release handle

end References

namespace Heap

variable {heap : Heap} {handle : Handle} {kind : Container} {refusal : Refusal}

/-! ## Looking -/

theorem look_paid (h : heap.look handle = .error refusal) : ¬ refusal.Unpaid := by
  rintro ⟨name, rfl⟩
  unfold look at h
  split at h <;> exact nomatch h

theorem expect_paid {expected : String} {part : Content → Option α}
    (h : heap.expect expected part handle = .error refusal) : ¬ refusal.Unpaid := by
  rintro ⟨name, rfl⟩
  unfold expect at h
  split at h
  · exact nomatch h
  · split at h <;> exact nomatch h

theorem expectMutable_paid (h : heap.expectMutable kind handle = .error refusal) :
    ¬ refusal.Unpaid := by
  rintro ⟨name, rfl⟩
  unfold expectMutable at h
  dsimp only at h
  split at h
  · exact nomatch h
  · split at h
    · exact nomatch h
    · split at h <;> exact nomatch h

theorem costs_reading {f : Heap → Except Refusal α}
    (h : ∀ heap refusal, f heap = .error refusal → ¬ refusal.Unpaid) :
    Costs Refusal.Unpaid (reading f) 0 := fun heap =>
  ends_reading (fun _ _ => .of_same rfl rfl) fun refusal herror hunpaid =>
    absurd hunpaid (h heap refusal herror)

/-! ## Counting and changing -/

theorem costs_retain (handle : Handle) : Costs Refusal.Unpaid (retain handle) 0 := by
  intro heap
  by_cases hlive : heap.Live handle
  · exact ends_of_ok (retain_of_live hlive) (.of_same size_retained budget_retained)
  · have hnone : heap.get? handle = none := Option.not_isSome_iff_eq_none.mp hlive
    have hrun : retain handle heap = .error .invalidHandle heap := by simp only [retain, hnone]
    refine ends_of_error hrun ?_
    rintro ⟨name, hname⟩
    cases hname

theorem costs_retainAll (handles : List Handle) : Costs Refusal.Unpaid (retainAll handles) 0 := by
  induction handles with
  | nil => exact costs_pure ()
  | cons first rest ih => exact (costs_retain first).bind_free fun _ => ih

theorem costs_alter (handle : Handle) (f : Content → Content) :
    Costs Refusal.Unpaid (modify fun heap => heap.alter handle f) 0 :=
  costs_modify fun _ => .of_same (size_alter _) (budget_alter _)

/-! ## Requests -/

theorem costs_allocate (o : Object) : Costs Refusal.Unpaid (allocate o) 1 := by
  intro heap
  by_cases hbudget : heap.budget = some 0
  · have hrun : allocate o heap = .error (.allocationFailed o.creationName) heap := by
      rw [allocate_eq, if_pos hbudget]
    exact ends_of_error hrun fun _ => ⟨0, Nat.zero_lt_one, .of_same rfl rfl, hbudget⟩
  · have hrun : allocate o heap = .ok (.object heap.slots.size) (heap.pushed o) := by
      rw [allocate_eq, if_neg hbudget]
    exact ends_of_ok hrun (paid_pushed hbudget)

/-- A copy costs what an object does, however much it holds. -/
theorem costs_copy (kind : Container) (handle : Handle) :
    Costs Refusal.Unpaid (copy kind handle) 1 := by
  have hread : Costs Refusal.Unpaid (reading fun heap => heap.containerOf kind handle) 0 :=
    costs_reading fun _ _ => expect_paid
  refine hread.bind_free fun content => ?_
  exact (costs_allocate _).bind fun new =>
    (costs_retainAll _).bind_free fun _ => costs_pure new

theorem costs_append (array item : Handle) : Costs Refusal.Unpaid (append array item) 0 := by
  have hread : Costs Refusal.Unpaid (reading fun heap => heap.expectMutable .array array) 0 :=
    costs_reading fun _ _ => expectMutable_paid
  exact hread.bind_free fun _ => (costs_retain item).bind_free fun _ => costs_alter array _

theorem costs_addMember (set member : Handle) : Costs Refusal.Unpaid (addMember set member) 0 := by
  have hread : Costs Refusal.Unpaid (reading fun heap => heap.expectMutable .valueSet set) 0 :=
    costs_reading fun _ _ => expectMutable_paid
  have hlook : Costs Refusal.Unpaid (reading fun heap => heap.look member) 0 :=
    costs_reading fun _ _ => look_paid
  have hmembers : Costs Refusal.Unpaid (reading fun heap => heap.membersOf set) 0 :=
    costs_reading fun _ _ => expect_paid
  refine hread.bind_free fun _ => hlook.bind_free fun o => hmembers.bind_free fun members =>
    costs_get.bind_free fun heap => ?_
  split
  · exact costs_pure ()
  · exact (costs_retain member).bind_free fun _ => costs_alter set _

theorem costs_putEntry (dictionary key value : Handle) :
    Costs Refusal.Unpaid (putEntry dictionary key value) 0 := by
  have hread :
      Costs Refusal.Unpaid (reading fun heap => heap.expectMutable .dictionary dictionary) 0 :=
    costs_reading fun _ _ => expectMutable_paid
  have htext : Costs Refusal.Unpaid (reading fun heap => heap.textOf key) 0 :=
    costs_reading fun _ _ => expect_paid
  have hlook : Costs Refusal.Unpaid (reading fun heap => heap.look value) 0 :=
    costs_reading fun _ _ => look_paid
  have hentries : Costs Refusal.Unpaid (reading fun heap => heap.entriesOf dictionary) 0 :=
    costs_reading fun _ _ => expect_paid
  refine hread.bind_free fun _ => htext.bind_free fun text => hlook.bind_free fun _ =>
    hentries.bind_free fun entries => costs_get.bind_free fun heap =>
      (costs_retain value).bind_free fun _ => ?_
  split
  · exact (costs_retain key).bind_free fun _ => costs_alter dictionary _
  · refine (costs_alter dictionary _).bind_free fun _ => ?_
    split
    · exact costs_modify fun heap => paid_release _ heap
    · exact costs_pure ()

end Heap

end Marshal
