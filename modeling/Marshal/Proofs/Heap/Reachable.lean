import Marshal.Proofs.Heap.Tally
import Marshal.Proofs.Heap.Operations
import Marshal.Store.Recording

/-!
# What a heap can become

An `Operation` is anything that is done to a heap from outside, and a heap is
reachable when operations lead to it from a fresh one.  Nobody is held to any
rule here: references may be released that nobody has, so that the objects of a
reachable heap may well hold what is gone.

What such operations cannot break is what no elementary change of a heap breaks
(`Stable`).  `Stable.perform` carries it through every operation.
-/

namespace Marshal

/-- The references that an answer gives to whoever asked. -/
def Request.granted : (request : Request) → request.Answer → List Handle
  | .retain handle, _ => [handle]
  | request, answer => (request.newHandle? answer).toList

/-- What can be done to a heap. -/
inductive Operation where
  | ask (request : Request)
  | release (handle : Handle)
  | createUnreadable (layout : UInt8)
  | registerType (name : String)
  | setBudget (budget : Option Nat)
  /-- Logs something that is not about a release. -/
  | log (notice : Notice) (harmless : notice ≠ .deadRelease)

namespace Operation

/-- The references granted by an attempt, and the heap after it. -/
def attempted {α : Type} (granted : α → List Handle) (attempt : Heap.Attempt α) (heap : Heap) :
    List Handle × Heap :=
  match attempt heap with
  | .ok a heap => (granted a, heap)
  | .error _ heap => ([], heap)

/-- The references that an operation grants, and the heap after it. -/
def perform : Operation → Heap → List Handle × Heap
  | .ask request, heap => attempted request.granted (Heap.answer request) heap
  | .release handle, heap => ([], heap.release handle)
  | .createUnreadable layout, heap =>
    attempted (fun handle => [handle]) (Heap.createUnreadable layout) heap
  | .registerType name, heap => ([], (heap.registerType name).2)
  | .setBudget budget, heap => ([], heap.setBudget budget)
  | .log notice _, heap => ([], heap.note notice)

theorem attempted_of_ends {α : Type} {granted : α → List Handle} {attempt : Heap.Attempt α}
    {Q : List Handle → Heap → Prop}
    (h : Ends attempt heap (fun a => Q (granted a)) fun _ => Q []) :
    Q (attempted granted attempt heap).1 (attempted granted attempt heap).2 := by
  unfold attempted
  cases hrun : attempt heap with
  | ok a heap' => exact h.of_ok hrun
  | error refusal heap' => exact h.of_error hrun

end Operation

namespace Heap

/-- The heaps that operations lead to from a fresh one. -/
inductive Reachable : Heap → Prop
  | fresh : Reachable {}
  | step {heap : Heap} (operation : Operation) : Reachable heap →
      Reachable (operation.perform heap).2

variable {heap : Heap} {P : Heap → Prop}

/-! ## What no elementary change breaks -/

/-- A property of heaps that the changes keep of which operations consist. -/
structure Stable (P : Heap → Prop) : Prop where
  retained : ∀ heap handle, P heap → P (heap.retained handle)
  pushed : ∀ heap o, P heap → o.count = 1 → P (heap.pushed o)
  altered : ∀ heap handle f, P heap → P (heap.alter handle f)
  dropped : ∀ heap handle, P heap → P (heap.dropOne handle).1

namespace Stable

theorem releaseAll (hP : Stable P) {pending : List Handle} (h : P heap) :
    P (heap.releaseAll pending) := by
  fun_induction Heap.releaseAll pending heap with
  | case1 heap => exact h
  | case2 heap handle pending ih => exact ih (hP.dropped heap handle h)

theorem release (hP : Stable P) (handle : Handle) (h : P heap) : P (heap.release handle) :=
  hP.releaseAll h

theorem refilled (hP : Stable P) (handle : Handle) (content : Content) (h : P heap) :
    P (heap.refilled handle content) := hP.altered heap handle _ h

theorem ends_allocate (hP : Stable P) {o : Object} (hcount : o.count = 1) (h : P heap) :
    Ends (allocate o) heap (fun _ => P) fun _ => P :=
  Heap.ends_allocate (hP.pushed heap o h hcount) fun _ _ => h

theorem ends_retainAll (hP : Stable P) {handles : List Handle} (h : P heap) :
    Ends (retainAll handles) heap (fun _ => P) fun _ => P := by
  induction handles generalizing heap with
  | nil => exact ends_pure h
  | cons first rest ih =>
      exact ends_bind (ends_retain (fun _ => ih (hP.retained heap first h)) fun _ _ => h)

/-- A creation that is refused in the end may leave an object behind, but it
breaks nothing. -/
theorem ends_collect (hP : Stable P) {o : Object} (hcount : o.count = 1) (h : P heap) :
    Ends (collect o) heap (fun _ => P) fun _ => P := by
  refine ends_bind ((hP.ends_allocate hcount h).mono (fun handle heap' h' => ?_) fun _ _ => id)
  exact ends_bind ((hP.ends_retainAll h').mono (fun _ _ h'' => ends_pure h'') fun _ _ => id)

/-- No request breaks what is stable, whether it is refused or not. -/
theorem ends_answer (hP : Stable P) (h : P heap) (request : Request) :
    Ends (answer request) heap (fun _ => P) fun _ => P := by
  cases request with
  | retain handle => exact ends_retain (fun _ => hP.retained heap handle h) fun _ _ => h
  | createText | createNumber | createData | create => exact hP.ends_allocate rfl h
  | copy kind handle =>
      refine ends_bind (ends_reading (fun content _ => ?_) fun _ _ => h)
      exact hP.ends_collect rfl h
  | members set =>
      refine ends_bind (ends_reading (fun members _ => ?_) fun _ _ => h)
      exact hP.ends_collect rfl h
  | createCustom type bytes =>
      refine ends_bind (ends_reading (fun _ _ => ?_) fun _ _ => h)
      exact hP.ends_allocate rfl h
  | append array item =>
      exact ends_append (fun _ _ _ _ _ => hP.refilled _ _ (hP.retained _ _ h)) fun _ _ => h
  | addMember set member =>
      exact ends_addMember (fun _ _ _ _ _ _ => h)
        (fun _ _ _ _ _ _ _ _ => hP.refilled _ _ (hP.retained _ _ h)) fun _ _ => h
  | putEntry dictionary key value =>
      refine ends_putEntry (fun _ _ _ _ _ _ _ _ _ => ?_) (fun _ _ _ _ _ _ _ _ _ _ _ _ => ?_)
        fun _ _ => h
      · exact hP.refilled _ _ (hP.retained _ _ (hP.retained _ _ h))
      · exact hP.release _ (hP.refilled _ _ (hP.retained _ _ h))
  | appendIndex | addIndex | addPair =>
      exact ends_change (fun _ _ _ _ _ => hP.refilled _ _ h) fun _ _ => h
  | typeOf | textBytes | readNumber | readBoolean | dataBytes | count | itemAt | entries | indexAt
  | firstIndex | lastIndex | pairAt | customBytes =>
      exact ends_reading (fun _ _ => h) fun _ _ => h

end Stable

/-! ## Examples of what is stable -/

theorem stable_of_set (hset : ∀ heap handle x, P heap → P (heap.set handle x))
    (hnote : ∀ heap, P heap → P (heap.note .deadRelease))
    (hpushed : ∀ heap o, P heap → P (heap.pushed o))
    (haltered : ∀ heap handle f, P heap → P (heap.alter handle f)) : Stable P where
  retained heap handle h := by
    unfold Heap.retained
    split
    · exact hset heap handle _ h
    · exact h
  pushed heap o h _ := hpushed heap o h
  altered := haltered
  dropped heap handle h := by
    refine dropOne_cases (P := fun result => P result.1) ?_ ?_ ?_ ?_
    · exact fun _ _ => h
    · exact fun _ => hnote heap h
    · exact fun index _ _ _ _ => hset heap (.object index) none h
    · exact fun index _ _ _ _ => hset heap (.object index) _ h

theorem stable_size (n : Nat) : Stable fun heap => n ≤ heap.slots.size :=
  stable_of_set (fun _ _ _ h => by rwa [size_set]) (fun _ h => h)
    (fun _ _ h => by rw [size_pushed]; exact Nat.le_succ_of_le h)
    fun _ _ _ h => by rwa [size_alter]

/-- A budget that is not limited does not become so by itself. -/
theorem stable_unlimited : Stable fun heap => heap.budget = none :=
  stable_of_set (fun _ _ _ h => by rwa [budget_set]) (fun _ h => h)
    (fun heap _ h => by rw [pushed, h]; rfl) fun _ _ _ h => by rwa [budget_alter]

theorem Positive.set {index : Nat} {x : Option Object} (h : heap.Positive)
    (hx : ∀ o, x = some o → 0 < o.count) : (heap.set (.object index) x).Positive := by
  intro handle count hcount
  by_cases heq : handle = .object index
  · subst heq
    obtain ⟨o, ho, rfl⟩ := Option.map_eq_some_iff.mp hcount
    by_cases hlt : index < heap.slots.size
    · exact hx o ((get?_set_self x hlt).symm.trans ho)
    · rw [get?_of_size_le (by rw [size_set]; omega)] at ho
      exact nomatch ho
  · rw [count?_set_of_ne x heq] at hcount
    exact h handle count hcount

/-- An object whose last reference goes is gone, so no count ever falls to zero. -/
theorem stable_positive : Stable Positive where
  retained heap handle h := by
    unfold Heap.retained
    split
    · next o ho =>
      cases handle with
      | boolean b => exact h
      | outside address => exact h
      | object index => exact h.set fun o' ho' => Option.some.inj ho' ▸ Nat.succ_pos _
    · exact h
  pushed heap o h hcount := (Tallies.pushed h.tallies hcount).positive
  altered heap handle f h := by
    intro other count hother
    rw [count?_alter] at hother
    exact h other count hother
  dropped heap handle h := by
    refine dropOne_cases (P := fun result => result.1.Positive) ?_ ?_ ?_ ?_
    · exact fun _ _ => h
    · exact fun _ => h
    · intro index o _ _ _
      exact h.set fun o' ho' => nomatch ho'
    · intro index o _ _ hcount
      refine h.set fun o' ho' => ?_
      obtain rfl := Option.some.inj ho'
      show 0 < o.count - 1
      omega

/-! ## Reachable heaps -/

/-- What an operation does to the objects is what requests and releases do. -/
theorem Stable.perform (hP : Stable P)
    (hregister : ∀ heap name, P heap → P (heap.registerType name).2)
    (hbudget : ∀ heap budget, P heap → P (heap.setBudget budget))
    (hnote : ∀ heap notice, P heap → P (heap.note notice))
    (operation : Operation) (h : P heap) : P (operation.perform heap).2 := by
  cases operation with
  | ask request => exact Operation.attempted_of_ends (Q := fun _ => P) (hP.ends_answer h request)
  | release handle => exact hP.release handle h
  | createUnreadable layout =>
      exact Operation.attempted_of_ends (Q := fun _ => P) (hP.ends_allocate rfl h)
  | registerType name => exact hregister heap name h
  | setBudget budget => exact hbudget heap budget h
  | log notice harmless => exact hnote heap notice h

/-- What is seen of objects depends on the slots only. -/
theorem Positive.congr {heap' : Heap} (h : heap.Positive) (hslots : heap'.slots = heap.slots) :
    heap'.Positive := by
  intro handle count hcount
  refine h handle count ?_
  rw [← hcount]
  cases handle <;> simp [count?, get?, hslots]

theorem Reachable.positive (h : heap.Reachable) : heap.Positive := by
  induction h with
  | fresh =>
      intro handle count hcount
      cases handle <;> simp [count?, get?, Object.boolean] at hcount
      omega
  | step operation _ ih =>
      refine stable_positive.perform (fun heap name h => h.congr ?_) (fun _ _ h => h.congr rfl)
        (fun _ _ h => h.congr rfl) operation ih
      unfold registerType
      split <;> rfl

end Heap

end Marshal
