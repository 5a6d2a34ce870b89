import Marshal.Proofs.Heap.Reachable
import Marshal.Proofs.Outcome

/-!
# Stores in front of a heap

A store is in front of a heap when it passes every request on to the heap that is
seen in its state, or refuses it and leaves what is seen alone (`Store.Fronts`).
The heap itself is such a store.  So is one that refuses requests of its own
accord, according to a plan that nothing is known of (`Store.interrupted`).

What is shown of conversions through such a store holds whatever the refusals are
and wherever they strike.
-/

namespace Marshal

variable {σ ε α : Type}

/-- An outcome, of which only the heap is seen. -/
def Store.seen (view : σ → Heap) : EStateM.Result ε σ α → EStateM.Result ε Heap α
  | .ok a s => .ok a (view s)
  | .error e s => .error e (view s)

/-- The action is a single request, and the attempt is how the heap answers it. -/
inductive Store.Sends (store : Store σ) : {α : Type} → Action σ α → Heap.Attempt α → Prop
  | ask (request : Request) : store.Sends (store.ask request) (Heap.answer request)

/-- A store that asks the heap seen in its state, or refuses. -/
structure Store.Fronts (store : Store σ) (view : σ → Heap) : Prop where
  answers : ∀ request s, seen view (store.answer request s) = Heap.answer request (view s) ∨
    ∃ refusal s', store.answer request s = .error refusal s' ∧ view s' = view s
  releases : ∀ handle s, view (store.release handle s) = (view s).release handle
  notes : ∀ notice s, view (store.note notice s) = (view s).note notice

theorem Heap.fronts : Heap.store.Fronts id where
  answers request heap := by
    refine .inl ?_
    show Store.seen id (Heap.answer request heap) = Heap.answer request heap
    cases Heap.answer request heap <;> rfl
  releases _ _ := rfl
  notes _ _ := rfl

namespace Store.Fronts

variable {store : Store σ} {view : σ → Heap}

/-- What holds of the heap's outcomes holds of the store's, if refusing without
doing anything is all right. -/
theorem ends_ask (h : store.Fronts view) {request : Request} {s : σ}
    {good : request.Answer → Heap → Prop} {bad : Heap → Prop}
    (hheap : Ends (Heap.answer request) (view s) good fun _ => bad) (hrefused : bad (view s)) :
    Ends (store.ask request) s (fun a s' => good a (view s')) fun _ s' => bad (view s') := by
  have hanswers := h.answers request s
  refine Marshal.ends_ask (ends_intro (fun a s' hrun => ?_) fun refusal s' hrun => ?_)
  · rw [hrun] at hanswers
    rcases hanswers with hseen | ⟨refusal, s'', hrefusal, -⟩
    · exact hheap.of_ok hseen.symm
    · exact nomatch hrefusal
  · rw [hrun] at hanswers
    -- a refusal is the heap's, or the store's own
    rcases hanswers with hseen | ⟨refusal', s'', hrefusal, hview⟩
    · exact hheap.of_error hseen.symm
    · obtain ⟨-, rfl⟩ := EStateM.Result.error.inj hrefusal
      rw [hview]
      exact hrefused

/-- Whatever no change of a heap breaks is kept by requests. -/
theorem keeps_ask (h : store.Fronts view) {P : Heap → Prop} (hP : Heap.Stable P)
    (request : Request) : Keeps (fun s => P (view s)) (store.ask request) := fun _ hs =>
  h.ends_ask (hP.ends_answer hs request) hs

end Store.Fronts

/-! ## Refusals of a store's own accord -/

/-- A state together with a plan that tells for each coming request whether it is
refused. -/
structure Interrupted (σ : Type) where
  state : σ
  /-- What the requests to come are refused with, the next one first. -/
  refusals : Nat → Option Refusal

/-- The same store, but with requests refused as planned. -/
def Store.interrupted (store : Store σ) : Store (Interrupted σ) where
  answer request := fun s =>
    let rest := fun n => s.refusals (n + 1)
    match s.refusals 0 with
    | some refusal => .error refusal ⟨s.state, rest⟩
    | none =>
      match store.answer request s.state with
      | .ok a state => .ok a ⟨state, rest⟩
      | .error refusal state => .error refusal ⟨state, rest⟩
  release handle s := { s with state := store.release handle s.state }
  types s := store.types s.state
  note notice s := { s with state := store.note notice s.state }

theorem Heap.fronts_interrupted : Heap.store.interrupted.Fronts Interrupted.state where
  answers request s := by
    cases hplan : s.refusals 0 with
    | some refusal =>
        refine .inr ⟨refusal, ⟨s.state, fun n => s.refusals (n + 1)⟩, ?_, rfl⟩
        simp only [Store.interrupted, hplan]
    | none =>
        refine .inl ?_
        have hanswer : Heap.store.answer request s.state = Heap.answer request s.state := rfl
        simp only [Store.interrupted, hplan, hanswer]
        cases Heap.answer request s.state <;> rfl
  releases _ _ := rfl
  notes _ _ := rfl

end Marshal
