import Marshal.Proofs.Store.Fronts

/-!
# Watching a store

`Store.watched` is a store that keeps a list of the requests it answered, and does
nothing else of its own.  An action on it and one on the heap itself mirror each other
if they come to the same result and leave the same heap (`Mirrors`).  So what is seen of
the requests belongs to the run on the heap itself.
-/

namespace Marshal

variable {α β : Type}

/-- A state together with the requests that were answered, the latest one first. -/
structure Watched (σ : Type) where
  state : σ
  answered : List Request := []

/-- The same store with a list of the requests that it answered. -/
def Store.watched {σ : Type} (store : Store σ) : Store (Watched σ) where
  answer request := fun s =>
    match store.answer request s.state with
    | .ok a state => .ok a ⟨state, request :: s.answered⟩
    | .error refusal state => .error refusal ⟨state, s.answered⟩
  release handle s := { s with state := store.release handle s.state }
  types s := store.types s.state
  note notice s := { s with state := store.note notice s.state }

namespace Watched

variable {request : Request} {s : Watched Heap} {heap : Heap}

theorem answer_of_ok {a : request.Answer} (h : Heap.answer request s.state = .ok a heap) :
    Heap.store.watched.answer request s = .ok a ⟨heap, request :: s.answered⟩ := by
  have hanswer : Heap.store.answer request s.state = .ok a heap := h
  simp only [Store.watched, hanswer]

theorem answer_of_error {refusal : Refusal}
    (h : Heap.answer request s.state = .error refusal heap) :
    Heap.store.watched.answer request s = .error refusal ⟨heap, s.answered⟩ := by
  have hanswer : Heap.store.answer request s.state = .error refusal heap := h
  simp only [Store.watched, hanswer]

/-- A request that is answered is listed, and one that is refused is not. -/
theorem ends_ask {good : request.Answer → Watched Heap → Prop} {bad : Watched Heap → Prop}
    (h : Ends (Heap.answer request) s.state
      (fun a heap => good a ⟨heap, request :: s.answered⟩) fun _ heap => bad ⟨heap, s.answered⟩) :
    Ends (Heap.store.watched.ask request) s good fun _ => bad := by
  refine Marshal.ends_ask ?_
  cases hrun : Heap.answer request s.state with
  | ok a heap => exact ends_of_ok (answer_of_ok hrun) (h.of_ok hrun)
  | error refusal heap => exact ends_of_error (answer_of_error hrun) (h.of_error hrun)

end Watched

/-! ## The same run -/

/-- Watched or not, the actions come to the same. -/
def Mirrors (x : Action (Watched Heap) α) (x' : Action Heap α) : Prop :=
  ∀ s, Store.seen Watched.state (x s) = x' s.state

section Rules

variable {x : Action (Watched Heap) α} {x' : Action Heap α}

theorem mirrors_pure (a : α) : Mirrors (pure a) (pure a) := fun _ => rfl

theorem mirrors_throw (failure : Failure) :
    Mirrors (throw failure : Action (Watched Heap) α) (throw failure) := fun _ => rfl

theorem Mirrors.bind {f : α → Action (Watched Heap) β} {f' : α → Action Heap β}
    (hx : Mirrors x x') (hf : ∀ a, Mirrors (f a) (f' a)) : Mirrors (x >>= f) (x' >>= f') := by
  intro s
  have hfirst := hx s
  cases hrun : x s with
  | ok a s' =>
      rw [hrun] at hfirst
      rw [bind_of_ok hrun, bind_of_ok hfirst.symm]
      exact hf a s'
  | error failure s' =>
      rw [hrun] at hfirst
      rw [bind_of_error hrun, bind_of_error hfirst.symm]
      rfl

theorem mirrors_ask (request : Request) :
    Mirrors (Heap.store.watched.ask request) (Heap.store.ask request) := by
  intro s
  have hheap : Heap.store.answer request s.state = Heap.answer request s.state := rfl
  cases hrun : Heap.answer request s.state with
  | ok a heap =>
      simp only [Store.ask, Watched.answer_of_ok hrun, hheap, hrun]
      rfl
  | error refusal heap =>
      simp only [Store.ask, Watched.answer_of_error hrun, hheap, hrun]
      rfl

theorem mirrors_log (notice : Notice) :
    Mirrors (Heap.store.watched.log notice) (Heap.store.log notice) := fun _ => rfl

theorem Mirrors.withReference {acquire : Action (Watched Heap) Handle}
    {acquire' : Action Heap Handle} {body : Handle → Action (Watched Heap) α}
    {body' : Handle → Action Heap α} (hacquire : Mirrors acquire acquire')
    (hbody : ∀ handle, Mirrors (body handle) (body' handle)) :
    Mirrors (Heap.store.watched.withReference acquire body)
      (Heap.store.withReference acquire' body') := by
  intro s
  have hfirst := hacquire s
  cases hrun : acquire s with
  | error failure s' =>
      rw [hrun] at hfirst
      simp only [Store.withReference, hrun, ← hfirst]
      rfl
  | ok handle s' =>
      rw [hrun] at hfirst
      have hsecond := hbody handle s'
      cases hrun' : body handle s' with
      | ok a s'' =>
          rw [hrun'] at hsecond
          simp only [Store.withReference, hrun, ← hfirst, hrun', Store.seen, ← hsecond]
          rfl
      | error failure s'' =>
          rw [hrun'] at hsecond
          simp only [Store.withReference, hrun, ← hfirst, hrun', Store.seen, ← hsecond]
          rfl

end Rules

end Marshal
