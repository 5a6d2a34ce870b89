import Marshal.Store

/-!
# Outcomes of computations

A computation on a state answers or fails, and it leaves a state behind in
either case.  `Ends x s good bad` says that it does so as wanted: whatever it
answers from `s` is `good`, and whatever it fails with is `bad`.  The rules below
follow a computation from one part to the next, so no proof about a conversion
has to unfold the monad.

The two ways of owning a reference have rules of their own.
`ends_withReference` hands both outcomes of the body on to the release, and
`ends_building` only the failure.
-/

namespace Marshal

variable {ε σ α β : Type}

/-- Started in `s`, the computation answers something `good` or fails in a way
that is `bad`. -/
def Ends (x : EStateM ε σ α) (s : σ) (good : α → σ → Prop) (bad : ε → σ → Prop) : Prop :=
  match x s with
  | .ok a s' => good a s'
  | .error e s' => bad e s'

variable {x : EStateM ε σ α} {s : σ} {good : α → σ → Prop} {bad : ε → σ → Prop}

/-! ## Reading outcomes off -/

theorem Ends.of_ok (h : Ends x s good bad) {a : α} {s' : σ} (hrun : x s = .ok a s') :
    good a s' := by
  unfold Ends at h
  rw [hrun] at h
  exact h

theorem Ends.of_error (h : Ends x s good bad) {e : ε} {s' : σ} (hrun : x s = .error e s') :
    bad e s' := by
  unfold Ends at h
  rw [hrun] at h
  exact h

theorem ends_of_ok {a : α} {s' : σ} (hrun : x s = .ok a s') (h : good a s') :
    Ends x s good bad := by
  unfold Ends
  rw [hrun]
  exact h

theorem ends_of_error {e : ε} {s' : σ} (hrun : x s = .error e s') (h : bad e s') :
    Ends x s good bad := by
  unfold Ends
  rw [hrun]
  exact h

/-- It is enough to look at both outcomes. -/
theorem ends_intro (hgood : ∀ a s', x s = .ok a s' → good a s')
    (hbad : ∀ e s', x s = .error e s' → bad e s') : Ends x s good bad := by
  cases hrun : x s with
  | ok a s' => exact ends_of_ok hrun (hgood a s' hrun)
  | error e s' => exact ends_of_error hrun (hbad e s' hrun)

theorem Ends.mono {good' : α → σ → Prop} {bad' : ε → σ → Prop} (h : Ends x s good bad)
    (hgood : ∀ a s', good a s' → good' a s') (hbad : ∀ e s', bad e s' → bad' e s') :
    Ends x s good' bad' := by
  apply ends_intro
  · intro a s' hrun
    exact hgood a s' (h.of_ok hrun)
  · intro e s' hrun
    exact hbad e s' (h.of_error hrun)

theorem Ends.and {good' : α → σ → Prop} {bad' : ε → σ → Prop} (h : Ends x s good bad)
    (h' : Ends x s good' bad') :
    Ends x s (fun a s' => good a s' ∧ good' a s') fun e s' => bad e s' ∧ bad' e s' := by
  apply ends_intro
  · intro a s' hrun
    exact ⟨h.of_ok hrun, h'.of_ok hrun⟩
  · intro e s' hrun
    exact ⟨h.of_error hrun, h'.of_error hrun⟩

/-- A computation that cannot fail answers something. -/
theorem Ends.exists_ok (h : Ends x s good fun _ _ => False) :
    ∃ a s', x s = .ok a s' ∧ good a s' := by
  cases hrun : x s with
  | ok a s' => exact ⟨a, s', rfl, h.of_ok hrun⟩
  | error e s' => exact (h.of_error hrun).elim

/-- A computation with one possible outcome has it. -/
theorem Ends.eq_ok {a : α} {s' : σ}
    (h : Ends x s (fun b t => b = a ∧ t = s') fun _ _ => False) : x s = .ok a s' := by
  obtain ⟨b, t, hrun, rfl, rfl⟩ := h.exists_ok
  exact hrun

/-- A computation that cannot answer fails with something. -/
theorem Ends.exists_error (h : Ends x s (fun _ _ => False) bad) :
    ∃ e s', x s = .error e s' ∧ bad e s' := by
  cases hrun : x s with
  | ok a s' => exact (h.of_ok hrun).elim
  | error e s' => exact ⟨e, s', rfl, h.of_error hrun⟩

/-- What a computation answers or fails with, without the state it leaves behind. -/
def outcome (x : EStateM ε σ α) (s : σ) : Except ε α :=
  match x s with
  | .ok a _ => .ok a
  | .error e _ => .error e

theorem outcome_of_ok {a : α} {s' : σ} (hrun : x s = .ok a s') : outcome x s = .ok a := by
  rw [outcome, hrun]

theorem outcome_of_error {e : ε} {s' : σ} (hrun : x s = .error e s') : outcome x s = .error e := by
  rw [outcome, hrun]

/-! ## Parts of a computation -/

theorem ends_pure {a : α} (h : good a s) : Ends (pure a) s good bad := h

theorem ends_throw {e : ε} (h : bad e s) : Ends (throw e : EStateM ε σ α) s good bad := h

theorem bind_of_ok {f : α → EStateM ε σ β} {a : α} {s' : σ} (hrun : x s = .ok a s') :
    (x >>= f) s = f a s' := by
  show EStateM.bind x f s = f a s'
  rw [EStateM.bind, hrun]

theorem bind_of_error {f : α → EStateM ε σ β} {e : ε} {s' : σ} (hrun : x s = .error e s') :
    (x >>= f) s = .error e s' := by
  show EStateM.bind x f s = .error e s'
  rw [EStateM.bind, hrun]

theorem ends_bind {f : α → EStateM ε σ β} {good' : β → σ → Prop}
    (h : Ends x s (fun a s' => Ends (f a) s' good' bad) bad) : Ends (x >>= f) s good' bad := by
  cases hrun : x s with
  | ok a s' =>
      have hrest := h.of_ok hrun
      unfold Ends at hrest ⊢
      rw [bind_of_ok hrun]
      exact hrest
  | error e s' => exact ends_of_error (bind_of_error hrun) (h.of_error hrun)

theorem map_of_ok {f : α → β} {a : α} {s' : σ} (hrun : x s = .ok a s') :
    (f <$> x) s = .ok (f a) s' := by
  rw [map_eq_pure_bind, bind_of_ok hrun]
  rfl

theorem ends_map {f : α → β} {good' : β → σ → Prop}
    (h : Ends x s (fun a s' => good' (f a) s') bad) : Ends (f <$> x) s good' bad := by
  rw [map_eq_pure_bind]
  exact ends_bind (h.mono (fun _ _ hgood => ends_pure hgood) fun _ _ hbad => hbad)

theorem ends_get {good : σ → σ → Prop} (h : good s s) :
    Ends (get : EStateM ε σ σ) s good bad := h

theorem ends_modify {f : σ → σ} {good : Unit → σ → Prop} (h : good () (f s)) :
    Ends (modify f : EStateM ε σ Unit) s good bad := h

/-! ## What a computation keeps -/

/-- However a computation ends, the state is `kept` if it was before. -/
def Keeps (kept : σ → Prop) (x : EStateM ε σ α) : Prop :=
  ∀ s, kept s → Ends x s (fun _ => kept) fun _ => kept

variable {kept : σ → Prop}

theorem keeps_pure (a : α) : Keeps kept (pure a : EStateM ε σ α) := fun _ hs => ends_pure hs

theorem keeps_throw (e : ε) : Keeps kept (throw e : EStateM ε σ α) := fun _ hs => ends_throw hs

theorem Keeps.bind {f : α → EStateM ε σ β} (hx : Keeps kept x) (hf : ∀ a, Keeps kept (f a)) :
    Keeps kept (x >>= f) := by
  intro s hs
  refine ends_bind ((hx s hs).mono (fun a s' hs' => ?_) fun _ _ => id)
  exact hf a s' hs'

/-! ## Requests and references -/

section References

variable {store : Store σ} {acquire : Action σ Handle} {bad : Failure → σ → Prop}

theorem ask_of_ok {request : Request} {answer : request.Answer} {s' : σ}
    (hrun : store.answer request s = .ok answer s') : store.ask request s = .ok answer s' := by
  rw [Store.ask, hrun]

theorem ask_of_error {request : Request} {refusal : Refusal} {s' : σ}
    (hrun : store.answer request s = .error refusal s') :
    store.ask request s = .error (.refused refusal) s' := by
  rw [Store.ask, hrun]

theorem ends_ask {request : Request} {good : request.Answer → σ → Prop}
    (h : Ends (store.answer request) s good fun refusal => bad (.refused refusal)) :
    Ends (store.ask request) s good bad := by
  cases hrun : store.answer request s with
  | ok a s' => exact ends_of_ok (ask_of_ok hrun) (h.of_ok hrun)
  | error refusal s' => exact ends_of_error (ask_of_error hrun) (h.of_error hrun)

/-- Where no reference could be had, there is none to use. -/
theorem withReference_of_error {body : Handle → Action σ α} {failure : Failure} {s' : σ}
    (hrun : acquire s = .error failure s') :
    store.withReference acquire body s = .error failure s' := by
  simp only [Store.withReference, hrun]

theorem building_of_error {fill : Handle → Action σ Unit} {failure : Failure} {s' : σ}
    (hrun : acquire s = .error failure s') :
    store.building acquire fill s = .error failure s' := by
  simp only [Store.building, hrun]

/-- A reference is given back in the state in which its use ended. -/
theorem ends_withReference {body : Handle → Action σ α}
    (h : Ends acquire s (fun handle s' => Ends (body handle) s'
      (fun a s'' => good a (store.release handle s''))
      fun e s'' => bad e (store.release handle s'')) bad) :
    Ends (store.withReference acquire body) s good bad := by
  cases hrun : acquire s with
  | ok handle s' =>
      have hbody := h.of_ok hrun
      cases hrun' : body handle s' with
      | ok a s'' =>
          refine ends_of_ok ?_ (hbody.of_ok hrun')
          simp only [Store.withReference, hrun, hrun']
      | error e s'' =>
          refine ends_of_error ?_ (hbody.of_error hrun')
          simp only [Store.withReference, hrun, hrun']
  | error e s' =>
      exact ends_of_error (withReference_of_error hrun) (h.of_error hrun)

/-- A new object is handed on when it is filled, and given back when filling it
failed. -/
theorem ends_building {fill : Handle → Action σ Unit} {good : Handle → σ → Prop}
    (h : Ends acquire s (fun handle s' => Ends (fill handle) s'
      (fun _ s'' => good handle s'') fun e s'' => bad e (store.release handle s'')) bad) :
    Ends (store.building acquire fill) s good bad := by
  cases hrun : acquire s with
  | ok handle s' =>
      have hfill := h.of_ok hrun
      cases hrun' : fill handle s' with
      | ok a s'' =>
          refine ends_of_ok ?_ (hfill.of_ok hrun')
          simp only [Store.building, hrun, hrun']
      | error e s'' =>
          refine ends_of_error ?_ (hfill.of_error hrun')
          simp only [Store.building, hrun, hrun']
  | error e s' =>
      exact ends_of_error (building_of_error hrun) (h.of_error hrun)

end References

end Marshal
