import Marshal.Proofs.Marshaller.Reading

/-!
# References in custody

A `Custody` is a heap together with the references to its objects that are owned
outside of it: by guards, which release what they own when they are dropped, and as
raw handles, which somebody has to release once.

Conversions make guards and readers make nothing; guards are cloned, dropped and
turned into raw handles, and objects may be created or not as the budget has it.
Whatever is done in whatever order, no reference is lost and none is released
twice (`Custody.Reachable.no_leak`).

The objects created by one conversion after another form a single growth of the
empty heap, so they hold each other in no circle.  That is why nothing is left when
nothing is owned.
-/

namespace Marshal

/-- A heap, and the references to its objects that guards and raw handles own. -/
structure Custody where
  heap : Heap
  guards : Multiset Handle := 0
  raws : Multiset Handle := 0

namespace Custody

/-- What can be done with what is in custody. -/
inductive Move where
  /-- Guards the result of a conversion. -/
  | convert (conversion : Conversion)
  | read (reading : Reading)
  /-- Makes another guard of what a guard owns. -/
  | clone (handle : Handle)
  | drop (handle : Handle)
  /-- Gives up a guard and keeps its reference as a raw handle. -/
  | intoRaw (handle : Handle)
  | releaseRaw (handle : Handle)
  | setBudget (budget : Option Nat)

/-- What a move needs: guards and raw handles must be there, and domain objects
wrap only what was handed out before. -/
def Allows (custody : Custody) : Move → Prop
  | .convert conversion =>
    ∀ index, .object index ∈ conversion.wrapped → index < custody.heap.slots.size
  | .clone handle | .drop handle | .intoRaw handle => handle ∈ custody.guards
  | .releaseRaw handle => handle ∈ custody.raws
  | .read _ | .setBudget _ => True

/-- The heap after an action, and the guards that its answer adds. -/
def after {α : Type} (custody : Custody) (action : Action Heap α) (guarded : α → Multiset Handle) :
    Custody :=
  match action custody.heap with
  | .ok a heap => { custody with heap, guards := guarded a + custody.guards }
  | .error _ heap => { custody with heap }

/-- Makes a move. -/
def step (m : Marshaller Heap) (custody : Custody) : Move → Custody
  | .convert conversion => custody.after (conversion.run m) fun handle => {handle}
  | .read reading => custody.after (reading.run m) fun _ => 0
  | .clone handle => custody.after (m.store.ask (.retain handle)) fun _ => {handle}
  | .drop handle =>
    { custody with
      heap := m.store.release handle custody.heap, guards := custody.guards.erase handle }
  | .intoRaw handle =>
    { custody with guards := custody.guards.erase handle, raws := handle ::ₘ custody.raws }
  | .releaseRaw handle =>
    { custody with
      heap := m.store.release handle custody.heap, raws := custody.raws.erase handle }
  | .setBudget budget => { custody with heap := custody.heap.setBudget budget }

/-- What moves lead to from a heap without objects. -/
inductive Reachable (m : Marshaller Heap) : Custody → Prop
  | fresh (types : List TypeEntry) (budget : Option Nat) : Reachable m { heap := { types, budget } }
  | step {custody : Custody} (move : Move) : Reachable m custody → custody.Allows move →
      Reachable m (custody.step m move)

/-! ## Every reference is accounted for -/

/-- What is in custody is what is owned of the objects that were created. -/
def Sound (custody : Custody) : Prop := ∃ base : Heap, base.slots.size = 0 ∧ base.deadReleases = 0 ∧
  Heap.Grows base 0 custody.heap (custody.guards + custody.raws)

variable {m : Marshaller Heap} {custody : Custody}

theorem sound_fresh (types : List TypeEntry) (budget : Option Nat) :
    Sound { heap := { types, budget } } := by
  refine ⟨{ types, budget }, rfl, rfl, Heap.Positive.grows ?_⟩
  intro handle count hcount
  cases handle with
  | boolean b => exact Option.some.inj hcount ▸ Nat.one_pos
  | outside address => exact nomatch hcount
  | object index => simp [Heap.count?, Heap.get?] at hcount

/-- An action whose guards take the references it hands over. -/
theorem sound_after {α : Type} {action : Action Heap α} {guarded : α → Multiset Handle}
    (h : ∀ base : Heap, base.slots.size = 0 →
      Heap.Grows base 0 custody.heap (custody.guards + custody.raws) →
      Ends action custody.heap
        (fun a heap => Heap.Grows base 0 heap (guarded a + (custody.guards + custody.raws)))
        fun _ heap => Heap.Grows base 0 heap (custody.guards + custody.raws))
    (hsound : custody.Sound) : (custody.after action guarded).Sound := by
  obtain ⟨base, hsize, hdead, hgrows⟩ := hsound
  have hends := h base hsize hgrows
  refine ⟨base, hsize, hdead, ?_⟩
  unfold after
  cases hrun : action custody.heap with
  | ok a heap =>
      have hafter := hends.of_ok hrun
      rw [← add_assoc] at hafter
      exact hafter
  | error failure heap => exact hends.of_error hrun

/-- Whoever has a reference in custody may release it. -/
theorem grows_release {base heap : Heap} {owned rest : Multiset Handle} {handle : Handle}
    (hmem : handle ∈ owned) (hgrows : Heap.Grows base 0 heap (owned + rest)) :
    Heap.Grows base 0 (heap.release handle) (owned.erase handle + rest) := by
  rw [← Multiset.cons_erase hmem, Multiset.cons_add] at hgrows
  exact hgrows.release

theorem Sound.step (hm : m.Fronts id) (hstore : m.store = Heap.store) (hsound : custody.Sound)
    {move : Move} (hallows : custody.Allows move) : (custody.step m move).Sound := by
  cases move with
  | convert conversion =>
      refine sound_after (fun base _ hgrows => ?_) hsound
      -- a conversion is a growth of the heap it starts from
      have hstart : ∀ bound, Marshal.Sound id custody.heap bound 0 0 custody.heap :=
        fun _ _ => hgrows.conserved.positive.grows
      have hwrapped : ∀ bound, Unissued custody.heap bound conversion.wrapped :=
        fun _ index hmem => .inl (hallows index hmem)
      have hends : Ends (conversion.run m) custody.heap
          (fun handle heap => Heap.Grows custody.heap 0 heap (handle ::ₘ 0))
          fun _ heap => Heap.Grows custody.heap 0 heap 0 :=
        ends_of_sound fun bound => hm.lowers_run conversion (hwrapped bound) 0 0 _ (hstart bound)
      refine hends.mono (fun handle heap hgrown => ?_) fun failure heap hgrown => ?_
      · have hall := hgrows.trans hgrown
        rwa [add_comm] at hall
      · have hall := hgrows.trans hgrown
        rwa [add_zero] at hall
  | read reading =>
      refine sound_after (fun base hsize hgrows => ?_) hsound
      have hends := hm.reads_run (Heap.closed_of_size_eq_zero hsize) reading _ custody.heap hgrows
      exact hends.mono (fun _ _ hgrows' => by rwa [zero_add]) fun _ _ => id
  | clone handle =>
      refine sound_after (fun base _ hgrows => ?_) hsound
      have hretain : Ends (Heap.answer (.retain handle)) (id custody.heap)
          (fun _ heap => Heap.Grows base 0 heap ({handle} + (custody.guards + custody.raws)))
          fun _ heap => Heap.Grows base 0 heap (custody.guards + custody.raws) :=
        hgrows.ends_retain (Multiset.notMem_zero handle)
      exact hm.store.ends_ask hretain hgrows
  | drop handle =>
      obtain ⟨base, hsize, hdead, hgrows⟩ := hsound
      refine ⟨base, hsize, hdead, ?_⟩
      show Heap.Grows base 0 (m.store.release handle custody.heap) _
      rw [hstore]
      exact grows_release hallows hgrows
  | intoRaw handle =>
      obtain ⟨base, hsize, hdead, hgrows⟩ := hsound
      refine ⟨base, hsize, hdead, ?_⟩
      show Heap.Grows base 0 custody.heap (custody.guards.erase handle + handle ::ₘ custody.raws)
      rw [Multiset.add_cons, ← Multiset.cons_add, Multiset.cons_erase hallows]
      exact hgrows
  | releaseRaw handle =>
      obtain ⟨base, hsize, hdead, hgrows⟩ := hsound
      refine ⟨base, hsize, hdead, ?_⟩
      show Heap.Grows base 0 (m.store.release handle custody.heap)
        (custody.guards + custody.raws.erase handle)
      rw [hstore, add_comm]
      rw [add_comm] at hgrows
      exact grows_release hallows hgrows
  | setBudget budget =>
      obtain ⟨base, hsize, hdead, hgrows⟩ := hsound
      refine ⟨base, hsize, hdead, ?_⟩
      exact hgrows.congr (hgrows.conserved.congr (fun _ => rfl) rfl rfl) rfl hgrows.not_owned
        fun _ => le_rfl

theorem Reachable.sound (hm : m.Fronts id) (hstore : m.store = Heap.store)
    (h : Reachable m custody) : custody.Sound := by
  induction h with
  | fresh types budget => exact sound_fresh types budget
  | step move _ hallows ih => exact ih.step hm hstore hallows

/-- Along every run, no release is in vain, and whenever there is neither a guard nor a
raw handle, nothing is live but the two booleans. -/
theorem Reachable.no_leak (hstore : m.store = Heap.store) (hregistry : m.registry.SharesOnly)
    (h : Reachable m custody) :
    custody.heap.deadReleases = 0 ∧
    (custody.guards = 0 → custody.raws = 0 →
      custody.heap.liveObjects = 2 ∧
      ∀ handle, custody.heap.Live handle → ∃ b, handle = .boolean b) := by
  have hm : m.Fronts id := ⟨hstore ▸ Heap.fronts, hregistry⟩
  obtain ⟨base, hsize, hdead, hgrows⟩ := h.sound hm hstore
  refine ⟨hgrows.conserved.deadReleases_eq.trans hdead, fun hguards hraws => ?_⟩
  rw [hguards, hraws, add_zero] at hgrows
  have hgone : ∀ index, ¬ custody.heap.Live (.object index) := fun index =>
    hgrows.not_live (hsize ▸ Nat.zero_le index)
  constructor
  · have hcount : custody.heap.slots.countP Option.isSome = 0 := by
      rw [Array.countP_eq_zero]
      intro slot hslot hsome
      obtain ⟨index, hindex, rfl⟩ := Array.mem_iff_getElem.mp hslot
      refine hgone index ?_
      show (custody.heap.slots.getD index none).isSome
      rwa [Array.getD_eq_getD_getElem?, Array.getElem?_eq_getElem hindex]
    rw [Heap.liveObjects, hcount]
  · intro handle hlive
    cases handle with
    | boolean b => exact ⟨b, rfl⟩
    | outside address => exact absurd hlive (by simp [Heap.Live])
    | object index => exact absurd hlive (hgone index)

/-- A text that two guards share, one of which gives way to a raw handle. -/
theorem Reachable.no_leak_of_shared :
    let m : Marshaller Heap := { store := Heap.store, types := {}, registry := ⟨[.handleBacked]⟩ }
    let wrapper : DomainObject := ⟨"Wrapper", some { handle := some (.object 0) }, none⟩
    let made := ({ heap := {} } : Custody).step m (.convert (.text "shared" false))
    let shared := made.step m (.convert (.value (.object wrapper)))
    let raw := (shared.step m (.drop (.object 0))).step m (.intoRaw (.object 0))
    let final := raw.step m (.releaseRaw (.object 0))
    shared.guards = {.object 0, .object 0} ∧ raw.guards = 0 ∧ raw.raws = {.object 0} ∧
      final.heap.liveObjects = 2 ∧ final.heap.deadReleases = 0 := by
  intro m wrapper made shared raw final
  have hregistry : m.registry.SharesOnly := fun converter hmem => List.mem_singleton.mp hmem
  have hguards : shared.guards = {.object 0, .object 0} := rfl
  have hraws : raw.raws = {.object 0} := rfl
  have hmade : Reachable m made := (Reachable.fresh _ _).step _ fun index hmem => nomatch hmem
  have hshared : Reachable m shared := by
    refine hmade.step _ fun index hmem => ?_
    obtain rfl : index = 0 := Handle.object.inj (List.mem_singleton.mp hmem)
    exact Nat.one_pos
  have hraw : Reachable m raw := by
    refine (hshared.step (.drop (.object 0)) ?_).step (.intoRaw (.object 0)) ?_
    · show .object 0 ∈ shared.guards
      rw [hguards]
      decide
    · show .object 0 ∈ shared.guards.erase (.object 0)
      rw [hguards]
      decide
  have hfinal : Reachable m final := by
    refine hraw.step (.releaseRaw (.object 0)) ?_
    show .object 0 ∈ raw.raws
    rw [hraws]
    decide
  obtain ⟨hdead, hempty⟩ := Reachable.no_leak rfl hregistry hfinal
  exact ⟨hguards, rfl, hraws, (hempty rfl rfl).1, hdead⟩

end Custody

end Marshal
