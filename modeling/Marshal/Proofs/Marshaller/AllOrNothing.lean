import Marshal.Proofs.Marshaller.Conserving

/-!
# Conversions are all or nothing

Whatever is refused on the way, a conversion that fails leaves the objects of the
heap as they were, and one that succeeds leaves nothing behind once its result is
given up.  Only the number of objects ever created and the budget may tell that it
was there.
-/

namespace Marshal.Conversion

open Heap

/-- On every heap that operations lead to, with every plan of refusals, a
conversion whose domain objects wrap nothing that is handed out for the first time
on the way changes all or nothing. -/
theorem all_or_nothing {m : Marshaller (Interrupted Heap)}
    (hstore : m.store = Heap.store.interrupted) (hregistry : m.registry.SharesOnly)
    (conversion : Conversion) {s : Interrupted Heap} (hreachable : s.state.Reachable) :
    (∀ failure s', conversion.run m s = .error failure s' →
      Unissued s.state s'.state.slots.size conversion.wrapped → Same s.state s'.state) ∧
    (∀ handle s', conversion.run m s = .ok handle s' →
      Unissued s.state s'.state.slots.size conversion.wrapped →
      Same s.state (m.store.release handle s').state) := by
  have hfronts : m.Fronts Interrupted.state := ⟨hstore ▸ Heap.fronts_interrupted, hregistry⟩
  -- the conversion grows the heap that it starts from, with nothing owned at first
  have hstart : ∀ bound, Sound Interrupted.state s.state bound 0 0 s :=
    fun _ _ => hreachable.positive.grows
  constructor
  · intro failure s' hrun hwrapped
    have hends := hfronts.lowers_run conversion hwrapped 0 0 s (hstart _)
    exact (hends.of_error hrun le_rfl).same
  · intro handle s' hrun hwrapped
    have hends := hfronts.lowers_run conversion hwrapped 0 0 s (hstart _)
    have hgrows : Grows s.state 0 (s'.state.release handle) 0 :=
      (hends.of_ok hrun le_rfl).release
    rw [hstore]
    exact hgrows.same

/-- A list with a wrapped text is given up again when its second item is refused. -/
theorem all_or_nothing_of_refused_item :
    let m : Marshaller (Interrupted Heap) :=
      { store := Heap.store.interrupted, types := {}, registry := ⟨[.handleBacked]⟩ }
    let heap := (Operation.perform (.ask (.createText "shared" false)) {}).2
    let s : Interrupted Heap :=
      ⟨heap, fun n => if n = 3 then some (.indexOutOfBounds 0 0) else none⟩
    let wrapper : DomainObject := ⟨"Wrapper", some { handle := some (.object 0) }, none⟩
    ∃ failure s', (Conversion.list [.object wrapper, .int 7] false).run m s = .error failure s' ∧
      Same heap s'.state := by
  intro m heap s wrapper
  let conversion : Conversion := .list [.object wrapper, .int 7] false
  have hregistry : m.registry.SharesOnly := fun converter hmem => List.mem_singleton.mp hmem
  have hreachable : s.state.Reachable := Reachable.fresh.step (.ask (.createText "shared" false))
  have hfails : (match conversion.run m s with | .ok _ _ => false | .error _ _ => true) := rfl
  obtain ⟨hsame, -⟩ := all_or_nothing rfl hregistry conversion hreachable
  cases hrun : conversion.run m s with
  | ok handle s' =>
      rw [hrun] at hfails
      exact nomatch hfails
  | error failure s' =>
      refine ⟨failure, s', rfl, hsame failure s' hrun fun index hmem => .inl ?_⟩
      obtain rfl : index = 0 := Handle.object.inj (List.mem_singleton.mp hmem)
      exact Nat.one_pos

end Marshal.Conversion
