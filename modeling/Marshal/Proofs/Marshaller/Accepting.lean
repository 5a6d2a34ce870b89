import Marshal.Proofs.Heap.Chains
import Marshal.Proofs.Heap.Clients
import Marshal.Proofs.Heap.Follows
import Marshal.Proofs.Marshaller.Picturing

/-!
# What a reader accepts

A marshaller without converters reads a live object if and only if it is
`Heap.Acceptable` with the levels of nesting that are allowed.  Otherwise it fails
because the nesting is too deep, or because of a number that it cannot read; it never
finds an object of another type than it asked for, nor one that is gone.

`Judges P x heap` says this of a reader `x` and the condition `P` for it.  A reader finds the
picture of an object (`Marshaller.Direct.depicts_within`), and on the heaps of clients that
release only what they own (`Heap.Orderly`) the acceptable objects are those that there is a
picture of (`Heap.acceptable_iff_picture?`): nothing is held there that is gone.  Shared
objects and cycles do not matter, since readers leave the heap as they found it.
-/

namespace Marshal

variable {heap : Heap} {handle : Handle} {α : Type}

/-! ## Heaps of clients -/

/-- Counts are positive, what is held is live, and custom objects have custom types. -/
structure Heap.Orderly (heap : Heap) : Prop where
  positive : heap.Positive
  closed : heap.Closed
  wellFormed : ∀ handle content mutable, heap.body? handle = some (content, mutable) →
    content.WellFormed

theorem Client.Reachable.orderly {client : Client} (h : client.Reachable) :
    client.heap.Orderly where
  positive := h.heap_reachable.positive
  closed := h.closed
  wellFormed _ _ _ hbody := h.heap_reachable.wellFormed hbody

theorem Heap.Orderly.coherent (h : heap.Orderly) : heap.Coherent where
  positive := h.positive
  issued handle content mutable hbody child hchild :=
    (h.closed handle content mutable hbody child hchild).before
  wellFormed := h.wellFormed

/-! ## Judgements -/

/-- The reader answers if `P` holds, and leaves the heap alone.  If `P` does not hold, or
the budget falls short, it fails. -/
def Judges (m : Marshaller Heap) (P : Prop) (x : Action Heap α) (heap : Heap) : Prop :=
  Ends x heap (fun _ heap' => P ∧ Spares heap heap') fun failure _ =>
    heap.Short failure ∨ ¬ P ∧ m.Rejects failure

/-- Where all is sound, a reader of a picture judges whether there is one. -/
theorem Depicts.judges {m : Marshaller Heap} {p : Option α} {x : Action Heap α}
    (h : Depicts m True p x heap) : Judges m p.isSome x heap := by
  apply h.mono
  · rintro a heap' ⟨rfl, hspares⟩
    exact ⟨rfl, hspares⟩
  · rintro failure heap' (hshort | ⟨rfl, hrejects⟩)
    · exact .inl hshort
    · exact .inr ⟨nofun, hrejects trivial⟩

namespace Marshaller.Plain

variable {m : Marshaller Heap} (h : m.Plain)
  (hcustom : ∀ id : TypeId, id.isCustom → m.types.kindOf id = .unknown id)

include h hcustom

/-- With so many levels, what is acceptable with them is read, and nothing else. -/
theorem decides_within (levels : Nat) (heap : Heap) (handle : Handle) (horderly : heap.Orderly)
    (hlive : heap.Live handle) :
    Judges m (heap.Acceptable levels handle) (m.liftWithin levels handle) heap := by
  have hdirect : m.Direct := { h.toStandard with unknown := hcustom }
  rw [Heap.acceptable_iff_picture? horderly.closed hlive]
  apply Depicts.judges
  exact hdirect.depicts_within levels heap handle horderly.coherent
    fun _ => ⟨horderly.closed, hlive⟩

end Marshaller.Plain

/-! ## Every heap of a client -/

/-- On the heap of a client that releases only what it owns, the reader reads a live object
if and only if it is acceptable with the levels that are allowed.  If not, the nesting is too
deep or something is wrong with the store, and from where a cycle can be reached nothing is
read at all.  Only a limited budget can get in the way. -/
theorem Client.Reachable.lift_iff_acceptable {client : Client} (hclient : client.Reachable)
    {start : Heap} (hstart : start.Reachable) (limits : Limits) (hlive : client.heap.Live handle) :
    let lift := (Marshaller.make Heap.store start {} limits).lift (some handle)
    ((∀ failure heap', lift client.heap = .error failure heap' →
        ∀ name, failure ≠ .refused (.allocationFailed name)) →
      ((∃ v heap', lift client.heap = .ok v heap') ↔
        client.heap.Acceptable limits.maxDepth handle)) ∧
    (∀ failure heap', lift client.heap = .error failure heap' →
      failure = .tooDeep limits.maxDepth ∨ failure.kind = .runtime) ∧
    (∀ other, Relation.ReflTransGen client.heap.Holds handle other →
      Relation.TransGen client.heap.Holds other other →
      ∀ v heap', lift client.heap ≠ .ok v heap') ∧
    (client.heap.budget = none → ∀ failure heap', lift client.heap = .error failure heap' →
      ∀ name, failure ≠ .refused (.allocationFailed name)) := by
  intro lift
  have hcustom : ∀ id : TypeId, id.isCustom →
      (Marshaller.make Heap.store start {} limits).types.kindOf id = .unknown id := fun _ hid =>
    TypeTable.kindOf_build_custom hstart.standardFirst hid
  have hjudges : Judges (.make Heap.store start {} limits)
      (client.heap.Acceptable limits.maxDepth handle) lift client.heap :=
    (hstart.plain limits).decides_within hcustom limits.maxDepth _ _ hclient.orderly hlive
  refine ⟨fun hbudget => ⟨?_, fun hacceptable => ?_⟩, ?_, ?_, ?_⟩
  · rintro ⟨v, heap', hrun⟩
    exact (hjudges.of_ok hrun).1
  · cases hrun : lift client.heap with
    | ok v heap' => exact ⟨v, heap', rfl⟩
    | error failure heap' =>
        rcases hjudges.of_error hrun with ⟨-, name, hfailure⟩ | ⟨hnot, -⟩
        · exact absurd hfailure (hbudget failure heap' hrun name)
        · exact absurd hacceptable hnot
  · intro failure heap' hrun
    rcases hjudges.of_error hrun with ⟨-, name, rfl⟩ | ⟨-, hrejects, -⟩
    · exact .inr rfl
    · exact hrejects
  · intro other hreach hcycle v heap' hrun
    exact Heap.not_acceptable_of_cycle hreach hcycle (hjudges.of_ok hrun).1
  · intro hnone failure heap' hrun
    rcases hjudges.of_error hrun with ⟨hlimited, -⟩ | ⟨-, -, hother⟩
    · exact absurd hnone hlimited
    · exact hother

/-- Beside an array that holds itself a text is still read, but the array is not. -/
theorem Client.Reachable.lift_iff_acceptable_of_cycle :
    let client := ((({} : Client).step (.ask (.create .array))).step
      (.ask (.append (.object 0) (.object 0)))).step (.ask (.createText "t" false))
    let m := Marshaller.make Heap.store {} {} {}
    (∃ v heap', m.lift (some (.object 1)) client.heap = .ok v heap') ∧
      ∃ failure heap', m.lift (some (.object 0)) client.heap = .error failure heap' ∧
        (failure = .tooDeep 256 ∨ failure.kind = .runtime) := by
  intro client m
  have hclient : client.Reachable :=
    ((Reachable.fresh.step _ (Multiset.zero_le _)).step _ (Multiset.zero_le _)).step _
      (Multiset.zero_le _)
  have htext : client.heap.body? (.object 1) = some (.text "t", false) := rfl
  have harray : client.heap.body? (.object 0) = some (.array #[.object 0], true) := rfl
  constructor
  · obtain ⟨hiff, -, -, hbudget⟩ := hclient.lift_iff_acceptable .fresh {} (Heap.live_of_body? htext)
    apply (hiff (hbudget rfl)).mpr
    rw [Heap.acceptable_of_not_nests htext rfl]
    exact fun numeral heq => nomatch heq
  · obtain ⟨-, hkind, hcycle, -⟩ :=
      hclient.lift_iff_acceptable .fresh {} (Heap.live_of_body? harray)
    have hself : client.heap.Holds (.object 0) (.object 0) :=
      (Heap.holds_iff harray).mpr (List.mem_singleton_self _)
    cases hrun : m.lift (some (.object 0)) client.heap with
    | ok v heap' => exact absurd hrun (hcycle _ .refl (.single hself) v heap')
    | error failure heap' => exact ⟨failure, heap', rfl, hkind failure heap' hrun⟩

end Marshal
