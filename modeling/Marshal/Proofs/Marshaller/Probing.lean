import Marshal.Marshaller.Lifting
import Marshal.Proofs.Heap.Extents
import Marshal.Proofs.Marshaller.Delivering

/-!
# Reading containers of integers

A heap answers whatever is asked about a container of integers, and nothing of it changes.  So
a reader of an index set or a pair set always answers, and which integers and which warning
follows from what is stored.
-/

namespace Marshal

variable {heap : Heap} {handle : Handle} {mutable : Bool} {values : List Int64}
  {pairs : List (Int64 × Int64)}

/-! ## Warnings -/

/-- The heap after a warning was logged, if there was one. -/
def Heap.warned (heap : Heap) : Option Notice → Heap
  | some notice => heap.note notice
  | none => heap

namespace Content

/-- The warning that the members of an index set, in descending order, are not all read. -/
def indicesNotice? (values : List Int64) : Option Notice :=
  match values.getLast?, values.head? with
  | some first, some last =>
    if values.length = 1 ∨ last.toInt - first.toInt + 1 = values.length then none
    else some (.sparseIndexSet values.length first last)
  | _, _ => none

/-- The warning that fewer pairs of a pair set are found than there are. -/
def pairsNotice? (pairs : List (Int64 × Int64)) (window limit : Nat) : Option Notice :=
  let found := readPairs pairs window 0 pairs.length
  if found.length < pairs.length then some (.unprobedPairs found.length pairs.length limit)
  else none

theorem indicesNotice?_ne (values : List Int64) : indicesNotice? values ≠ some .deadRelease := by
  unfold indicesNotice?
  split
  · split <;> simp
  · simp

theorem pairsNotice?_ne (pairs : List (Int64 × Int64)) (window limit : Nat) :
    pairsNotice? pairs window limit ≠ some .deadRelease := by
  unfold pairsNotice?
  dsimp only
  split <;> simp

/-- A full index set is read without a warning. -/
theorem indicesNotice?_of_full (h : Sorted.Ordered Sorted.descending values)
    (hfull : Full values.toFinset) : indicesNotice? values = none := by
  rcases exists_ends values with rfl | ⟨first, last, hfirst, hlast⟩
  · rfl
  · have hspan := (span_eq_length_iff h hfirst hlast).mpr hfull
    simp only [indicesNotice?, hfirst, hlast]
    rw [if_pos (.inr hspan)]

/-- Any other one is read with a warning. -/
theorem indicesNotice?_of_gap {first last : Int64} (h : Sorted.Ordered Sorted.descending values)
    (hfirst : values.getLast? = some first) (hlast : values.head? = some last)
    (hgap : ¬ Full values.toFinset) :
    indicesNotice? values = some (.sparseIndexSet values.length first last) := by
  have hspan := mt (span_eq_length_iff h hfirst hlast).mp hgap
  have hone := mt (span_eq_of_length_eq_one h hfirst hlast) hspan
  simp only [indicesNotice?, hfirst, hlast]
  rw [if_neg (not_or.mpr ⟨hone, hspan⟩)]

section Pairs

variable {window limit : Nat} (h : Sorted.Ordered Sorted.descending (pairs.map Prod.fst))
  (hwindow : window ≤ 2 ^ 63)

include h hwindow

/-- A pair set is read without a warning if all its pairs are in the window. -/
theorem pairsNotice?_of_all (hall : ∀ pair ∈ pairs, InWindow window pair) :
    pairsNotice? pairs window limit = none := by
  refine if_neg fun hless => ?_
  obtain ⟨pair, hmem, hout⟩ := (length_readPairs_lt_iff h hwindow).mp hless
  exact hout (hall pair hmem)

/-- Otherwise it is read with a warning. -/
theorem pairsNotice?_of_lost (hlost : ∃ pair ∈ pairs, ¬ InWindow window pair) :
    pairsNotice? pairs window limit = some (.unprobedPairs
      (readPairs pairs window 0 pairs.length).length pairs.length limit) :=
  if_pos ((length_readPairs_lt_iff h hwindow).mpr hlost)

end Pairs

end Content

namespace Marshaller.OnHeap

variable {m : Marshaller Heap} (h : m.OnHeap)

include h

theorem ends_log {notice : Notice} {good : Unit → Heap → Prop} {bad : Failure → Heap → Prop}
    (hgood : good () (heap.note notice)) : Ends (m.store.log notice) heap good bad := by
  rw [h.store]
  exact ends_modify hgood

theorem ends_liftIndexSet {good : List Int64 → Heap → Prop} {bad : Failure → Heap → Prop}
    (hbody : heap.body? handle = some (.indexSet values, mutable))
    (hgood : good (Content.readIndices values) (heap.warned (Content.indicesNotice? values))) :
    Ends (m.liftIndexSet handle) heap good bad := by
  have hread : heap.indexSetOf handle = .ok values := Heap.indexSetOf_eq_ok.mpr ⟨mutable, hbody⟩
  have hsize : Content.size <$> heap.containerOf .indexSet handle = .ok values.length :=
    Heap.size_containerOf hbody rfl
  have hleast : (List.getLast? <$> heap.indexSetOf handle) = .ok values.getLast? := by
    rw [hread]
    rfl
  have hgreatest : (List.head? <$> heap.indexSetOf handle) = .ok values.head? := by
    rw [hread]
    rfl
  refine ends_bind (h.ends_ask (Heap.ends_reading_of_ok hsize ?_))
  refine ends_bind (h.ends_ask (Heap.ends_reading_of_ok hleast ?_))
  refine ends_bind (h.ends_ask (Heap.ends_reading_of_ok hgreatest ?_))
  rcases Content.exists_ends values with rfl | ⟨first, last, hfirst, hlast⟩
  · exact ends_pure hgood
  · simp only [Content.readIndices, Content.indicesNotice?, hfirst, hlast] at hgood ⊢
    by_cases hone : values.length = 1
    · rw [if_pos hone, if_pos (.inl hone)] at hgood
      rw [if_pos hone]
      exact ends_pure hgood
    · by_cases hspan : last.toInt - first.toInt + 1 = values.length
      · rw [if_neg hone, if_pos hspan, if_pos (.inr hspan)] at hgood
        rw [if_neg hone, if_pos hspan]
        exact ends_pure hgood
      · rw [if_neg hone, if_neg hspan, if_neg (not_or.mpr ⟨hone, hspan⟩)] at hgood
        rw [if_neg hone, if_neg hspan]
        exact ends_bind (h.ends_log (ends_pure hgood))

theorem ends_probe {good : List (Int64 × Int64) → Heap → Prop} {bad : Failure → Heap → Prop}
    {window index missing : Nat} (hbody : heap.body? handle = some (.pairSet pairs, mutable))
    (hgood : good (Content.readPairs pairs window index missing) heap) :
    Ends (m.probe handle window index missing) heap good bad := by
  induction window generalizing index missing good with
  | zero => exact ends_pure hgood
  | succ window ih =>
      cases missing with
      | zero => exact ends_pure hgood
      | succ missing =>
          have hat : (Sorted.find? (Int64.ofNat index) <$> heap.pairsOf handle) =
              .ok (Sorted.find? (Int64.ofNat index) pairs) := by
            rw [Heap.pairsOf_eq_ok.mpr ⟨mutable, hbody⟩]
            rfl
          refine ends_bind (h.ends_ask (Heap.ends_reading_of_ok hat ?_))
          unfold Content.readPairs at hgood
          cases hvalue : Sorted.find? (Int64.ofNat index) pairs with
          | some value =>
              rw [hvalue] at hgood
              exact ends_bind (ih (ends_pure hgood))
          | none =>
              rw [hvalue] at hgood
              exact ih hgood

theorem ends_liftPairs {good : List (Int64 × Int64) → Heap → Prop} {bad : Failure → Heap → Prop}
    (hbody : heap.body? handle = some (.pairSet pairs, mutable))
    (hgood : good (Content.readPairs pairs m.window 0 pairs.length)
      (heap.warned (Content.pairsNotice? pairs m.window m.limits.probeLimit))) :
    Ends (m.liftPairs handle) heap good bad := by
  have hsize : Content.size <$> heap.containerOf .pairSet handle = .ok pairs.length :=
    Heap.size_containerOf hbody rfl
  refine ends_bind (h.ends_ask (Heap.ends_reading_of_ok hsize ?_))
  refine ends_bind (h.ends_probe hbody ?_)
  simp only [Content.pairsNotice?] at hgood
  split
  · next hless =>
    rw [if_pos hless] at hgood
    exact ends_bind (h.ends_log (ends_pure hgood))
  · next hall =>
    rw [if_neg hall] at hgood
    exact ends_pure hgood

end Marshaller.OnHeap

end Marshal
