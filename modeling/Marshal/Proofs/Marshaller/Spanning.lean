import Marshal.Proofs.Heap.Ordering
import Marshal.Proofs.Marshaller.Depicting
import Marshal.Proofs.Marshaller.Gathering

/-!
# Index sets there and back

What comes back of an index set is told by `Discloses`: all members if there are at most two or
none is missing between the ends, and otherwise the two ends.  A warning is logged whenever a
member is missing between the ends, so it is logged whenever not all members come back
(`Heap.Reachable.discloses_of_lowered`).

The size of the span between two ends may need 65 bits.  It is computed in 128 bits, where
nothing overflows (`SpanFits`).
-/

namespace Marshal

variable {heap start : Heap} {handle : Handle} {mutable : Bool} {values : List Int64}

/-! ## Spans -/

/-- Computed in 128 bits, neither the difference of two integers nor one more than it overflows,
and the result is the size of the span. -/
structure SpanFits (first last : Int64) : Prop where
  difference : BitVec.ssubOverflow (last.toBitVec.signExtend 128)
    (first.toBitVec.signExtend 128) = false
  successor : BitVec.saddOverflow
    (last.toBitVec.signExtend 128 - first.toBitVec.signExtend 128) 1#128 = false
  span : (last.toBitVec.signExtend 128 - first.toBitVec.signExtend 128 + 1#128).toInt =
    last.toInt - first.toInt + 1

theorem spanFits (first last : Int64) : SpanFits first last := by
  have hwide : ∀ n : Int64, (n.toBitVec.signExtend 128).toInt = n.toInt :=
    fun n => BitVec.toInt_signExtend_of_le (by decide)
  have hfirst := first.le_toInt
  have hfirst' := first.toInt_lt
  have hlast := last.le_toInt
  have hlast' := last.toInt_lt
  have hone : (1#128).toInt = 1 := by decide
  have hdifference : BitVec.ssubOverflow (last.toBitVec.signExtend 128)
      (first.toBitVec.signExtend 128) = false := by
    simp only [BitVec.ssubOverflow, hwide, Bool.or_eq_false_iff, decide_eq_false_iff_not]
    omega
  have hsub : (last.toBitVec.signExtend 128 - first.toBitVec.signExtend 128).toInt =
      last.toInt - first.toInt := by
    rw [BitVec.toInt_sub_of_not_ssubOverflow (by simp [hdifference]), hwide, hwide]
  have hsuccessor : BitVec.saddOverflow
      (last.toBitVec.signExtend 128 - first.toBitVec.signExtend 128) 1#128 = false := by
    simp only [BitVec.saddOverflow, hsub, hone, Bool.or_eq_false_iff, decide_eq_false_iff_not]
    omega
  refine ⟨hdifference, hsuccessor, ?_⟩
  rw [BitVec.toInt_add_of_not_saddOverflow (by simp [hsuccessor]), hsub, hone]

/-! ## What comes back -/

/-- What comes back of an index set with these members. -/
structure Discloses (members : Finset Int64) (found : List Int64) : Prop where
  ascending : found.Pairwise (· < ·)
  subset : found.toFinset ⊆ members
  whole : members.card ≤ 2 ∨ Full members → found.toFinset = members
  ends : 2 < members.card → ¬ Full members → ∃ least ∈ members, ∃ greatest ∈ members,
    (∀ n ∈ members, least ≤ n ∧ n ≤ greatest) ∧ least ≠ greatest ∧ found = [least, greatest]

namespace Content

theorem discloses_readIndices (h : Sorted.Ordered Sorted.descending values) :
    Discloses values.toFinset (readIndices values) := by
  by_cases hfull : Full values.toFinset
  · rw [readIndices_of_full h hfull]
    exact {
      ascending := (Sorted.ordered_reverse.mpr h).pairwise_lt
      subset := by rw [List.toFinset_reverse]
      whole := fun _ => List.toFinset_reverse
      ends := fun _ hgap => absurd hfull hgap }
  · obtain ⟨first, last, hfirst, hlast⟩ := exists_ends_of_gap hfull
    rw [readIndices_of_gap h hfirst hlast hfull]
    have hlt := first_lt_last h hfirst hlast hfull
    have hleast : first ∈ values.toFinset := List.mem_toFinset.mpr (List.mem_of_getLast? hfirst)
    have hgreatest : last ∈ values.toFinset := List.mem_toFinset.mpr (List.mem_of_head? hlast)
    have hsub : [first, last].toFinset ⊆ values.toFinset := by
      intro n hn
      rw [List.mem_toFinset, List.mem_pair] at hn
      rcases hn with rfl | rfl
      · exact hleast
      · exact hgreatest
    have hcard : [first, last].toFinset.card = 2 :=
      List.toFinset_card_of_nodup (by simp [Std.ne_of_lt hlt])
    refine ⟨by simpa using hlt, hsub, fun hwhole => ?_, fun _ _ => ?_⟩
    · have hfew := hwhole.resolve_right hfull
      exact Finset.eq_of_subset_of_card_le hsub (by omega)
    · refine ⟨first, hleast, last, hgreatest, fun n hn => ?_, Std.ne_of_lt hlt, rfl⟩
      rw [List.mem_toFinset] at hn
      exact ⟨least_of_descending h hfirst hn, greatest_of_descending h hlast hn⟩

end Content

/-! ## Reading and the trip -/

namespace Marshaller.OnHeap

variable {m : Marshaller Heap} (h : m.OnHeap)

include h

theorem liftIndexSet_eq (hbody : heap.body? handle = some (.indexSet values, mutable)) :
    m.liftIndexSet handle heap =
      .ok (Content.readIndices values) (heap.warned (Content.indicesNotice? values)) := by
  have hends : Ends (m.liftIndexSet handle) heap
      (fun found heap' => found = Content.readIndices values ∧
        heap' = heap.warned (Content.indicesNotice? values))
      fun _ _ => False := h.ends_liftIndexSet hbody ⟨rfl, rfl⟩
  exact hends.eq_ok

/-- As a value, an index set is the set of what is read of it. -/
theorem lift_indexSet_eq
    (hkind : m.types.kindOf (StandardType.container .indexSet mutable).id =
      .standard (.container .indexSet mutable))
    (hbody : heap.body? handle = some (.indexSet values, mutable)) :
    m.lift (some handle) heap = .ok (.set ((Content.readIndices values).map .int))
      (heap.warned (Content.indicesNotice? values)) := by
  rw [h.lift_eq hkind hbody rfl]
  exact map_of_ok (h.liftIndexSet_eq hbody)

end Marshaller.OnHeap

namespace Heap

/-- A standard type that no converter claims is read as such. -/
theorem Reachable.kindOf_of_unclaimed (hstart : start.Reachable) {registry : Registry Heap}
    {type : StandardType} (hclaim : registry.claimant? type.name = none) (limits : Limits) :
    (Marshaller.make Heap.store start registry limits).types.kindOf type.id = .standard type := by
  have hkind := TypeTable.kindOf_build hstart.standardFirst registry type
  rwa [hclaim] at hkind

/-- Integers are stored as an index set, and what its size and its ends tell comes back, with a
warning if that is not all.  This is so for all integers, in every heap that operations lead to. -/
theorem Reachable.discloses_of_lowered (hstart : start.Reachable) (hheap : heap.Reachable)
    (registry : Registry Heap) (limits : Limits) (ns : List Int64) :
    let m := Marshaller.make Heap.store start registry limits
    Ends (m.lowerIndexSet (ns.map .int)) heap
      (fun set heap' => ∃ found heap'',
        m.liftIndexSet set heap' = .ok found heap'' ∧
        (registry.claimant? (StandardType.container .indexSet false).name = none →
          m.lift (some set) heap' = .ok (.set (found.map .int)) heap'') ∧
        Discloses ns.toFinset found ∧
        (found.toFinset ≠ ns.toFinset → ∃ first last,
          heap'' = heap'.note (.sparseIndexSet ns.toFinset.card first last)) ∧
        (Full ns.toFinset → heap'' = heap') ∧
        ∀ first ∈ ns, ∀ last ∈ ns, SpanFits first last)
      fun failure _ => heap.Short failure := by
  intro m
  have hm : m.OnHeap := ⟨rfl⟩
  refine (hm.ends_lowerIndexSet hheap.positive ns).mono (fun set heap' hbody => ?_) fun _ _ => id
  have hdescends : Sorted.Ordered Sorted.descending (Sorted.ofKeys Sorted.descending ns) :=
    Sorted.ordered_ofKeys ns
  have hmembers : (Sorted.ofKeys Sorted.descending ns).toFinset = ns.toFinset :=
    Sorted.toFinset_ofKeys
  have hcard : (Sorted.ofKeys Sorted.descending ns).length = ns.toFinset.card :=
    Sorted.length_ofKeys
  have hdiscloses := Content.discloses_readIndices hdescends
  rw [hmembers] at hdiscloses
  refine ⟨_, _, hm.liftIndexSet_eq hbody, fun hclaim => ?_, hdiscloses, fun hlost => ?_,
    fun hfull => ?_, fun first _ last _ => spanFits first last⟩
  · exact hm.lift_indexSet_eq (hstart.kindOf_of_unclaimed hclaim limits) hbody
  · have hgap : ¬ Full ns.toFinset := fun hfull => hlost (hdiscloses.whole (.inr hfull))
    rw [← hmembers] at hgap
    obtain ⟨first, last, hfirst, hlast⟩ := Content.exists_ends_of_gap hgap
    rw [Content.indicesNotice?_of_gap hdescends hfirst hlast hgap, hcard]
    exact ⟨first, last, rfl⟩
  · rw [← hmembers] at hfull
    rw [Content.indicesNotice?_of_full hdescends hfull]
    rfl

/-- A heap in which three integers with a gap were put into a set, which was then sealed. -/
def gapped : Heap where
  slots := #[none, some { content := .indexSet [9, 5, 3] }]

theorem lower_of_gapped :
    (Marshaller.make Heap.store {} {} {}).lowerIndexSet ([9, 3, 5, 3].map .int) {} =
      .ok (.object 1) gapped := by
  let copied : Heap :=
    { slots := #[some { content := .indexSet [9, 5, 3], mutable := true },
        some { content := .indexSet [9, 5, 3] }] }
  have hrelease : copied.release (.object 0) = gapped := by
    have hdrop : copied.dropOne (.object 0) = (gapped, []) := rfl
    rw [release, releaseAll, hdrop, List.append_nil, releaseAll]
  rw [← hrelease]
  rfl

theorem lift_of_gapped :
    (Marshaller.make Heap.store {} {} {}).lift (some (.object 1)) gapped =
      .ok (.set [.int 3, .int 9]) (gapped.note (.sparseIndexSet 3 3 9)) := rfl

/-- The three integers come back as two, with a warning. -/
theorem discloses_of_lowered_gapped :
    ({} : Heap).Reachable ∧
    (Marshaller.make Heap.store {} {} {}).lowerIndexSet ([9, 3, 5, 3].map .int) {} =
      .ok (.object 1) gapped ∧
    (Marshaller.make Heap.store {} {} {}).lift (some (.object 1)) gapped =
      .ok (.set [.int 3, .int 9]) (gapped.note (.sparseIndexSet 3 3 9)) ∧
    Discloses [9, 3, 5, 3].toFinset [3, 9] := by
  have htrip := Reachable.discloses_of_lowered .fresh .fresh {} {} [9, 3, 5, 3]
  obtain ⟨found, heap'', hread, -, hdiscloses, -⟩ := htrip.of_ok lower_of_gapped
  have hfound : (Marshaller.make Heap.store {} {} {}).liftIndexSet (.object 1) gapped =
      .ok [3, 9] (gapped.note (.sparseIndexSet 3 3 9)) := rfl
  rw [hfound] at hread
  cases hread
  exact ⟨.fresh, lower_of_gapped, lift_of_gapped, hdiscloses⟩

end Heap

end Marshal
