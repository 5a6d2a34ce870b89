import Marshal.Limits.Reader
import Marshal.Proofs.Marshaller.Spanning

/-!
# Pair sets there and back

The pairs of a pair set come back as far as their indices lie in the window that is probed
(`Marshaller.OnHeap.liftPairs_eq`).  A warning is logged if and only if some do not.  So a
larger window never loses a pair, as long as it does not pass the range of indices: from there
on nothing is probed at all.

A warning that pairs are missing always means that some are.  A warning that an index set has
gaps does not: both ends of the set come back, and it may have no other members.
-/

namespace Marshal

variable {heap start : Heap} {handle : Handle} {mutable : Bool} {pairs : List (Int64 × Int64)}

/-! ## Windows -/

namespace Marshaller

variable (m : Marshaller Heap)

theorem window_of_lt (hlimit : m.limits.probeLimit < 2 ^ 63) : m.window = m.limits.probeLimit := by
  rw [window, Int64.toInt_maxValue, if_pos (by omega)]

/-- Where the limit passes the range of indices, nothing is probed. -/
theorem window_of_le (hlimit : 2 ^ 63 ≤ m.limits.probeLimit) : m.window = 0 := by
  rw [window, Int64.toInt_maxValue, if_neg (by omega)]

theorem window_le : m.window ≤ 2 ^ 63 := by
  rcases Nat.lt_or_ge m.limits.probeLimit (2 ^ 63) with hlt | hge
  · rw [m.window_of_lt hlt]
    exact hlt.le
  · rw [m.window_of_le hge]
    exact Nat.zero_le _

namespace OnHeap

variable {m} (h : m.OnHeap)

include h

theorem liftPairs_eq (hbody : heap.body? handle = some (.pairSet pairs, mutable)) :
    m.liftPairs handle heap = .ok (Content.readPairs pairs m.window 0 pairs.length)
      (heap.warned (Content.pairsNotice? pairs m.window m.limits.probeLimit)) := by
  have hends : Ends (m.liftPairs handle) heap
      (fun found heap' => found = Content.readPairs pairs m.window 0 pairs.length ∧
        heap' = heap.warned (Content.pairsNotice? pairs m.window m.limits.probeLimit))
      fun _ _ => False := h.ends_liftPairs hbody ⟨rfl, rfl⟩
  exact hends.eq_ok

/-- As a value, a pair set is the dictionary of the pairs that are found. -/
theorem lift_pairs_eq
    (hkind : m.types.kindOf (StandardType.container .pairSet mutable).id =
      .standard (.container .pairSet mutable))
    (hbody : heap.body? handle = some (.pairSet pairs, mutable)) :
    m.lift (some handle) heap =
      .ok (.dict ((Content.readPairs pairs m.window 0 pairs.length).map fun pair =>
          (.int pair.1, .int pair.2)))
        (heap.warned (Content.pairsNotice? pairs m.window m.limits.probeLimit)) := by
  rw [h.lift_eq hkind hbody rfl]
  exact map_of_ok (h.liftPairs_eq hbody)

end OnHeap

end Marshaller

/-! ## The trip -/

/-- What comes back of the map that entries define, where later entries win. -/
structure Recalls (limit : Nat) (entries found : List (Int64 × Int64)) : Prop where
  ascending : (found.map Prod.fst).Pairwise (· < ·)
  mem_iff : ∀ i v, (i, v) ∈ found ↔
    entries.reverse.lookup i = some v ∧ 0 ≤ i.toInt ∧ i.toInt < limit

namespace Content

variable {limit : Nat} {entries : List (Int64 × Int64)}

theorem recalls_readPairs (hlimit : limit ≤ 2 ^ 63) :
    Recalls limit entries
      (readPairs (Sorted.ofEntries Sorted.descending entries) limit 0
        (Sorted.ofEntries Sorted.descending entries).length) := by
  have hdescends : Sorted.Ordered Sorted.descending
      ((Sorted.ofEntries Sorted.descending entries).map Prod.fst) :=
    Sorted.ordered_ofEntries entries
  refine ⟨(ordered_readPairs hdescends hlimit).pairwise_lt, fun i v => ?_⟩
  rw [mem_readPairs hdescends hlimit, ← Sorted.find?_eq_some_iff hdescends.nodup,
    Sorted.find?_ofEntries]
  rfl

/-- Entries with an index outside of the window are those that do not come back. -/
theorem exists_not_inWindow_iff :
    (∃ pair ∈ Sorted.ofEntries Sorted.descending entries, ¬ InWindow limit pair) ↔
      ∃ entry ∈ entries, ¬ InWindow limit entry := by
  have hkeys : ∀ entries : List (Int64 × Int64), (∃ entry ∈ entries, ¬ InWindow limit entry) ↔
      ∃ i ∈ entries.map Prod.fst, ¬ (0 ≤ i.toInt ∧ i.toInt < limit) := by
    intro entries
    simp only [List.mem_map, exists_exists_and_eq_and]
    rfl
  rw [hkeys, hkeys, Sorted.map_fst_ofEntries]
  simp only [Sorted.mem_ofKeys]

theorem length_ofEntries :
    (Sorted.ofEntries Sorted.descending entries).length =
      (entries.map Prod.fst).toFinset.card := by
  rw [← List.length_map Prod.fst, Sorted.map_fst_ofEntries, Sorted.length_ofKeys]

end Content

namespace Heap

/-- Entries of integers are stored as a pair set, and those in the window come back, with a
warning if there are others. -/
theorem Reachable.recalls_of_lowered (hstart : start.Reachable) (hheap : heap.Reachable)
    (registry : Registry Heap) (limits : Limits) (hlimit : limits.probeLimit < 2 ^ 63)
    (entries : List (Int64 × Int64)) :
    let m := Marshaller.make Heap.store start registry limits
    Ends (m.lowerPairs (entries.map fun entry => (.int entry.1, .int entry.2))) heap
      (fun set heap' => ∃ found heap'',
        m.liftPairs set heap' = .ok found heap'' ∧
        (registry.claimant? (StandardType.container .pairSet false).name = none →
          m.lift (some set) heap' =
            .ok (.dict (found.map fun pair => (.int pair.1, .int pair.2))) heap'') ∧
        Recalls limits.probeLimit entries found ∧
        ((∃ entry ∈ entries, ¬ InWindow limits.probeLimit entry) →
          heap'' = heap'.note (.unprobedPairs found.length
            (entries.map Prod.fst).toFinset.card limits.probeLimit)) ∧
        ((∀ entry ∈ entries, InWindow limits.probeLimit entry) → heap'' = heap'))
      fun failure _ => heap.Short failure := by
  intro m
  have hm : m.OnHeap := ⟨rfl⟩
  have hwindow : m.window = limits.probeLimit := m.window_of_lt hlimit
  refine (hm.ends_lowerPairs hheap.positive entries).mono (fun set heap' hbody => ?_) fun _ _ => id
  have hdescends : Sorted.Ordered Sorted.descending
      ((Sorted.ofEntries Sorted.descending entries).map Prod.fst) :=
    Sorted.ordered_ofEntries entries
  have hrun := hm.liftPairs_eq hbody
  have hlift : registry.claimant? (StandardType.container .pairSet false).name = none → _ :=
    fun hclaim => hm.lift_pairs_eq (hstart.kindOf_of_unclaimed hclaim limits) hbody
  rw [hwindow] at hrun hlift
  refine ⟨_, _, hrun, hlift, Content.recalls_readPairs hlimit.le, fun hout => ?_, fun hall => ?_⟩
  · rw [Content.pairsNotice?_of_lost hdescends hlimit.le (Content.exists_not_inWindow_iff.mpr hout),
      Content.length_ofEntries]
    rfl
  · have hinside : ∀ pair ∈ Sorted.ofEntries Sorted.descending entries,
        InWindow limits.probeLimit pair := by
      by_contra hout
      push Not at hout
      obtain ⟨entry, hmem, hlost⟩ := Content.exists_not_inWindow_iff.mp hout
      exact hlost (hall entry hmem)
    rw [Content.pairsNotice?_of_all hdescends hlimit.le hinside]
    rfl

/-- A heap in which three entries with two indices were put into a map, which was then
sealed. -/
def windowed : Heap where
  slots := #[none, some { content := .pairSet [(5, 3), (-1, 2)] }]

theorem lower_of_windowed :
    (Marshaller.make Heap.store {} {} { probeLimit := 8 }).lowerPairs
      ([(5, 1), (-1, 2), (5, 3)].map fun entry => (.int entry.1, .int entry.2)) {} =
        .ok (.object 1) windowed := by
  let copied : Heap :=
    { slots := #[some { content := .pairSet [(5, 3), (-1, 2)], mutable := true },
        some { content := .pairSet [(5, 3), (-1, 2)] }] }
  have hrelease : copied.release (.object 0) = windowed := by
    have hdrop : copied.dropOne (.object 0) = (windowed, []) := rfl
    rw [release, releaseAll, hdrop, List.append_nil, releaseAll]
  rw [← hrelease]
  rfl

/-- The later value of an index comes back, and an index before zero does not. -/
theorem recalls_of_lowered_windowed :
    ({} : Heap).Reachable ∧
    (Marshaller.make Heap.store {} {} { probeLimit := 8 }).lift (some (.object 1)) windowed =
      .ok (.dict [(.int 5, .int 3)]) (windowed.note (.unprobedPairs 1 2 8)) ∧
    Recalls 8 [(5, 1), (-1, 2), (5, 3)] [(5, 3)] := by
  have htrip := Reachable.recalls_of_lowered .fresh .fresh {} { probeLimit := 8 } (by decide)
    [(5, 1), (-1, 2), (5, 3)]
  obtain ⟨found, heap'', hread, -, hrecalls, -⟩ := htrip.of_ok lower_of_windowed
  have hfound : (Marshaller.make Heap.store {} {} { probeLimit := 8 }).liftPairs (.object 1)
      windowed = .ok [(5, 3)] (windowed.note (.unprobedPairs 1 2 8)) := rfl
  rw [hfound] at hread
  cases hread
  exact ⟨.fresh, rfl, hrecalls⟩

/-! ## Larger windows -/

/-- With a larger limit no pair is lost that came back with a smaller one, unless the larger one
passes the range of indices: then nothing is probed. -/
theorem Reachable.window_mono (hheap : heap.Reachable)
    (hbody : heap.body? handle = some (.pairSet pairs, mutable)) (start : Heap)
    (registry : Registry Heap) (small large : Limits)
    (hle : small.probeLimit ≤ large.probeLimit) :
    ∃ less lessHeap more moreHeap,
      (Marshaller.make Heap.store start registry small).liftPairs handle heap =
        .ok less lessHeap ∧
      (Marshaller.make Heap.store start registry large).liftPairs handle heap =
        .ok more moreHeap ∧
      (large.probeLimit < 2 ^ 63 → less ⊆ more ∧ ∀ pair, pair ∈ more ↔
        pair ∈ pairs ∧ 0 ≤ pair.1.toInt ∧ pair.1.toInt < large.probeLimit) ∧
      (2 ^ 63 ≤ large.probeLimit → more = []) := by
  have hdescends : Sorted.Ordered Sorted.descending (pairs.map Prod.fst) :=
    hheap.descends handle (.pairSet pairs) mutable hbody
  have hsmall : (Marshaller.make Heap.store start registry small).OnHeap := ⟨rfl⟩
  have hlarge : (Marshaller.make Heap.store start registry large).OnHeap := ⟨rfl⟩
  refine ⟨_, _, _, _, hsmall.liftPairs_eq hbody, hlarge.liftPairs_eq hbody, fun hlimit => ?_,
    fun hlimit => ?_⟩
  · have hless : (Marshaller.make Heap.store start registry small).window = small.probeLimit :=
      Marshaller.window_of_lt _ (hle.trans_lt hlimit)
    have hmore : (Marshaller.make Heap.store start registry large).window = large.probeLimit :=
      Marshaller.window_of_lt _ hlimit
    rw [hless, hmore]
    refine ⟨fun pair hpair => ?_, fun pair => Content.mem_readPairs hdescends hlimit.le⟩
    rw [Content.mem_readPairs hdescends (hle.trans_lt hlimit).le] at hpair
    obtain ⟨hmem, hpos, hlt⟩ := hpair
    have hle' : (small.probeLimit : Int) ≤ large.probeLimit := Int.ofNat_le.mpr hle
    exact (Content.mem_readPairs hdescends hlimit.le).mpr ⟨hmem, hpos, hlt.trans_le hle'⟩
  · rw [Marshaller.window_of_le _ hlimit]
    rfl

/-- A heap with a pair set that has one pair. -/
def single : Heap where
  slots := #[some { content := .pairSet [(5, 7)], mutable := true }]

theorem single_reachable : single.Reachable :=
  (Reachable.fresh.step (.ask (.create .pairSet))).step (.ask (.addPair (.object 0) 5 7))

theorem window_mono_of_single :
    single.Reachable ∧ (5 : Nat) ≤ 6 ∧
    ∃ less lessHeap more moreHeap,
      (Marshaller.make Heap.store {} {} { probeLimit := 5 }).liftPairs (.object 0) single =
        .ok less lessHeap ∧
      (Marshaller.make Heap.store {} {} { probeLimit := 6 }).liftPairs (.object 0) single =
        .ok more moreHeap ∧
      less ⊆ more ∧ (5, 7) ∈ more := by
  have hbody : single.body? (.object 0) = some (.pairSet [(5, 7)], true) := rfl
  have hmono := Reachable.window_mono single_reachable hbody {} {} { probeLimit := 5 }
    { probeLimit := 6 } (by decide)
  obtain ⟨less, lessHeap, more, moreHeap, hless, hmore, hin, -⟩ := hmono
  obtain ⟨hsub, hmem⟩ := hin (by decide)
  exact ⟨single_reachable, by decide, less, lessHeap, more, moreHeap, hless, hmore, hsub,
    (hmem (5, 7)).mpr (by decide)⟩

theorem ofText_six : Limits.ofText "[256,6]" = .ok { probeLimit := 6 } := by
  have htokens : Limits.Token.ofText? "[256,6]".toList =
      some [.openBracket, .natural 256, .comma, .natural 6, .closeBracket] := by
    simp [Limits.Token.ofText?, Limits.Token.isBlank, Limits.Token.mark?,
      Limits.Token.ofDigits, Char.isDigit]
  rw [Limits.ofText, htokens]
  rfl

theorem ofText_pastRange : Limits.ofText "[256,9223372036854775808]" =
    .ok { probeLimit := 9223372036854775808 } := by
  have htokens : Limits.Token.ofText? "[256,9223372036854775808]".toList =
      some [.openBracket, .natural 256, .comma, .natural 9223372036854775808,
        .closeBracket] := by
    simp [Limits.Token.ofText?, Limits.Token.isBlank, Limits.Token.mark?,
      Limits.Token.ofDigits, Char.isDigit]
  rw [Limits.ofText, htokens]
  rfl

/-- It is not so that a larger limit loses no pair, whichever limits may be written down. -/
theorem larger_window_loses :
    ¬ ∀ (text text' : String) (small large : Limits), Limits.ofText text = .ok small →
      Limits.ofText text' = .ok large → small.probeLimit ≤ large.probeLimit →
      ∀ (heap : Heap) (handle : Handle) (pairs : List (Int64 × Int64)) (mutable : Bool),
        heap.Reachable → heap.body? handle = some (.pairSet pairs, mutable) →
        ∀ less lessHeap more moreHeap,
          (Marshaller.make Heap.store heap {} small).liftPairs handle heap = .ok less lessHeap →
          (Marshaller.make Heap.store heap {} large).liftPairs handle heap = .ok more moreHeap →
          less ⊆ more ∧ ∀ pair ∈ pairs, 0 ≤ pair.1.toInt →
            pair.1.toInt < min large.probeLimit (2 ^ 63) → pair ∈ more := by
  intro h
  have hless : (Marshaller.make Heap.store single {} { probeLimit := 6 }).liftPairs (.object 0)
      single = .ok [(5, 7)] single := rfl
  have hmore : (Marshaller.make Heap.store single {}
      { probeLimit := 9223372036854775808 }).liftPairs (.object 0) single =
        .ok [] (single.note (.unprobedPairs 0 1 9223372036854775808)) := rfl
  have hsub := (h _ _ _ _ ofText_six ofText_pastRange (by decide) single (.object 0) _ _
    single_reachable rfl _ _ _ _ hless hmore).1
  exact absurd (hsub (List.mem_cons_self ..)) List.not_mem_nil

/-! ## What a warning means -/

/-- If a warning is logged when an index set is read, a member is missing between its ends, and
the ends are all that comes back.  If one is logged when a pair set is read, a pair is lost. -/
theorem Reachable.missing_of_warning (hheap : heap.Reachable) (start : Heap)
    (registry : Registry Heap) (limits : Limits) (handle : Handle) :
    let m := Marshaller.make Heap.store start registry limits
    (∀ values mutable, heap.body? handle = some (.indexSet values, mutable) →
      ∃ found heap', m.liftIndexSet handle heap = .ok found heap' ∧
        (heap'.notices ≠ heap.notices → ¬ Full values.toFinset ∧
          found.toFinset ⊆ values.toFinset ∧
          (found.toFinset = values.toFinset ↔ values.toFinset.card = 2))) ∧
    ∀ pairs mutable, heap.body? handle = some (.pairSet pairs, mutable) →
      ∃ found heap', m.liftPairs handle heap = .ok found heap' ∧
        (heap'.notices ≠ heap.notices → found.toFinset ⊂ pairs.toFinset) := by
  intro m
  have hm : m.OnHeap := ⟨rfl⟩
  refine ⟨fun values mutable hbody => ?_, fun pairs mutable hbody => ?_⟩
  · have hdescends : Sorted.Ordered Sorted.descending values :=
      hheap.descends handle (.indexSet values) mutable hbody
    have hdiscloses := Content.discloses_readIndices hdescends
    refine ⟨_, _, hm.liftIndexSet_eq hbody, fun hwarned => ?_⟩
    have hgap : ¬ Full values.toFinset := by
      intro hfull
      rw [Content.indicesNotice?_of_full hdescends hfull] at hwarned
      exact hwarned rfl
    refine ⟨hgap, hdiscloses.subset, fun heq => ?_, fun htwo => hdiscloses.whole (.inl htwo.le)⟩
    obtain ⟨first, last, hfirst, hlast⟩ := Content.exists_ends_of_gap hgap
    have hlt := Content.first_lt_last hdescends hfirst hlast hgap
    rw [← heq, Content.readIndices_of_gap hdescends hfirst hlast hgap]
    exact List.toFinset_card_of_nodup (by simp [Std.ne_of_lt hlt])
  · have hdescends : Sorted.Ordered Sorted.descending (pairs.map Prod.fst) :=
      hheap.descends handle (.pairSet pairs) mutable hbody
    refine ⟨_, _, hm.liftPairs_eq hbody, fun hwarned => ?_⟩
    obtain ⟨pair, hmem, hout⟩ : ∃ pair ∈ pairs, ¬ InWindow m.window pair := by
      by_contra hall
      push Not at hall
      rw [Content.pairsNotice?_of_all hdescends m.window_le hall] at hwarned
      exact hwarned rfl
    rw [Finset.ssubset_iff_of_subset]
    · refine ⟨pair, List.mem_toFinset.mpr hmem, fun hfound => hout ?_⟩
      exact ((Content.mem_readPairs hdescends m.window_le).mp (List.mem_toFinset.mp hfound)).2
    · intro pair hpair
      rw [List.mem_toFinset, Content.mem_readPairs hdescends m.window_le] at hpair
      exact List.mem_toFinset.mpr hpair.1

/-- A heap with an index set of two members and a pair set with an index before zero. -/
def sparse : Heap where
  slots := #[some { content := .indexSet [9, 1], mutable := true },
    some { content := .pairSet [(-1, 7)], mutable := true }]

theorem sparse_reachable : sparse.Reachable :=
  ((((Reachable.fresh.step (.ask (.create .indexSet))).step
    (.ask (.addIndex (.object 0) 1))).step (.ask (.addIndex (.object 0) 9))).step
    (.ask (.create .pairSet))).step (.ask (.addPair (.object 1) (-1) 7))

/-- Both warn, and only the pair is lost. -/
theorem missing_of_warning_sparse :
    sparse.Reachable ∧
    (∃ found heap', (Marshaller.make Heap.store {} {} { probeLimit := 8 }).liftIndexSet
        (.object 0) sparse = .ok found heap' ∧
      ¬ Full [9, 1].toFinset ∧ found.toFinset = [9, 1].toFinset) ∧
    ∃ found heap', (Marshaller.make Heap.store {} {} { probeLimit := 8 }).liftPairs
        (.object 1) sparse = .ok found heap' ∧
      found.toFinset ⊂ [(-1, 7)].toFinset := by
  have hindices := (Reachable.missing_of_warning sparse_reachable {} {} { probeLimit := 8 }
    (.object 0)).1
  have hpairs := (Reachable.missing_of_warning sparse_reachable {} {} { probeLimit := 8 }
    (.object 1)).2
  have hread : (Marshaller.make Heap.store {} {} { probeLimit := 8 }).liftIndexSet (.object 0)
      sparse = .ok [1, 9] (sparse.note (.sparseIndexSet 2 1 9)) := rfl
  have hprobed : (Marshaller.make Heap.store {} {} { probeLimit := 8 }).liftPairs (.object 1)
      sparse = .ok [] (sparse.note (.unprobedPairs 0 1 8)) := rfl
  obtain ⟨indices, heap', hrun, hmissing⟩ := hindices [9, 1] true rfl
  obtain ⟨pairs, heap'', hrun', hlost⟩ := hpairs [(-1, 7)] true rfl
  rw [hread] at hrun
  rw [hprobed] at hrun'
  cases hrun
  cases hrun'
  obtain ⟨hgap, -, hwhole⟩ := hmissing (List.cons_ne_self _ _)
  exact ⟨sparse_reachable, ⟨_, _, hread, hgap, hwhole.mpr (by decide)⟩,
    _, _, hprobed, hlost (List.cons_ne_self _ _)⟩

/-- A warning does not always mean that something is lost. -/
theorem warned_without_loss :
    ¬ ∀ (heap : Heap) (handle : Handle) (values : List Int64) (mutable : Bool), heap.Reachable →
      heap.body? handle = some (.indexSet values, mutable) →
      ∀ found heap', (Marshaller.make Heap.store heap {} {}).liftIndexSet handle heap =
        .ok found heap' → heap'.notices ≠ heap.notices → found.toFinset ⊂ values.toFinset := by
  intro h
  have hrun : (Marshaller.make Heap.store sparse {} {}).liftIndexSet (.object 0) sparse =
      .ok [1, 9] (sparse.note (.sparseIndexSet 2 1 9)) := rfl
  have hproper := h sparse (.object 0) [9, 1] true sparse_reachable rfl _ _ hrun
    (List.cons_ne_self _ _)
  exact absurd hproper (by decide)

end Heap

end Marshal
