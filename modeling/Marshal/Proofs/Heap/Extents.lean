import Mathlib.Data.Finset.Card
import Mathlib.Data.List.Sort
import Marshal.Proofs.Heap.Picture
import Marshal.Proofs.Sorted

/-!
# What containers of integers are read as

Of an index set only the two ends and the size are known.  Its members are different integers
between the ends.  So there are as many of them as there are integers between the ends if and
only if all of these are members (`span_eq_length_iff`), and then all members come back.
Otherwise the ends do.

The pairs of a pair set are looked for at one index after another until as many are found as
there are.  No index is looked at twice, so when none is missing there are no others at later
indices, and all pairs in the window come back (`readPairs_eq`).

In both cases what comes back is in ascending order, while what is stored is in descending order.
-/

namespace Marshal

variable {first last n : Int64} {values : List Int64} {pairs : List (Int64 × Int64)}
  {window index missing : Nat}

/-! ## Intervals -/

namespace Marshaller

/-- The integers of an interval do not overflow. -/
theorem toInt_interval {k : Nat} (hk : k < (last.toInt - first.toInt + 1).toNat) :
    (Int64.ofInt (first.toInt + Int.ofNat k)).toInt = first.toInt + k := by
  have hfirst := first.le_toInt
  have hlast := last.toInt_lt
  exact Int64.toInt_ofInt_of_le (by simp only [Int.ofNat_eq_natCast]; omega)
    (by simp only [Int.ofNat_eq_natCast]; omega)

theorem mem_interval : n ∈ interval first last ↔ first ≤ n ∧ n ≤ last := by
  rw [interval, List.mem_map, Int64.le_iff_toInt_le, Int64.le_iff_toInt_le]
  constructor
  · rintro ⟨k, hk, rfl⟩
    rw [List.mem_range] at hk
    rw [toInt_interval hk]
    omega
  · rintro ⟨hfirst, hlast⟩
    refine ⟨(n.toInt - first.toInt).toNat, by rw [List.mem_range]; omega, ?_⟩
    have hsum : first.toInt + Int.ofNat (n.toInt - first.toInt).toNat = n.toInt := by
      simp only [Int.ofNat_eq_natCast]
      omega
    rw [hsum, Int64.ofInt_toInt]

theorem length_interval : (interval first last).length = (last.toInt - first.toInt + 1).toNat := by
  rw [interval, List.length_map, List.length_range]

theorem ordered_interval : Sorted.Ordered Sorted.ascending (interval first last) := by
  unfold interval Sorted.Ordered
  rw [List.pairwise_map]
  refine List.pairwise_lt_range.imp_of_mem fun ha hb hlt => decide_eq_true ?_
  rw [List.mem_range] at ha hb
  rw [Int64.lt_iff_toInt_lt, toInt_interval ha, toInt_interval hb]
  omega

end Marshaller

/-! ## Full sets and windows -/

/-- Whatever lies between two members is a member. -/
def Full (members : Finset Int64) : Prop :=
  ∀ first ∈ members, ∀ last ∈ members, ∀ n, first ≤ n → n ≤ last → n ∈ members

/-- The index of the pair is one of the first `window` ones from zero up. -/
def InWindow (window : Nat) (pair : Int64 × Int64) : Prop :=
  0 ≤ pair.1.toInt ∧ pair.1.toInt < window

instance decidableInWindow (window : Nat) : DecidablePred (InWindow window) :=
  fun _ => inferInstanceAs (Decidable (_ ∧ _))

namespace Content

/-! ## Index sets -/

/-- The last of the stored members is the least. -/
theorem least_of_descending (h : Sorted.Ordered Sorted.descending values)
    (hfirst : values.getLast? = some first) (hn : n ∈ values) : first ≤ n := by
  have hascending := Sorted.ordered_reverse.mpr h
  rcases hascending.eq_or_precedes (List.head?_reverse.trans hfirst) (List.mem_reverse.mpr hn) with
    rfl | hlt
  · exact Std.le_refl _
  · exact Std.le_of_lt (of_decide_eq_true hlt)

/-- The first of the stored members is the greatest. -/
theorem greatest_of_descending (h : Sorted.Ordered Sorted.descending values)
    (hlast : values.head? = some last) (hn : n ∈ values) : n ≤ last := by
  rcases h.eq_or_precedes hlast hn with rfl | hlt
  · exact Std.le_refl _
  · exact Std.le_of_lt (of_decide_eq_true hlt)

section Ends

variable (h : Sorted.Ordered Sorted.descending values) (hfirst : values.getLast? = some first)
  (hlast : values.head? = some last)

include hfirst hlast

/-- If no member is missing between the ends, all that lies between them is there. -/
theorem interval_subset (hfull : Full values.toFinset) :
    Marshaller.interval first last ⊆ values := by
  intro n hn
  obtain ⟨hfn, hnl⟩ := Marshaller.mem_interval.mp hn
  have hmem := hfull first (List.mem_toFinset.mpr (List.mem_of_getLast? hfirst)) last
    (List.mem_toFinset.mpr (List.mem_of_head? hlast)) n hfn hnl
  exact List.mem_toFinset.mp hmem

theorem readIndices_eq : readIndices values =
    if values.length = 1 then [first]
    else if last.toInt - first.toInt + 1 = values.length then Marshaller.interval first last
    else Sorted.insert Sorted.ascending first [last] := by
  rw [readIndices, hfirst, hlast]

include h

theorem subset_interval : values ⊆ Marshaller.interval first last := fun _ hn =>
  Marshaller.mem_interval.mpr ⟨least_of_descending h hfirst hn, greatest_of_descending h hlast hn⟩

theorem first_le_last : first ≤ last :=
  greatest_of_descending h hlast (List.mem_of_getLast? hfirst)

/-- There are as many members as there are integers between the ends exactly where all of these
are members. -/
theorem span_eq_length_iff :
    last.toInt - first.toInt + 1 = values.length ↔ Full values.toFinset := by
  have hsub := subset_interval h hfirst hlast
  constructor
  · intro hspan
    have hperm : values.Perm (Marshaller.interval first last) := by
      refine (List.subperm_of_subset h.nodup hsub).perm_of_length_le ?_
      rw [Marshaller.length_interval]
      omega
    intro a ha b hb n han hnb
    rw [List.mem_toFinset] at ha hb ⊢
    refine hperm.mem_iff.mpr (Marshaller.mem_interval.mpr ⟨?_, ?_⟩)
    · exact Std.le_trans (least_of_descending h hfirst ha) han
    · exact Std.le_trans hnb (greatest_of_descending h hlast hb)
  · intro hfull
    have hnodup : (Marshaller.interval first last).Nodup := Marshaller.ordered_interval.nodup
    have hle := (List.subperm_of_subset h.nodup hsub).length_le
    have hge := (List.subperm_of_subset hnodup (interval_subset hfirst hlast hfull)).length_le
    have hends := Int64.le_iff_toInt_le.mp (first_le_last h hfirst hlast)
    rw [Marshaller.length_interval] at hle hge
    omega

/-- A set with one member has one end. -/
theorem span_eq_of_length_eq_one (hone : values.length = 1) :
    last.toInt - first.toInt + 1 = values.length := by
  obtain ⟨n, rfl⟩ := List.length_eq_one_iff.mp hone
  obtain rfl : n = first := by simpa using hfirst
  obtain rfl : n = last := by simpa using hlast
  simp

/-- A set with gaps has two ends. -/
theorem first_lt_last (hgap : ¬ Full values.toFinset) : first < last := by
  refine Std.lt_of_le_of_ne (first_le_last h hfirst hlast) fun heq => hgap ?_
  subst heq
  have hle := (List.subperm_of_subset h.nodup (subset_interval h hfirst hlast)).length_le
  have hpos := List.length_pos_of_mem (List.mem_of_getLast? hfirst)
  rw [Marshaller.length_interval] at hle
  rw [← span_eq_length_iff h hfirst hlast]
  omega

/-- Otherwise the two ends come back. -/
theorem readIndices_of_gap (hgap : ¬ Full values.toFinset) :
    readIndices values = [first, last] := by
  have hspan := mt (span_eq_length_iff h hfirst hlast).mp hgap
  have hone := mt (span_eq_of_length_eq_one h hfirst hlast) hspan
  have hlt : Sorted.ascending first last = true :=
    decide_eq_true (first_lt_last h hfirst hlast hgap)
  rw [readIndices_eq hfirst hlast, if_neg hone, if_neg hspan, Sorted.insert, if_pos hlt]

end Ends

/-- A set has two ends, or it has no members. -/
theorem exists_ends (values : List Int64) :
    values = [] ∨ ∃ first last, values.getLast? = some first ∧ values.head? = some last := by
  cases values with
  | nil => exact .inl rfl
  | cons last rest =>
      exact .inr ⟨_, last, List.getLast?_eq_some_getLast (List.cons_ne_nil last rest), rfl⟩

/-- A set with gaps is not empty. -/
theorem exists_ends_of_gap (hgap : ¬ Full values.toFinset) :
    ∃ first last, values.getLast? = some first ∧ values.head? = some last := by
  rcases exists_ends values with rfl | hends
  · exact absurd (fun _ hmem => absurd hmem (Finset.notMem_empty _)) hgap
  · exact hends

/-- All members come back if none is missing between the ends. -/
theorem readIndices_of_full (h : Sorted.Ordered Sorted.descending values)
    (hfull : Full values.toFinset) : readIndices values = values.reverse := by
  rcases exists_ends values with rfl | ⟨first, last, hfirst, hlast⟩
  · rfl
  · rw [readIndices_eq hfirst hlast]
    split
    · next hone =>
      obtain ⟨n, rfl⟩ := List.length_eq_one_iff.mp hone
      obtain rfl : n = first := by simpa using hfirst
      rfl
    · rw [if_pos ((span_eq_length_iff h hfirst hlast).mpr hfull)]
      have hinterval : Sorted.Ordered Sorted.ascending
          ((Marshaller.interval first last).map id) := by
        rw [List.map_id]
        exact Marshaller.ordered_interval
      have hreverse : Sorted.Ordered Sorted.ascending (values.reverse.map id) := by
        rw [List.map_id]
        exact Sorted.ordered_reverse.mpr h
      refine Sorted.eq_of_mem_iff hinterval hreverse fun n => ?_
      rw [List.mem_reverse]
      exact ⟨fun hn => interval_subset hfirst hlast hfull hn,
        fun hn => subset_interval h hfirst hlast hn⟩

/-! ## Pair sets -/

/-- The pair is not at an index before this one. -/
def isFrom (index : Nat) (pair : Int64 × Int64) : Bool := decide (index ≤ pair.1.toInt)

theorem countP_succ_le : pairs.countP (isFrom (index + 1)) ≤ pairs.countP (isFrom index) := by
  refine List.countP_mono_left fun other _ hle => ?_
  simp only [isFrom, decide_eq_true_eq] at hle ⊢
  omega

/-- Where there is a pair at an index, there are fewer pairs from the next one on. -/
theorem countP_succ_lt {pair : Int64 × Int64} (hmem : pair ∈ pairs)
    (hindex : pair.1.toInt = index) :
    pairs.countP (isFrom (index + 1)) < pairs.countP (isFrom index) := by
  have hperm := List.perm_cons_erase hmem
  rw [hperm.countP_eq, hperm.countP_eq, List.countP_cons_of_neg (by simp [isFrom, hindex]),
    List.countP_cons_of_pos (by simp [isFrom, hindex]), Nat.lt_add_one_iff]
  exact countP_succ_le

/-- The pairs that are found in `window` places from `index` on. -/
def probed (pairs : List (Int64 × Int64)) (window index : Nat) : List (Int64 × Int64) :=
  (List.range' index window).filterMap fun place =>
    (Sorted.find? (Int64.ofNat place) pairs).map fun value => (Int64.ofNat place, value)

/-- To stop when no pair is missing makes no difference, since all pairs at later indices are
missing. -/
theorem readPairs_eq_probed (hnodup : (pairs.map Prod.fst).Nodup)
    (hbound : index + window ≤ 2 ^ 63) (hmissing : pairs.countP (isFrom index) ≤ missing) :
    readPairs pairs window index missing = probed pairs window index := by
  -- what is found at an index is one of the pairs that were missing
  have hfound : ∀ {place value}, place < 2 ^ 63 →
      Sorted.find? (Int64.ofNat place) pairs = some value →
      (Int64.ofNat place, value) ∈ pairs ∧ (Int64.ofNat place).toInt = place :=
    fun hlt hvalue =>
      ⟨(Sorted.find?_eq_some_iff hnodup).mp hvalue, Int64.toInt_ofNat_of_lt hlt⟩
  induction window generalizing index missing with
  | zero => rfl
  | succ window ih =>
      cases missing with
      | zero =>
          -- nothing is missing any more, so nothing is found at the places that are left
          symm
          refine List.filterMap_eq_nil_iff.mpr fun place hplace => ?_
          rw [List.mem_range'_1] at hplace
          cases hvalue : Sorted.find? (Int64.ofNat place) pairs with
          | none => rfl
          | some value =>
              obtain ⟨hmem, hindex⟩ := hfound (by omega) hvalue
              have hnone := List.countP_eq_zero.mp (Nat.le_zero.mp hmissing) _ hmem
              simp only [isFrom, hindex, decide_eq_true_eq] at hnone
              omega
      | succ missing =>
          rw [probed, List.range'_succ, readPairs]
          cases hvalue : Sorted.find? (Int64.ofNat index) pairs with
          | some value =>
              obtain ⟨hmem, hindex⟩ := hfound (by omega) hvalue
              have hfewer := countP_succ_lt hmem hindex
              rw [List.filterMap_cons_some (by rw [hvalue]; rfl), ih (by omega) (by omega),
                probed]
          | none =>
              rw [List.filterMap_cons_none (by rw [hvalue]; rfl)]
              exact ih (by omega) (countP_succ_le.trans hmissing)

theorem mem_probed (hnodup : (pairs.map Prod.fst).Nodup) (hwindow : window ≤ 2 ^ 63)
    {pair : Int64 × Int64} :
    pair ∈ probed pairs window 0 ↔ pair ∈ pairs ∧ InWindow window pair := by
  simp only [probed, List.mem_filterMap, Option.map_eq_some_iff, List.mem_range'_1,
    Sorted.find?_eq_some_iff hnodup]
  constructor
  · rintro ⟨place, hplace, value, hmem, rfl⟩
    refine ⟨hmem, ?_⟩
    rw [InWindow, Int64.toInt_ofNat_of_lt (by omega)]
    omega
  · rintro ⟨hmem, hpos, hlt⟩
    have hplace : Int64.ofNat pair.1.toInt.toNat = pair.1 := by
      rw [← Int64.toInt_inj, Int64.toInt_ofNat_of_lt (by omega)]
      omega
    refine ⟨pair.1.toInt.toNat, by omega, pair.2, ?_⟩
    rw [hplace]
    exact ⟨hmem, rfl⟩

theorem ordered_probed (hwindow : window ≤ 2 ^ 63) :
    Sorted.Ordered Sorted.ascending ((probed pairs window 0).map Prod.fst) := by
  rw [Sorted.Ordered, List.pairwise_map, probed, List.pairwise_filterMap]
  refine (List.pairwise_lt_range' 1 Nat.one_pos).imp_of_mem ?_
  intro a b ha hb hlt pair hpair pair' hpair'
  rw [List.mem_range'_1] at ha hb
  obtain ⟨value, -, rfl⟩ := Option.map_eq_some_iff.mp hpair
  obtain ⟨value', -, rfl⟩ := Option.map_eq_some_iff.mp hpair'
  refine decide_eq_true ?_
  rw [Int64.lt_iff_toInt_lt, Int64.toInt_ofNat_of_lt (by omega),
    Int64.toInt_ofNat_of_lt (by omega)]
  omega

section Window

variable (h : Sorted.Ordered Sorted.descending (pairs.map Prod.fst)) (hwindow : window ≤ 2 ^ 63)

include h hwindow

theorem readPairs_all :
    readPairs pairs window 0 pairs.length = probed pairs window 0 :=
  readPairs_eq_probed h.nodup (by omega) List.countP_le_length

/-- The pairs in the window come back. -/
theorem mem_readPairs {pair : Int64 × Int64} :
    pair ∈ readPairs pairs window 0 pairs.length ↔ pair ∈ pairs ∧ InWindow window pair := by
  rw [readPairs_all h hwindow, mem_probed h.nodup hwindow]

theorem ordered_readPairs : Sorted.Ordered Sorted.ascending
    ((readPairs pairs window 0 pairs.length).map Prod.fst) := by
  rw [readPairs_all h hwindow]
  exact ordered_probed hwindow

theorem readPairs_eq :
    readPairs pairs window 0 pairs.length = (pairs.filter (InWindow window)).reverse := by
  have hreverse : Sorted.Ordered Sorted.ascending
      ((pairs.filter (InWindow window)).reverse.map Prod.fst) := by
    rw [List.map_reverse, Sorted.ordered_reverse]
    exact h.sublist (List.filter_sublist.map Prod.fst)
  refine Sorted.eq_of_mem_iff (ordered_readPairs h hwindow) hreverse fun pair => ?_
  rw [mem_readPairs h hwindow, List.mem_reverse, List.mem_filter, decide_eq_true_iff]

/-- Fewer pairs come back than there are if and only if some are not in the window. -/
theorem length_readPairs_lt_iff :
    (readPairs pairs window 0 pairs.length).length < pairs.length ↔
      ∃ pair ∈ pairs, ¬ InWindow window pair := by
  rw [readPairs_eq h hwindow, List.length_reverse, List.length_filter_lt_length_iff_exists]
  simp only [decide_eq_true_eq]

end Window

end Content

end Marshal
