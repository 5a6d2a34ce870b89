import Marshal.Proofs.Heap.MembersApart
import Marshal.Proofs.Marshaller.Keeping
import Marshal.Proofs.Marshaller.Picturing

/-!
# Sets of scalars

Two notions of equality meet where a stored set is read.  The heap decides by one of them
what is left out of the set, and values are compared by the other.  They differ for complex
numbers of single and of double precision, which the heap keeps apart even if they have one
value (`Content.mixed`), and they agree on all other scalars (`Heap.Reads.beq_iff`).

So what is read from a set is, in the same order, what a set of these values would hold,
unless the set has two members of that kind (`Heap.Reachable.distinct_liftSet`).
-/

namespace Marshal

variable {heap heap' start : Heap} {handle other : Handle} {members : List Handle}
  {values : List Value} {mutable : Bool} {v w : Value} {m : Marshaller Heap}

/-- Which of the numbers has the single precision does not matter. -/
theorem Number.mixed_comm (a b : Number) : a.mixed b = b.mixed a := by
  unfold mixed
  split <;> first | exact BEq.comm | (split <;> simp_all)

theorem Content.mixed_comm (c d : Content) : c.mixed d = d.mixed c := by
  unfold mixed
  split <;> first | exact Number.mixed_comm _ _ | (split <;> simp_all)

/-- A set of values without repetitions is built from them as they are, and no other. -/
theorem Value.ofMembers_eq_iff : Value.ofMembers values = .set values ↔ Value.Distinct values := by
  have hbuilt : Value.ofMembers values = .set (Value.gathered [] values) := rfl
  rw [hbuilt, Value.set.injEq]
  constructor
  · intro hsame
    rw [← hsame]
    exact Value.distinct_gathered .nil values
  · intro hdistinct
    have hall : gathered [] values = [] ++ values := gathered_of_distinct hdistinct
    exact hall

namespace Heap

/-- The handle leads to a text, a boolean, a buffer or a number. -/
def ScalarAt (heap : Heap) (handle : Handle) : Prop :=
  ∃ content mutable, heap.body? handle = some (content, mutable) ∧ content.isScalar

/-- The handle leads to a scalar that is read as the value. -/
def Reads (heap : Heap) (handle : Handle) (v : Value) : Prop :=
  ∃ content mutable, heap.body? handle = some (content, mutable) ∧ content.value? = some v

namespace Reads

/-- Scalars are read as equal values if they count as one, or if they are equal complex
numbers of different precision. -/
theorem beq_iff (hv : heap.Reads handle v) (hw : heap.Reads other w) :
    (v == w) = true ↔
      Alike Content.same heap handle other ∨ Alike Content.mixed heap handle other := by
  obtain ⟨content, mutable, hbody, hvalue⟩ := hv
  obtain ⟨content', mutable', hbody', hvalue'⟩ := hw
  rw [Content.beq_value hvalue hvalue', Bool.or_eq_true, alike_iff hbody hbody',
    alike_iff hbody hbody']

theorem mixed_comm :
    Alike Content.mixed heap handle other ↔ Alike Content.mixed heap other handle := by
  constructor
  all_goals
    rintro ⟨content, mutable, content', mutable', hbody, hbody', hmixed⟩
    rw [Content.mixed_comm] at hmixed
    exact ⟨content', mutable', content, mutable, hbody', hbody, hmixed⟩

theorem isSimple (h : heap.Reads handle v) : v.isSimple := by
  obtain ⟨content, mutable, -, hvalue⟩ := h
  cases content with
  | number numeral =>
      obtain ⟨-, -, -, ⟨i, rfl⟩ | ⟨x, rfl⟩ | ⟨z, rfl⟩⟩ := Content.value?_number hvalue <;> rfl
  | text | boolean | data =>
      obtain rfl := Option.some.inj hvalue
      rfl
  | _ => exact nomatch hvalue

/-- Of members that are told apart only mixed ones are read as equal values, whichever of
them comes first. -/
theorem beq_iff_mixed (hv : heap.Reads handle v) (hw : heap.Reads other w)
    (h : heap.Unlike handle other ∨ heap.Unlike other handle) :
    (v == w) = true ↔ Alike Content.mixed heap handle other := by
  rcases h with h | h
  · rw [hv.beq_iff hw, or_iff_right h.2]
  · have hcomm : (v == w) = true ↔ (w == v) = true :=
      ⟨Value.beq_symm hv.isSimple, Value.beq_symm hw.isSimple⟩
    rw [hcomm, hw.beq_iff hv, or_iff_right h.2, mixed_comm]

end Reads

end Heap

/-! ## Reading -/

namespace Marshaller.Standard

variable (h : m.Standard)

include h

theorem reads_of_lift {room : Nat} (hpos : heap.Positive) (hscalar : heap.ScalarAt handle)
    (hrun : m.liftWithin room handle heap = .ok v heap') : heap.Reads handle v := by
  obtain ⟨content, mutable, hbody, hscalar⟩ := hscalar
  rw [liftWithin_eq] at hrun
  have hdepicts : Depicts m False content.value? (m.liftObject (m.element? room) handle) heap :=
    h.depicts_scalar hpos hbody hscalar
  exact ⟨content, mutable, hbody, (hdepicts.of_ok hrun).1⟩

/-- Whatever else there is to read, a set of scalars is read as pictured. -/
theorem depicts_liftSet (hcoherent : heap.Coherent)
    (hbody : heap.body? handle = some (.members members, mutable))
    (hscalars : ∀ member ∈ members, heap.ScalarAt member) :
    Depicts m False
      ((heap.pictures? m.window m.limits.maxDepth).bind fun child => members.mapM child)
      (m.liftSet handle) heap := by
  have hlive : ∀ member ∈ members, heap.Live member := by
    intro member hmember
    obtain ⟨content, mutable, hcontent, -⟩ := hscalars member hmember
    exact Heap.live_of_body? hcontent
  refine depicts_deeper fun deeper _ => ?_
  refine h.depicts_readSet hcoherent.positive hbody hlive fun collected _ _ hother => ?_
  refine List.forall₂_same.mpr fun member hmember later hspares => ?_
  obtain ⟨content, mutable, hcontent, hscalar⟩ := hscalars member hmember
  have hlater : later.body? member = some (content, mutable) := by
    rw [hspares.body?_eq, hother member (Heap.ne_new_of_live (hlive member hmember)), hcontent]
  rw [Heap.picture?_of_body? hcontent, Content.picture?_of_isScalar hscalar, liftWithin_eq]
  exact h.depicts_scalar hspares.grows.conserved.positive hlater hscalar

/-- Each member of a set of scalars is read as it is, in the order of the members. -/
theorem reads_of_liftSet (hcoherent : heap.Coherent)
    (hbody : heap.body? handle = some (.members members, mutable))
    (hscalars : ∀ member ∈ members, heap.ScalarAt member)
    (hrun : m.liftSet handle heap = .ok values heap') :
    List.Forall₂ heap.Reads members values := by
  have hdepicts := h.depicts_liftSet hcoherent hbody hscalars
  obtain ⟨child, hchild, hall⟩ := Option.bind_eq_some_iff.mp (hdepicts.of_ok hrun).1
  refine forall₂_imp_of_mem (mapM_eq_some.mp hall) fun member hmember v hv => ?_
  obtain ⟨content, mutable, hcontent, hscalar⟩ := hscalars member hmember
  obtain ⟨deeper, hdeeper⟩ : ∃ deeper, m.limits.maxDepth = deeper + 1 := by
    cases hroom : m.limits.maxDepth with
    | zero =>
        rw [hroom] at hchild
        exact nomatch hchild
    | succ deeper => exact ⟨deeper, rfl⟩
  rw [hdeeper] at hchild
  obtain rfl := Option.some.inj hchild
  rw [Heap.picture?_of_body? hcontent, Content.picture?_of_isScalar hscalar] at hv
  exact ⟨content, mutable, hcontent, hv⟩

end Marshaller.Standard

/-! ## Sets -/

namespace Heap

/-- Two of the values that are read from a set are equal just when the members are mixed. -/
theorem MembersApart.beq_iff_mixed (h : heap.MembersApart)
    (hbody : heap.body? handle = some (.members members, mutable))
    (hreads : List.Forall₂ heap.Reads members values) {i j : Nat} (hne : i ≠ j)
    (hi : i < members.length) (hj : j < members.length)
    (hi' : i < values.length) (hj' : j < values.length) :
    (values[i] == values[j]) = true ↔ Alike Content.mixed heap members[i] members[j] := by
  have hunlike := List.pairwise_iff_getElem.mp (h handle members mutable hbody)
  apply (hreads.get hi hi').beq_iff_mixed (hreads.get hj hj')
  rcases lt_or_gt_of_ne hne with hlt | hlt
  · exact .inl (hunlike i j hi hj hlt)
  · exact .inr (hunlike j i hj hi hlt)

/-- What is read from a set of scalars is pairwise unequal, and so just what a set of the
values would hold, if no two members are complex numbers of one value and of different
precision; such members are read as equal values.  This is the only way in which scalars
that do not count as one are read as equal values. -/
theorem Reachable.distinct_liftSet {registry : Registry Heap} (hstart : start.Reachable)
    (hheap : heap.Reachable) (limits : Limits)
    (hclaims : ∀ type : StandardType, registry.claimant? type.name = none)
    (hbody : heap.body? handle = some (.members members, mutable))
    (hscalars : ∀ member ∈ members, heap.ScalarAt member)
    (hrun : (Marshaller.make Heap.store start registry limits).liftSet handle heap =
      .ok values heap') :
    values.length = members.length ∧
    (∀ (i j : Nat) (hi : i < members.length) (hj : j < members.length)
      (hi' : i < values.length) (hj' : j < values.length), i ≠ j →
      ((values[i] == values[j]) = true ↔ Alike Content.mixed heap members[i] members[j])) ∧
    (Value.Distinct values ↔ members.Pairwise fun a b => ¬ Alike Content.mixed heap a b) ∧
    (Value.ofMembers values = .set values ↔ Value.Distinct values) ∧
    ∀ (a b : Handle) (v w : Value) (heap₁ heap₂ : Heap), heap.ScalarAt a → heap.ScalarAt b →
      (Marshaller.make Heap.store start registry limits).lift (some a) heap = .ok v heap₁ →
      (Marshaller.make Heap.store start registry limits).lift (some b) heap = .ok w heap₂ →
      ((v == w) = true ↔ Alike Content.same heap a b ∨ Alike Content.mixed heap a b) := by
  have hm := hstart.standard limits hclaims
  have hreads := hm.reads_of_liftSet hheap.coherent hbody hscalars hrun
  have hlength : values.length = members.length := hreads.length_eq.symm
  refine ⟨hlength, fun i j hi hj hi' hj' hne => ?_, ?_, Value.ofMembers_eq_iff, ?_⟩
  · exact hheap.membersApart.beq_iff_mixed hbody hreads hne hi hj hi' hj'
  · rw [Value.Distinct, List.pairwise_iff_getElem, List.pairwise_iff_getElem]
    constructor
    · intro hdistinct i j hi hj hlt hmixed
      have hne := hdistinct i j (by omega) (by omega) hlt
      rw [Bool.eq_false_iff] at hne
      exact hne ((hheap.membersApart.beq_iff_mixed hbody hreads hlt.ne hi hj _ _).mpr hmixed)
    · intro hapart i j hi hj hlt
      rw [Bool.eq_false_iff]
      intro hequal
      apply hapart i j (by omega) (by omega) hlt
      exact (hheap.membersApart.beq_iff_mixed hbody hreads hlt.ne _ _ hi hj).mp hequal
  · intro a b v w heap₁ heap₂ ha hb hlift hlift'
    have hv := hm.reads_of_lift hheap.positive ha hlift
    have hw := hm.reads_of_lift hheap.positive hb hlift'
    exact hv.beq_iff hw

end Heap

/-! ## A set with one number in two precisions -/

namespace Client

/-- A set holds the number one twice, as a complex number of single and of double
precision. -/
def mixing : Client :=
  ((((({} : Client).step (.ask (.create .valueSet))).step
    (.ask (.createNumber (.complex64 ⟨⟨0x3f800000⟩, ⟨0⟩⟩)))).step
    (.ask (.createNumber (.complex128 ⟨⟨0x3ff0000000000000⟩, ⟨0⟩⟩)))).step
    (.ask (.addMember (.object 0) (.object 1)))).step
    (.ask (.addMember (.object 0) (.object 2)))

theorem mixing_reachable : mixing.Reachable :=
  ((((Reachable.fresh.step _ (Multiset.zero_le _)).step _ (Multiset.zero_le _)).step _
    (Multiset.zero_le _)).step _ (Multiset.zero_le _)).step _ (Multiset.zero_le _)

theorem mixing_members : mixing.heap.body? (.object 0) =
    some (.members [.object 1, .object 2], true) := rfl

theorem mixing_scalars : ∀ member ∈ [Handle.object 1, .object 2],
    mixing.heap.ScalarAt member := by
  intro member hmember
  rcases List.mem_pair.mp hmember with rfl | rfl <;> exact ⟨_, _, rfl, rfl⟩

theorem mixing_alike : Heap.Alike Content.mixed mixing.heap (.object 1) (.object 2) :=
  ⟨_, _, _, _, rfl, rfl, by decide⟩

/-- The set is read as the number one and the number one. -/
theorem exists_liftSet_mixing : ∃ v w heap',
    (Marshaller.make Heap.store mixing.heap {} {}).liftSet (.object 0) mixing.heap =
      .ok [v, w] heap' ∧ v == w := by
  have hheap := mixing_reachable.heap_reachable
  have hm : (Marshaller.make Heap.store mixing.heap {} {}).Standard :=
    hheap.standard {} fun _ => rfl
  have hdepicts := hm.depicts_liftSet hheap.coherent mixing_members mixing_scalars
  cases hrun : (Marshaller.make Heap.store mixing.heap {} {}).liftSet (.object 0) mixing.heap with
  | error failure heap' =>
      rcases hdepicts.of_error hrun with hshort | ⟨hnone, -⟩
      · exact absurd rfl hshort.1
      · exact nomatch hnone
  | ok values heap' =>
      have hreads := hm.reads_of_liftSet hheap.coherent mixing_members mixing_scalars hrun
      obtain ⟨v, rest, hv, hrest, rfl⟩ := List.forall₂_cons_left_iff.mp hreads
      obtain ⟨w, rest, hw, hnil, rfl⟩ := List.forall₂_cons_left_iff.mp hrest
      obtain rfl := List.forall₂_nil_left_iff.mp hnil
      exact ⟨v, w, heap', rfl, (hv.beq_iff hw).mpr (.inr mixing_alike)⟩

theorem distinct_liftSet_mixing : ∃ values heap',
    (Marshaller.make Heap.store mixing.heap {} {}).liftSet (.object 0) mixing.heap =
      .ok values heap' ∧
    values.length = 2 ∧ ¬ Value.Distinct values ∧ Value.ofMembers values ≠ .set values := by
  obtain ⟨v, w, heap', hrun, -⟩ := exists_liftSet_mixing
  have hheap := mixing_reachable.heap_reachable
  obtain ⟨hlength, -, hdistinct, hbuilt, -⟩ :=
    hheap.distinct_liftSet hheap {} (fun _ => rfl) mixing_members mixing_scalars hrun
  have hnot : ¬ Value.Distinct [v, w] := by
    rw [hdistinct]
    exact fun hapart => List.rel_of_pairwise_cons hapart (List.mem_singleton_self _) mixing_alike
  exact ⟨[v, w], heap', hrun, hlength, hnot, fun hsame => hnot (hbuilt.mp hsame)⟩

/-- It is not so that what is read from a set of scalars is always pairwise unequal. -/
theorem reads_repetition :
    ¬ ∀ (client : Client) (handle : Handle) (members : List Handle) (mutable : Bool)
      (values : List Value) (heap' : Heap), client.Reachable →
      client.heap.body? handle = some (.members members, mutable) →
      (∀ member ∈ members, client.heap.ScalarAt member) →
      (Marshaller.make Heap.store client.heap {} {}).liftSet handle client.heap =
        .ok values heap' →
      Value.Distinct values := by
  intro h
  obtain ⟨v, w, heap', hrun, hequal⟩ := exists_liftSet_mixing
  have hdistinct := h mixing _ _ _ _ _ mixing_reachable mixing_members mixing_scalars hrun
  have hne := List.rel_of_pairwise_cons hdistinct (List.mem_singleton_self w)
  rw [hequal] at hne
  exact nomatch hne

end Client

end Marshal
