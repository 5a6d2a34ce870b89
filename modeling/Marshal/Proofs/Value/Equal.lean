import Mathlib.Data.Fintype.EquivFin
import Marshal.Proofs.Numeric.Fields
import Marshal.Proofs.Value.Normal

/-!
# Equal values

What equality of values comes to.  Only values of one kind are equal.  Among values that are
neither containers nor domain objects equality is symmetric and transitive, and it is finer
than it looks: equal numbers whose signs agree are the same (`Binary.eq_of_beq`).

Containers are equal when equally many elements have partners.  Where no two elements share
a partner, the elements of both sides are paired off (`exists_pairing`).
-/

namespace Marshal

/-! ## Complex numbers -/

namespace Cartesian

variable {α : Type} [BEq α] {z w : Cartesian α}

theorem beq_iff : (z == w) = true ↔ (z.re == w.re) = true ∧ (z.im == w.im) = true := by
  show (z.re == w.re && z.im == w.im) = true ↔ _
  exact Bool.and_eq_true_iff

instance [PartialEquivBEq α] : PartialEquivBEq (Cartesian α) where
  symm h := beq_iff.mpr ⟨BEq.symm (beq_iff.mp h).1, BEq.symm (beq_iff.mp h).2⟩
  trans h h' := beq_iff.mpr
    ⟨BEq.trans (beq_iff.mp h).1 (beq_iff.mp h').1, BEq.trans (beq_iff.mp h).2 (beq_iff.mp h').2⟩

end Cartesian

/-! ## Partners -/

/-- Between two lists of one length, if every element on the left has a partner on the right
and no two of them share one, then the places of both lists are paired off. -/
theorem exists_pairing {α β : Type} {R : α → β → Prop} {xs : List α} {ys : List β}
    (hlength : xs.length = ys.length) (hpartner : ∀ x ∈ xs, ∃ y ∈ ys, R x y)
    (hshare : xs.Pairwise fun x x' => ∀ y ∈ ys, R x y → ¬ R x' y) :
    ∃ pairing : Fin xs.length ≃ Fin ys.length, ∀ i, R (xs.get i) (ys.get (pairing i)) := by
  have hplace : ∀ i : Fin xs.length, ∃ j : Fin ys.length, R (xs.get i) (ys.get j) := by
    intro i
    obtain ⟨y, hy, hrelated⟩ := hpartner (xs.get i) (xs.get_mem i)
    obtain ⟨j, rfl⟩ := List.mem_iff_get.mp hy
    exact ⟨j, hrelated⟩
  choose partner hrelated using hplace
  -- places with one partner are the same, and there are equally many places on both sides
  have hinjective : Function.Injective partner := by
    intro i j heq
    have hj := hrelated j
    rw [← heq] at hj
    have hmem : ys.get (partner i) ∈ ys := ys.get_mem (partner i)
    rcases lt_trichotomy i j with hlt | hsame | hlt
    · exact absurd hj (List.pairwise_iff_get.mp hshare i j hlt _ hmem (hrelated i))
    · exact hsame
    · exact absurd (hrelated i) (List.pairwise_iff_get.mp hshare j i hlt _ hmem hj)
  have hsurjective := (Finite.injective_iff_surjective_of_equiv (finCongr hlength)).mp hinjective
  exact ⟨Equiv.ofBijective partner ⟨hinjective, hsurjective⟩, hrelated⟩

namespace Value

variable {v w u : Value} {s : String}

/-! ## Kinds -/

/-- The value is neither a container nor a domain object. -/
def isSimple : Value → Bool
  | list _ | dict _ | set _ | object _ => false
  | _ => true

/-- Only values of one kind are equal. -/
theorem ctorIdx_of_beq (h : v == w) : v.ctorIdx = w.ctorIdx := by
  have hequals : equals v w = true := h
  unfold equals at hequals
  split at hequals <;> first | rfl | cases hequals

theorem isSimple_of_beq (h : v == w) : v.isSimple = w.isSimple := by
  have hequals : equals v w = true := h
  unfold equals at hequals
  split at hequals <;> first | rfl | cases hequals

theorem isSome_scalar?_of_beq (h : v == w) : v.scalar?.isSome = w.scalar?.isSome := by
  have hequals : equals v w = true := h
  unfold equals at hequals
  split at hequals
  case h_13 => cases hequals
  all_goals simp only [scalar?, Option.isSome_some]

theorem isSimple_of_scalar (h : v.scalar?.isSome) : v.isSimple := by
  cases v <;> first | rfl | exact nomatch h

/-- What is simple has a text as a key. -/
theorem exists_keyText (h : v.isSimple) : ∃ s, v.keyText = .ok s := by
  cases v with
  | bool b => cases b <;> exact ⟨_, rfl⟩
  | list | dict | set | object => exact nomatch h
  | _ => exact ⟨_, rfl⟩

/-! ## Simple values -/

theorem beq_symm (hv : v.isSimple) (h : v == w) : w == v := by
  have hequals : equals v w = true := h
  show equals w v = true
  unfold equals at hequals
  split at hequals
  case h_1 => rw [equals]
  case h_8 | h_9 | h_10 | h_11 => simp [isSimple] at hv
  case h_13 => cases hequals
  all_goals
    rw [equals]
    exact BEq.symm hequals

theorem beq_trans (hv : v.isSimple) (h : v == w) (h' : w == u) : v == u := by
  have hequals : equals v w = true := h
  have hequals' : equals w u = true := h'
  have hkind := ctorIdx_of_beq h'
  show equals v u = true
  unfold equals at hequals
  split at hequals
  case h_1 => exact hequals'
  case h_8 | h_9 | h_10 | h_11 => simp [isSimple] at hv
  case h_13 => cases hequals
  all_goals
    cases u <;> cases hkind
    rw [equals] at hequals' ⊢
    exact BEq.trans hequals hequals'

/-! ## Containers -/

section Containers

variable {xs ys : List Value} {entries entries' : List (Value × Value)}

theorem beq_list_iff :
    (list xs == list ys) = true ↔ xs.length = ys.length ∧ ∀ p ∈ xs.zip ys, p.1 == p.2 := by
  show equals (list xs) (list ys) = true ↔ _
  rw [equals_list, Bool.and_eq_true_iff, beq_iff_eq, List.all_eq_true]
  rfl

theorem beq_dict_iff :
    (dict entries == dict entries') = true ↔ entries.length = entries'.length ∧
      ∀ e ∈ entries, ∃ f ∈ entries', (e.1 == f.1) = true ∧ (e.2 == f.2) = true := by
  show equals (dict entries) (dict entries') = true ↔ _
  simp only [equals_dict, Bool.and_eq_true_iff, beq_iff_eq, List.all_eq_true, List.any_eq_true]
  rfl

theorem beq_set_iff :
    (set xs == set ys) = true ↔ xs.length = ys.length ∧ ∀ x ∈ xs, ∃ y ∈ ys, y == x := by
  show equals (set xs) (set ys) = true ↔ _
  simp only [equals_set, Bool.and_eq_true_iff, beq_iff_eq, List.all_eq_true, List.any_eq_true]
  rfl

theorem beq_list_iff_getElem :
    (list xs == list ys) = true ↔ xs.length = ys.length ∧
      ∀ i (hi : i < xs.length) (hi' : i < ys.length), (xs[i] == ys[i]) = true := by
  rw [beq_list_iff]
  refine and_congr_right fun hlength => ?_
  rw [List.forall_mem_iff_forall_getElem]
  constructor
  · intro h i hi hi'
    have hpair := h i (by rw [List.length_zip]; omega)
    rwa [List.getElem_zip] at hpair
  · intro h i hi
    rw [List.getElem_zip]
    exact h i _ _

theorem exists_list_of_kind (h : w.ctorIdx = (list xs).ctorIdx) : ∃ ys, w = list ys := by
  cases w <;> cases h
  exact ⟨_, rfl⟩

theorem exists_dict_of_kind (h : w.ctorIdx = (dict entries).ctorIdx) :
    ∃ entries', w = dict entries' := by
  cases w <;> cases h
  exact ⟨_, rfl⟩

theorem exists_set_of_kind (h : w.ctorIdx = (set xs).ctorIdx) : ∃ ys, w = set ys := by
  cases w <;> cases h
  exact ⟨_, rfl⟩

theorem exists_list_of_beq (h : list xs == w) : ∃ ys, w = list ys :=
  exists_list_of_kind (ctorIdx_of_beq h).symm

theorem exists_dict_of_beq (h : dict entries == w) : ∃ entries', w = dict entries' :=
  exists_dict_of_kind (ctorIdx_of_beq h).symm

theorem exists_set_of_beq (h : set xs == w) : ∃ ys, w = set ys :=
  exists_set_of_kind (ctorIdx_of_beq h).symm

end Containers

end Value

end Marshal
