import Marshal.Proofs.Value.Equal

/-!
# Equality as an equivalence

Equality of values counts elements and looks for a partner of each on one side only, so it
is no equivalence in general: the set of 1 and 1 equals the set of 1 and 2, but not the
other way round.  It is one on *proper* values, whose dictionaries have no equal keys and
whose sets have no equal members, but for NaN.

* Transitivity needs the middle value alone (`Proper.beq_trans`).
* For symmetry the elements of containers have to be paired off.  By transitivity, elements
  that share a partner are equal, so in a proper container no two of them do, and equally
  many on both sides leave none over (`exists_pairing_of_set`, `exists_pairing_of_dict`).
* A value equals itself unless a NaN occurs in it (`Proper.beq_self_iff`).

Domain objects are left out, for they are equal to what they like.
-/

namespace Marshal

namespace Value

/-- No part of the value is a domain object, no dictionary has equal keys and no set has
equal members. -/
inductive Proper : Value → Prop
  | simple {v : Value} (h : v.isSimple) : Proper v
  | list {items : List Value} (hitems : ∀ item ∈ items, Proper item) : Proper (.list items)
  | dict {entries : List (Value × Value)} (hkeys : ∀ entry ∈ entries, Proper entry.1)
      (hvalues : ∀ entry ∈ entries, Proper entry.2)
      (hdistinct : Distinct (entries.map Prod.fst)) : Proper (.dict entries)
  | set {members : List Value} (hmembers : ∀ member ∈ members, Proper member)
      (hdistinct : Distinct members) : Proper (.set members)

/-- A NaN occurs somewhere in the value, as a number or as a part of a complex one. -/
inductive BearsNaN : Value → Prop
  | float {x : Binary64} (h : x.isNaN) : BearsNaN (.float x)
  | complex {z : Cartesian Binary64} (h : z.re.isNaN ∨ z.im.isNaN) : BearsNaN (.complex z)
  | item {items : List Value} {item : Value} (hmem : item ∈ items) (h : BearsNaN item) :
      BearsNaN (.list items)
  | key {entries : List (Value × Value)} {entry : Value × Value} (hmem : entry ∈ entries)
      (h : BearsNaN entry.1) : BearsNaN (.dict entries)
  | value {entries : List (Value × Value)} {entry : Value × Value} (hmem : entry ∈ entries)
      (h : BearsNaN entry.2) : BearsNaN (.dict entries)
  | member {members : List Value} {member : Value} (hmem : member ∈ members)
      (h : BearsNaN member) : BearsNaN (.set members)

variable {v w u : Value} {xs ys : List Value} {entries entries' : List (Value × Value)}

/-! ## Parts of proper values -/

theorem Proper.item (h : Proper (.list xs)) : ∀ x ∈ xs, x.Proper := by
  cases h with
  | simple hnone => exact nomatch hnone
  | list hitems => exact hitems

theorem Proper.entry (h : Proper (.dict entries)) : ∀ e ∈ entries, e.1.Proper ∧ e.2.Proper := by
  cases h with
  | simple hnone => exact nomatch hnone
  | dict hkeys hvalues => exact fun e he => ⟨hkeys e he, hvalues e he⟩

theorem Proper.distinctKeys (h : Proper (.dict entries)) : Distinct (entries.map Prod.fst) := by
  cases h with
  | simple hnone => exact nomatch hnone
  | dict _ _ hdistinct => exact hdistinct

theorem Proper.member (h : Proper (.set xs)) : ∀ x ∈ xs, x.Proper := by
  cases h with
  | simple hnone => exact nomatch hnone
  | set hmembers => exact hmembers

theorem Proper.distinct (h : Proper (.set xs)) : Distinct xs := by
  cases h with
  | simple hnone => exact nomatch hnone
  | set _ hdistinct => exact hdistinct

/-! ## Transitivity -/

/-- What equals a proper value equals whatever that one equals. -/
theorem Proper.beq_trans (hw : w.Proper) (h : v == w) (h' : w == u) : v == u := by
  induction hw generalizing v u with
  | simple hsimple => exact Value.beq_trans ((isSimple_of_beq h).trans hsimple) h h'
  | @list items _ ih =>
      obtain ⟨xs, rfl⟩ := exists_list_of_kind (ctorIdx_of_beq h)
      obtain ⟨ys, rfl⟩ := exists_list_of_beq h'
      obtain ⟨hlength, hitems⟩ := beq_list_iff_getElem.mp h
      obtain ⟨hlength', hitems'⟩ := beq_list_iff_getElem.mp h'
      refine beq_list_iff_getElem.mpr ⟨hlength.trans hlength', fun i hi hi' => ?_⟩
      have hmiddle : i < items.length := hlength ▸ hi
      exact ih items[i] (List.getElem_mem hmiddle) (hitems i hi hmiddle) (hitems' i hmiddle hi')
  | dict _ _ _ ihkeys ihvalues =>
      obtain ⟨entries, rfl⟩ := exists_dict_of_kind (ctorIdx_of_beq h)
      obtain ⟨entries', rfl⟩ := exists_dict_of_beq h'
      obtain ⟨hlength, hpartner⟩ := beq_dict_iff.mp h
      obtain ⟨hlength', hpartner'⟩ := beq_dict_iff.mp h'
      refine beq_dict_iff.mpr ⟨hlength.trans hlength', fun e he => ?_⟩
      obtain ⟨m, hm, hkey, hvalue⟩ := hpartner e he
      obtain ⟨f, hf, hkey', hvalue'⟩ := hpartner' m hm
      exact ⟨f, hf, ihkeys m hm hkey hkey', ihvalues m hm hvalue hvalue'⟩
  | set _ _ ih =>
      obtain ⟨xs, rfl⟩ := exists_set_of_kind (ctorIdx_of_beq h)
      obtain ⟨ys, rfl⟩ := exists_set_of_beq h'
      obtain ⟨hlength, hpartner⟩ := beq_set_iff.mp h
      obtain ⟨hlength', hpartner'⟩ := beq_set_iff.mp h'
      refine beq_set_iff.mpr ⟨hlength.trans hlength', fun x hx => ?_⟩
      obtain ⟨m, hm, hsame⟩ := hpartner x hx
      obtain ⟨y, hy, hsame'⟩ := hpartner' m hm
      exact ⟨y, hy, ih m hm hsame' hsame⟩

/-! ## Pairing off -/

/-- The places of two sets that are equal are paired off. -/
theorem exists_pairing_of_set (h : set xs == set ys) (hys : ∀ y ∈ ys, y.Proper)
    (hdistinct : Distinct xs)
    (hcomm : ∀ x ∈ xs, ∀ y ∈ ys, (x == y) = true ↔ (y == x) = true) :
    ∃ pairing : Fin xs.length ≃ Fin ys.length,
      ∀ i, (xs.get i == ys.get (pairing i)) = true := by
  obtain ⟨hlength, hpartner⟩ := beq_set_iff.mp h
  refine exists_pairing (R := fun x y => (x == y) = true) hlength (fun x hx => ?_) ?_
  · obtain ⟨y, hy, hsame⟩ := hpartner x hx
    exact ⟨y, hy, (hcomm x hx y hy).mpr hsame⟩
  · refine hdistinct.imp_of_mem fun {x x'} _ hx' hne y hy hsame hsame' => ?_
    have hequal : x == x' := (hys y hy).beq_trans hsame ((hcomm x' hx' y hy).mp hsame')
    exact absurd hequal (by simp [hne])

/-- The places of two dictionaries that are equal are paired off. -/
theorem exists_pairing_of_dict (h : dict entries == dict entries')
    (hkeys : ∀ f ∈ entries', f.1.Proper) (hdistinct : Distinct (entries.map Prod.fst))
    (hcomm : ∀ e ∈ entries, ∀ f ∈ entries', (e.1 == f.1) = true ↔ (f.1 == e.1) = true) :
    ∃ pairing : Fin entries.length ≃ Fin entries'.length, ∀ i,
      ((entries.get i).1 == (entries'.get (pairing i)).1) = true ∧
        ((entries.get i).2 == (entries'.get (pairing i)).2) = true := by
  obtain ⟨hlength, hpartner⟩ := beq_dict_iff.mp h
  refine exists_pairing (R := fun e f => (e.1 == f.1) = true ∧ (e.2 == f.2) = true) hlength
    hpartner ?_
  refine (List.pairwise_map.mp hdistinct).imp_of_mem fun {e e'} _ he' hne f hf hsame hsame' => ?_
  have hequal : e.1 == e'.1 :=
    (hkeys f hf).beq_trans hsame.1 ((hcomm e' he' f hf).mp hsame'.1)
  exact absurd hequal (by simp [hne])

/-- Sets whose places are paired off are equal, read from the right. -/
theorem beq_set_of_pairing (pairing : Fin xs.length ≃ Fin ys.length)
    (h : ∀ i, (xs.get i == ys.get (pairing i)) = true) : set ys == set xs := by
  refine beq_set_iff.mpr ⟨(Fin.equiv_iff_eq.mp ⟨pairing⟩).symm, fun y hy => ?_⟩
  obtain ⟨j, rfl⟩ := List.mem_iff_get.mp hy
  refine ⟨xs.get (pairing.symm j), xs.get_mem _, ?_⟩
  simpa using h (pairing.symm j)

theorem beq_dict_of_pairing (pairing : Fin entries.length ≃ Fin entries'.length)
    (h : ∀ i, ((entries.get i).1 == (entries'.get (pairing i)).1) = true ∧
      ((entries.get i).2 == (entries'.get (pairing i)).2) = true) :
    dict entries == dict entries' := by
  refine beq_dict_iff.mpr ⟨Fin.equiv_iff_eq.mp ⟨pairing⟩, fun e he => ?_⟩
  obtain ⟨i, rfl⟩ := List.mem_iff_get.mp he
  exact ⟨entries'.get (pairing i), entries'.get_mem _, h i⟩

/-! ## Symmetry -/

theorem beq_list_symm (h : list xs == list ys)
    (hcomm : ∀ x ∈ xs, ∀ y ∈ ys, (x == y) = true ↔ (y == x) = true) : list ys == list xs := by
  obtain ⟨hlength, hitems⟩ := beq_list_iff_getElem.mp h
  refine beq_list_iff_getElem.mpr ⟨hlength.symm, fun i hi hi' => ?_⟩
  exact (hcomm _ (List.getElem_mem hi') _ (List.getElem_mem hi)).mp (hitems i hi' hi)

theorem beq_dict_symm (h : dict entries == dict entries')
    (hkeys : ∀ f ∈ entries', f.1.Proper) (hdistinct : Distinct (entries.map Prod.fst))
    (hcomm : ∀ e ∈ entries, ∀ f ∈ entries', (e.1 == f.1) = true ↔ (f.1 == e.1) = true)
    (hcomm' : ∀ e ∈ entries, ∀ f ∈ entries', (e.2 == f.2) = true ↔ (f.2 == e.2) = true) :
    dict entries' == dict entries := by
  obtain ⟨pairing, hpaired⟩ := exists_pairing_of_dict h hkeys hdistinct hcomm
  refine beq_dict_of_pairing pairing.symm fun j => ?_
  obtain ⟨hkey, hvalue⟩ := hpaired (pairing.symm j)
  rw [Equiv.apply_symm_apply] at hkey hvalue
  exact ⟨(hcomm _ (entries.get_mem _) _ (entries'.get_mem j)).mp hkey,
    (hcomm' _ (entries.get_mem _) _ (entries'.get_mem j)).mp hvalue⟩

theorem beq_set_symm (h : set xs == set ys) (hys : ∀ y ∈ ys, y.Proper) (hdistinct : Distinct xs)
    (hcomm : ∀ x ∈ xs, ∀ y ∈ ys, (x == y) = true ↔ (y == x) = true) : set ys == set xs := by
  obtain ⟨pairing, hpaired⟩ := exists_pairing_of_set h hys hdistinct hcomm
  exact beq_set_of_pairing pairing hpaired

/-- Of proper values either one may come first.  Both directions go through the induction
together, since a member of a set is compared with the members of the other one, and not
the other way round. -/
theorem Proper.beq_comm (hv : v.Proper) (hw : w.Proper) : (v == w) = true ↔ (w == v) = true := by
  induction hv generalizing w with
  | simple hsimple =>
      refine ⟨Value.beq_symm hsimple, fun h => ?_⟩
      exact Value.beq_symm ((isSimple_of_beq h).trans hsimple) h
  | @list items _ ih =>
      have hcomm : ∀ {ys}, w = Value.list ys → ∀ x ∈ items, ∀ y ∈ ys,
          (x == y) = true ↔ (y == x) = true := by
        rintro ys rfl x hx y hy
        exact ih x hx (hw.item y hy)
      constructor
      · intro h
        obtain ⟨ys, rfl⟩ := exists_list_of_beq h
        exact beq_list_symm h (hcomm rfl)
      · intro h
        obtain ⟨ys, rfl⟩ := exists_list_of_kind (ctorIdx_of_beq h)
        exact beq_list_symm h fun y hy x hx => (hcomm rfl x hx y hy).symm
  | @dict entries hkeys hvalues hdistinct ihkeys ihvalues =>
      have hcomm : ∀ {entries'}, w = Value.dict entries' → ∀ e ∈ entries, ∀ f ∈ entries',
          ((e.1 == f.1) = true ↔ (f.1 == e.1) = true) ∧
            ((e.2 == f.2) = true ↔ (f.2 == e.2) = true) := by
        rintro entries' rfl e he f hf
        obtain ⟨hkey, hvalue⟩ := hw.entry f hf
        exact ⟨ihkeys e he hkey, ihvalues e he hvalue⟩
      constructor
      · intro h
        obtain ⟨entries', rfl⟩ := exists_dict_of_beq h
        exact beq_dict_symm h (fun f hf => (hw.entry f hf).1) hdistinct
          (fun e he f hf => (hcomm rfl e he f hf).1) fun e he f hf => (hcomm rfl e he f hf).2
      · intro h
        obtain ⟨entries', rfl⟩ := exists_dict_of_kind (ctorIdx_of_beq h)
        exact beq_dict_symm h hkeys hw.distinctKeys (fun f hf e he => (hcomm rfl e he f hf).1.symm)
          fun f hf e he => (hcomm rfl e he f hf).2.symm
  | @set members hmembers hdistinct ih =>
      have hcomm : ∀ {ys}, w = Value.set ys → ∀ x ∈ members, ∀ y ∈ ys,
          (x == y) = true ↔ (y == x) = true := by
        rintro ys rfl x hx y hy
        exact ih x hx (hw.member y hy)
      constructor
      · intro h
        obtain ⟨ys, rfl⟩ := exists_set_of_beq h
        exact beq_set_symm h hw.member hdistinct (hcomm rfl)
      · intro h
        obtain ⟨ys, rfl⟩ := exists_set_of_kind (ctorIdx_of_beq h)
        exact beq_set_symm h hmembers hw.distinct fun y hy x hx => (hcomm rfl x hx y hy).symm

theorem Proper.beq_symm (hv : v.Proper) (hw : w.Proper) (h : v == w) : w == v :=
  (hv.beq_comm hw).mp h

/-- Proper sets are equal just when their places are paired off so that members of one pair
are equal. -/
theorem Proper.beq_set_iff_pairing (hv : (Value.set xs).Proper) (hw : (Value.set ys).Proper) :
    (Value.set xs == Value.set ys) = true ↔ ∃ pairing : Fin xs.length ≃ Fin ys.length,
      ∀ i, (xs.get i == ys.get (pairing i)) = true := by
  have hcomm : ∀ x ∈ xs, ∀ y ∈ ys, (x == y) = true ↔ (y == x) = true :=
    fun x hx y hy => (hv.member x hx).beq_comm (hw.member y hy)
  constructor
  · intro h
    exact exists_pairing_of_set h hw.member hv.distinct hcomm
  · rintro ⟨pairing, hpaired⟩
    exact (hw.beq_comm hv).mp (beq_set_of_pairing pairing hpaired)

/-- Proper dictionaries are equal just when their places are paired off so that entries of
one pair have equal keys and equal values. -/
theorem Proper.beq_dict_iff_pairing (hv : (Value.dict entries).Proper)
    (hw : (Value.dict entries').Proper) :
    (Value.dict entries == Value.dict entries') = true ↔
      ∃ pairing : Fin entries.length ≃ Fin entries'.length, ∀ i,
        ((entries.get i).1 == (entries'.get (pairing i)).1) = true ∧
          ((entries.get i).2 == (entries'.get (pairing i)).2) = true := by
  constructor
  · intro h
    refine exists_pairing_of_dict h (fun f hf => (hw.entry f hf).1) hv.distinctKeys ?_
    exact fun e he f hf => (hv.entry e he).1.beq_comm (hw.entry f hf).1
  · rintro ⟨pairing, hpaired⟩
    exact beq_dict_of_pairing pairing hpaired

/-! ## Reflexivity -/

/-- What equals anything equals itself. -/
theorem Proper.beq_self_of_beq (hv : v.Proper) (hw : w.Proper) (h : v == w) : v == v :=
  hw.beq_trans h (hv.beq_symm hw h)

theorem beq_self_iff_of_isSimple (h : v.isSimple) : (v == v) = true ↔ ¬ v.BearsNaN := by
  show equals v v = true ↔ _
  cases v with
  | float x =>
      have hself : (x == x) = true ↔ x.isNaN = false := by simp [Binary.beq_iff]
      rw [equals, hself]
      constructor
      · rintro hnumber (hnan | _)
        exact absurd hnan (by simp [hnumber])
      · intro hnumber
        exact Bool.eq_false_iff.mpr fun hnan => hnumber (.float hnan)
  | complex z =>
      have hself : (z == z) = true ↔ z.re.isNaN = false ∧ z.im.isNaN = false := by
        simp [Cartesian.beq_iff, Binary.beq_iff]
      rw [equals, hself]
      constructor
      · rintro hnumber (_ | hnan)
        simp [hnumber] at hnan
      · intro hnumber
        exact ⟨Bool.eq_false_iff.mpr fun hnan => hnumber (.complex (.inl hnan)),
          Bool.eq_false_iff.mpr fun hnan => hnumber (.complex (.inr hnan))⟩
  | list | dict | set | object => exact absurd h Bool.false_ne_true
  | _ =>
      simp only [equals, beq_self_eq_true, true_iff]
      intro hnan
      cases hnan

/-- A proper value equals itself just when no NaN occurs in it. -/
theorem Proper.beq_self_iff (hv : v.Proper) : (v == v) = true ↔ ¬ v.BearsNaN := by
  induction hv with
  | simple h => exact beq_self_iff_of_isSimple h
  | @list items _ ih =>
      have hself : (Value.list items == Value.list items) = true ↔ ∀ x ∈ items, x == x := by
        simp [beq_list_iff_getElem, List.forall_mem_iff_forall_getElem]
      rw [hself, forall₂_congr ih]
      constructor
      · rintro hnone (_ | _ | ⟨hmem, hnan⟩)
        exact hnone _ hmem hnan
      · exact fun hnone x hx hnan => hnone (.item hx hnan)
  | @dict entries hkeys hvalues _ ihkeys ihvalues =>
      rw [beq_dict_iff]
      constructor
      · rintro ⟨-, hpartner⟩ (_ | _ | _ | ⟨hmem, hnan⟩ | ⟨hmem, hnan⟩)
        · obtain ⟨f, hf, hkey, -⟩ := hpartner _ hmem
          exact (ihkeys _ hmem).mp ((hkeys _ hmem).beq_self_of_beq (hkeys f hf) hkey) hnan
        · obtain ⟨f, hf, -, hvalue⟩ := hpartner _ hmem
          exact (ihvalues _ hmem).mp ((hvalues _ hmem).beq_self_of_beq (hvalues f hf) hvalue) hnan
      · intro hnone
        refine ⟨rfl, fun e he => ⟨e, he, ?_, ?_⟩⟩
        · exact (ihkeys e he).mpr fun hnan => hnone (.key he hnan)
        · exact (ihvalues e he).mpr fun hnan => hnone (.value he hnan)
  | @set members hmembers _ ih =>
      rw [beq_set_iff]
      constructor
      · rintro ⟨-, hpartner⟩ (_ | _ | _ | _ | _ | ⟨hmem, hnan⟩)
        obtain ⟨y, hy, hsame⟩ := hpartner _ hmem
        have hsame' := (hmembers y hy).beq_symm (hmembers _ hmem) hsame
        exact (ih _ hmem).mp ((hmembers _ hmem).beq_self_of_beq (hmembers y hy) hsame') hnan
      · intro hnone
        exact ⟨rfl, fun x hx => ⟨x, hx, (ih x hx).mpr fun hnan => hnone (.member hx hnan)⟩⟩

/-! ## All of it -/

/-- On proper values equality is symmetric and transitive, and it is reflexive but for NaN.
Sets, and dictionaries, are equal just when their elements can be paired off, equal ones with
equal ones. -/
theorem Proper.beq_equivalence (hv : v.Proper) (hw : w.Proper) :
    (v == w → w == v) ∧
    (∀ u, v == w → w == u → v == u) ∧
    ((v == v) = true ↔ ¬ v.BearsNaN) ∧
    (∀ xs ys, v = .set xs → w = .set ys →
      ((v == w) = true ↔ ∃ pairing : Fin xs.length ≃ Fin ys.length,
        ∀ i, (xs.get i == ys.get (pairing i)) = true)) ∧
    ∀ entries entries', v = .dict entries → w = .dict entries' →
      ((v == w) = true ↔ ∃ pairing : Fin entries.length ≃ Fin entries'.length, ∀ i,
        ((entries.get i).1 == (entries'.get (pairing i)).1) = true ∧
          ((entries.get i).2 == (entries'.get (pairing i)).2) = true) := by
  refine ⟨hv.beq_symm hw, fun u => hw.beq_trans, hv.beq_self_iff, ?_, ?_⟩
  · rintro xs ys rfl rfl
    exact hv.beq_set_iff_pairing hw
  · rintro entries entries' rfl rfl
    exact hv.beq_dict_iff_pairing hw

/-- The members of a set are in another order, at two levels, and a zero is the other one.  With
a NaN the set does not even equal itself. -/
theorem Proper.beq_equivalence_of_reordered :
    let v : Value := .set [.float ⟨0⟩, .list [.set [.int 1, .text "a"]]]
    let w : Value := .set [.list [.set [.text "a", .int 1]], .float ⟨0x8000000000000000⟩]
    let u : Value := .set [.float .nan]
    v.Proper ∧ w.Proper ∧ u.Proper ∧ v == w ∧ w == v ∧ v == v ∧ (u == u) = false := by
  intro v w u
  have hpair : ∀ x y : Value, x.Proper → y.Proper → (x == y) = false →
      (Value.set [x, y]).Proper := by
    intro x y hx hy hne
    refine .set ?_ (List.pairwise_pair.mpr hne)
    exact List.forall_mem_cons.mpr ⟨hx, List.forall_mem_singleton.mpr hy⟩
  have hnested : ∀ x y : Value, x.isSimple → y.isSimple → (x == y) = false →
      (Value.list [.set [x, y]]).Proper := fun x y hx hy hne =>
    .list (List.forall_mem_singleton.mpr (hpair x y (.simple hx) (.simple hy) hne))
  have hv : v.Proper := by
    refine hpair _ _ (.simple rfl) (hnested _ _ rfl rfl ?_) ?_
    all_goals
      show equals _ _ = false
      simp [equals]
  have hw : w.Proper := by
    refine hpair _ _ (hnested _ _ rfl rfl ?_) (.simple rfl) ?_
    all_goals
      show equals _ _ = false
      simp [equals]
  have hu : u.Proper :=
    .set (List.forall_mem_singleton.mpr (.simple rfl)) (List.pairwise_singleton _ _)
  have h : v == w := by
    show equals _ _ = true
    simp [v, w, equals, BEq.symm Binary.zeros_beq]
  obtain ⟨hsymm, htrans, -⟩ := Proper.beq_equivalence hv hw
  obtain ⟨-, -, hself, -⟩ := Proper.beq_equivalence hu hu
  refine ⟨hv, hw, hu, h, hsymm h, htrans v h (hsymm h), ?_⟩
  rw [Bool.eq_false_iff, ne_eq, hself, not_not]
  exact .member (List.mem_singleton_self _) (.float (by decide))

end Value

end Marshal
