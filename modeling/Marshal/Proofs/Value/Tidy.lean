import Marshal.Proofs.Value.Equivalence

/-!
# Tidy values

A value is tidy if its dictionaries have no equal keys and no two keys with one text, and
its sets have no equal members.  Domain objects are left out, for they are equal to what
they like.

Tidy values that are equal are alike in two respects.

* One of them can be stored where the other one can (`Tidy.convertible_iff`).
* What is left of them in a store is equal as well (`Tidy.normal_beq`), unless there are
  keys that match and are different zeros.  As keys the two zeros have different texts.

Entries and members may come in any order, at every level.  What matters is that elements
have partners on both sides.  Equality gives those on the right, and since tidy values are
proper it may be read from the right as well (`Tidy.proper`).
-/

namespace Marshal

namespace Value

/-- No part of the value is a domain object, no dictionary has equal keys or two keys with
one text, and no set has equal members. -/
inductive Tidy : Value → Prop
  | simple {v : Value} (h : v.isSimple) : Tidy v
  | list {items : List Value} (hitems : ∀ item ∈ items, Tidy item) : Tidy (.list items)
  | dict {entries : List (Value × Value)} (hkeys : ∀ entry ∈ entries, Tidy entry.1)
      (hvalues : ∀ entry ∈ entries, Tidy entry.2)
      (hdistinct : Distinct (entries.map Prod.fst))
      (htexts : entries.Pairwise fun e f => ∀ s, e.1.keyText = .ok s → f.1.keyText ≠ .ok s) :
      Tidy (.dict entries)
  | set {members : List Value} (hmembers : ∀ member ∈ members, Tidy member)
      (hdistinct : Distinct members) : Tidy (.set members)

variable {v w key : Value} {s t : String} {room : Nat} {xs ys : List Value}
  {entries entries' : List (Value × Value)}

/-! ## Parts of tidy values -/

theorem Tidy.items (h : Tidy (.list xs)) : ∀ x ∈ xs, x.Tidy := by
  cases h with
  | simple hnone => exact nomatch hnone
  | list hitems => exact hitems

theorem Tidy.keys (h : Tidy (.dict entries)) : ∀ e ∈ entries, e.1.Tidy := by
  cases h with
  | simple hnone => exact nomatch hnone
  | dict hkeys => exact hkeys

theorem Tidy.values (h : Tidy (.dict entries)) : ∀ e ∈ entries, e.2.Tidy := by
  cases h with
  | simple hnone => exact nomatch hnone
  | dict _ hvalues => exact hvalues

theorem Tidy.texts (h : Tidy (.dict entries)) :
    entries.Pairwise fun e f => ∀ s, e.1.keyText = .ok s → f.1.keyText ≠ .ok s := by
  cases h with
  | simple hnone => exact nomatch hnone
  | dict _ _ _ htexts => exact htexts

theorem Tidy.proper (h : v.Tidy) : v.Proper := by
  induction h with
  | simple h => exact .simple h
  | list _ ih => exact .list ih
  | dict _ _ hdistinct _ ihkeys ihvalues => exact .dict ihkeys ihvalues hdistinct
  | set _ hdistinct ih => exact .set ih hdistinct

/-! ## Keys -/

theorem text_beq : (text s == text t) = (s == t) := by
  show equals (text s) (text t) = _
  rw [equals]

/-- A tidy key with a text is neither a container nor a domain object. -/
theorem Tidy.isSimple_of_keyText (h : key.Tidy) (htext : key.keyText = .ok s) : key.isSimple := by
  cases h with
  | simple h => exact h
  | list | dict | set => exact nomatch htext

/-- Keys of tidy dictionaries that can be stored are simple. -/
theorem isSimple_of_keyTexts (hkeys : ∀ e ∈ entries, e.1.Tidy)
    (htexts : ∀ e ∈ entries, ∃ s, e.1.keyText = .ok s) : ∀ e ∈ entries, e.1.isSimple := by
  intro e he
  obtain ⟨s, hs⟩ := htexts e he
  exact (hkeys e he).isSimple_of_keyText hs

/-- The signs of the numbers that a key consists of. -/
def signs : Value → List Bool
  | float x => [x.negative]
  | complex z => [z.re.negative, z.im.negative]
  | _ => []

/-- Apart from zeros, keys that are equal are the same. -/
theorem eq_of_signs (hv : v.isSimple) (h : v == w) (hsigns : v.signs = w.signs) : v = w := by
  have hequals : equals v w = true := h
  unfold equals at hequals
  split at hequals
  case h_1 => rfl
  case h_4 x y =>
    simp only [signs, List.cons.injEq, and_true] at hsigns
    rw [Binary.eq_of_beq hequals hsigns]
  case h_5 x y =>
    simp only [signs, List.cons.injEq, and_true] at hsigns
    obtain ⟨hre, him⟩ := Cartesian.beq_iff.mp hequals
    cases x
    cases y
    rw [complex.injEq, Cartesian.mk.injEq]
    exact ⟨Binary.eq_of_beq hre hsigns.1, Binary.eq_of_beq him hsigns.2⟩
  case h_8 | h_9 | h_10 | h_11 => simp [isSimple] at hv
  case h_13 => cases hequals
  all_goals rw [eq_of_beq hequals]

/-! ## What can be stored -/

theorem convertible_list_iff : (list xs).Convertible room ↔
    ∃ deeper, room = deeper + 1 ∧ ∀ x ∈ xs, x.Convertible deeper := by
  constructor
  · rintro (hscalar | hitems)
    · exact nomatch hscalar
    · exact ⟨_, rfl, hitems⟩
  · rintro ⟨deeper, rfl, hitems⟩
    exact .list hitems

theorem convertible_dict_iff : (dict entries).Convertible room ↔
    ∃ deeper, room = deeper + 1 ∧ (∀ e ∈ entries, ∃ s, e.1.keyText = .ok s) ∧
      ∀ e ∈ entries, e.2.Convertible deeper := by
  constructor
  · rintro (hscalar | _ | ⟨hkeys, hvalues⟩)
    · exact nomatch hscalar
    · exact ⟨_, rfl, hkeys, hvalues⟩
  · rintro ⟨deeper, rfl, hkeys, hvalues⟩
    exact .dict hkeys hvalues

theorem convertible_set_iff : (set xs).Convertible room ↔
    ∃ deeper, room = deeper + 1 ∧ ∀ x ∈ xs, x.scalar?.isSome := by
  constructor
  · rintro (hscalar | _ | _ | hmembers)
    · exact nomatch hscalar
    · exact ⟨_, rfl, hmembers⟩
  · rintro ⟨deeper, rfl, hmembers⟩
    exact .set hmembers

theorem convertible_iff_of_isSimple (h : v.isSimple) :
    v.Convertible room ↔ v.scalar?.isSome := by
  constructor
  · rintro (hscalar | _ | _ | _)
    · exact hscalar
    all_goals exact nomatch h
  · exact .scalar

/-! ### Containers that are equal -/

theorem convertible_list_congr (h : list xs == list ys)
    (hitems : ∀ p ∈ xs.zip ys, ∀ room, p.1.Convertible room ↔ p.2.Convertible room) :
    (list xs).Convertible room ↔ (list ys).Convertible room := by
  obtain ⟨hlength, -⟩ := beq_list_iff.mp h
  rw [convertible_list_iff, convertible_list_iff]
  refine exists_congr fun deeper => and_congr_right fun _ => ?_
  constructor
  · intro hxs y hy
    rw [← List.map_snd_zip hlength.ge] at hy
    obtain ⟨p, hp, rfl⟩ := List.mem_map.mp hy
    exact (hitems p hp deeper).mp (hxs p.1 (List.of_mem_zip hp).1)
  · intro hys x hx
    rw [← List.map_fst_zip hlength.le] at hx
    obtain ⟨p, hp, rfl⟩ := List.mem_map.mp hx
    exact (hitems p hp deeper).mpr (hys p.2 (List.of_mem_zip hp).2)

theorem convertible_dict_congr (h : dict entries == dict entries') (hv : (dict entries).Tidy)
    (hw : (dict entries').Tidy)
    (hvalues : ∀ e ∈ entries, ∀ f ∈ entries', e.2 == f.2 →
      ∀ room, e.2.Convertible room ↔ f.2.Convertible room) :
    (dict entries).Convertible room ↔ (dict entries').Convertible room := by
  obtain ⟨-, hpartner⟩ := beq_dict_iff.mp h
  obtain ⟨-, hpartner'⟩ := beq_dict_iff.mp (hv.proper.beq_symm hw.proper h)
  rw [convertible_dict_iff, convertible_dict_iff]
  refine exists_congr fun deeper => and_congr_right fun _ => ?_
  constructor
  · rintro ⟨htexts, hentries⟩
    have hsimple := isSimple_of_keyTexts hv.keys htexts
    constructor
    · intro f hf
      obtain ⟨e, he, hkey, -⟩ := hpartner' f hf
      exact exists_keyText ((isSimple_of_beq hkey).trans (hsimple e he))
    · intro f hf
      obtain ⟨e, he, -, hvalue⟩ := hpartner' f hf
      have hvalue' := (hw.values f hf).proper.beq_symm (hv.values e he).proper hvalue
      exact (hvalues e he f hf hvalue' deeper).mp (hentries e he)
  · rintro ⟨htexts, hentries⟩
    have hsimple := isSimple_of_keyTexts hw.keys htexts
    constructor
    · intro e he
      obtain ⟨f, hf, hkey, -⟩ := hpartner e he
      exact exists_keyText ((isSimple_of_beq hkey).trans (hsimple f hf))
    · intro e he
      obtain ⟨f, hf, -, hvalue⟩ := hpartner e he
      exact (hvalues e he f hf hvalue deeper).mpr (hentries f hf)

theorem convertible_set_congr (h : set xs == set ys) (hv : (set xs).Tidy) (hw : (set ys).Tidy) :
    (set xs).Convertible room ↔ (set ys).Convertible room := by
  obtain ⟨-, hpartner⟩ := beq_set_iff.mp h
  obtain ⟨-, hpartner'⟩ := beq_set_iff.mp (hv.proper.beq_symm hw.proper h)
  rw [convertible_set_iff, convertible_set_iff]
  refine exists_congr fun deeper => and_congr_right fun _ => ?_
  constructor
  · intro hxs y hy
    obtain ⟨x, hx, hsame⟩ := hpartner' y hy
    rw [← isSome_scalar?_of_beq hsame]
    exact hxs x hx
  · intro hys x hx
    obtain ⟨y, hy, hsame⟩ := hpartner x hx
    rw [← isSome_scalar?_of_beq hsame]
    exact hys y hy

/-- A tidy value can be stored just when whatever tidy value it equals can. -/
theorem Tidy.convertible_iff (hv : v.Tidy) (hw : w.Tidy) (h : v == w) :
    v.Convertible room ↔ w.Convertible room := by
  induction hv generalizing w room with
  | simple hsimple =>
      have hsimple' : w.isSimple := (isSimple_of_beq h).symm.trans hsimple
      rw [convertible_iff_of_isSimple hsimple, convertible_iff_of_isSimple hsimple',
        isSome_scalar?_of_beq h]
  | list _ ih =>
      obtain ⟨ys, rfl⟩ := exists_list_of_beq h
      have hsame := (beq_list_iff.mp h).2
      refine convertible_list_congr h fun p hp room => ?_
      obtain ⟨hx, hy⟩ := List.of_mem_zip (a := p.1) (b := p.2) hp
      exact ih p.1 hx (hw.items p.2 hy) (hsame p hp)
  | dict hkeys hvalues hdistinct htexts _ ih =>
      obtain ⟨entries', rfl⟩ := exists_dict_of_beq h
      refine convertible_dict_congr h (.dict hkeys hvalues hdistinct htexts) hw ?_
      intro e he f hf hvalue room
      exact ih e he (hw.values f hf) hvalue
  | set hmembers hdistinct _ =>
      obtain ⟨ys, rfl⟩ := exists_set_of_beq h
      exact convertible_set_congr h (.set hmembers hdistinct) hw

/-! ## What is left -/

/-- Equality of the two values makes the two keys meet: they are equal and belong to
entries of dictionaries that are compared. -/
inductive Meets : (v w key key' : Value) → Prop
  | key {entries entries' : List (Value × Value)} {e f : Value × Value} (he : e ∈ entries)
      (hf : f ∈ entries') (hkey : e.1 == f.1) : Meets (.dict entries) (.dict entries') e.1 f.1
  | value {entries entries' : List (Value × Value)} {e f : Value × Value} {key key' : Value}
      (he : e ∈ entries) (hf : f ∈ entries') (hkey : e.1 == f.1) (h : Meets e.2 f.2 key key') :
      Meets (.dict entries) (.dict entries') key key'
  | item {xs ys : List Value} {p : Value × Value} {key key' : Value} (hp : p ∈ xs.zip ys)
      (h : Meets p.1 p.2 key key') : Meets (.list xs) (.list ys) key key'

theorem normal_of_isSimple (h : v.isSimple) : v.normal = v := by
  cases v <;> first | rfl | exact nomatch h

/-- A tidy dictionary loses no entries. -/
theorem normal_dict_of_texts (hkeys : ∀ e ∈ entries, ∃ s, e.1.keyText = .ok s)
    (htexts : entries.Pairwise fun e f => ∀ s, e.1.keyText = .ok s → f.1.keyText ≠ .ok s) :
    (dict entries).normal = dict (entries.map fun e => (e.1.textual, e.2.normal)) := by
  have hdistinct : Distinct ((normalEntries entries).map Prod.fst) := by
    rw [normalEntries_eq_map, List.map_map]
    refine List.pairwise_map.mpr (htexts.imp_of_mem ?_)
    intro e f he hf hne
    obtain ⟨s, hs⟩ := hkeys e he
    obtain ⟨t, ht⟩ := hkeys f hf
    show (e.1.textual == f.1.textual) = false
    rw [textual_of_keyText hs, textual_of_keyText ht, text_beq, beq_eq_false_iff_ne]
    rintro rfl
    exact hne s hs ht
  calc (dict entries).normal
      = dict (merged [] (normalEntries entries)) := normal_dict entries
    _ = dict (normalEntries entries) := by rw [merged_of_distinct hdistinct, List.nil_append]
    _ = dict (entries.map fun e => (e.1.textual, e.2.normal)) := by rw [normalEntries_eq_map]

/-- A tidy set loses no members. -/
theorem normal_set_of_distinct (h : Distinct xs) : (set xs).normal = set xs := by
  have hkept : gathered [] xs = [] ++ xs := gathered_of_distinct h
  rw [normal_set, hkept, List.nil_append]

theorem normal_beq_list (h : list xs == list ys)
    (hitems : ∀ p ∈ xs.zip ys, p.1.normal == p.2.normal) :
    (list xs).normal == (list ys).normal := by
  obtain ⟨hlength, -⟩ := beq_list_iff.mp h
  rw [normal_list, normal_list]
  refine beq_list_iff.mpr ⟨by simp [hlength], ?_⟩
  rw [List.zip_map]
  intro p hp
  obtain ⟨q, hq, rfl⟩ := List.mem_map.mp hp
  exact hitems q hq

theorem normal_beq_dict (h : dict entries == dict entries') (hv : (dict entries).Tidy)
    (hw : (dict entries').Tidy) (hx : (dict entries).Convertible room)
    (hsigns : ∀ e ∈ entries, ∀ f ∈ entries', e.1 == f.1 → e.1.signs = f.1.signs)
    (hvalues : ∀ e ∈ entries, ∀ f ∈ entries', e.1 == f.1 → e.2 == f.2 → e.2.normal == f.2.normal) :
    (dict entries).normal == (dict entries').normal := by
  obtain ⟨hlength, hpartner⟩ := beq_dict_iff.mp h
  obtain ⟨-, -, hkeys, -⟩ := convertible_dict_iff.mp hx
  obtain ⟨-, -, hkeys', -⟩ := convertible_dict_iff.mp ((hv.convertible_iff hw h).mp hx)
  rw [normal_dict_of_texts hkeys hv.texts, normal_dict_of_texts hkeys' hw.texts]
  refine beq_dict_iff.mpr ⟨by simp [hlength], fun entry hentry => ?_⟩
  obtain ⟨e, he, rfl⟩ := List.mem_map.mp hentry
  obtain ⟨f, hf, hkey, hvalue⟩ := hpartner e he
  refine ⟨_, List.mem_map_of_mem hf, ?_, hvalues e he f hf hkey hvalue⟩
  -- the keys are not only equal but the same, so they have the same text
  obtain ⟨s, hs⟩ := hkeys e he
  have hsame : e.1 = f.1 :=
    eq_of_signs (isSimple_of_keyTexts hv.keys hkeys e he) hkey (hsigns e he f hf hkey)
  rw [← hsame, textual_of_keyText hs, text_beq]
  exact beq_self_eq_true s

/-- Of tidy values that are equal, what is left is equal, provided that keys that meet have
the same signs. -/
theorem Tidy.normal_beq (hv : v.Tidy) (hw : w.Tidy) (h : v == w) (hx : v.Convertible room)
    (hsigns : ∀ key key', Meets v w key key' → key.signs = key'.signs) :
    v.normal == w.normal := by
  induction hv generalizing w room with
  | simple hsimple =>
      have hsimple' : w.isSimple := (isSimple_of_beq h).symm.trans hsimple
      rwa [normal_of_isSimple hsimple, normal_of_isSimple hsimple']
  | list _ ih =>
      obtain ⟨ys, rfl⟩ := exists_list_of_beq h
      obtain ⟨deeper, -, hitems⟩ := convertible_list_iff.mp hx
      have hsame := (beq_list_iff.mp h).2
      refine normal_beq_list h fun p hp => ?_
      obtain ⟨hx, hy⟩ := List.of_mem_zip (a := p.1) (b := p.2) hp
      exact ih p.1 hx (hw.items p.2 hy) (hsame p hp) (hitems p.1 hx)
        fun key key' hmeets => hsigns key key' (.item hp hmeets)
  | dict hkeys hvalues hdistinct htexts _ ih =>
      obtain ⟨entries', rfl⟩ := exists_dict_of_beq h
      obtain ⟨deeper, -, -, hentries⟩ := convertible_dict_iff.mp hx
      refine normal_beq_dict h (.dict hkeys hvalues hdistinct htexts) hw hx ?_ ?_
      · intro e he f hf hkey
        exact hsigns e.1 f.1 (.key he hf hkey)
      · intro e he f hf hkey hvalue
        exact ih e he (hw.values f hf) hvalue (hentries e he)
          fun key key' hmeets => hsigns key key' (.value he hf hkey hmeets)
  | set _ hdistinct _ =>
      obtain ⟨ys, rfl⟩ := exists_set_of_beq h
      rwa [normal_set_of_distinct hdistinct, normal_set_of_distinct hw.proper.distinct]

end Value

end Marshal
