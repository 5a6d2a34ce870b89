import Marshal.Converter.Ready
import Marshal.Heap.Answer
import Mathlib.Data.List.Basic
import Mathlib.Data.Prod.Lex
import Mathlib.Order.Bounds.Basic

/-!
# The converter of a domain object

A registry tries one capability after another, and for each of them its converters in the order
of registration.  So what it finds is the least converter that takes the object, in the
lexicographic order of the rank of its capability and of its place (`Registry.Picks`), and it
finds nothing only if no converter takes the object.  A type belongs to the first converter that
claims its name (`Registry.Claims`).

A converter that is registered later has the last place, so it changes the choice only if its
capability has a lower rank than the one of the converter that was found before
(`Registry.Supplants`).  A later claim to a type never changes who has the type.
-/

namespace Marshal

/-! ## Ranks -/

/-- The rank of a capability in the order in which they are tried. -/
def Capability.rank (capability : Capability) : ℕ := Capability.all.idxOf capability

theorem Capability.mem_all (capability : Capability) : capability ∈ Capability.all := by
  cases capability <;> decide

namespace Registry

variable {σ : Type} {registry : Registry σ} {o : DomainObject} {c d : Converter σ} {i j : ℕ}

/-! ## The choice -/

/-- The converter at the place takes the object. -/
def Offers (registry : Registry σ) (o : DomainObject) (i : ℕ) (c : Converter σ) : Prop :=
  registry.converters[i]? = some c ∧ c.capability.isPresent o ∧ c.accepts o

/-- The converter at the place takes the object, and no other one that does so comes before it
by the rank of its capability, or by its place if the ranks are the same. -/
def Picks (registry : Registry σ) (o : DomainObject) (i : ℕ) (c : Converter σ) : Prop :=
  registry.Offers o i c ∧
    ∀ j d, registry.Offers o j d → toLex (c.capability.rank, i) ≤ toLex (d.capability.rank, j)

theorem Picks.unique (h : registry.Picks o i c) (h' : registry.Picks o j d) : i = j ∧ c = d := by
  have hplaces := toLex.injective (le_antisymm (h.2 j d h'.1) (h'.2 i c h.1))
  obtain rfl : i = j := (Prod.mk.inj hplaces).2
  exact ⟨rfl, Option.some.inj (h.1.1.symm.trans h'.1.1)⟩

/-- What the registry finds among the converters of one capability. -/
def findFor? (registry : Registry σ) (o : DomainObject) (capability : Capability) :
    Option (Converter σ) :=
  registry.converters.find? fun c => c.capability = capability && c.takes o

theorem serves_iff {capability : Capability} :
    (c.capability = capability && c.takes o) = true ↔
      c.capability = capability ∧ c.capability.isPresent o ∧ c.accepts o := by
  rw [Bool.and_eq_true, decide_eq_true_eq, Converter.takes, Bool.and_eq_true]

theorem findFor?_ne_none (h : registry.Offers o i c) : registry.findFor? o c.capability ≠ none :=
  fun hnone => List.find?_eq_none.mp hnone c (List.mem_of_getElem? h.1) (serves_iff.mpr ⟨rfl, h.2⟩)

/-- Among the converters of one capability the first one is found. -/
theorem exists_of_findFor? {capability : Capability}
    (h : registry.findFor? o capability = some c) :
    c.capability = capability ∧ ∃ i, registry.Offers o i c ∧
      ∀ j d, registry.Offers o j d → d.capability = capability → i ≤ j := by
  obtain ⟨hserves, i, hi, hget, hbefore⟩ := List.find?_eq_some_iff_getElem.mp h
  obtain ⟨hcapability, htakes⟩ := serves_iff.mp hserves
  refine ⟨hcapability, i, ⟨by rw [List.getElem?_eq_getElem hi, hget], htakes⟩, ?_⟩
  intro j d hoffers hd
  by_contra hlt
  obtain ⟨hj, rfl⟩ := List.getElem?_eq_some_iff.mp hoffers.1
  have hnot := hbefore j (Nat.lt_of_not_le hlt)
  rw [serves_iff.mpr ⟨hd, hoffers.2⟩] at hnot
  exact nomatch hnot

theorem exists_picks (h : registry.find? o = some c) : ∃ i, registry.Picks o i c := by
  obtain ⟨before, capability, after, hall, hfind, hbefore⟩ := List.findSome?_eq_some_iff.mp h
  obtain ⟨rfl, i, hoffers, hfirst⟩ := exists_of_findFor? hfind
  refine ⟨i, hoffers, fun j d hd => ?_⟩
  -- no capability that is tried before serves the object
  have hnotMem : ∀ {j d}, registry.Offers o j d → d.capability ∉ before := fun hd hmem =>
    findFor?_ne_none hd (hbefore _ hmem)
  have hrank : c.capability.rank = before.length := by
    rw [Capability.rank, hall, List.idxOf_append_of_notMem (hnotMem hoffers),
      List.idxOf_cons_self, Nat.add_zero]
  rw [Prod.Lex.toLex_le_toLex]
  by_cases hsame : d.capability = c.capability
  · exact .inr ⟨by rw [hsame], hfirst j d hd hsame⟩
  · left
    show c.capability.rank < d.capability.rank
    rw [hrank, Capability.rank, hall, List.idxOf_append_of_notMem (hnotMem hd),
      List.idxOf_cons_ne _ (Ne.symm hsame)]
    omega

theorem find?_eq_none_iff : registry.find? o = none ↔ ∀ i c, ¬ registry.Offers o i c := by
  constructor
  · intro h i c hoffers
    exact findFor?_ne_none hoffers (List.findSome?_eq_none_iff.mp h _ c.capability.mem_all)
  · intro h
    cases hfind : registry.find? o with
    | none => rfl
    | some c =>
        obtain ⟨i, hoffers, -⟩ := exists_picks hfind
        exact absurd hoffers (h i c)

theorem find?_eq_some_iff : registry.find? o = some c ↔ ∃ i, registry.Picks o i c := by
  refine ⟨exists_picks, ?_⟩
  rintro ⟨i, hpicks⟩
  cases hfind : registry.find? o with
  | none => exact absurd hpicks.1 (find?_eq_none_iff.mp hfind i c)
  | some d =>
      obtain ⟨j, hpicks'⟩ := exists_picks hfind
      rw [(hpicks.unique hpicks').2]

theorem lower_of_none (h : registry.find? o = none) (store : Store σ) (s : σ) :
    registry.lower store o s = .error (.noConverter o.typeName) s := by
  rw [lower, h]
  rfl

/-! ## Claims -/

variable {name : String}

/-- The converter at the place claims the name. -/
def Claims (registry : Registry σ) (name : String) (i : ℕ) : Prop :=
  ∃ c, registry.converters[i]? = some c ∧ c.claims = some name

theorem claimant?_eq_some_iff :
    registry.claimant? name = some i ↔ IsLeast {j | registry.Claims name j} i := by
  rw [claimant?, List.findIdx?_eq_some_iff_getElem]
  constructor
  · rintro ⟨hi, hclaims, hbefore⟩
    refine ⟨⟨_, List.getElem?_eq_getElem hi, of_decide_eq_true hclaims⟩, ?_⟩
    rintro j ⟨c, hget, hc⟩
    by_contra hlt
    obtain ⟨hj, rfl⟩ := List.getElem?_eq_some_iff.mp hget
    exact hbefore j (Nat.lt_of_not_le hlt) (decide_eq_true hc)
  · rintro ⟨⟨c, hget, hc⟩, hleast⟩
    obtain ⟨hi, rfl⟩ := List.getElem?_eq_some_iff.mp hget
    refine ⟨hi, decide_eq_true hc, fun j hlt hclaims => ?_⟩
    have hle := hleast ⟨_, List.getElem?_eq_getElem (hlt.trans hi), of_decide_eq_true hclaims⟩
    exact absurd hle (Nat.not_le_of_lt hlt)

theorem claimant?_eq_none_iff :
    registry.claimant? name = none ↔ ∀ j, ¬ registry.Claims name j := by
  rw [claimant?, List.findIdx?_eq_none_iff]
  constructor
  · rintro hnone j ⟨c, hget, hc⟩
    have hnot := hnone c (List.mem_of_getElem? hget)
    exact absurd (decide_eq_true hc) (Bool.eq_false_iff.mp hnot)
  · intro hnot c hmem
    obtain ⟨j, hget⟩ := List.mem_iff_getElem?.mp hmem
    exact decide_eq_false fun hc => hnot j ⟨c, hget, hc⟩

/-! ## One more converter -/

/-- The converter takes the object, and nothing was found for it before, or only a converter
whose capability comes later. -/
def Supplants (registry : Registry σ) (c : Converter σ) (o : DomainObject) : Prop :=
  c.capability.isPresent o ∧ c.accepts o ∧
    (registry.find? o = none ∨
      ∃ d, registry.find? o = some d ∧ c.capability.rank < d.capability.rank)

theorem offers_register :
    (registry.register c).Offers o i d ↔ registry.Offers o i d ∨
      i = registry.converters.length ∧ d = c ∧ c.capability.isPresent o ∧ c.accepts o := by
  unfold Offers register
  rcases Nat.lt_trichotomy i registry.converters.length with hlt | rfl | hgt
  · rw [List.getElem?_append_left hlt]
    simp [Nat.ne_of_lt hlt]
  · rw [List.getElem?_concat_length, List.getElem?_eq_none (Nat.le_refl _)]
    constructor
    · rintro ⟨hd, htakes⟩
      obtain rfl := Option.some.inj hd
      exact .inr ⟨rfl, rfl, htakes⟩
    · rintro (⟨hnone, -⟩ | ⟨-, rfl, htakes⟩)
      · exact nomatch hnone
      · exact ⟨rfl, htakes⟩
  · have hend : (registry.converters ++ [c]).length ≤ i := by
      rw [List.length_append]
      exact hgt
    rw [List.getElem?_eq_none hend, List.getElem?_eq_none (Nat.le_of_lt hgt)]
    simp [Nat.ne_of_gt hgt]

/-- What was picked is still picked, unless the new converter supplants it. -/
theorem Picks.of_register (h : (registry.register c).Picks o i d) :
    registry.Picks o i d ∨ registry.Supplants c o := by
  obtain ⟨hoffers, hleast⟩ := h
  rcases offers_register.mp hoffers with hold | ⟨rfl, rfl, hpresent, haccepts⟩
  · exact .inl ⟨hold, fun j e he => hleast j e (offers_register.mpr (.inl he))⟩
  · refine .inr ⟨hpresent, haccepts, ?_⟩
    cases hfind : registry.find? o with
    | none => exact .inl rfl
    | some e =>
        obtain ⟨j, he, -⟩ := exists_picks hfind
        have hj : j < registry.converters.length := (List.getElem?_eq_some_iff.mp he.1).1
        have hle := hleast j e (offers_register.mpr (.inl he))
        rcases Prod.Lex.toLex_le_toLex.mp hle with hlt | ⟨-, hplace⟩
        · exact .inr ⟨e, rfl, hlt⟩
        · exact absurd hplace (Nat.not_le_of_lt hj)

theorem supplants_of_find?_ne (h : (registry.register c).find? o ≠ registry.find? o) :
    registry.Supplants c o := by
  cases hfind : (registry.register c).find? o with
  | some d =>
      obtain ⟨i, hpicks⟩ := exists_picks hfind
      rcases hpicks.of_register with hold | hsupplants
      · exact absurd (hfind.trans (find?_eq_some_iff.mpr ⟨i, hold⟩).symm) h
      · exact hsupplants
  | none =>
      have hnone : registry.find? o = none := find?_eq_none_iff.mpr fun i d hoffers =>
        find?_eq_none_iff.mp hfind i d (offers_register.mpr (.inl hoffers))
      exact absurd (hfind.trans hnone.symm) h

theorem claimant?_register {typeName : String} (h : registry.claimant? typeName = some i) :
    (registry.register c).claimant? typeName = some i := by
  unfold claimant? register at *
  rw [List.findIdx?_append, h]
  rfl

/-! ## The whole of it -/

/-- The least converter that takes an object is found, and nothing only if there is none, when
the object is refused.  One more converter changes the choice only where it supplants what was
found before, and it takes no type from whoever has claimed it. -/
theorem dispatch_least (registry : Registry σ) (o : DomainObject) :
    (∀ c, registry.find? o = some c ↔ ∃ i, registry.Picks o i c) ∧
    (registry.find? o = none ↔
      ∀ c ∈ registry.converters, ¬ (c.capability.isPresent o ∧ c.accepts o)) ∧
    (registry.find? o = none → ∀ (store : Store σ) s,
      ∃ failure, registry.lower store o s = .error failure s ∧ failure.kind = .type) ∧
    (∀ c, (registry.register c).find? o ≠ registry.find? o → registry.Supplants c o) ∧
    (∀ c i d, (registry.register c).Picks o i d → ¬ registry.Picks o i d →
      registry.Supplants c o) ∧
    ∀ c typeName i, registry.claimant? typeName = some i →
      (registry.register c).claimant? typeName = some i := by
  refine ⟨fun c => find?_eq_some_iff, ?_, ?_, fun c => supplants_of_find?_ne, ?_,
    fun c typeName i => claimant?_register⟩
  · rw [find?_eq_none_iff]
    constructor
    · intro hnone c hmem htakes
      obtain ⟨i, hget⟩ := List.mem_iff_getElem?.mp hmem
      exact hnone i c ⟨hget, htakes⟩
    · rintro hnot i c ⟨hget, htakes⟩
      exact hnot c (List.mem_of_getElem? hget) htakes
  · intro hnone store s
    exact ⟨_, lower_of_none hnone store s, rfl⟩
  · intro c i d hpicks hnot
    exact hpicks.of_register.resolve_left hnot

/-- A quantity that wraps a stored object is shared until a converter of quantities is
registered, and that one does not take the type of scalars from the one that has it. -/
theorem dispatch_least_of_quantity :
    let claiming : Converter Heap := .naming "claiming" .storedObject (some "Scalar")
    let registry : Registry Heap := ⟨[.handleBacked, claiming]⟩
    let added : Converter Heap := .naming "added" .quantity (some "Scalar")
    let o : DomainObject :=
      ⟨"Mass", some { quantity := some ⟨⟨0⟩, "kg"⟩, handle := some (.boolean true) }, none⟩
    let plain : DomainObject := ⟨"Plain", none, none⟩
    (∃ i, registry.Picks o i .handleBacked) ∧
    (∃ failure, registry.lower Heap.store plain {} = .error failure {} ∧ failure.kind = .type) ∧
    registry.Supplants added o ∧
    (registry.register added).claimant? "Scalar" = some 1 := by
  intro claiming registry added o plain
  have hchanged : (registry.register added).find? o ≠ registry.find? o := fun heq =>
    absurd (congrArg (Option.map Converter.capability) heq) (by decide)
  obtain ⟨hpicks, -, -, hsupplants, -, hclaims⟩ := dispatch_least registry o
  obtain ⟨-, -, hrefused, -⟩ := dispatch_least registry plain
  exact ⟨(hpicks _).mp rfl, hrefused rfl Heap.store {}, hsupplants added hchanged,
    hclaims added "Scalar" 1 rfl⟩

end Registry

end Marshal
