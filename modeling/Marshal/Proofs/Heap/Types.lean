import Marshal.Proofs.Heap.Reachable
import Marshal.TypeTable

/-!
# The types of a heap

A heap lists the standard types first and then those that were registered, none
of which has the name or the identifier of a standard type.  So a marshaller knows
the standard types of every reachable heap as what they are, unless a converter
claims one of them.
-/

namespace Marshal

/-- The standard types come first, and no other type has the name of one or its
identifier. -/
def StandardFirst (types : List TypeEntry) : Prop :=
  ∃ registered, types = StandardType.entries ++ registered ∧
    ∀ entry ∈ registered, entry.id.isCustom ∧ StandardType.ofName? entry.name = none

theorem StandardType.mem_all (type : StandardType) : type ∈ all := by
  cases type with
  | text mutable => cases mutable <;> decide
  | number => decide
  | boolean => decide
  | data mutable => cases mutable <;> decide
  | container kind mutable => cases kind <;> cases mutable <;> decide

/-- There are few standard types, and registered ones are numbered from far above. -/
theorem StandardType.not_isCustom (type : StandardType) : ¬ type.id.isCustom := by
  have hle : all.idxOf type ≤ all.length := List.idxOf_le_length
  have hlength : all.length < TypeId.firstCustom - 1 := by decide
  intro hcustom
  have hfirst : TypeId.firstCustom ≤ all.idxOf type + 1 := of_decide_eq_true hcustom
  omega

theorem StandardType.nodup_ids : (entries.map TypeEntry.id).Nodup := by decide +kernel

theorem StandardType.nodup_names : (entries.map TypeEntry.name).Nodup := by decide +kernel

theorem StandardType.mem_ids {id : TypeId} :
    id ∈ entries.map TypeEntry.id ↔ ∃ type : StandardType, type.id = id := by
  simp only [entries, List.map_map, List.mem_map, Function.comp_apply]
  exact ⟨fun ⟨type, _, heq⟩ => ⟨type, heq⟩, fun ⟨type, heq⟩ => ⟨type, type.mem_all, heq⟩⟩

theorem StandardType.ofName?_eq_some_iff {name : String} {type : StandardType} :
    ofName? name = some type ↔ type.name = name := by
  constructor
  · intro h
    simpa using List.find?_some h
  · rintro rfl
    have hnames : ∀ type ∈ all, ofName? type.name = some type := by decide +kernel
    exact hnames type type.mem_all

theorem StandardType.ofName?_eq_none_iff {name : String} :
    ofName? name = none ↔ ∀ type : StandardType, type.name ≠ name := by
  rw [Option.eq_none_iff_forall_ne_some]
  exact forall_congr' fun type => not_congr ofName?_eq_some_iff

namespace Heap

variable {heap : Heap}

theorem stable_standardFirst : Stable fun heap => StandardFirst heap.types :=
  stable_of_set (fun _ _ _ h => by rwa [types_set]) (fun _ h => h) (fun _ _ h => h)
    fun _ _ _ h => by rwa [types_alter]

/-- A name that is not listed is not that of a standard type. -/
theorem standardFirst_registerType (h : StandardFirst heap.types) (name : String) :
    StandardFirst (heap.registerType name).2.types := by
  unfold registerType
  split
  · exact h
  · next hnew =>
    obtain ⟨registered, htypes, hregistered⟩ := h
    show StandardFirst (heap.types ++ [_])
    refine ⟨registered ++ [_], by rw [htypes, List.append_assoc], fun entry hentry => ?_⟩
    rcases List.mem_append.mp hentry with hentry | hentry
    · exact hregistered entry hentry
    · obtain rfl := List.mem_singleton.mp hentry
      refine ⟨?_, List.find?_eq_none.mpr fun type htype heq => ?_⟩
      · exact decide_eq_true (Nat.le_add_right TypeId.firstCustom _)
      · have hlisted : (⟨type.id, type.name⟩ : TypeEntry) ∈ heap.types := by
          rw [htypes]
          exact List.mem_append_left _ (List.mem_map_of_mem htype)
        have hother := List.find?_eq_none.mp hnew _ hlisted
        exact hother (by simpa using heq)

theorem Reachable.standardFirst (h : heap.Reachable) : StandardFirst heap.types := by
  induction h with
  | fresh => exact ⟨[], by simp, List.forall_mem_nil _⟩
  | step operation _ ih =>
      exact stable_standardFirst.perform (fun _ name h => standardFirst_registerType h name)
        (fun _ _ h => h) (fun _ _ h => h) operation ih

/-- Types are never taken off the list. -/
theorem types_prefix_perform (operation : Operation) (heap : Heap) :
    heap.types <+: (operation.perform heap).2.types := by
  have hstable : Stable fun later => heap.types <+: later.types :=
    stable_of_set (fun _ _ _ h => by rwa [types_set]) (fun _ h => h) (fun _ _ h => h)
      fun _ _ _ h => by rwa [types_alter]
  refine hstable.perform (fun later name h => ?_) (fun _ _ h => h) (fun _ _ h => h) operation
    List.prefix_rfl
  unfold registerType
  split
  · exact h
  · exact h.trans (List.prefix_append later.types _)

end Heap

namespace TypeTable

theorem kindOf_insert_of_ne (table : TypeTable) {id other : TypeId} (kind : Kind)
    (hne : other ≠ id) : (table.insert id kind).kindOf other = table.kindOf other := by
  have hlast : [(id, kind)].find? (·.1 = other) = none := by simp [hne.symm]
  have hkept : (table.kinds.filter (·.1 ≠ id)).find? (·.1 = other) =
      table.kinds.find? (·.1 = other) := by
    rw [List.find?_filter]
    congr 1
    funext entry
    by_cases heq : entry.1 = other
    · simp [heq, hne]
    · simp [heq]
  unfold kindOf insert
  rw [List.find?_append, hlast, Option.or_none, hkept]

theorem kindOf_insert_self (table : TypeTable) (id : TypeId) (kind : Kind) :
    (table.insert id kind).kindOf id = kind := by
  have hnone : (table.kinds.filter (·.1 ≠ id)).find? (·.1 = id) = none := by
    rw [List.find?_eq_none]
    intro entry hentry heq
    exact of_decide_eq_true (List.mem_filter.mp hentry).2 (of_decide_eq_true heq)
  have hlast : [(id, kind)].find? (·.1 = id) = some (id, kind) := by simp
  unfold kindOf insert
  rw [List.find?_append, hnone, Option.none_or, hlast]
  rfl

variable {types : List TypeEntry} {registry : Registry Heap}

/-- A table with the types of one more entry, if its name is a known one. -/
def entered (registry : Registry Heap) (table : TypeTable) (entry : TypeEntry) : TypeTable :=
  match kindNamed? registry entry.name with
  | some kind => table.insert entry.id kind
  | none => table

theorem build_eq (types : List TypeEntry) (registry : Registry Heap) :
    build types registry = types.foldl (entered registry) {} := rfl

/-- Types are entered under their own identifiers. -/
theorem kindOf_foldl_of_ne {id : TypeId} (hne : ∀ entry ∈ types, id ≠ entry.id)
    (table : TypeTable) : (types.foldl (entered registry) table).kindOf id = table.kindOf id := by
  induction types generalizing table with
  | nil => rfl
  | cons entry types ih =>
      rw [List.forall_mem_cons] at hne
      rw [List.foldl_cons, ih hne.2, entered]
      split
      · exact kindOf_insert_of_ne table _ hne.1
      · rfl

theorem kindOf_foldl {entry : TypeEntry} {kind : Kind} (hmem : entry ∈ types)
    (hids : (types.map TypeEntry.id).Nodup) (hkind : kindNamed? registry entry.name = some kind)
    (table : TypeTable) : (types.foldl (entered registry) table).kindOf entry.id = kind := by
  induction types generalizing table with
  | nil => exact absurd hmem List.not_mem_nil
  | cons first types ih =>
      rw [List.map_cons, List.nodup_cons] at hids
      rw [List.foldl_cons]
      rcases List.mem_cons.mp hmem with rfl | hmem
      · -- no later type has the same identifier
        have hne : ∀ other ∈ types, entry.id ≠ other.id := by
          intro other hother heq
          exact hids.1 (heq ▸ List.mem_map_of_mem hother)
        rw [kindOf_foldl_of_ne hne, entered, hkind]
        exact kindOf_insert_self table entry.id kind
      · exact ih hmem hids.2 _

/-- What a standard type is read as: what a converter makes of it that claims it, or what
it is. -/
theorem kindOf_build (h : StandardFirst types) (registry : Registry Heap) (type : StandardType) :
    (build types registry).kindOf type.id =
      match registry.claimant? type.name with
      | some place => .extension place
      | none => .standard type := by
  obtain ⟨registered, rfl, hregistered⟩ := h
  have hne : ∀ entry ∈ registered, type.id ≠ entry.id :=
    fun entry hentry heq => type.not_isCustom (heq ▸ (hregistered entry hentry).1)
  have hmem : (⟨type.id, type.name⟩ : TypeEntry) ∈ StandardType.entries :=
    List.mem_map_of_mem type.mem_all
  rw [build_eq, List.foldl_append, kindOf_foldl_of_ne hne]
  refine kindOf_foldl hmem StandardType.nodup_ids ?_ {}
  unfold kindNamed?
  cases registry.claimant? type.name with
  | some place => rfl
  | none => rw [StandardType.ofName?_eq_some_iff.mpr rfl, Option.map_some]

/-- No type of another identifier than theirs is read as a standard type. -/
theorem kindOf_build_custom (h : StandardFirst types) {id : TypeId} (hid : id.isCustom) :
    (build types ({} : Registry Heap)).kindOf id = .unknown id := by
  obtain ⟨registered, rfl, hregistered⟩ := h
  have hne : ∀ entry ∈ StandardType.entries, id ≠ entry.id := by
    intro entry hentry heq
    obtain ⟨type, -, rfl⟩ := List.mem_map.mp hentry
    obtain rfl : id = type.id := heq
    exact type.not_isCustom hid
  -- without converters the registered types are not entered
  have hskip : ∀ table : TypeTable, registered.foldl (entered {}) table = table := by
    intro table
    induction registered with
    | nil => rfl
    | cons entry registered ih =>
        rw [List.forall_mem_cons] at hregistered
        have hkind : kindNamed? ({} : Registry Heap) entry.name = none := by
          simp [kindNamed?, Registry.claimant?, hregistered.1.2]
        rw [List.foldl_cons, entered, hkind]
        exact ih hregistered.2
  rw [build_eq, List.foldl_append, hskip, kindOf_foldl_of_ne hne]
  rfl

end TypeTable

end Marshal
