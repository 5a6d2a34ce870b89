import Mathlib.Data.List.Nodup
import Mathlib.Data.List.Range
import Marshal.Proofs.Heap.Follows
import Marshal.Proofs.Heap.Types

/-!
# Registered types

A heap finds the number of a new type by counting the types that were registered before, and not
from a counter of its own.  That this gives a number which no other type has rests on the order
of the list: the registered types stand behind the standard ones and are numbered without a gap,
in the order in which they came (`Numbered`).  A name that is registered again is found in the
list, so no two types have the same name either.

So a heap tells its types apart by their numbers as well as by their names (`Heap.Registers`).

An object is created with the number of a type that is listed then.  It is sealed, so it keeps this
number through whatever is done to the heap (`Heap.LeadsTo`), and the type stays on the list.
-/

namespace Marshal

/-- Where no two elements have the same key, the one with a given key is found. -/
theorem find?_of_nodup_map {α β : Type} [DecidableEq β] {f : α → β} {xs : List α} {x : α}
    (h : (xs.map f).Nodup) (hx : x ∈ xs) : xs.find? (fun y => f y = f x) = some x := by
  cases hfind : xs.find? fun y => f y = f x with
  | none => exact absurd (decide_eq_true rfl) (List.find?_eq_none.mp hfind x hx)
  | some y =>
      have hy : f y = f x := by simpa using List.find?_some hfind
      rw [List.inj_on_of_nodup_map h (List.mem_of_find?_eq_some hfind) hx hy]

/-! ## Numbers -/

/-- The standard types come first, and the others are numbered one after another.  All have names
of their own. -/
structure Numbered (types : List TypeEntry) : Prop where
  ids : ∃ n, types.map TypeEntry.id = StandardType.entries.map TypeEntry.id ++
    (List.range' TypeId.firstCustom n).map TypeId.mk
  names : (types.map TypeEntry.name).Nodup

/-- The numbers of registered types, of which there are `n`. -/
theorem mem_customIds {n : ℕ} {id : TypeId} :
    id ∈ (List.range' TypeId.firstCustom n).map TypeId.mk ↔
      id.isCustom ∧ id.number < TypeId.firstCustom + n := by
  rw [List.mem_map, TypeId.isCustom, decide_eq_true_eq]
  constructor
  · rintro ⟨number, hmem, rfl⟩
    exact List.mem_range'_1.mp hmem
  · intro hbounds
    exact ⟨id.number, List.mem_range'_1.mpr hbounds, rfl⟩

namespace Numbered

variable {types : List TypeEntry}

theorem standard : Numbered StandardType.entries where
  ids := ⟨0, (List.append_nil _).symm⟩
  names := StandardType.nodup_names

/-- The types that were registered are as many as have been counted. -/
theorem ids_eq (h : Numbered types) : types.map TypeEntry.id =
    StandardType.entries.map TypeEntry.id ++
      (List.range' TypeId.firstCustom (types.countP fun entry => entry.id.isCustom)).map
        TypeId.mk := by
  obtain ⟨n, hids⟩ := h.ids
  have hstandard : (StandardType.entries.map TypeEntry.id).countP TypeId.isCustom = 0 := by
    rw [List.countP_eq_zero]
    intro id hmem
    obtain ⟨type, rfl⟩ := StandardType.mem_ids.mp hmem
    exact type.not_isCustom
  have hcustom : ((List.range' TypeId.firstCustom n).map TypeId.mk).countP TypeId.isCustom = n := by
    have hlength := List.countP_eq_length.mpr fun id hmem => (mem_customIds (n := n).mp hmem).1
    rw [hlength, List.length_map, List.length_range']
  have hcount : types.countP (fun entry => entry.id.isCustom) = n := by
    have hmapped := List.countP_map (p := TypeId.isCustom) (f := TypeEntry.id) (l := types)
    rw [hids, List.countP_append, hstandard, hcustom, Nat.zero_add] at hmapped
    exact hmapped.symm
  rw [hcount, hids]

theorem nodup_ids (h : Numbered types) : (types.map TypeEntry.id).Nodup := by
  rw [h.ids_eq, List.nodup_append]
  refine ⟨StandardType.nodup_ids, ?_, ?_⟩
  · exact (List.nodup_range' 1).map fun _ _ heq => congrArg TypeId.number heq
  · rintro id hmem other hother rfl
    obtain ⟨type, rfl⟩ := StandardType.mem_ids.mp hmem
    exact type.not_isCustom (mem_customIds.mp hother).1

/-- All numbers lie below the next one that is given. -/
theorem number_lt (h : Numbered types) {entry : TypeEntry} (hmem : entry ∈ types) :
    entry.id.number < TypeId.firstCustom + types.countP fun entry => entry.id.isCustom := by
  have hid : entry.id ∈ types.map TypeEntry.id := List.mem_map_of_mem hmem
  rw [h.ids_eq, List.mem_append] at hid
  rcases hid with hstandard | hcustom
  · obtain ⟨type, htype⟩ := StandardType.mem_ids.mp hstandard
    have hsmall := type.not_isCustom
    rw [htype, TypeId.isCustom, decide_eq_true_eq] at hsmall
    omega
  · exact (mem_customIds.mp hcustom).2

/-- A new name takes the next number. -/
theorem append (h : Numbered types) {name : String} (hnew : name ∉ types.map TypeEntry.name) :
    Numbered (types ++ [⟨⟨TypeId.firstCustom + types.countP fun entry => entry.id.isCustom⟩,
      name⟩]) where
  ids := by
    refine ⟨types.countP (fun entry => entry.id.isCustom) + 1, ?_⟩
    rw [List.map_append, h.ids_eq, List.range'_1_concat, List.map_append, List.append_assoc]
    rfl
  names := by
    rw [List.map_append]
    exact h.names.append (List.nodup_singleton name) (by simpa using hnew)

end Numbered

/-! ## The types of a heap -/

namespace Heap

variable {heap : Heap}

/-- Whoever registers a name finds the type that has it, or makes a new one. -/
theorem registerType_cases (heap : Heap) (name : String) :
    (∃ entry ∈ heap.types, entry.name = name ∧ heap.registerType name = (entry.id, heap)) ∨
    name ∉ heap.types.map TypeEntry.name ∧
      let id : TypeId :=
        ⟨TypeId.firstCustom + heap.types.countP fun entry => entry.id.isCustom⟩
      heap.registerType name = (id, { heap with types := heap.types ++ [⟨id, name⟩] }) := by
  cases hfind : heap.types.find? (·.name = name) with
  | some entry =>
      have hname : entry.name = name := by simpa using List.find?_some hfind
      exact .inl ⟨entry, List.mem_of_find?_eq_some hfind, hname, by simp only [registerType, hfind]⟩
  | none =>
      refine .inr ⟨fun hmem => ?_, by simp only [registerType, hfind]⟩
      obtain ⟨entry, hentry, rfl⟩ := List.mem_map.mp hmem
      exact List.find?_eq_none.mp hfind entry hentry (decide_eq_true rfl)

theorem stable_numbered : Stable fun heap => Numbered heap.types :=
  stable_of_set (fun _ _ _ h => by rwa [types_set]) (fun _ h => h) (fun _ _ h => h)
    fun _ _ _ h => by rwa [types_alter]

theorem Reachable.numbered (h : heap.Reachable) : Numbered heap.types := by
  induction h with
  | fresh => exact .standard
  | step operation _ ih =>
      refine stable_numbered.perform (fun heap name h => ?_) (fun _ _ h => h) (fun _ _ h => h)
        operation ih
      rcases heap.registerType_cases name with ⟨entry, -, -, heq⟩ | ⟨hnew, heq⟩
      · rwa [heq]
      · rw [heq]
        exact h.append hnew

/-- The types of a heap are told apart by their numbers and by their names. -/
structure Registers (heap : Heap) : Prop where
  ids : (heap.types.map TypeEntry.id).Nodup
  names : (heap.types.map TypeEntry.name).Nodup
  /-- A number takes 32 bits, as long as there are that many. -/
  fits : (heap.types.countP fun entry => entry.id.isCustom) < UInt32.size - TypeId.firstCustom →
    ∀ entry ∈ heap.types, entry.id.number < UInt32.size
  /-- A name that is known is not registered again. -/
  known : ∀ entry ∈ heap.types, heap.registerType entry.name = (entry.id, heap)
  registered : ∀ name, ⟨(heap.registerType name).1, name⟩ ∈ (heap.registerType name).2.types

theorem Reachable.registers (h : heap.Reachable) : heap.Registers where
  ids := h.numbered.nodup_ids
  names := h.numbered.names
  fits hfew entry hmem := by
    have hlt := h.numbered.number_lt hmem
    omega
  known entry hmem := by
    rw [registerType, find?_of_nodup_map h.numbered.names hmem]
  registered name := by
    rcases heap.registerType_cases name with ⟨entry, hmem, rfl, heq⟩ | ⟨-, heq⟩
    · rw [heq]
      exact hmem
    · rw [heq]
      exact List.mem_append_right _ (List.mem_singleton_self _)

/-! ## Objects of registered types -/

/-- Operations lead from one heap to the other. -/
inductive LeadsTo (heap : Heap) : Heap → Prop
  | refl : LeadsTo heap heap
  | step {later : Heap} (operation : Operation) : LeadsTo heap later →
      LeadsTo heap (operation.perform later).2

variable {later made : Heap} {handle : Handle} {type : TypeId} {bytes : List UInt8}

namespace LeadsTo

theorem reachable (h : heap.LeadsTo later) (hreachable : heap.Reachable) : later.Reachable := by
  induction h with
  | refl => exact hreachable
  | step operation _ ih => exact ih.step operation

theorem follows (h : heap.LeadsTo later) : Follows true heap later := by
  induction h with
  | refl => exact .refl heap
  | step operation _ ih => exact ih.trans (.perform operation _)

theorem types_prefix (h : heap.LeadsTo later) : heap.types <+: later.types := by
  induction h with
  | refl => exact List.prefix_rfl
  | step operation _ ih => exact ih.trans (types_prefix_perform operation _)

end LeadsTo

theorem createCustom_eq_ok (hrun : createCustom type bytes heap = .ok handle made) :
    (type.isCustom ∧ (heap.typeName? type).isSome) ∧ handle = .object heap.slots.size ∧
      made = heap.pushed { content := .custom type bytes } := by
  have hends : Ends (createCustom type bytes) heap
      (fun handle made => (type.isCustom ∧ (heap.typeName? type).isSome) ∧
        handle = .object heap.slots.size ∧ made = heap.pushed { content := .custom type bytes })
      fun _ _ => True := by
    refine ends_bind (ends_reading (fun _ hregistered => ?_) fun _ _ => trivial)
    refine ends_allocate ⟨?_, rfl, rfl⟩ fun _ _ => trivial
    split at hregistered
    · assumption
    · exact nomatch hregistered
  exact hends.of_ok hrun

theorem Reachable.of_createCustom (h : heap.Reachable)
    (hrun : createCustom type bytes heap = .ok handle made) : made.Reachable := by
  have hstep := h.step (.ask (.createCustom type bytes))
  rw [Operation.perform, Operation.attempted] at hstep
  simpa only [answer, hrun] using hstep

/-- As long as it is live, an object is of the type that it was created with, and the type is
listed. -/
theorem LeadsTo.body?_custom (h : made.LeadsTo later)
    (hrun : createCustom type bytes heap = .ok handle made) (hlive : later.Live handle) :
    type.isCustom ∧ (∃ entry ∈ later.types, entry.id = type) ∧
      later.body? handle = some (.custom type bytes, false) := by
  obtain ⟨⟨hcustom, hname⟩, rfl, rfl⟩ := createCustom_eq_ok hrun
  refine ⟨hcustom, ?_, ?_⟩
  · rw [typeName?, Option.isSome_map, List.find?_isSome] at hname
    obtain ⟨entry, hmem, hid⟩ := hname
    exact ⟨entry, h.types_prefix.subset hmem, of_decide_eq_true hid⟩
  · obtain ⟨body', hbody'⟩ := Option.isSome_iff_exists.mp (live_iff_body?.mp hlive)
    have hlt : heap.slots.size < (heap.pushed { content := .custom type bytes }).slots.size := by
      rw [size_pushed]
      exact Nat.lt_succ_self _
    obtain ⟨body, hbody, hbecomes⟩ := h.follows.becomes _ body' hlt hbody'
    rw [body?_of_get? get?_pushed_new] at hbody
    obtain rfl := Option.some.inj hbody
    rw [hbody', hbecomes.eq_of_sealed rfl]

end Heap

end Marshal
