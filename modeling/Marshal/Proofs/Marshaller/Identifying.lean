import Mathlib.Data.List.Induction
import Marshal.Proofs.Heap.Registered
import Marshal.Proofs.Marshaller.Choosing
import Marshal.Proofs.Marshaller.Depicting

/-!
# What types are read as

A type table has one entry for each listed type that a converter claims or that is a standard one,
and no other entry (`TypeTable.kinds_build`).  This needs that no two types have the same number:
an entry takes the place of an earlier one with the same number, so that one type would stand for
both.  A heap lists no such types (`Heap.Registers`).

So the table tells for each type of a heap what the type is to be read as by its name
(`Registry.Reads`): what the first converter makes of it that claims the name, or what the name
stands for, or a token.  An object of a registered type keeps its type as long as it is there, so
it is read by the first converter that claims the name of the type it was made with.
-/

namespace Marshal

variable {σ : Type}

/-! ## What a name stands for -/

namespace Registry

variable {registry : Registry σ} {entry : TypeEntry}

/-- What the type is to be read as: what the first converter makes of it that claims its name;
if there is none, as the standard type of that name; and if there is none, as unknown. -/
inductive Reads (registry : Registry σ) (entry : TypeEntry) : Kind → Prop
  | claimed {i : ℕ} (first : IsLeast {j | registry.Claims entry.name j} i) :
      Reads registry entry (.extension i)
  | standard {type : StandardType} (unclaimed : ∀ j, ¬ registry.Claims entry.name j)
      (named : type.name = entry.name) : Reads registry entry (.standard type)
  | unknown (unclaimed : ∀ j, ¬ registry.Claims entry.name j)
      (unnamed : ∀ type : StandardType, type.name ≠ entry.name) :
      Reads registry entry (.unknown entry.id)

/-- Some converter claims the name, or it is that of a standard type. -/
def Knows (registry : Registry σ) (name : String) : Prop :=
  (∃ i, registry.Claims name i) ∨ ∃ type : StandardType, type.name = name

end Registry

namespace TypeTable

variable {registry : Registry σ} {entry : TypeEntry} {kind : Kind}

/-- What a name is entered as is what a type of that name is to be read as. -/
theorem kindNamed?_getD_eq_iff :
    (kindNamed? registry entry.name).getD (.unknown entry.id) = kind ↔
      registry.Reads entry kind := by
  unfold kindNamed?
  cases hclaimant : registry.claimant? entry.name with
  | some i =>
      have hfirst := Registry.claimant?_eq_some_iff.mp hclaimant
      have hclaims : ¬ ∀ j, ¬ registry.Claims entry.name j := fun hnone => hnone i hfirst.1
      constructor
      · rintro rfl
        exact .claimed hfirst
      · rintro (hfirst' | ⟨hunclaimed, -⟩ | ⟨hunclaimed, -⟩)
        · rw [hfirst.unique hfirst']
          rfl
        · exact absurd hunclaimed hclaims
        · exact absurd hunclaimed hclaims
  | none =>
      have hunclaimed := Registry.claimant?_eq_none_iff.mp hclaimant
      cases hname : StandardType.ofName? entry.name with
      | some type =>
          have hnamed := StandardType.ofName?_eq_some_iff.mp hname
          constructor
          · rintro rfl
            exact .standard hunclaimed hnamed
          · rintro (hfirst | ⟨-, hnamed'⟩ | ⟨-, hunnamed⟩)
            · exact absurd hfirst.1 (hunclaimed _)
            · have hsame := hname.symm.trans (StandardType.ofName?_eq_some_iff.mpr hnamed')
              rw [Option.some.inj hsame]
              rfl
            · exact absurd hnamed (hunnamed type)
      | none =>
          have hunnamed := StandardType.ofName?_eq_none_iff.mp hname
          constructor
          · rintro rfl
            exact .unknown hunclaimed hunnamed
          · rintro (hfirst | ⟨-, hnamed⟩ | -)
            · exact absurd hfirst.1 (hunclaimed _)
            · exact absurd hnamed (hunnamed _)
            · rfl

theorem isSome_kindNamed?_iff {name : String} :
    (kindNamed? registry name).isSome ↔ registry.Knows name := by
  unfold kindNamed? Registry.Knows
  cases hclaimant : registry.claimant? name with
  | some i => exact iff_of_true rfl (.inl ⟨i, (Registry.claimant?_eq_some_iff.mp hclaimant).1⟩)
  | none =>
      have hunclaimed := Registry.claimant?_eq_none_iff.mp hclaimant
      rw [Option.isSome_map, Option.isSome_iff_exists]
      constructor
      · rintro ⟨type, htype⟩
        exact .inr ⟨type, StandardType.ofName?_eq_some_iff.mp htype⟩
      · rintro (⟨i, hclaims⟩ | ⟨type, hname⟩)
        · exact absurd hclaims (hunclaimed i)
        · exact ⟨type, StandardType.ofName?_eq_some_iff.mpr hname⟩

instance (name : String) : Decidable (registry.Knows name) :=
  decidable_of_iff _ isSome_kindNamed?_iff

/-! ## The entries of a table -/

/-- What is entered for a type. -/
def entered? (registry : Registry σ) (entry : TypeEntry) : Option (TypeId × Kind) :=
  (kindNamed? registry entry.name).map fun kind => (entry.id, kind)

/-- Types with numbers of their own are entered beside each other. -/
theorem kinds_build {types : List TypeEntry} (hids : (types.map TypeEntry.id).Nodup)
    (registry : Registry σ) :
    (build types registry).kinds = types.filterMap (entered? registry) := by
  induction types using List.reverseRecOn with
  | nil => rfl
  | append_singleton types entry ih =>
      rw [List.map_append, List.nodup_append] at hids
      obtain ⟨hids, -, hnew⟩ := hids
      have hlast : build (types ++ [entry]) registry =
          (kindNamed? registry entry.name).elim (build types registry)
            ((build types registry).insert entry.id) := by
        rw [build, List.foldl_append, List.foldl_cons, List.foldl_nil]
        cases kindNamed? registry entry.name <;> rfl
      rw [hlast, List.filterMap_append, List.filterMap_cons, List.filterMap_nil, entered?]
      cases kindNamed? registry entry.name with
      | none => rw [Option.elim_none, ih hids, Option.map_none, List.append_nil]
      | some kind =>
          -- no entry has to give way
          have hkept : (build types registry).kinds.filter (·.1 ≠ entry.id) =
              (build types registry).kinds := by
            rw [List.filter_eq_self, ih hids]
            intro pair hpair
            obtain ⟨other, hother, hentered⟩ := List.mem_filterMap.mp hpair
            obtain ⟨kind', -, rfl⟩ := Option.map_eq_some_iff.mp hentered
            exact decide_eq_true
              (hnew _ (List.mem_map_of_mem hother) _ (List.mem_singleton_self entry.id))
          show (build types registry).kinds.filter (·.1 ≠ entry.id) ++ [(entry.id, kind)] = _
          rw [hkept, ih hids]
          rfl

/-- The table tells of each listed type what it is to be read as, and knows no other type. -/
structure Tells (table : TypeTable) (types : List TypeEntry) (registry : Registry σ) : Prop where
  listed : ∀ entry ∈ types, ∀ kind, table.kindOf entry.id = kind ↔ registry.Reads entry kind
  unlisted : ∀ id, (∀ entry ∈ types, entry.id ≠ id) → table.kindOf id = .unknown id
  /-- One entry for each claimed or standard type. -/
  keys : table.kinds.map Prod.fst =
    (types.filter fun entry => registry.Knows entry.name).map TypeEntry.id
  once : (table.kinds.map Prod.fst).Nodup

theorem kindOf_of_mem {table : TypeTable} {id : TypeId} (honce : (table.kinds.map Prod.fst).Nodup)
    (hmem : (id, kind) ∈ table.kinds) : table.kindOf id = kind := by
  have hfind : table.kinds.find? (fun pair => pair.1 = id) = some (id, kind) :=
    find?_of_nodup_map honce hmem
  rw [kindOf, hfind]
  rfl

theorem kindOf_of_notMem {table : TypeTable} {id : TypeId}
    (hnot : id ∉ table.kinds.map Prod.fst) : table.kindOf id = .unknown id := by
  have hfind : table.kinds.find? (fun pair => pair.1 = id) = none := by
    rw [List.find?_eq_none]
    intro pair hpair heq
    exact hnot (of_decide_eq_true heq ▸ List.mem_map_of_mem hpair)
  rw [kindOf, hfind]
  rfl

theorem map_fst_entered (types : List TypeEntry) (registry : Registry σ) :
    (types.filterMap (entered? registry)).map Prod.fst =
      (types.filter fun entry => registry.Knows entry.name).map TypeEntry.id := by
  induction types with
  | nil => rfl
  | cons entry types ih =>
      cases hkind : kindNamed? registry entry.name with
      | none =>
          have hunknown : ¬ registry.Knows entry.name := by
            rw [← isSome_kindNamed?_iff, hkind]
            exact nofun
          have hskip : entered? registry entry = none := by rw [entered?, hkind, Option.map_none]
          rw [List.filterMap_cons_none hskip, List.filter_cons_of_neg (by simpa using hunknown), ih]
      | some kind =>
          have hknown : registry.Knows entry.name := by
            rw [← isSome_kindNamed?_iff, hkind]
            rfl
          have hentered : entered? registry entry = some (entry.id, kind) := by
            rw [entered?, hkind, Option.map_some]
          rw [List.filterMap_cons_some hentered, List.filter_cons_of_pos (by simpa using hknown),
            List.map_cons, List.map_cons, ih]

/-- Where all types have numbers of their own, the table tells for each what its name says. -/
theorem tells_build {types : List TypeEntry} (hids : (types.map TypeEntry.id).Nodup)
    (registry : Registry σ) : (build types registry).Tells types registry := by
  have hkeys : (build types registry).kinds.map Prod.fst =
      (types.filter fun entry => registry.Knows entry.name).map TypeEntry.id := by
    rw [kinds_build hids, map_fst_entered]
  have honce : ((build types registry).kinds.map Prod.fst).Nodup := by
    rw [hkeys]
    exact hids.sublist (List.filter_sublist.map TypeEntry.id)
  refine ⟨fun entry hmem kind => ?_, fun id hunlisted => kindOf_of_notMem ?_, hkeys, honce⟩
  · rw [← kindNamed?_getD_eq_iff]
    cases hkind : kindNamed? registry entry.name with
    | some kind' =>
        have hentered : (entry.id, kind') ∈ (build types registry).kinds := by
          rw [kinds_build hids, List.mem_filterMap]
          exact ⟨entry, hmem, by rw [entered?, hkind, Option.map_some]⟩
        rw [kindOf_of_mem honce hentered, Option.getD_some]
    | none =>
        have hnot : entry.id ∉ (build types registry).kinds.map Prod.fst := by
          rw [hkeys, List.mem_map]
          rintro ⟨other, hother, heq⟩
          obtain ⟨hother, hknows⟩ := List.mem_filter.mp hother
          obtain rfl := List.inj_on_of_nodup_map hids hother hmem heq
          rw [decide_eq_true_eq, ← isSome_kindNamed?_iff, hkind] at hknows
          exact nomatch hknows
        rw [kindOf_of_notMem hnot, Option.getD_none]
  · rw [hkeys, List.mem_map]
    rintro ⟨entry, hentry, heq⟩
    exact hunlisted entry (List.mem_filter.mp hentry).1 heq

end TypeTable

/-! ## Reading by type -/

variable {heap later : Heap} {handle : Handle}

namespace Marshaller.OnHeap

variable {m : Marshaller Heap} (h : m.OnHeap)

include h

theorem liftWithin_of_extension {i : ℕ} {c : Converter Heap}
    (hkind : m.identify handle heap = .ok (.extension i) heap)
    (hget : m.registry.converters[i]? = some c) (room : ℕ) :
    m.liftWithin room handle heap = c.lift Heap.store handle heap := by
  rw [liftWithin_eq, liftObject, bind_of_ok hkind]
  simp only [hget, h.store]

omit h in
theorem liftWithin_of_unknown {id : TypeId}
    (hkind : m.identify handle heap = .ok (.unknown id) heap) (room : ℕ) :
    m.liftWithin room handle heap = .ok (.token handle) heap := by
  rw [liftWithin_eq, liftObject, bind_of_ok hkind]
  rfl

end Marshaller.OnHeap

/-- The marshaller reads the object by the name of the type, as what the first converter makes of
it that claims the name, and as a token if there is none.  It does so wherever the object stands,
with any number of levels left. -/
structure Marshaller.ReadsBy (m : Marshaller Heap) (entry : TypeEntry) (handle : Handle)
    (heap : Heap) : Prop where
  identified : ∀ kind, m.identify handle heap = .ok kind heap ↔ m.registry.Reads entry kind
  claimed : ∀ i c, IsLeast {j | m.registry.Claims entry.name j} i →
    m.registry.converters[i]? = some c → ∀ room,
      m.liftWithin room handle heap = c.lift Heap.store handle heap
  unclaimed : (∀ j, ¬ m.registry.Claims entry.name j) → ∀ room,
    m.liftWithin room handle heap = .ok (.token handle) heap

namespace Heap

/-- No registered type has the name of a standard one. -/
theorem Reachable.name_ne_standard (h : heap.Reachable) {entry : TypeEntry}
    (hmem : entry ∈ heap.types) (hcustom : entry.id.isCustom) (type : StandardType) :
    type.name ≠ entry.name := by
  obtain ⟨registered, htypes, hregistered⟩ := h.standardFirst
  rw [htypes, List.mem_append] at hmem
  rcases hmem with hstandard | hmem
  · obtain ⟨type, htype⟩ := StandardType.mem_ids.mp (List.mem_map_of_mem hstandard)
    exact absurd (htype ▸ hcustom) type.not_isCustom
  · exact StandardType.ofName?_eq_none_iff.mp (hregistered entry hmem).2 type

theorem Reachable.readsBy (h : heap.Reachable) {m : Marshaller Heap} (hm : m.OnHeap)
    (htypes : m.types = .build heap.types m.registry) {entry : TypeEntry} {bytes : List UInt8}
    {mutable : Bool} (hmem : entry ∈ heap.types) (hcustom : entry.id.isCustom)
    (hbody : heap.body? handle = some (.custom entry.id bytes, mutable)) :
    m.ReadsBy entry handle heap := by
  have hidentify : m.identify handle heap = .ok (m.types.kindOf entry.id) heap :=
    hm.identify_of_body? hbody
  have htells := TypeTable.tells_build h.registers.ids m.registry
  rw [htypes] at hidentify
  have hidentified : ∀ kind, m.identify handle heap = .ok kind heap ↔
      m.registry.Reads entry kind := by
    intro kind
    rw [← htells.listed entry hmem, hidentify, EStateM.Result.ok.injEq, and_iff_left rfl]
  refine ⟨hidentified, fun i c hfirst hget => ?_, fun hunclaimed => ?_⟩
  · exact hm.liftWithin_of_extension ((hidentified _).mpr (.claimed hfirst)) hget
  · refine Marshaller.OnHeap.liftWithin_of_unknown ((hidentified _).mpr (.unknown hunclaimed ?_))
    exact h.name_ne_standard hmem hcustom

/-- Types are told apart, by their numbers and by their names, however many are registered; a type
table tells for each what its name says; and an object of a registered type is read accordingly,
as long as it is live. -/
theorem Reachable.types_faithful (h : heap.Reachable) : heap.Registers ∧
    (∀ registry : Registry Heap,
      (TypeTable.build heap.types registry).Tells heap.types registry) ∧
    ∀ type bytes handle made later, createCustom type bytes heap = .ok handle made →
      made.LeadsTo later → later.Live handle →
      ∃ entry ∈ later.types, entry.id = type ∧ ∀ m : Marshaller Heap, m.OnHeap →
        m.types = .build later.types m.registry → m.ReadsBy entry handle later := by
  refine ⟨h.registers, TypeTable.tells_build h.registers.ids, ?_⟩
  intro type bytes handle made later hrun hleads hlive
  obtain ⟨hcustom, ⟨entry, hmem, rfl⟩, hbody⟩ := hleads.body?_custom hrun hlive
  have hlater : later.Reachable := hleads.reachable (h.of_createCustom hrun)
  exact ⟨entry, hmem, rfl, fun m hm htypes => hlater.readsBy hm htypes hmem hcustom hbody⟩

/-- Two types were registered, one of them without a name. -/
def twoTypes : Heap where
  types := StandardType.entries ++ [⟨⟨1000⟩, "Scalar"⟩, ⟨⟨1001⟩, ""⟩]

/-- Two converters claim the same type. -/
def contested : Registry Heap :=
  ⟨[.handleBacked, .configured "first" .quantity none (some "Scalar") .refusal .name,
    .configured "second" .quantity none (some "Scalar") .refusal .name]⟩

theorem twoTypes_reachable : twoTypes.Reachable := by
  let scalar : Heap := { types := StandardType.entries ++ [⟨⟨1000⟩, "Scalar"⟩] }
  have hscalar : scalar.Reachable := Reachable.fresh.step (.registerType "Scalar")
  exact hscalar.step (.registerType "")

/-- The object is read by the first of the two converters. -/
theorem types_faithful_of_contested :
    let labelled := twoTypes.pushed { content := .custom ⟨1000⟩ [7] }
    let m : Marshaller Heap := .make store labelled contested {}
    twoTypes.Reachable ∧
    createCustom ⟨1000⟩ [7] twoTypes = .ok (.object 0) labelled ∧ labelled.Live (.object 0) ∧
    twoTypes.registerType "Scalar" = (⟨1000⟩, twoTypes) ∧
    m.types.kindOf ⟨1001⟩ = .unknown ⟨1001⟩ ∧
    m.lift (some (.object 0)) labelled = .ok (.text "first") labelled := by
  intro labelled m
  have hcreate : createCustom ⟨1000⟩ [7] twoTypes = .ok (.object 0) labelled := rfl
  have hlive : labelled.Live (.object 0) := by decide
  have hscalar : ⟨⟨1000⟩, "Scalar"⟩ ∈ twoTypes.types := by decide +kernel
  have hnameless : ⟨⟨1001⟩, ""⟩ ∈ twoTypes.types := by decide +kernel
  have hfirst : IsLeast {i | contested.Claims "Scalar" i} 1 := by
    refine ⟨⟨_, rfl, rfl⟩, fun i hclaims => ?_⟩
    obtain ⟨c, hget, hclaims⟩ := hclaims
    cases i with
    | zero => cases hget; exact nomatch hclaims
    | succ i => exact Nat.le_add_left 1 i
  have hunclaimed : ∀ i, ¬ contested.Claims "" i := by
    rw [← Registry.claimant?_eq_none_iff]
    decide +kernel
  have hunnamed : ∀ type : StandardType, type.name ≠ "" := by
    rw [← StandardType.ofName?_eq_none_iff]
    decide +kernel
  obtain ⟨hregisters, htells, hcreated⟩ := Reachable.types_faithful twoTypes_reachable
  obtain ⟨entry, hmem, hid, hreads⟩ := hcreated _ _ _ _ labelled hcreate .refl hlive
  obtain rfl : entry = ⟨⟨1000⟩, "Scalar"⟩ :=
    List.inj_on_of_nodup_map hregisters.ids hmem hscalar hid
  refine ⟨twoTypes_reachable, hcreate, hlive, hregisters.known _ hscalar, ?_, ?_⟩
  · exact ((htells contested).listed _ hnameless _).mpr (.unknown hunclaimed hunnamed)
  · exact (hreads m ⟨rfl⟩ rfl).claimed 1 _ hfirst rfl m.limits.maxDepth

end Heap

end Marshal
