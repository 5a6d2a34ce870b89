import Marshal.Heap.Object
import Marshal.Marshaller.Lowering
import Marshal.Value.Equality

/-!
# What a value becomes in a store

A store does not keep everything that a value tells.  Keys of dictionaries become
texts, entries whose keys have one text become one entry, and equal members of a
set become one member.  `Value.normal` is what is left.

`Convertible room v` says that `v` can be stored where containers may nest `room`
levels deep.  For such values being normal is final (`Convertible.normal_normal`),
since the dictionaries and sets that are built have no equal keys or members
(`Distinct`), and to build one again from its own contents changes nothing.
-/

namespace Marshal

/-- An integer is read from the number that is stored for it. -/
theorem Store.numberValue_integerNumber (n : Int64) :
    numberValue (integerNumber n) = .ok (.int n) := by
  unfold integerNumber
  split
  · next h => rw [numberValue, h]
  · rfl

namespace Value

/-- The contents of the object that stands for a value without parts. -/
def scalar? : Value → Option Content
  | bool b => some (.boolean b)
  | int n => some (.number (.known (Store.integerNumber n)))
  | float x => some (.number (.known (.float64 x)))
  | complex z => some (.number (.known (.complex128 z)))
  | text s => some (.text s)
  | bytes b => some (.data b)
  | _ => none

/-- The text of a key, as a value.  A key without a text is left as it is. -/
def textual (key : Value) : Value :=
  match key.keyText with
  | .ok s => text s
  | .error _ => key

mutual

/-- What is left of a value in a store. -/
def normal : Value → Value
  | list items => list (normalAll items)
  | dict entries => ofEntries (normalEntries entries)
  | set members => ofMembers members
  | v => v
termination_by structural v => v

/-- What is left of several values. -/
def normalAll : List Value → List Value
  | [] => []
  | v :: vs => normal v :: normalAll vs
termination_by structural vs => vs

/-- What is left of entries, which are not yet put together. -/
def normalEntries : List (Value × Value) → List (Value × Value)
  | [] => []
  | (key, v) :: entries => (key.textual, normal v) :: normalEntries entries
termination_by structural entries => entries

end

theorem normalAll_eq_map (items : List Value) : normalAll items = items.map normal := by
  induction items with
  | nil => rfl
  | cons item items ih => rw [normalAll, ih, List.map_cons]

theorem normalEntries_eq_map (entries : List (Value × Value)) :
    normalEntries entries = entries.map fun entry => (entry.1.textual, entry.2.normal) := by
  induction entries with
  | nil => rfl
  | cons entry entries ih => rw [normalEntries, ih, List.map_cons]

theorem normal_of_scalar {v : Value} {content : Content} (h : v.scalar? = some content) :
    v.normal = v := by
  cases v <;> first | rfl | exact nomatch h

/-! ## Equal scalars -/

/-- An integer is stored without loss. -/
theorem integer?_integerNumber (n : Int64) : (Store.integerNumber n).integer? = some n.toInt := by
  unfold Store.integerNumber
  split
  · next h => rw [Number.integer?, ← Int32.toInt_toInt64, h]
  · rfl

/-- A store finds scalars the same just when they are equal. -/
theorem same_of_scalar {v w : Value} {c d : Content} (hv : v.scalar? = some c)
    (hw : w.scalar? = some d) : c.same d = (v == w) := by
  have hint := integer?_integerNumber
  have hfloat : ∀ x, (Number.float64 x).integer? = none := fun _ => rfl
  have hcomplex : ∀ z, (Number.complex128 z).integer? = none := fun _ => rfl
  show c.same d = equals v w
  cases v <;> cases hv <;> cases w <;> cases hw <;>
    simp [equals, Content.same, Number.same, Number.sameInexact, hint, hfloat, hcomplex,
      Int64.toInt_inj, Bool.beq_eq_decide_eq]

/-! ## Dictionaries and sets without repetitions -/

/-- No member has an equal one after it. -/
def Distinct (members : List Value) : Prop := members.Pairwise fun a b => (a == b) = false

theorem adjoin_of_any {member : Value} {members : List Value}
    (h : members.any (· == member) = true) : adjoin member members = members := if_pos h

theorem adjoin_of_not_any {member : Value} {members : List Value}
    (h : members.any (· == member) = false) : adjoin member members = members ++ [member] :=
  if_neg (Bool.eq_false_iff.mp h)

theorem Distinct.adjoin {members : List Value} (h : Distinct members) (member : Value) :
    Distinct (adjoin member members) := by
  cases hany : members.any (· == member) with
  | true =>
      rw [adjoin_of_any hany]
      exact h
  | false =>
      rw [adjoin_of_not_any hany]
      refine List.pairwise_append.mpr ⟨h, List.pairwise_singleton _ _, fun a ha b hb => ?_⟩
      obtain rfl := List.mem_singleton.mp hb
      simpa using List.any_eq_false.mp hany a ha

/-- A member that follows in a list without repetitions goes to the end. -/
theorem Distinct.adjoin_eq {members rest : List Value} {member : Value}
    (h : Distinct (members ++ member :: rest)) :
    Value.adjoin member members = members ++ [member] := by
  refine adjoin_of_not_any (List.any_eq_false.mpr fun a ha => ?_)
  have hne := (List.pairwise_append.mp h).2.2 a ha member (List.mem_cons_self ..)
  simpa using hne

theorem mem_of_mem_adjoin {member other : Value} {members : List Value}
    (h : other ∈ adjoin member members) : other = member ∨ other ∈ members := by
  unfold adjoin at h
  split at h
  · exact .inr h
  · simpa [or_comm] using h

/-- The members of a set that is built. -/
def gathered (built members : List Value) : List Value :=
  members.foldl (fun built member => adjoin member built) built

theorem distinct_gathered {built : List Value} (hbuilt : Distinct built) (members : List Value) :
    Distinct (gathered built members) := by
  induction members generalizing built with
  | nil => exact hbuilt
  | cons member members ih => exact ih (hbuilt.adjoin member)

theorem mem_of_mem_gathered {other : Value} {built members : List Value}
    (h : other ∈ gathered built members) : other ∈ built ∨ other ∈ members := by
  induction members generalizing built with
  | nil => exact .inl h
  | cons member members ih =>
      rcases ih h with h | h
      · rcases mem_of_mem_adjoin h with rfl | h
        · exact .inr (List.mem_cons_self ..)
        · exact .inl h
      · exact .inr (List.mem_cons_of_mem _ h)

/-- Members without repetitions are all kept. -/
theorem gathered_of_distinct {built members : List Value} (h : Distinct (built ++ members)) :
    gathered built members = built ++ members := by
  induction members generalizing built with
  | nil => simp [gathered]
  | cons member members ih =>
      have hnext : Distinct ((built ++ [member]) ++ members) := by simpa using h
      calc gathered built (member :: members)
          = gathered (adjoin member built) members := rfl
        _ = built ++ [member] ++ members := by rw [h.adjoin_eq, ih hnext]
        _ = built ++ member :: members := by simp

theorem put_eq (key value : Value) (entries : List (Value × Value)) :
    put key value entries = match entries.findIdx? (·.1 == key) with
      | some place => entries.modify place fun entry => (entry.1, value)
      | none => entries ++ [(key, value)] := by
  induction entries with
  | nil => rfl
  | cons entry entries ih =>
      rw [put, List.findIdx?_cons]
      split
      · rfl
      · rw [ih]
        cases entries.findIdx? (·.1 == key) <;> rfl

/-- The keys of a dictionary are gathered like the members of a set. -/
theorem map_fst_put (key value : Value) (entries : List (Value × Value)) :
    (put key value entries).map Prod.fst = adjoin key (entries.map Prod.fst) := by
  induction entries with
  | nil => rfl
  | cons entry entries ih =>
      rw [put]
      cases hkey : entry.1 == key with
      | true => simp [adjoin, hkey]
      | false =>
          rw [if_neg (by simp), List.map_cons, ih]
          unfold adjoin
          simp only [List.map_cons, List.any_cons, hkey, Bool.false_or]
          split <;> simp

theorem forall_put {P Q : Value → Prop} {key value : Value} {entries : List (Value × Value)}
    (hkey : P key) (hvalue : Q value) (h : ∀ entry ∈ entries, P entry.1 ∧ Q entry.2) :
    ∀ entry ∈ put key value entries, P entry.1 ∧ Q entry.2 := by
  induction entries with
  | nil => simp [put, hkey, hvalue]
  | cons entry entries ih =>
      rw [List.forall_mem_cons] at h
      rw [put]
      split
      · exact List.forall_mem_cons.mpr ⟨⟨h.1.1, hvalue⟩, h.2⟩
      · exact List.forall_mem_cons.mpr ⟨h.1, ih h.2⟩

theorem put_of_not_any {key value : Value} {entries : List (Value × Value)}
    (h : (entries.map Prod.fst).any (· == key) = false) :
    put key value entries = entries ++ [(key, value)] := by
  have hnone : entries.findIdx? (·.1 == key) = none := by
    rw [List.findIdx?_eq_none_iff]
    intro entry hmem
    have hne := List.any_eq_false.mp h entry.1 (List.mem_map_of_mem hmem)
    simpa using hne
  rw [put_eq, hnone]

/-- The entries of a dictionary that is built. -/
def merged (built entries : List (Value × Value)) : List (Value × Value) :=
  entries.foldl (fun built entry => put entry.1 entry.2 built) built

theorem map_fst_merged (built entries : List (Value × Value)) :
    (merged built entries).map Prod.fst =
      gathered (built.map Prod.fst) (entries.map Prod.fst) := by
  induction entries generalizing built with
  | nil => rfl
  | cons entry entries ih =>
      show (merged (put entry.1 entry.2 built) entries).map Prod.fst = _
      rw [ih, map_fst_put]
      rfl

theorem forall_merged {P Q : Value → Prop} {built entries : List (Value × Value)}
    (hbuilt : ∀ entry ∈ built, P entry.1 ∧ Q entry.2)
    (h : ∀ entry ∈ entries, P entry.1 ∧ Q entry.2) :
    ∀ entry ∈ merged built entries, P entry.1 ∧ Q entry.2 := by
  induction entries generalizing built with
  | nil => exact hbuilt
  | cons entry entries ih =>
      rw [List.forall_mem_cons] at h
      exact ih (forall_put h.1.1 h.1.2 hbuilt) h.2

/-- Entries without repeated keys are all kept. -/
theorem merged_of_distinct {built entries : List (Value × Value)}
    (h : Distinct ((built ++ entries).map Prod.fst)) : merged built entries = built ++ entries := by
  induction entries generalizing built with
  | nil => simp [merged]
  | cons entry entries ih =>
      have hnext : Distinct (((built ++ [entry]) ++ entries).map Prod.fst) := by simpa using h
      have hnew : (built.map Prod.fst).any (· == entry.1) = false := by
        rw [List.map_append, List.map_cons] at h
        refine List.any_eq_false.mpr fun key hkey => ?_
        have hne := (List.pairwise_append.mp h).2.2 key hkey entry.1 (List.mem_cons_self ..)
        simpa using hne
      calc merged built (entry :: entries)
          = merged (put entry.1 entry.2 built) entries := rfl
        _ = built ++ [entry] ++ entries := by rw [put_of_not_any hnew, ih hnext]
        _ = built ++ entry :: entries := by simp

theorem normal_list (items : List Value) : (list items).normal = list (items.map normal) := by
  rw [normal, normalAll_eq_map]

theorem normal_dict (entries : List (Value × Value)) :
    (dict entries).normal = dict (merged [] (normalEntries entries)) := rfl

theorem normal_set (members : List Value) : (set members).normal = set (gathered [] members) := rfl

/-! ## Values that can be stored -/

/-- The value can be stored where containers may nest `room` levels deep. -/
inductive Convertible : (room : Nat) → Value → Prop
  | scalar {room : Nat} {v : Value} (h : v.scalar?.isSome) : Convertible room v
  | list {room : Nat} {items : List Value} (hitems : ∀ item ∈ items, Convertible room item) :
      Convertible (room + 1) (.list items)
  | dict {room : Nat} {entries : List (Value × Value)}
      (hkeys : ∀ entry ∈ entries, ∃ s, entry.1.keyText = .ok s)
      (hvalues : ∀ entry ∈ entries, Convertible room entry.2) :
      Convertible (room + 1) (.dict entries)
  | set {room : Nat} {members : List Value}
      (hmembers : ∀ member ∈ members, member.scalar?.isSome) : Convertible (room + 1) (.set members)

/-- The value can be stored where containers may nest that deep, if the domain objects in it
can be `shared`. -/
inductive Storable (shared : DomainObject → Prop) : (room : Nat) → Value → Prop
  | scalar {room : Nat} {v : Value} (h : v.scalar?.isSome) : Storable shared room v
  | object {room : Nat} {o : DomainObject} (h : shared o) : Storable shared room (.object o)
  | list {room : Nat} {items : List Value} (hitems : ∀ item ∈ items, Storable shared room item) :
      Storable shared (room + 1) (.list items)
  | dict {room : Nat} {entries : List (Value × Value)}
      (hkeys : ∀ entry ∈ entries, ∃ s, entry.1.keyText = .ok s)
      (hvalues : ∀ entry ∈ entries, Storable shared room entry.2) :
      Storable shared (room + 1) (.dict entries)
  | set {room : Nat} {members : List Value} (hflat : ∀ member ∈ members, ¬ member.isContainer)
      (hmembers : ∀ member ∈ members, Storable shared room member) :
      Storable shared (room + 1) (.set members)

theorem not_isContainer_of_scalar {v : Value} (h : v.scalar?.isSome) : ¬ v.isContainer := by
  cases v <;> first | exact Bool.false_ne_true | exact nomatch h

/-- What can be stored and is no container is a scalar or shared. -/
theorem Storable.cases_of_flat {shared : DomainObject → Prop} {room : Nat} {v : Value}
    (h : Storable shared room v) (hflat : ¬ v.isContainer) :
    v.scalar?.isSome ∨ ∃ o, v = .object o ∧ shared o := by
  cases h with
  | scalar h => exact .inl h
  | object h => exact .inr ⟨_, rfl, h⟩
  | _ => exact absurd rfl hflat

theorem Convertible.storable {shared : DomainObject → Prop} {room : Nat} {v : Value}
    (h : Convertible room v) : Storable shared room v := by
  induction h with
  | scalar h => exact .scalar h
  | list _ ih => exact .list ih
  | dict hkeys _ ih => exact .dict hkeys ih
  | set hmembers =>
      exact .set (fun member hmember => not_isContainer_of_scalar (hmembers member hmember))
        fun member hmember => .scalar (hmembers member hmember)

/-- Where nothing is shared, there are no domain objects. -/
theorem Storable.convertible {shared : DomainObject → Prop} {room : Nat} {v : Value}
    (h : Storable shared room v) (hnone : ∀ o, ¬ shared o) : Convertible room v := by
  induction h with
  | scalar h => exact .scalar h
  | object h => exact absurd h (hnone _)
  | list _ ih => exact .list ih
  | dict hkeys _ ih => exact .dict hkeys ih
  | set hflat hmembers =>
      refine .set fun member hmember => ?_
      have hcases := (hmembers member hmember).cases_of_flat (hflat member hmember)
      rcases hcases with hscalar | ⟨o, -, ho⟩
      · exact hscalar
      · exact absurd ho (hnone o)

theorem textual_of_keyText {key : Value} {s : String} (h : key.keyText = .ok s) :
    key.textual = text s := by
  rw [textual, h]

/-- The keys of a normal dictionary are texts, and its values are normal. -/
theorem forall_normal_entries {P Q : Value → Prop} {entries : List (Value × Value)}
    (hkeys : ∀ entry ∈ entries, ∃ s, entry.1.keyText = .ok s) (hP : ∀ s, P (text s))
    (hQ : ∀ entry ∈ entries, Q entry.2.normal) :
    ∀ entry ∈ merged [] (normalEntries entries), P entry.1 ∧ Q entry.2 := by
  refine forall_merged (List.forall_mem_nil _) fun entry hentry => ?_
  rw [normalEntries_eq_map] at hentry
  obtain ⟨old, hold, rfl⟩ := List.mem_map.mp hentry
  obtain ⟨s, hs⟩ := hkeys old hold
  refine ⟨?_, hQ old hold⟩
  show P old.1.textual
  rw [textual_of_keyText hs]
  exact hP s

namespace Convertible

variable {room : Nat} {v : Value}

/-- A normal value can be stored wherever the value can from which it comes. -/
theorem normal (h : Convertible room v) : Convertible room v.normal := by
  induction h with
  | scalar h =>
      obtain ⟨content, hcontent⟩ := Option.isSome_iff_exists.mp h
      rw [normal_of_scalar hcontent]
      exact .scalar h
  | list _ ih =>
      rw [normal_list]
      refine .list fun item hitem => ?_
      obtain ⟨old, hold, rfl⟩ := List.mem_map.mp hitem
      exact ih old hold
  | @dict room entries hkeys _ ih =>
      have hall : ∀ entry ∈ merged [] (normalEntries entries),
          (∃ s, entry.1.keyText = .ok s) ∧ Convertible room entry.2 :=
        forall_normal_entries (P := fun key => ∃ s, key.keyText = .ok s) hkeys
          (fun s => ⟨s, rfl⟩) ih
      rw [normal_dict]
      exact .dict (fun entry hentry => (hall entry hentry).1)
        fun entry hentry => (hall entry hentry).2
  | set hmembers =>
      rw [normal_set]
      refine .set fun member hmember => ?_
      rcases mem_of_mem_gathered hmember with hnone | hold
      · exact absurd hnone List.not_mem_nil
      · exact hmembers member hold

/-- A value that is normal stays as it is. -/
theorem normal_normal (h : Convertible room v) : v.normal.normal = v.normal := by
  induction h with
  | scalar h =>
      obtain ⟨content, hcontent⟩ := Option.isSome_iff_exists.mp h
      rw [normal_of_scalar hcontent, normal_of_scalar hcontent]
  | list _ ih =>
      rw [normal_list, normal_list, List.map_map]
      congr 1
      exact List.map_congr_left ih
  | @dict room entries hkeys _ ih =>
      have hall : ∀ entry ∈ merged [] (normalEntries entries),
          entry.1.textual = entry.1 ∧ entry.2.normal = entry.2 :=
        forall_normal_entries (P := fun key => key.textual = key) (Q := fun v => v.normal = v) hkeys
          (fun _ => rfl) ih
      have hdistinct : Distinct ((merged [] (normalEntries entries)).map Prod.fst) := by
        rw [map_fst_merged]
        exact distinct_gathered List.Pairwise.nil _
      -- built from entries that are normal and distinct, a dictionary has just these
      rw [normal_dict, normal_dict]
      generalize merged [] (normalEntries entries) = built at hall hdistinct
      have hsame : normalEntries built = built := by
        calc normalEntries built
            = built.map fun entry => (entry.1.textual, entry.2.normal) := normalEntries_eq_map built
          _ = built.map id := List.map_congr_left fun entry hentry =>
              Prod.ext (hall entry hentry).1 (hall entry hentry).2
          _ = built := List.map_id built
      have hagain : merged [] built = [] ++ built := merged_of_distinct hdistinct
      rw [hsame, hagain, List.nil_append]
  | @set room members _ =>
      have hdistinct : Distinct (gathered [] members) := distinct_gathered List.Pairwise.nil _
      rw [normal_set, normal_set, gathered_of_distinct hdistinct, List.nil_append]

end Convertible

end Value

end Marshal
