import Mathlib.Data.List.Induction
import Marshal.Proofs.Value.Equivalence

/-!
# Building dictionaries and sets

Dictionaries and sets are built by putting in one element after another, and each time an
equal one is looked for.  Equal keys need not be the same: zeros may differ in sign and
containers in order.  So there are two questions about a dictionary, which key stays and
which value is found, and they have opposite answers: the first of the equal keys keeps its
place, and the last of their values is found, whichever equal key it is looked up by.

`firsts` says what stays without building anything: the members that no earlier one equals.
A NaN equals nothing and always stays.

For proper keys this comes down to two facts about a single step.  What was put in is found
wherever something equal is, and nothing else is found differently (`find?_put`); and a
member that was left out has an equal one in its place, which is equal to whatever the
member is (`any_adjoin`).
-/

namespace Marshal

namespace Value

variable {key k value member item : Value} {built entries : List (Value × Value)}
  {members kept : List Value}

/-- The members that no earlier one equals, in their order. -/
def firsts (members : List Value) : List Value :=
  (members.zipIdx.filter fun placed =>
    !(members.take placed.2).any (· == placed.1)).map Prod.fst

/-- Whether a member stays depends on those before it only. -/
theorem firsts_append_singleton (members : List Value) (member : Value) :
    firsts (members ++ [member]) =
      firsts members ++ if members.any (· == member) then [] else [member] := by
  unfold firsts
  rw [List.zipIdx_append, List.filter_append, List.map_append]
  congr 1
  · refine congrArg (List.map Prod.fst) (List.filter_congr fun placed hplaced => ?_)
    have hlt : placed.2 < members.length := by
      have hbounds := List.mem_zipIdx (x := placed.1) (i := placed.2) hplaced
      omega
    rw [List.take_append_of_le_length hlt.le]
  · cases hany : members.any (· == member) <;> simp [hany]

/-! ## Members -/

/-- A member that is left out is equal to one that is there. -/
theorem any_adjoin (hmember : member.Proper) (kept : List Value) :
    (adjoin member kept).any (· == item) = (kept.any (· == item) || member == item) := by
  cases hany : kept.any (· == member) with
  | false =>
      rw [adjoin_of_not_any hany, List.any_append, List.any_cons, List.any_nil, Bool.or_false]
  | true =>
      rw [adjoin_of_any hany]
      cases hitem : member == item with
      | false => rw [Bool.or_false]
      | true =>
          obtain ⟨other, hother, hsame⟩ := List.any_eq_true.mp hany
          rw [Bool.or_true, List.any_eq_true]
          exact ⟨other, hother, hmember.beq_trans hsame hitem⟩

theorem any_gathered (hmembers : ∀ m ∈ members, m.Proper) (kept : List Value) :
    (gathered kept members).any (· == item) =
      (kept.any (· == item) || members.any (· == item)) := by
  induction members generalizing kept with
  | nil => simp [gathered]
  | cons member members ih =>
      rw [List.forall_mem_cons] at hmembers
      show (gathered (adjoin member kept) members).any (· == item) = _
      rw [ih hmembers.2, any_adjoin hmembers.1, List.any_cons, Bool.or_assoc]

/-- Of each class of equal members the first one stays. -/
theorem gathered_eq_firsts (hmembers : ∀ m ∈ members, m.Proper) :
    gathered [] members = firsts members := by
  induction members using List.reverseRecOn with
  | nil => rfl
  | append_singleton members member ih =>
      have hearlier : ∀ m ∈ members, m.Proper :=
        fun m hm => hmembers m (List.mem_append_left _ hm)
      have hstep : gathered [] (members ++ [member]) = adjoin member (gathered [] members) := by
        rw [gathered, gathered, List.foldl_append]
        rfl
      rw [hstep, firsts_append_singleton, ← ih hearlier, adjoin, any_gathered hearlier,
        List.any_nil, Bool.false_or]
      split <;> simp

/-- No two members are equal, whichever of them comes first. -/
theorem Distinct.unequal (h : Distinct members) (hmembers : ∀ m ∈ members, m.Proper) :
    members.Pairwise fun a b => (a == b) = false ∧ (b == a) = false := by
  refine h.imp_of_mem fun {a b} ha hb hne => ⟨hne, ?_⟩
  rw [Bool.eq_false_iff] at hne ⊢
  exact fun hsame => hne ((hmembers b hb).beq_symm (hmembers a ha) hsame)

/-! ## Entries -/

/-- What is found after an entry was put in: its value under every key that equals its own,
and what was found before under all others. -/
theorem find?_put (hkey : key.Proper) (hk : k.Proper) (hbuilt : ∀ e ∈ built, e.1.Proper) :
    ((put key value built).find? (·.1 == k)).map Prod.snd =
      if key == k then some value else (built.find? (·.1 == k)).map Prod.snd := by
  induction built with
  | nil => cases hfound : key == k <;> simp [put, hfound]
  | cons entry built ih =>
      rw [List.forall_mem_cons] at hbuilt
      rw [put]
      cases hplace : entry.1 == key with
      | true =>
          -- the entry is looked up by the same keys as the new one
          have hagree : (entry.1 == k) = (key == k) := by
            rw [Bool.eq_iff_iff]
            constructor
            · exact hbuilt.1.beq_trans (hbuilt.1.beq_symm hkey hplace)
            · exact hkey.beq_trans hplace
          cases hfound : key == k <;> simp [hagree, hfound]
      | false =>
          rw [if_neg (by simp), List.find?_cons, List.find?_cons]
          cases hother : entry.1 == k with
          | false => exact ih hbuilt.2
          | true =>
              -- a key that finds this entry does not equal the new one
              have hnot : (key == k) = false := by
                rw [Bool.eq_false_iff]
                intro hfound
                have hsame := hk.beq_trans hother (hkey.beq_symm hk hfound)
                exact Bool.false_ne_true (hplace.symm.trans hsame)
              rw [hnot, if_neg (by simp)]

/-- The last value that was put in under an equal key is found. -/
theorem find?_merged (hentries : ∀ e ∈ entries, e.1.Proper) (hk : k.Proper) :
    ((merged [] entries).find? (·.1 == k)).map Prod.snd =
      (entries.reverse.find? (·.1 == k)).map Prod.snd := by
  induction entries using List.reverseRecOn with
  | nil => rfl
  | append_singleton entries entry ih =>
      have hearlier : ∀ e ∈ entries, e.1.Proper :=
        fun e he => hentries e (List.mem_append_left _ he)
      have hentry : entry.1.Proper := hentries entry (by simp)
      have hstep : merged [] (entries ++ [entry]) = put entry.1 entry.2 (merged [] entries) := by
        rw [merged, merged, List.foldl_append]
        rfl
      have hbuilt : ∀ e ∈ merged [] entries, e.1.Proper ∧ True :=
        forall_merged (Q := fun _ => True) (List.forall_mem_nil _)
          fun e he => ⟨hearlier e he, trivial⟩
      rw [hstep, find?_put hentry hk fun e he => (hbuilt e he).1, ih hearlier,
        List.reverse_append, List.reverse_singleton, List.singleton_append, List.find?_cons]
      cases entry.1 == k <;> rfl

theorem distinct_merged (entries : List (Value × Value)) :
    Distinct ((merged [] entries).map Prod.fst) := by
  rw [map_fst_merged]
  exact distinct_gathered List.Pairwise.nil _

/-! ## What is built -/

/-- A dictionary that is built from entries with proper keys finds, under any proper key, the
last of the values that were given for an equal one.  Its keys are the first ones of each
class of equal keys in the order in which they came, no two of them are equal, and from its
own entries it is built again.  The same is so of sets and their members. -/
theorem builds_firsts :
    (∀ entries : List (Value × Value), (∀ e ∈ entries, e.1.Proper) →
      ∃ built, ofEntries entries = .dict built ∧
        (∀ key : Value, key.Proper → (Value.dict built).get? key =
          (entries.reverse.find? (·.1 == key)).map Prod.snd) ∧
        (built.map Prod.fst).Pairwise (fun a b => (a == b) = false ∧ (b == a) = false) ∧
        built.map Prod.fst = firsts (entries.map Prod.fst) ∧
        ofEntries built = .dict built) ∧
    ∀ members : List Value, (∀ m ∈ members, m.Proper) →
      ∃ built, ofMembers members = .set built ∧
        (∀ item : Value, (Value.set built).contains item = members.any (· == item)) ∧
        built.Pairwise (fun a b => (a == b) = false ∧ (b == a) = false) ∧
        built = firsts members ∧
        ofMembers built = .set built := by
  constructor
  · intro entries hentries
    -- keys gather like the members of a set, whatever becomes of their values
    have hkeys : (merged [] entries).map Prod.fst = gathered [] (entries.map Prod.fst) :=
      map_fst_merged [] entries
    have hproper : ∀ key ∈ entries.map Prod.fst, key.Proper := by
      simpa using fun key value hmem => hentries (key, value) hmem
    have hkept : ∀ key ∈ (merged [] entries).map Prod.fst, key.Proper := by
      intro key hkey
      rw [hkeys] at hkey
      rcases mem_of_mem_gathered hkey with hnone | hgiven
      · exact absurd hnone List.not_mem_nil
      · exact hproper key hgiven
    refine ⟨merged [] entries, rfl, fun key hkey => find?_merged hentries hkey,
      (distinct_merged entries).unequal hkept, ?_, ?_⟩
    · rw [hkeys, gathered_eq_firsts hproper]
    · -- distinct keys all stay, each where it is
      have hagain : merged [] (merged [] entries) = [] ++ merged [] entries :=
        merged_of_distinct (distinct_merged entries)
      exact congrArg dict hagain
  · intro members hmembers
    have hdistinct : Distinct (gathered [] members) := distinct_gathered List.Pairwise.nil members
    refine ⟨gathered [] members, rfl, fun item => ?_, ?_, gathered_eq_firsts hmembers, ?_⟩
    · show (gathered [] members).any (· == item) = _
      rw [any_gathered hmembers, List.any_nil, Bool.false_or]
    · refine hdistinct.unequal fun member hmember => ?_
      rcases mem_of_mem_gathered hmember with hnone | hgiven
      · exact absurd hnone List.not_mem_nil
      · exact hmembers member hgiven
    · have hagain : gathered [] (gathered [] members) = [] ++ gathered [] members :=
        gathered_of_distinct hdistinct
      exact congrArg set hagain

/-- Zeros of both signs are one key, of which the first one stays and the last value is found;
every NaN stays, and nothing is found under it. -/
theorem builds_firsts_of_zeros :
    let zero : Value := .float ⟨0⟩
    let minusZero : Value := .float ⟨0x8000000000000000⟩
    let nan : Value := .float .nan
    ∃ built, ofEntries [(zero, .int 1), (nan, .int 2), (.text "x", .int 3), (minusZero, .int 4),
        (nan, .int 5)] = .dict built ∧
      built.map Prod.fst = [zero, nan, .text "x", nan] ∧
      (dict built).get? zero = some (.int 4) ∧ (dict built).get? minusZero = some (.int 4) ∧
      (dict built).get? nan = none := by
  intro zero minusZero nan
  have hbeq : ∀ v w : Value, (v == w) = equals v w := fun _ _ => rfl
  have hsimple : ∀ e ∈ [(zero, Value.int 1), (nan, .int 2), (.text "x", .int 3),
      (minusZero, .int 4), (nan, .int 5)], e.1.isSimple := by decide
  obtain ⟨built, hbuilt, hget, -, hkeys, -⟩ := builds_firsts.1
    [(zero, .int 1), (nan, .int 2), (.text "x", .int 3), (minusZero, .int 4), (nan, .int 5)]
    fun e he => .simple (hsimple e he)
  refine ⟨built, hbuilt, ?_, ?_, ?_, ?_⟩
  · rw [hkeys]
    simp +decide [firsts, hbeq, equals, zero, nan, minusZero]
  all_goals
    rw [hget _ (.simple rfl)]
    simp +decide [hbeq, equals, zero, nan, minusZero]

end Value

end Marshal
