import Mathlib.Data.Finset.Card
import Mathlib.Data.List.Induction
import Mathlib.Data.List.Sort
import Mathlib.Order.Defs.Unbundled
import Marshal.Sorted

/-!
# Laws of sorted lists

A key that is put into a sorted list is in it afterwards, with the keys that were there, and
the list is sorted as before.  An entry that is put into a map is what is found under its
key.  The keys of a map are put in like those of a set (`map_fst_put`), so what is known of
sets need not be shown again for maps.

Keys or entries that are put in one after another make a set (`ofKeys`) or a map
(`ofEntries`).  It has what was put in, and of the entries with one key the last one.
-/

namespace Marshal.Sorted

variable {κ α : Type} (precedes : κ → κ → Bool)

/-- Each key precedes all keys after it. -/
def Ordered (keys : List κ) : Prop := keys.Pairwise fun a b => precedes a b = true

/-- The keys of a list, put in one after another. -/
def ofKeys (keys : List κ) : List κ := keys.foldl (fun sorted key => insert precedes key sorted) []

/-- The entries of a list, put in one after another. -/
def ofEntries (entries : List (κ × α)) : List (κ × α) :=
  entries.foldl (fun sorted entry => put precedes entry.1 entry.2 sorted) []

/-- An order in which of two keys one precedes the other. -/
abbrev Strict : Prop := IsStrictTotalOrder κ fun a b => precedes a b = true

instance strict_descending [LE κ] [LT κ] [DecidableLT κ] [Std.IsLinearOrder κ]
    [Std.LawfulOrderLT κ] : Strict (descending : κ → κ → Bool) where
  trichotomous a b h h' := by
    have hle : ∀ {a b : κ}, ¬ descending a b = true → a ≤ b := fun h =>
      Std.not_lt.mp fun hlt => h (decide_eq_true hlt)
    exact Std.le_antisymm (hle h) (hle h')
  irrefl a h := Std.lt_irrefl (of_decide_eq_true h)
  trans a b c h h' :=
    decide_eq_true (Std.lt_trans (of_decide_eq_true h') (of_decide_eq_true h))

instance strict_ascending [LE κ] [LT κ] [DecidableLT κ] [Std.IsLinearOrder κ]
    [Std.LawfulOrderLT κ] : Strict (ascending : κ → κ → Bool) :=
  inferInstanceAs (IsStrictTotalOrder κ (Function.swap fun a b => descending a b = true))

variable {precedes} {key k : κ} {value v : α} {keys : List κ} {entries : List (κ × α)}

/-- What is in descending order is in ascending order from its end. -/
theorem ordered_reverse [LT κ] [DecidableLT κ] :
    Ordered ascending keys.reverse ↔ Ordered descending keys := List.pairwise_reverse

theorem Ordered.pairwise_lt [LT κ] [DecidableLT κ] (h : Ordered ascending keys) :
    keys.Pairwise (· < ·) := h.imp of_decide_eq_true

/-- The first key precedes all others. -/
theorem Ordered.eq_or_precedes (h : Ordered precedes keys) (hhead : keys.head? = some key)
    (hk : k ∈ keys) : k = key ∨ precedes key k = true := by
  obtain ⟨rest, rfl⟩ := List.head?_eq_some_iff.mp hhead
  exact (List.mem_cons.mp hk).imp_right (List.rel_of_pairwise_cons h)

/-! ## One more key -/

/-- The keys of a map are put in like those of a set. -/
theorem map_fst_put :
    (put precedes key value entries).map Prod.fst =
      insert precedes key (entries.map Prod.fst) := by
  induction entries with
  | nil => rfl
  | cons entry entries ih =>
      simp only [put, insert, List.map_cons]
      split
      · rfl
      · split
        · rw [List.map_cons, ih]
        · rfl

/-- The first entry of a key is found. -/
theorem find?_cons [DecidableEq κ] (entry : κ × α) :
    find? k (entry :: entries) = if entry.1 = k then some entry.2 else find? k entries := by
  by_cases hkey : entry.1 = k <;> simp [find?, hkey]

section Order

variable [Strict precedes]

theorem not_precedes_self (key : κ) : ¬ precedes key key = true :=
  Std.Irrefl.irrefl (r := fun a b => precedes a b = true) key

theorem precedes_trans {a b c : κ} (hab : precedes a b = true) (hbc : precedes b c = true) :
    precedes a c = true :=
  IsTrans.trans (r := fun a b => precedes a b = true) a b c hab hbc

/-- Keys of which neither precedes the other are one key. -/
theorem eq_of_not_precedes (h : ¬ precedes key k = true) (h' : ¬ precedes k key = true) :
    key = k :=
  Std.Trichotomous.trichotomous (r := fun a b => precedes a b = true) key k h h'

theorem ne_of_precedes (h : precedes key k = true) : key ≠ k := by
  rintro rfl
  exact not_precedes_self key h

theorem Ordered.nodup (h : Ordered precedes keys) : keys.Nodup := h.imp ne_of_precedes

/-- What is in order is known when it is known what is there. -/
theorem eq_of_mem_iff {β : Type} {f : β → κ} {xs ys : List β} (h : Ordered precedes (xs.map f))
    (h' : Ordered precedes (ys.map f)) (hmem : ∀ x, x ∈ xs ↔ x ∈ ys) : xs = ys := by
  have hirrefl : Std.Irrefl fun a b => precedes (f a) (f b) = true :=
    ⟨fun a => not_precedes_self (f a)⟩
  have hantisymm : Std.Antisymm fun a b => precedes (f a) (f b) = true :=
    ⟨fun a b hab hba => absurd (precedes_trans hab hba) (not_precedes_self (f a))⟩
  exact (List.pairwise_map.mp h).eq_of_mem_iff (List.pairwise_map.mp h') hmem

theorem mem_insert : k ∈ insert precedes key keys ↔ k = key ∨ k ∈ keys := by
  induction keys with
  | nil => simp [insert]
  | cons first rest ih =>
      unfold insert
      split
      · exact List.mem_cons
      · next hkey =>
        split
        · rw [List.mem_cons, ih, List.mem_cons, or_left_comm]
        · next hfirst =>
          -- the key is there already
          obtain rfl := eq_of_not_precedes hkey hfirst
          simp

theorem ordered_insert (h : Ordered precedes keys) :
    Ordered precedes (insert precedes key keys) := by
  induction keys with
  | nil => exact List.pairwise_singleton _ _
  | cons first rest ih =>
      obtain ⟨hfirst, hrest⟩ := List.pairwise_cons.mp h
      unfold insert
      split
      · next hkey =>
        refine List.pairwise_cons.mpr ⟨fun other hother => ?_, h⟩
        rcases List.mem_cons.mp hother with rfl | hother
        · exact hkey
        · exact precedes_trans hkey (hfirst other hother)
      · split
        · next hkey =>
          refine List.pairwise_cons.mpr ⟨fun other hother => ?_, ih hrest⟩
          rcases mem_insert.mp hother with rfl | hother
          · exact hkey
          · exact hfirst other hother
        · exact h

theorem ordered_put (h : Ordered precedes (entries.map Prod.fst)) :
    Ordered precedes ((put precedes key value entries).map Prod.fst) := by
  rw [map_fst_put]
  exact ordered_insert h

variable [DecidableEq κ]

/-- Under its key, an entry takes the place of what was there. -/
theorem find?_put :
    find? k (put precedes key value entries) = if key = k then some value else find? k entries := by
  induction entries with
  | nil => exact find?_cons (key, value)
  | cons entry entries ih =>
      unfold put
      split
      · exact find?_cons (key, value)
      · next hkey =>
        split
        · next hfirst =>
          rw [find?_cons, ih, find?_cons]
          by_cases hk : entry.1 = k
          · have hne : key ≠ k := fun heq => ne_of_precedes hfirst (hk.trans heq.symm)
            simp only [if_pos hk, if_neg hne]
          · simp only [if_neg hk]
        · next hfirst =>
          obtain rfl := eq_of_not_precedes hkey hfirst
          rw [find?_cons, find?_cons]
          split <;> rfl

/-- Where no two keys are the same, all entries are found. -/
theorem find?_eq_some_iff (h : (entries.map Prod.fst).Nodup) :
    find? k entries = some v ↔ (k, v) ∈ entries := by
  induction entries with
  | nil => simp [find?]
  | cons entry entries ih =>
      obtain ⟨hfresh, hrest⟩ := List.nodup_cons.mp h
      rw [find?_cons, List.mem_cons, ← ih hrest]
      split
      · next hk =>
        have hnone : find? k entries ≠ some v := by
          rw [ne_eq, ih hrest]
          exact fun hmem => hfresh (hk ▸ List.mem_map_of_mem hmem)
        rw [or_iff_left hnone, Prod.ext_iff, Option.some_inj, eq_comm]
        exact (and_iff_right hk.symm).symm
      · next hk => simp [Prod.ext_iff, Ne.symm hk]

end Order

/-! ## One after another -/

theorem ofKeys_append_singleton :
    ofKeys precedes (keys ++ [key]) = insert precedes key (ofKeys precedes keys) := by
  rw [ofKeys, List.foldl_append]
  rfl

theorem ofEntries_append_singleton (entry : κ × α) :
    ofEntries precedes (entries ++ [entry]) =
      put precedes entry.1 entry.2 (ofEntries precedes entries) := by
  rw [ofEntries, List.foldl_append]
  rfl

/-- The keys of a map that was put together are a set that was. -/
theorem map_fst_ofEntries :
    (ofEntries precedes entries).map Prod.fst = ofKeys precedes (entries.map Prod.fst) := by
  induction entries using List.reverseRecOn with
  | nil => rfl
  | append_singleton entries entry ih =>
      rw [ofEntries_append_singleton, map_fst_put, ih, List.map_append, List.map_singleton,
        ofKeys_append_singleton]

variable [Strict precedes]

theorem mem_ofKeys : k ∈ ofKeys precedes keys ↔ k ∈ keys := by
  induction keys using List.reverseRecOn with
  | nil => rfl
  | append_singleton keys key ih =>
      rw [ofKeys_append_singleton, mem_insert, ih, List.mem_append, List.mem_singleton, or_comm]

theorem ordered_ofKeys (keys : List κ) : Ordered precedes (ofKeys precedes keys) := by
  induction keys using List.reverseRecOn with
  | nil => exact .nil
  | append_singleton keys key ih =>
      rw [ofKeys_append_singleton]
      exact ordered_insert ih

theorem toFinset_ofKeys [DecidableEq κ] : (ofKeys precedes keys).toFinset = keys.toFinset := by
  ext k
  rw [List.mem_toFinset, List.mem_toFinset, mem_ofKeys]

/-- A set is as long as there are different keys. -/
theorem length_ofKeys [DecidableEq κ] :
    (ofKeys precedes keys).length = keys.toFinset.card := by
  have hnodup : (ofKeys precedes keys).Nodup := (ordered_ofKeys keys).nodup
  rw [← List.toFinset_card_of_nodup hnodup, toFinset_ofKeys]

theorem ordered_ofEntries (entries : List (κ × α)) :
    Ordered precedes ((ofEntries precedes entries).map Prod.fst) := by
  rw [map_fst_ofEntries]
  exact ordered_ofKeys _

/-- The last of the entries with a key is found under it. -/
theorem find?_ofEntries [DecidableEq κ] :
    find? k (ofEntries precedes entries) = entries.reverse.lookup k := by
  induction entries using List.reverseRecOn with
  | nil => rfl
  | append_singleton entries entry ih =>
      rw [ofEntries_append_singleton, find?_put, ih, List.reverse_append, List.reverse_singleton,
        List.singleton_append, List.lookup_cons]
      by_cases hk : entry.1 = k
      · simp [hk]
      · rw [if_neg hk, beq_false_of_ne (Ne.symm hk)]

end Marshal.Sorted
