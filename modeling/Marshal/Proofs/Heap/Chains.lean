import Mathlib.Data.List.Chain
import Mathlib.Logic.Relation
import Marshal.Proofs.Heap.Conservation

/-!
# Chains of containment

One object holds another (`Heap.Holds`), and objects that hold one another in turn
form a chain.  A reader with `levels` levels of nesting follows every chain that
starts at its handle, and it can read the object if no chain passes through more
containers than that and every number on the way is one that it can read
(`Heap.Acceptable`).

`Heap.Deep n handle` says that some chain from the handle passes through `n`
containers.  Whatever holds something is a container, so this goes down one container
at a time (`deep_succ`), as the readers do.  From a handle on a cycle, or one that leads
to a cycle, there are chains through any number of containers
(`not_acceptable_of_cycle`).
-/

namespace Marshal

/-- Arrays, dictionaries and sets have objects as contents. -/
def Content.nests : Content → Bool
  | .array _ | .dictionary _ | .members _ => true
  | _ => false

theorem Content.nests_of_child {content : Content} {child : Handle}
    (h : child ∈ content.children) : content.nests = true := by
  cases content with
  | array | dictionary | members => rfl
  | _ => exact nomatch h

/-- A dictionary holds the keys and the values of its entries. -/
theorem Content.forall_children_dictionary {entries : List (Handle × Handle)}
    {P : Handle → Prop} : (∀ child ∈ (dictionary entries).children, P child) ↔
      ∀ entry ∈ entries, P entry.1 ∧ P entry.2 := by
  constructor
  · intro h entry hentry
    constructor
    · exact h entry.1 (List.mem_flatMap.mpr ⟨entry, hentry, by simp⟩)
    · exact h entry.2 (List.mem_flatMap.mpr ⟨entry, hentry, by simp⟩)
  · intro h child hchild
    obtain ⟨entry, hentry, hmem⟩ := List.mem_flatMap.mp hchild
    rcases List.mem_pair.mp hmem with rfl | rfl
    · exact (h entry hentry).1
    · exact (h entry hentry).2

/-- The layout of the number is known, and it is no unsigned integer that is larger than
every signed one. -/
def Numeral.Readable : Numeral → Prop
  | .known (.uint64 n) => (n.toNat : Int) ≤ Int64.maxValue.toInt
  | .known _ => True
  | .unreadable _ => False

namespace Heap

open Relation

variable {heap heap' : Heap} {handle child : Handle} {n levels : Nat} {content : Content}
  {mutable : Bool}

/-- The object of the handle is an array, a dictionary or a set. -/
def nests (heap : Heap) (handle : Handle) : Bool :=
  (heap.body? handle).any fun body => body.1.nests

/-- The object of the first handle is live and holds a reference to the second one. -/
def Holds (heap : Heap) (handle child : Handle) : Prop :=
  ∃ content mutable, heap.body? handle = some (content, mutable) ∧ child ∈ content.children

/-- Some chain of objects from the handle on, each held by the one before, passes through
at least `n` containers. -/
def Deep (heap : Heap) (n : Nat) (handle : Handle) : Prop :=
  ∃ chain, (handle :: chain).IsChain heap.Holds ∧ n ≤ (handle :: chain).countP heap.nests

/-- No chain of objects from the handle on passes through more than `levels` containers,
and all numbers that it leads to can be read. -/
structure Acceptable (heap : Heap) (levels : Nat) (handle : Handle) : Prop where
  shallow : ∀ chain, (handle :: chain).IsChain heap.Holds →
    (handle :: chain).countP heap.nests ≤ levels
  readable : ∀ other, ReflTransGen heap.Holds handle other → ∀ numeral mutable,
    heap.body? other = some (.number numeral, mutable) → numeral.Readable

/-! ## One object -/

theorem nests_of_body? (hbody : heap.body? handle = some (content, mutable)) :
    heap.nests handle = content.nests := by
  rw [nests, hbody]
  rfl

theorem holds_iff (hbody : heap.body? handle = some (content, mutable)) :
    heap.Holds handle child ↔ child ∈ content.children := by
  constructor
  · rintro ⟨other, mutable', hbody', hchild⟩
    rw [hbody] at hbody'
    obtain ⟨rfl, rfl⟩ := Prod.mk.inj (Option.some.inj hbody')
    exact hchild
  · intro hchild
    exact ⟨content, mutable, hbody, hchild⟩

/-- Whatever holds something is a container. -/
theorem Holds.nests (h : heap.Holds handle child) : heap.nests handle = true := by
  obtain ⟨content, mutable, hbody, hchild⟩ := h
  rw [nests_of_body? hbody]
  exact Content.nests_of_child hchild

/-! ## Going down -/

theorem deep_zero (heap : Heap) (handle : Handle) : heap.Deep 0 handle :=
  ⟨[], .singleton _, Nat.zero_le _⟩

theorem Deep.mono {m : Nat} (h : heap.Deep n handle) (hle : m ≤ n) : heap.Deep m handle := by
  obtain ⟨chain, hchain, hcount⟩ := h
  exact ⟨chain, hchain, hle.trans hcount⟩

theorem Deep.cons (h : heap.Deep n child) (hholds : heap.Holds handle child) :
    heap.Deep (n + 1) handle := by
  obtain ⟨chain, hchain, hcount⟩ := h
  refine ⟨child :: chain, .cons_cons hholds hchain, ?_⟩
  rw [List.countP_cons_of_pos hholds.nests]
  exact Nat.succ_le_succ hcount

/-- A chain through a container starts with one, and goes on with what that holds. -/
theorem deep_succ : heap.Deep (n + 1) handle ↔
    heap.nests handle = true ∧ (n = 0 ∨ ∃ child, heap.Holds handle child ∧ heap.Deep n child) := by
  constructor
  · rintro ⟨chain, hchain, hcount⟩
    cases chain with
    | nil =>
        by_cases hnests : heap.nests handle = true
        · rw [List.countP_cons_of_pos hnests, List.countP_nil] at hcount
          exact ⟨hnests, .inl (by omega)⟩
        · rw [List.countP_cons_of_neg hnests, List.countP_nil] at hcount
          omega
    | cons child chain =>
        obtain ⟨hholds, hrest⟩ := List.isChain_cons_cons.mp hchain
        rw [List.countP_cons_of_pos hholds.nests] at hcount
        exact ⟨hholds.nests, .inr ⟨child, hholds, chain, hrest, Nat.le_of_succ_le_succ hcount⟩⟩
  · rintro ⟨hnests, rfl | ⟨child, hholds, hdeep⟩⟩
    · refine ⟨[], .singleton _, ?_⟩
      rw [List.countP_cons_of_pos hnests]
      exact Nat.succ_le_succ (Nat.zero_le _)
    · exact hdeep.cons hholds

/-- Either a chain passes through too many containers or none does. -/
theorem shallow_iff : (∀ chain, (handle :: chain).IsChain heap.Holds →
      (handle :: chain).countP heap.nests ≤ levels) ↔ ¬ heap.Deep (levels + 1) handle := by
  constructor
  · rintro h ⟨chain, hchain, hcount⟩
    have hle := h chain hchain
    omega
  · intro h chain hchain
    by_contra hcount
    exact h ⟨chain, hchain, by omega⟩

/-! ## What is acceptable -/

/-- An object that is no container is acceptable unless it is a number that cannot be
read. -/
theorem acceptable_of_not_nests (hbody : heap.body? handle = some (content, mutable))
    (hnests : content.nests = false) :
    heap.Acceptable levels handle ↔ ∀ numeral, content = .number numeral → numeral.Readable := by
  have halone : ∀ child, ¬ heap.Holds handle child := by
    intro child hholds
    have hcontainer := hholds.nests
    rw [nests_of_body? hbody, hnests] at hcontainer
    exact nomatch hcontainer
  constructor
  · rintro h numeral rfl
    exact h.readable handle .refl numeral mutable hbody
  · intro h
    constructor
    · rw [shallow_iff, deep_succ, nests_of_body? hbody, hnests]
      exact fun hdeep => nomatch hdeep.1
    · intro other hreach numeral mutable' hnumber
      rcases hreach.cases_head with rfl | ⟨child, hholds, -⟩
      · rw [hbody] at hnumber
        exact h numeral (congrArg Prod.fst (Option.some.inj hnumber))
      · exact absurd hholds (halone child)

/-- A container needs a level for itself. -/
theorem not_acceptable_zero (hbody : heap.body? handle = some (content, mutable))
    (hnests : content.nests = true) : ¬ heap.Acceptable 0 handle := by
  intro h
  refine shallow_iff.mp h.shallow (deep_succ.mpr ⟨?_, .inl rfl⟩)
  rw [nests_of_body? hbody, hnests]

/-- A container is acceptable if all that it holds is, with one level less. -/
theorem acceptable_succ (hbody : heap.body? handle = some (content, mutable))
    (hnests : content.nests = true) :
    heap.Acceptable (levels + 1) handle ↔
      ∀ child ∈ content.children, heap.Acceptable levels child := by
  constructor
  · intro h child hchild
    have hholds : heap.Holds handle child := (holds_iff hbody).mpr hchild
    constructor
    · rw [shallow_iff]
      exact fun hdeep => shallow_iff.mp h.shallow (hdeep.cons hholds)
    · intro other hreach
      exact h.readable other (hreach.head hholds)
  · intro h
    constructor
    · rw [shallow_iff, deep_succ]
      rintro ⟨-, hzero | ⟨child, hholds, hdeep⟩⟩
      · exact nomatch hzero
      · exact shallow_iff.mp (h child ((holds_iff hbody).mp hholds)).shallow hdeep
    · intro other hreach numeral mutable' hnumber
      rcases hreach.cases_head with rfl | ⟨child, hholds, hrest⟩
      · rw [hbody] at hnumber
        obtain ⟨rfl, -⟩ := Prod.mk.inj (Option.some.inj hnumber)
        exact nomatch hnests
      · exact (h child ((holds_iff hbody).mp hholds)).readable other hrest numeral mutable' hnumber

/-! ## Cycles -/

theorem Deep.of_reaches {other : Handle} (h : heap.Deep n other)
    (hreach : ReflTransGen heap.Holds handle other) : heap.Deep n handle := by
  induction hreach using ReflTransGen.head_induction_on with
  | refl => exact h
  | head hholds _ ih => exact (ih.cons hholds).mono (Nat.le_succ n)

/-- Around a cycle there are chains through any number of containers. -/
theorem deep_of_cycle (h : TransGen heap.Holds handle handle) (n : Nat) : heap.Deep n handle := by
  induction n with
  | zero => exact deep_zero heap handle
  | succ n ih =>
      obtain ⟨child, hholds, hrest⟩ := TransGen.head'_iff.mp h
      exact (ih.of_reaches hrest).cons hholds

/-- What leads to a cycle is not acceptable, with however many levels. -/
theorem not_acceptable_of_cycle {other : Handle} (hreach : ReflTransGen heap.Holds handle other)
    (hcycle : TransGen heap.Holds other other) : ¬ heap.Acceptable levels handle := by
  intro h
  exact shallow_iff.mp h.shallow ((deep_of_cycle hcycle (levels + 1)).of_reaches hreach)

end Heap

end Marshal
