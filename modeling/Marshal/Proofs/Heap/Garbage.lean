import Mathlib.Logic.Relation
import Mathlib.Order.WellFoundedSet
import Marshal.Proofs.Heap.Chains
import Marshal.Proofs.Heap.Clients
import Marshal.Proofs.Heap.Grounded

/-!
# Garbage

What a client can still get at is what it owns and whatever that leads to
(`Heap.Reaches`).  Everything else is garbage, except the booleans, which are always
there.

* What can be reached is live: what is owned is, and nothing that is held is gone.
* What is live can be reached, if no object holds itself, directly or through others
  (`Heap.Acyclic`).  An object that is not owned is held by another one, that one is
  owned or held in turn, and since there are only so many objects and none comes up
  twice, this way up ends at something owned.

So the live objects of a heap without cycles are the booleans and what can be reached.
A release only takes objects away and therefore makes no cycle, which turns the
equation into one between what a release frees and what it puts out of reach.
-/

namespace Marshal

open Relation

namespace Heap

variable {heap heap' : Heap} {owned : Multiset Handle} {handle child : Handle} {index : Nat}

/-- No object holds itself, directly or through others. -/
def Acyclic (heap : Heap) : Prop := ∀ handle, ¬ TransGen heap.Holds handle handle

/-- The object is owned, or something that is owned leads to it. -/
def Reaches (heap : Heap) (owned : Multiset Handle) (handle : Handle) : Prop :=
  ∃ owner ∈ owned, ReflTransGen heap.Holds owner handle

/-! ## Ways through a heap -/

theorem Reaches.of_mem (hmem : handle ∈ owned) : heap.Reaches owned handle := ⟨handle, hmem, .refl⟩

theorem Reaches.tail (h : heap.Reaches owned handle) (hholds : heap.Holds handle child) :
    heap.Reaches owned child := by
  obtain ⟨owner, howner, hreach⟩ := h
  exact ⟨owner, howner, hreach.tail hholds⟩

/-- Whatever holds something has a slot. -/
theorem Holds.exists_index (h : heap.Holds handle child) : ∃ index, handle = .object index := by
  obtain ⟨_, _, hbody, hchild⟩ := h
  exact exists_index_of_child hbody hchild

theorem Holds.live (h : heap.Holds handle child) : heap.Live handle := by
  obtain ⟨_, _, hbody, -⟩ := h
  exact live_of_body? hbody

theorem holds_of_mem_refs (hmem : child ∈ heap.refs index) : heap.Holds (.object index) child := by
  obtain ⟨o, ho, hchild⟩ := exists_of_mem_refs hmem
  exact (holds_iff (body?_of_get? ho)).mpr hchild

theorem Holds.mem_refs (h : heap.Holds (.object index) child) : child ∈ heap.refs index := by
  obtain ⟨content, mutable, hbody, hchild⟩ := h
  rw [refs_of_body? hbody]
  exact hchild

/-- From something live only live objects are reached. -/
theorem Closed.live_of_reaches (h : heap.Closed) (howned : ∀ owner ∈ owned, heap.Live owner)
    (hreach : heap.Reaches owned handle) : heap.Live handle := by
  obtain ⟨owner, howner, hpath⟩ := hreach
  induction hpath with
  | refl => exact howned owner howner
  | tail _ hholds _ =>
      obtain ⟨content, mutable, hbody, hchild⟩ := hholds
      exact h _ content mutable hbody _ hchild

/-! ## No cycles -/

/-- Going up from one object to those that hold it comes to an end, so what passes from
all holders of an object to the object is true of every live one. -/
theorem Acyclic.induction {P : Handle → Prop} (h : heap.Acyclic)
    (step : ∀ index, heap.Live (.object index) →
      (∀ holder, heap.Holds (.object holder) (.object index) → P (.object holder)) →
      P (.object index))
    (hlive : heap.Live (.object index)) : P (.object index) := by
  let alive : Set Handle := {handle | ∃ index, handle = .object index ∧ heap.Live handle}
  have hfinite : alive.Finite := by
    refine ((Set.finite_lt_nat heap.slots.size).image Handle.object).subset ?_
    rintro _ ⟨index, rfl, hlive⟩
    exact ⟨index, lt_size_of_live hlive, rfl⟩
  -- what is above what is a strict order of finitely many objects
  have : Std.Irrefl (TransGen heap.Holds) := ⟨h⟩
  have : IsStrictOrder Handle (TransGen heap.Holds) := {}
  refine hfinite.wellFoundedOn (r := TransGen heap.Holds) |>.induction ⟨index, rfl, hlive⟩ ?_
  rintro _ ⟨index, rfl, hlive⟩ ih
  refine step index hlive fun holder hholds => ?_
  exact ih _ ⟨holder, rfl, hholds.live⟩ (.single hholds)

/-- Where objects rank above those that they hold, there are no cycles. -/
theorem Grounded.acyclic (h : Grounded 0 heap) : heap.Acyclic := by
  obtain ⟨rank, hrank⟩ := h
  -- each step of a path starts at an object that has a slot
  have hlower : ∀ top handle, TransGen heap.Holds (.object top) handle →
      ∀ index, handle = .object index → rank index < rank top := by
    intro top handle hpath
    induction hpath with
    | single hholds =>
        rintro index rfl
        exact hrank top index (Nat.zero_le _) (Nat.zero_le _) hholds.mem_refs
    | tail _ hholds ih =>
        rintro index rfl
        obtain ⟨middle, rfl⟩ := hholds.exists_index
        calc rank index < rank middle :=
              hrank middle index (Nat.zero_le _) (Nat.zero_le _) hholds.mem_refs
          _ < rank top := ih middle rfl
  intro handle hcycle
  obtain ⟨child, hholds, -⟩ := TransGen.head'_iff.mp hcycle
  obtain ⟨index, rfl⟩ := hholds.exists_index
  exact absurd (hlower index _ hcycle index rfl) (Nat.lt_irrefl _)

/-- What is left of a heap holds nothing that it did not hold. -/
theorem Leaves.holds (h : Leaves heap heap') (hholds : heap'.Holds handle child) :
    heap.Holds handle child := by
  obtain ⟨content, mutable, hbody, hchild⟩ := hholds
  exact ⟨content, mutable, (h.body?_eq _ (live_of_body? hbody)).symm.trans hbody, hchild⟩

theorem Leaves.acyclic (h : Leaves heap heap') (hacyclic : heap.Acyclic) : heap'.Acyclic :=
  fun handle hcycle => hacyclic handle (TransGen.mono (fun _ _ => h.holds) _ _ hcycle)

/-! ## Counting -/

/-- The two booleans are alone where no slot has an object. -/
theorem liveObjects_eq_two (h : ∀ index, ¬ heap.Live (.object index)) : heap.liveObjects = 2 := by
  have hempty : heap.newObjects 0 = ∅ :=
    Finset.eq_empty_of_forall_notMem fun index hmem => h index (mem_newObjects.mp hmem).2
  rw [liveObjects_eq, hempty, Finset.card_empty]

end Heap

namespace Client

variable {client : Client} {handle : Handle} {index : Nat}

/-- Every object is owned or held by another one. -/
theorem Reachable.owned_or_held (h : client.Reachable)
    (hlive : client.heap.Live (.object index)) :
    .object index ∈ client.owned ∨
      ∃ holder, client.heap.Holds (.object holder) (.object index) := by
  obtain ⟨base, hsize, -, hextends⟩ := h.balanced
  have hmem := hextends.mem_of_live (hsize ▸ Nat.zero_le index) hlive
  refine (Multiset.mem_add.mp hmem).imp_right fun hheld => ?_
  obtain ⟨holder, -, hrefs⟩ := Heap.mem_heldSince.mp hheld
  exact ⟨holder, Heap.holds_of_mem_refs hrefs⟩

theorem Reachable.live_of_reaches (h : client.Reachable)
    (hreach : client.heap.Reaches client.owned handle) : client.heap.Live handle := by
  obtain ⟨base, -, -, hextends⟩ := h.balanced
  exact h.closed.live_of_reaches (fun owner howner => hextends.live_of_owned howner) hreach

/-- Where there are no cycles, everything that has a slot can be reached. -/
theorem Reachable.reaches_of_live (h : client.Reachable) (hacyclic : client.heap.Acyclic)
    (hlive : client.heap.Live (.object index)) :
    client.heap.Reaches client.owned (.object index) := by
  refine hacyclic.induction (fun index hlive ih => ?_) hlive
  rcases h.owned_or_held hlive with howned | ⟨holder, hholds⟩
  · exact .of_mem howned
  · exact (ih holder hholds).tail hholds

theorem Reachable.live_iff (h : client.Reachable) (hacyclic : client.heap.Acyclic)
    (handle : Handle) :
    client.heap.Live handle ↔
      (∃ b, handle = .boolean b) ∨ client.heap.Reaches client.owned handle := by
  constructor
  · intro hlive
    cases handle with
    | boolean b => exact .inl ⟨b, rfl⟩
    | outside address => exact nomatch hlive
    | object index => exact .inr (h.reaches_of_live hacyclic hlive)
  · rintro (⟨b, rfl⟩ | hreach)
    · exact Heap.live_boolean b
    · exact h.live_of_reaches hreach

/-- A client that owns nothing leaves the booleans only. -/
theorem Reachable.liveObjects_eq_two (h : client.Reachable) (hacyclic : client.heap.Acyclic)
    (howned : client.owned = 0) : client.heap.liveObjects = 2 := by
  refine Heap.liveObjects_eq_two fun index hlive => ?_
  obtain ⟨owner, howner, -⟩ := h.reaches_of_live hacyclic hlive
  rw [howned] at howner
  exact Multiset.notMem_zero owner howner

/-- On a heap without cycles the live objects are the booleans and what the client can
reach.  Releasing a reference that it owns frees what it could reach before and cannot
reach any more, and nothing else, and once nothing is owned the booleans are alone. -/
theorem Reachable.garbage_collected (h : client.Reachable) (hacyclic : client.heap.Acyclic) :
    (∀ handle, client.heap.Live handle ↔
      (∃ b, handle = .boolean b) ∨ client.heap.Reaches client.owned handle) ∧
    (∀ handle ∈ client.owned,
      let next := client.step (.release handle)
      (∀ other, (client.heap.Live other ∧ ¬ next.heap.Live other) ↔
        (∀ b, other ≠ .boolean b) ∧ client.heap.Reaches client.owned other ∧
          ¬ next.heap.Reaches next.owned other) ∧
      (next.owned = 0 → next.heap.liveObjects = 2)) ∧
    (client.owned = 0 → client.heap.liveObjects = 2) := by
  refine ⟨h.live_iff hacyclic, fun handle hmem => ?_, h.liveObjects_eq_two hacyclic⟩
  intro next
  have hnext : next.Reachable := h.step (.release handle) (Multiset.singleton_le.mpr hmem)
  have hacyclic' : next.heap.Acyclic := (Heap.leaves_release handle client.heap).acyclic hacyclic
  refine ⟨fun other => ?_, hnext.liveObjects_eq_two hacyclic'⟩
  rw [h.live_iff hacyclic, hnext.live_iff hacyclic', not_or]
  constructor
  · rintro ⟨hboolean | hreach, hnone, hlost⟩
    · exact absurd hboolean hnone
    · exact ⟨fun b heq => hnone ⟨b, heq⟩, hreach, hlost⟩
  · rintro ⟨hnone, hreach, hlost⟩
    exact ⟨.inr hreach, fun ⟨b, heq⟩ => hnone b heq, hlost⟩

/-- A text is both the key and the value of an entry, and the dictionary is the last thing
that is owned.  With it the text goes. -/
theorem Reachable.garbage_collected_of_shared :
    let client := (((({} : Client).step (.ask (.createText "shared" false))).step
      (.ask (.create .dictionary))).step
        (.ask (.putEntry (.object 1) (.object 0) (.object 0)))).step (.release (.object 0))
    client.heap.Live (.object 0) ∧ client.owned = {.object 1} ∧
      (client.step (.release (.object 1))).heap.liveObjects = 2 := by
  intro client
  let filled := (((({} : Client).step (.ask (.createText "shared" false))).step
    (.ask (.create .dictionary))).step (.ask (.putEntry (.object 1) (.object 0) (.object 0))))
  have hfilled : filled.Reachable :=
    ((Reachable.fresh.step _ (Multiset.zero_le _)).step _ (Multiset.zero_le _)).step _
      (Multiset.zero_le _)
  have hclient : client.Reachable := hfilled.step (.release (.object 0)) (by decide)
  -- the dictionary comes after what it holds
  have hgrounded : Heap.Grounded 0 filled.heap := by
    refine ⟨id, fun holder child _ _ hmem => ?_⟩
    match holder with
    | 0 => exact absurd hmem (Multiset.notMem_zero _)
    | 1 =>
        have htext : Handle.object child ∈ [Handle.object 0, .object 0] := hmem
        obtain rfl : child = 0 := by simpa using htext
        exact Nat.zero_lt_one
    | _ + 2 => exact absurd hmem (Multiset.notMem_zero _)
  have hacyclic : client.heap.Acyclic :=
    (Heap.leaves_release (.object 0) filled.heap).acyclic hgrounded.acyclic
  have howned : client.owned = {.object 1} := by decide
  obtain ⟨hlive, hrelease, -⟩ := hclient.garbage_collected hacyclic
  have hholds : client.heap.Holds (.object 1) (.object 0) := by
    have hdrop : (filled.heap.dropOne (.object 0)).2 = [] := rfl
    have hheap : client.heap = (filled.heap.dropOne (.object 0)).1 := by
      show filled.heap.release (.object 0) = _
      rw [Heap.release, Heap.releaseAll, hdrop, List.append_nil, Heap.releaseAll]
    rw [hheap]
    exact ⟨.dictionary [(.object 0, .object 0)], true, rfl, List.mem_cons_self⟩
  refine ⟨(hlive (.object 0)).mpr (.inr ?_), howned, ?_⟩
  · exact (Heap.Reaches.of_mem (howned ▸ Multiset.mem_singleton_self _)).tail hholds
  · exact (hrelease (.object 1) (howned ▸ Multiset.mem_singleton_self _)).2 (by decide)

end Client

end Marshal
