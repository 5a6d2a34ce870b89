import Marshal.Proofs.Heap.Reachable
import Marshal.Proofs.Heap.Transfer

/-!
# Clients of a heap

A client works on a heap of its own and keeps an account of the references it
owns.  Whatever is granted to it goes into the account, and it releases nothing
that it does not own.

On such a heap every count is right (`Client.Reachable.conservation`): it is the
number of references to the object that the client owns and that live objects
hold.  So nothing is held that is gone, and no release is in vain.  Objects may
hold themselves, directly or through others.

Since the heap was empty once, all its objects are new, and the account is what
`Extends` of an empty heap calls owned.
-/

namespace Marshal

/-- A heap, and the references to its objects that are owned outside of it. -/
structure Client where
  heap : Heap := {}
  owned : Multiset Handle := 0

/-- The references that an operation gives back. -/
def Operation.released : Operation → List Handle
  | .release handle => [handle]
  | _ => []

namespace Client

/-- What an operation does to the heap and to the account. -/
def step (client : Client) (operation : Operation) : Client where
  heap := (operation.perform client.heap).2
  owned := client.owned - operation.released + (operation.perform client.heap).1

/-- The states a client comes to that releases only what it owns. -/
inductive Reachable : Client → Prop
  | fresh : Reachable {}
  | step {client : Client} (operation : Operation) : Reachable client →
      ↑operation.released ≤ client.owned → Reachable (client.step operation)

end Client

namespace Heap

variable {base heap : Heap} {owned : Multiset Handle}

/-! ## Requests -/

namespace Extends

/-- What grants a new object and nothing else. -/
theorem ends_allocate {o : Object} (h : Extends base heap owned) (hchildren : o.children = [])
    (hcount : o.count = 1) :
    Ends (allocate o) heap (fun handle heap' => Extends base heap' (↑[handle] + owned))
      fun _ heap' => Extends base heap' owned :=
  Heap.ends_allocate (h.created hchildren hcount) fun _ _ => h

/-- Every request that is answered takes the references that it grants, and one
that is refused takes none. -/
theorem ends_answer (h : Extends base heap owned) (hbase : base.slots.size = 0)
    (request : Request) :
    Ends (answer request) heap (fun a heap' => Extends base heap' (↑(request.granted a) + owned))
      fun _ heap' => Extends base heap' owned := by
  have hnothing : Extends base heap (↑([] : List Handle) + owned) := by
    rwa [Multiset.coe_nil, zero_add]
  -- every object is new, so every container may be filled
  have hnew : ∀ index, base.slots.size ≤ index := fun index => hbase ▸ Nat.zero_le index
  have hclosed := h.closed (closed_of_size_eq_zero hbase)
  cases request with
  | retain handle => exact ends_retain (fun hlive => h.retained hlive) fun _ _ => h
  | createText | createNumber | createData => exact h.ends_allocate rfl rfl
  | create kind => exact h.ends_allocate (by cases kind <;> rfl) rfl
  | createCustom type bytes =>
      exact ends_bind (ends_reading (fun _ _ => h.ends_allocate rfl rfl) fun _ _ => h)
  | copy kind handle =>
      refine ends_copy (hclosed handle) (fun content mutable hbody _ => ?_) fun _ _ => h
      exact h.collected (o := { content }) (hclosed handle content mutable hbody) rfl
  | members set =>
      refine ends_bind (ends_reading (fun members hmembers => ?_) fun _ _ => h)
      obtain ⟨mutable, hbody⟩ := membersOf_eq_ok.mp hmembers
      have hlive : ∀ child ∈ (Content.array members.toArray).children, heap.Live child := by
        simpa [Content.children] using hclosed set _ mutable hbody
      exact ends_collect hlive (h.collected (o := { content := .array members.toArray }) hlive rfl)
        fun _ _ => h
  | append array item =>
      refine ends_append (fun index items hindex hbody hitem => ?_) fun _ _ => h
      subst hindex
      exact (hnothing.appended hbody (hnew _) hitem)
  | addMember set member =>
      refine ends_addMember (fun _ _ _ _ _ _ => hnothing)
        (fun index content mutable members hindex hmember hbody _ => ?_) fun _ _ => h
      subst hindex
      exact hnothing.memberAdded hbody (hnew _) (live_iff_body?.mpr (by rw [hmember]; rfl))
  | putEntry dictionary key value =>
      refine ends_putEntry
        (fun index text mutable entries hindex hkey hvalue hbody _ => ?_)
        (fun index text mutable entries place old hindex _ hvalue hbody _ hold => ?_)
        fun _ _ => h
      · subst hindex
        exact hnothing.entryAdded hbody (hnew _) (live_iff_body?.mpr (by rw [hkey]; rfl)) hvalue
      · subst hindex
        exact (hnothing.valueReplaced hbody (hnew _) hvalue hold).release
  | appendIndex | addIndex | addPair =>
      refine ends_change (fun index content hindex hbody hkind => ?_) fun _ _ => h
      subst hindex
      refine hnothing.rewritten hbody (hnew _) ?_
      cases content <;> rfl
  | typeOf | textBytes | readNumber | readBoolean | dataBytes | count | itemAt | entries | indexAt
  | firstIndex | lastIndex | pairAt | customBytes =>
      exact ends_reading (fun _ _ => hnothing) fun _ _ => h

end Extends

end Heap

/-! ## Runs -/

namespace Client

variable {client : Client}

/-- Nothing has to be owned to ask for something. -/
theorem Reachable.ask (h : client.Reachable) (request : Request) :
    (client.step (.ask request)).Reachable := h.step (.ask request) (Multiset.zero_le _)

/-- The account is what an empty heap was extended by. -/
def Balanced (client : Client) : Prop := ∃ base : Heap,
  base.slots.size = 0 ∧ base.deadReleases = 0 ∧ Heap.Extends base client.heap client.owned

theorem balanced_fresh : Balanced {} :=
  ⟨{}, rfl, rfl, Heap.Reachable.fresh.positive.extends⟩

/-- An operation that gives back only what is owned keeps the account right. -/
theorem Balanced.step (h : client.Balanced) (operation : Operation)
    (howned : ↑operation.released ≤ client.owned) : (client.step operation).Balanced := by
  obtain ⟨base, hsize, hdead, hextends⟩ := h
  refine ⟨base, hsize, hdead, ?_⟩
  -- a granted list is prepended by the rules and appended to the account
  have hsame : ∀ heap' : Heap, heap'.slots = client.heap.slots →
      heap'.deadReleases = client.heap.deadReleases →
      Heap.Extends base heap' (client.owned - ↑([] : List Handle) + ↑([] : List Handle)) := by
    intro heap' hslots hdead'
    rw [Multiset.coe_nil, tsub_zero, add_zero]
    refine hextends.congr (fun handle => ?_) (by rw [hslots]) hdead'
    cases handle <;> simp [Heap.get?, hslots]
  have hgrant : ∀ {α : Type} {granted : α → List Handle} {attempt : Heap.Attempt α},
      Ends attempt client.heap (fun a heap' => base.Extends heap' (↑(granted a) + client.owned))
        (fun _ heap' => base.Extends heap' client.owned) →
      base.Extends (Operation.attempted granted attempt client.heap).2
        (client.owned - ↑([] : List Handle) +
          ↑(Operation.attempted granted attempt client.heap).1) := by
    intro α granted attempt hends
    refine Operation.attempted_of_ends
      (Q := fun granted heap' => base.Extends heap' (client.owned - ↑([] : List Handle) + ↑granted))
      (hends.mono (fun a heap' h => ?_) fun _ heap' h => ?_)
    · rwa [Multiset.coe_nil, tsub_zero, add_comm]
    · rwa [Multiset.coe_nil, tsub_zero, add_zero]
  cases operation with
  | ask request => exact hgrant (hextends.ends_answer hsize request)
  | createUnreadable layout => exact hgrant (hextends.ends_allocate rfl rfl)
  | release handle =>
      have hmem : handle ∈ client.owned := Multiset.singleton_le.mp howned
      have htaken : base.Extends client.heap (handle ::ₘ (client.owned - {handle})) := by
        rw [← Multiset.singleton_add, add_tsub_cancel_of_le (Multiset.singleton_le.mpr hmem)]
        exact hextends
      show base.Extends _ (client.owned - ↑[handle] + ↑([] : List Handle))
      rw [Multiset.coe_singleton, Multiset.coe_nil, add_zero]
      exact htaken.release
  | registerType name =>
      refine hsame _ ?_ ?_
      · show (client.heap.registerType name).2.slots = client.heap.slots
        unfold Heap.registerType
        split <;> rfl
      · show (client.heap.registerType name).2.deadReleases = client.heap.deadReleases
        unfold Heap.registerType
        split <;> rfl
  | setBudget budget => exact hsame _ rfl rfl
  | log notice harmless => exact hsame _ rfl (List.count_cons_of_ne harmless)

theorem Reachable.balanced (h : client.Reachable) : client.Balanced := by
  induction h with
  | fresh => exact balanced_fresh
  | step operation _ howned ih => exact ih.step operation howned

/-- Nothing that is held is gone. -/
theorem Reachable.closed (h : client.Reachable) : client.heap.Closed := by
  obtain ⟨base, hsize, -, hextends⟩ := h.balanced
  exact hextends.closed (Heap.closed_of_size_eq_zero hsize)

/-- To release only what is owned is one way to use a heap. -/
theorem Reachable.heap_reachable (h : client.Reachable) : client.heap.Reachable := by
  induction h with
  | fresh => exact .fresh
  | step operation _ _ ih => exact ih.step operation

/-- Along every run of a client that releases only what it owns, the count of each
object is the number of references that the client owns and that live objects
hold, whatever is held is live, and no release is in vain. -/
theorem Reachable.conservation (h : client.Reachable) :
    (∀ index o, client.heap.get? (.object index) = some o →
      o.count = client.owned.count (.object index) + client.heap.held.count (.object index)) ∧
    (∀ handle ∈ client.heap.held, client.heap.Live handle) ∧
    client.heap.deadReleases = 0 := by
  obtain ⟨base, hsize, hdead, hextends⟩ := h.balanced
  have hheld : client.heap.held = client.heap.heldSince base.slots.size := by
    rw [hsize, Heap.held]
  refine ⟨fun index o ho => ?_, fun handle hmem => ?_, ?_⟩
  · have hcount := Heap.Tallies.count_eq hextends index o.count (Heap.count?_of_get? ho)
    have hnone : base.count? (.object index) = none := Heap.count?_of_size_le (by omega)
    rw [hnone, Option.getD_none, zero_add, Multiset.count_add, ← hheld] at hcount
    exact hcount
  · exact hextends.live_of_held (hheld ▸ hmem)
  · exact hextends.deadReleases_eq.trans hdead

/-- An array that was put into itself and then given up has one reference left,
which it holds itself. -/
theorem Reachable.conservation_of_cycle :
    let client := ((({} : Client).step (.ask (.create .array))).step
      (.ask (.append (.object 0) (.object 0)))).step (.release (.object 0))
    client.heap.count? (.object 0) = some 1 ∧ client.owned = 0 ∧
      client.heap.held.count (.object 0) = 1 ∧ client.heap.deadReleases = 0 := by
  intro client
  have hfilled : Reachable ((({} : Client).step (.ask (.create .array))).step
      (.ask (.append (.object 0) (.object 0)))) :=
    (Reachable.fresh.step _ (Multiset.zero_le _)).step _ (Multiset.zero_le _)
  have hreachable : client.Reachable := hfilled.step _ (by decide)
  let held : Object := { content := .array #[.object 0], mutable := true, count := 1 }
  have hdrop : Heap.dropOne { slots := #[some { held with count := 2 }] } (.object 0) =
      ({ slots := #[some held] }, []) := rfl
  have hheap : client.heap = { slots := #[some held] } := by
    show Heap.release (.object 0) { slots := #[some { held with count := 2 }] } = _
    rw [Heap.release, Heap.releaseAll, hdrop, List.append_nil, Heap.releaseAll]
  have hget : client.heap.get? (.object 0) = some held := by
    rw [hheap]
    rfl
  have howned : client.owned = 0 := by decide
  obtain ⟨hcounts, -, hdead⟩ := hreachable.conservation
  have hheld : 1 = client.owned.count (.object 0) + client.heap.held.count (.object 0) :=
    hcounts 0 _ hget
  rw [howned, Multiset.count_zero, zero_add] at hheld
  exact ⟨Heap.count?_of_get? hget, howned, hheld.symm, hdead⟩

end Client

end Marshal
