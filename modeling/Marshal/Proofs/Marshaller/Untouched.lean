import Marshal.Proofs.Heap.Clients
import Marshal.Proofs.Marshaller.Reading
import Marshal.Proofs.Store.Watched

/-!
# Reading leaves no trace

Readers create something after all: for each set that they meet they have an array of its
members collected, and they give it up again.  Whatever comes of the reading, afterwards
the heap shows what it showed before.  What tells is the number of slots, which has grown
by one for each collection that was answered.

That is an invariant of every run (`Metered`).  A collection that is refused creates
nothing, since no set holds what is gone, and a release empties slots but keeps them.
The collections are counted in a run on the watched heap, which mirrors the one on the
heap itself (`Marshaller.relates_watched`).
-/

namespace Marshal

/-- The request collects the members of a set. -/
def Request.collects : Request → Bool
  | members _ => true
  | _ => false

variable {α : Type} {base : Heap} {owned : Multiset Handle} {s : Watched Heap}

/-- Beside what is `owned` nothing is left of what was created since `base`, and each
collection that was answered took a slot. -/
structure Metered (base : Heap) (owned : Multiset Handle) (s : Watched Heap) : Prop where
  grows : Heap.Grows base 0 s.state owned
  size_eq : s.state.slots.size = base.slots.size + s.answered.countP Request.collects

namespace Metered

/-- What only looks is of no account, and neither is what only notes. -/
theorem looking {request : Request} (h : Metered base owned s) (hlooks : request.looks) :
    Metered base owned { s with answered := request :: s.answered } where
  grows := h.grows
  size_eq := by
    have hother : ¬ request.collects := by
      cases request <;> simp_all [Request.looks, Request.collects]
    rw [List.countP_cons_of_neg hother]
    exact h.size_eq

theorem ends_ask {request : Request} (h : Metered base owned s) (hlooks : request.looks) :
    Ends (Heap.store.watched.ask request) s (fun _ => Metered base owned)
      fun _ => Metered base owned := by
  have hsame : Ends (Heap.answer request) s.state (fun _ heap => heap = s.state)
      fun _ heap => heap = s.state := Heap.keeps_of_looks hlooks (· = s.state) s.state rfl
  refine Watched.ends_ask (hsame.mono (fun a heap heq => ?_) fun _ heap heq => ?_)
  · subst heq
    exact h.looking hlooks
  · subst heq
    exact h

/-- A collection that is answered takes a slot, and whoever asked owns the array. -/
theorem ends_members (h : Metered base owned s) (hclosed : base.Closed) (set : Handle) :
    Ends (Heap.store.watched.ask (.members set)) s
      (fun array => Metered base (array ::ₘ owned)) fun _ => Metered base owned := by
  have hsize : Ends (Heap.answer (.members set)) s.state
      (fun _ heap => heap.slots.size = s.state.slots.size + 1)
      fun _ heap => heap.slots.size = s.state.slots.size := by
    refine ends_bind (Heap.ends_reading (fun members hmembers => ?_) fun _ _ => rfl)
    obtain ⟨mutable, hbody⟩ := Heap.membersOf_eq_ok.mp hmembers
    have hlive : ∀ child ∈ (Content.array members.toArray).children, s.state.Live child := by
      simpa [Content.children] using h.grows.conserved.closed hclosed set _ mutable hbody
    refine Heap.ends_collect hlive ?_ fun _ _ => rfl
    rw [Heap.collected, Heap.size_pushed, Heap.size_retainedAll]
  have hgrows : Ends (Heap.answer (.members set)) s.state _ _ := h.grows.ends_members hclosed rfl
  refine Watched.ends_ask ((hgrows.and hsize).mono (fun array heap hgood => ?_)
    fun _ heap hbad => ?_)
  · refine ⟨hgood.1.finish, ?_⟩
    calc heap.slots.size = s.state.slots.size + 1 := hgood.2
      _ = base.slots.size + s.answered.countP Request.collects + 1 := by rw [h.size_eq]
      _ = base.slots.size + (Request.members set :: s.answered).countP Request.collects := by
          rw [List.countP_cons_of_pos rfl, Nat.add_assoc]
  · exact ⟨hbad.1, hbad.2.trans h.size_eq⟩

/-- The array is given up, and its slot remains. -/
theorem release {array : Handle} (h : Metered base (array ::ₘ owned) s) :
    Metered base owned (Heap.store.watched.release array s) where
  grows := h.grows.release
  size_eq := (Heap.leaves_release array s.state).size_eq.trans h.size_eq

end Metered

namespace Marshaller

variable {m : Marshaller (Watched Heap)}

/-- Every step that readers consist of is metered. -/
theorem admits_metered (hstore : m.store = Heap.store.watched) (hregistry : m.registry = {})
    (hclosed : base.Closed) :
    m.Admits fun x => ∀ owned, Keeps (Metered base owned) x where
  pure a _ := keeps_pure a
  throw failure _ := keeps_throw failure
  bind hx hf owned := (hx owned).bind fun a => hf a owned
  ask hlooks owned s hs := by
    rw [hstore]
    exact hs.ends_ask hlooks
  log hnotice owned s hs := by
    rw [hstore]
    exact ends_modify ⟨hs.grows.note hnotice, hs.size_eq⟩
  withMembers set body hbody owned s hs := by
    rw [hstore]
    refine ends_withReference ((hs.ends_members hclosed set).mono (fun array s' hs' => ?_)
      fun _ _ => id)
    exact (hbody array _ s' hs').mono (fun _ _ hs'' => hs''.release) fun _ _ hs'' => hs''.release
  lift converter hmem := by
    rw [hregistry] at hmem
    exact absurd hmem List.not_mem_nil

/-- Readers do the same on the heap and on the watched heap. -/
theorem relates_watched (start : Heap) (limits : Limits) :
    (make Heap.store.watched ⟨start, []⟩ {} limits).Relates (make Heap.store start {} limits)
      Mirrors where
  types_eq := rfl
  limits_eq := rfl
  pure := mirrors_pure
  throw := mirrors_throw
  bind := Mirrors.bind
  ask {request} _ := mirrors_ask request
  log {notice} _ := mirrors_log notice
  withMembers set _ _ hbody := (mirrors_ask (.members set)).withReference hbody
  lift := .nil

end Marshaller

variable {client : Client}

/-- Whatever a client has read, dead or alive, and whatever comes of it, the heap shows the
same objects with the same counts afterwards and no release was in vain.  The objects
created meanwhile are the collections of members that were answered, which are counted in
the same run on the watched heap. -/
theorem Client.Reachable.reading_untouched (h : client.Reachable) (start : Heap) (limits : Limits)
    (reading : Reading) :
    let m := Marshaller.make Heap.store start {} limits
    let watched := Marshaller.make Heap.store.watched ⟨start, []⟩ {} limits
    Ends (reading.run m) client.heap (fun _ => Heap.Same client.heap)
      (fun _ => Heap.Same client.heap) ∧
    Store.seen Watched.state (reading.run watched ⟨client.heap, []⟩) =
      reading.run m client.heap ∧
    Ends (reading.run watched) ⟨client.heap, []⟩
      (fun _ s => s.state.allocations =
        client.heap.allocations + s.answered.countP Request.collects)
      (fun _ s => s.state.allocations =
        client.heap.allocations + s.answered.countP Request.collects) := by
  intro m watched
  have hgrows := h.heap_reachable.positive.grows
  have hmetered : Metered client.heap 0 ⟨client.heap, []⟩ := ⟨hgrows, rfl⟩
  have hends := (Marshaller.admits_metered (m := watched) rfl rfl h.closed).run reading 0 _ hmetered
  have hseen := (Marshaller.relates_watched start limits).run reading ⟨client.heap, []⟩
  refine ⟨?_, hseen, hends.mono (fun _ _ hs => hs.size_eq) fun _ _ hs => hs.size_eq⟩
  cases hrun : reading.run watched ⟨client.heap, []⟩ with
  | ok a s =>
      rw [hrun] at hseen
      exact ends_of_ok hseen.symm (hends.of_ok hrun).grows.same
  | error failure s =>
      rw [hrun] at hseen
      exact ends_of_error hseen.symm (hends.of_error hrun).grows.same

/-- A set is a member of itself, and reading it goes round until the levels are used up. -/
theorem Client.Reachable.reading_untouched_of_cycle :
    let client := (({} : Client).step (.ask (.create .valueSet))).step
      (.ask (.addMember (.object 0) (.object 0)))
    let read := (Reading.set (.object 0)).run (.make Heap.store {} {} {})
    client.heap.body? (.object 0) = some (.members [.object 0], true) ∧
      (∀ members heap', read client.heap = .ok members heap' → client.heap.Same heap') ∧
      ∀ failure heap', read client.heap = .error failure heap' → client.heap.Same heap' := by
  intro client read
  have hclient : client.Reachable :=
    (Reachable.fresh.step _ (Multiset.zero_le _)).step _ (Multiset.zero_le _)
  have hread : ∀ {client : Client}, client.Reachable →
      (∀ members heap', read client.heap = .ok members heap' → client.heap.Same heap') ∧
      ∀ failure heap', read client.heap = .error failure heap' → client.heap.Same heap' := by
    intro client hclient
    obtain ⟨hends, -, -⟩ := hclient.reading_untouched {} {} (.set (.object 0))
    exact ⟨fun _ _ hrun => hends.of_ok hrun, fun _ _ hrun => hends.of_error hrun⟩
  exact ⟨rfl, hread hclient⟩

end Marshal
