import Marshal.Proofs.Marshaller.Delivering
import Marshal.Proofs.Sorted

/-!
# Lowering containers of integers

A container of integers is created empty, filled by one request for each element, and sealed.
`Adds` says of such requests what they make of what is gathered by then.  So a sealed
container has what all elements make together, put in one after another
(`Marshaller.OnHeap.ends_lowerIndices`).  Nothing but the budget can get in the way, and the budget
matters only when the container is created and when it is copied.
-/

namespace Marshal

variable {heap base : Heap} {β γ : Type} {kind : Container} {insertion : Handle → β → Request}
  {make : γ → Content} {initial : γ} {put : γ → β → γ}

/-- Requests to put elements into a container whose contents are `make` of what was gathered. -/
structure Adds (kind : Container) (insertion : Handle → β → Request) (make : γ → Content)
    (initial : γ) (put : γ → β → γ) : Prop where
  empty : make initial = .empty kind
  container : ∀ gathered, (make gathered).container? = some kind
  children : ∀ gathered, (make gathered).children = []
  inserts : ∀ (heap : Heap) handle gathered element,
    heap.body? handle = some (make gathered, true) →
    Ends (Heap.answer (insertion handle element)) heap
      (fun _ heap' => heap' = heap.refilled handle (make (put gathered element)))
      fun _ _ => False

/-- What is asked to be changed is changed, if it can be. -/
theorem Heap.ends_change_of_body? {content : Content} {handle : Handle} {f : Content → Content}
    (hbody : heap.body? handle = some (content, true)) (hkind : content.container? = some kind) :
    Ends (Heap.change kind handle f) heap (fun _ heap' => heap' = heap.refilled handle (f content))
      fun _ _ => False := by
  refine Heap.ends_change (fun index found hindex hfound _ => ?_) fun hnone => ?_
  · obtain ⟨rfl, -⟩ := Prod.mk.inj (Option.some.inj (hfound.symm.trans hbody))
    rfl
  · exact absurd hkind (hnone content hbody)

theorem adds_indices :
    Adds .indexSet .addIndex .indexSet [] fun values value =>
      Sorted.insert Sorted.descending value values where
  empty := rfl
  container _ := rfl
  children _ := rfl
  inserts _ _ _ _ hbody := Heap.ends_change_of_body? hbody rfl

theorem adds_pairs :
    Adds .pairSet (fun handle (pair : Int64 × Int64) => .addPair handle pair.1 pair.2)
      .pairSet [] fun pairs pair => Sorted.put Sorted.descending pair.1 pair.2 pairs where
  empty := rfl
  container _ := rfl
  children _ := rfl
  inserts _ _ _ _ hbody := Heap.ends_change_of_body? hbody rfl

/-- A container that was created in `base` has the contents by now. -/
structure Filled (base : Heap) (content : Content) (heap : Heap) : Prop where
  body : heap.body? base.next = some (content, true)
  unlimited : base.budget = none → heap.budget = none

theorem Filled.refilled {content : Content} (h : Filled base content heap)
    (content' : Content) : Filled base content' (heap.refilled base.next content') where
  body := by
    rw [Heap.refilled, Heap.next, Heap.body?_alter_self, ← Heap.next, h.body]
    rfl
  unlimited hnone := by
    rw [Heap.refilled, Heap.budget_alter]
    exact h.unlimited hnone

namespace Marshaller.OnHeap

variable {m : Marshaller Heap} (h : m.OnHeap)

include h

/-- Whatever was gathered, all elements are put in. -/
theorem ends_askAll (hadds : Adds kind insertion make initial put) (elements : List β)
    {gathered : γ} (hs : Filled base (make gathered) heap) :
    Ends (m.askAll (elements.map (insertion base.next))) heap
      (fun _ => Filled base (make (elements.foldl put gathered))) fun _ _ => False := by
  induction elements generalizing gathered heap with
  | nil => exact ends_pure hs
  | cons element elements ih =>
      have hinsert := hadds.inserts heap base.next gathered element hs.body
      refine ends_bind (ends_bind ((h.ends_ask hinsert).mono (fun _ heap' hrefilled => ?_)
        fun _ _ => id))
      subst hrefilled
      exact ends_pure (ih (hs.refilled _))

/-- A container is created and filled. -/
theorem ends_filled (hadds : Adds kind insertion make initial put) (elements : List β) :
    Ends (m.store.building (m.store.ask (.create kind)) fun handle =>
        m.askAll (elements.map (insertion handle))) base
      (fun handle heap => handle = base.next ∧ Filled base (make (elements.foldl put initial)) heap)
      fun failure _ => base.Short failure := by
  refine ends_building (h.ends_ask (Heap.ends_allocate ?_ fun refusal hspent => hspent.short))
  have hcreated : Filled base (make initial)
      (base.pushed { content := .empty kind, mutable := true }) := by
    refine ⟨?_, fun hnone => ?_⟩
    · rw [hadds.empty]
      exact Heap.body?_of_get? Heap.get?_pushed_new
    · rw [Heap.pushed, hnone]
      rfl
  exact (h.ends_askAll hadds elements hcreated).mono (fun _ heap hs => ⟨rfl, hs⟩)
    fun _ _ => False.elim

/-- A filled container is replaced by a sealed copy, which is found if it is live. -/
theorem ends_copied {content : Content} {staged : Action Heap Handle}
    (hkind : content.container? = some kind) (hchildren : content.children = [])
    (hstaged : Ends staged base (fun handle heap => handle = base.next ∧ Filled base content heap)
      fun failure _ => base.Short failure) :
    Ends (m.sealed kind staged) base
      (fun handle heap => heap.Live handle → heap.body? handle = some (content, false))
      fun failure _ => base.Short failure := by
  unfold sealed
  rw [h.store]
  refine Marshal.ends_withReference (hstaged.mono (fun handle heap hfilled => ?_) fun _ _ => id)
  obtain ⟨rfl, hs⟩ := hfilled
  refine Marshal.ends_ask (Heap.ends_copy (fun found mutable hfound child hchild => ?_)
    (fun found mutable hfound _ hlive => ?_) fun refusal hspent => ?_)
  · obtain ⟨rfl, -⟩ := Prod.mk.inj (Option.some.inj (hfound.symm.trans hs.body))
    rw [hchildren] at hchild
    exact absurd hchild List.not_mem_nil
  · obtain ⟨rfl, -⟩ := Prod.mk.inj (Option.some.inj (hfound.symm.trans hs.body))
    exact ((Heap.leaves_release base.next _).body?_eq _ hlive).trans
      (Heap.body?_of_get? Heap.get?_collected_new)
  · exact (hspent content true hs.body hkind).short.earlier hs.unlimited

/-- Elements are lowered to a sealed container that has all of them. -/
theorem ends_lowerIndices (hadds : Adds kind insertion make initial put) (elements : List β)
    (hlowers : ∀ bound, Lowers id base bound (m.lowerIndices kind (.ok elements) insertion))
    (hpos : base.Positive) :
    Ends (m.lowerIndices kind (.ok elements) insertion) base
      (fun handle heap => heap.body? handle = some (make (elements.foldl put initial), false))
      fun failure _ => base.Short failure := by
  have hgrows : Ends (m.lowerIndices kind (.ok elements) insertion) base
      (fun handle heap => Heap.Grows base 0 heap (handle ::ₘ 0))
      fun _ heap => Heap.Grows base 0 heap 0 :=
    ends_of_sound fun bound => hlowers bound 0 0 base fun _ => hpos.grows
  have hcopied : Ends (m.lowerIndices kind (.ok elements) insertion) base
      (fun handle heap => heap.Live handle →
        heap.body? handle = some (make (elements.foldl put initial), false))
      fun failure _ => base.Short failure :=
    h.ends_copied (hadds.container _) (hadds.children _) (h.ends_filled hadds elements)
  refine (hgrows.and hcopied).mono (fun handle heap hgood => ?_) fun _ _ hbad => hbad.2
  -- the copy is owned, so it outlives what it was made from
  exact hgood.2 (hgood.1.live_of_owned (Multiset.mem_cons_self _ _))

end Marshaller.OnHeap

/-! ## Sets and maps -/

namespace Marshaller

/-- Integers are accepted as elements. -/
theorem integers_map_int (kind : Container) (ns : List Int64) :
    integers kind (ns.map .int) = .ok ns := by
  induction ns with
  | nil => rfl
  | cons n ns ih =>
      rw [integers] at ih ⊢
      rw [List.map_cons, List.mapM_cons, ih]
      rfl

theorem integerPairs_map_int (entries : List (Int64 × Int64)) :
    integerPairs (entries.map fun entry => (.int entry.1, .int entry.2)) = .ok entries := by
  induction entries with
  | nil => rfl
  | cons entry entries ih =>
      rw [integerPairs] at ih ⊢
      rw [List.map_cons, List.mapM_cons, ih]
      rfl

namespace OnHeap

variable {m : Marshaller Heap} (h : m.OnHeap)

include h

/-- Converters have no part in containers of integers. -/
theorem fronts_unregistered : ({ m with registry := {} } : Marshaller Heap).Fronts id where
  store := by
    show m.store.Fronts id
    rw [h.store]
    exact Heap.fronts
  registry := fun converter hmem => absurd hmem List.not_mem_nil

/-- Integers are lowered to a sealed set of them. -/
theorem ends_lowerIndexSet (hpos : heap.Positive) (ns : List Int64) :
    Ends (m.lowerIndexSet (ns.map .int)) heap
      (fun handle heap' => heap'.body? handle =
        some (.indexSet (Sorted.ofKeys Sorted.descending ns), false))
      fun failure _ => heap.Short failure := by
  have hlowers : ∀ bound, Lowers id heap bound (m.lowerIndexSet (ns.map .int)) := fun bound =>
    h.fronts_unregistered.lowers_run (.indexSet (ns.map .int)) fun _ => nofun
  simp only [lowerIndexSet, integers_map_int] at hlowers ⊢
  exact h.ends_lowerIndices adds_indices ns hlowers hpos

/-- Entries of integers are lowered to a sealed map of them. -/
theorem ends_lowerPairs (hpos : heap.Positive) (entries : List (Int64 × Int64)) :
    Ends (m.lowerPairs (entries.map fun entry => (.int entry.1, .int entry.2))) heap
      (fun handle heap' => heap'.body? handle =
        some (.pairSet (Sorted.ofEntries Sorted.descending entries), false))
      fun failure _ => heap.Short failure := by
  have hlowers : ∀ bound, Lowers id heap bound
      (m.lowerPairs (entries.map fun entry => (.int entry.1, .int entry.2))) := fun bound =>
    h.fronts_unregistered.lowers_run (.pairs _) fun _ => nofun
  simp only [lowerPairs, integerPairs_map_int] at hlowers ⊢
  exact h.ends_lowerIndices adds_pairs entries hlowers hpos

end OnHeap

end Marshaller

end Marshal
