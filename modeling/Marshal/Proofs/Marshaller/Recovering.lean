import Marshal.Proofs.Heap.Denotes
import Marshal.Proofs.Marshaller.Depicting

/-!
# Lifting recovers what an object stands for

An object that stands for a value is read as that value (`Marshaller.Standard.lifts_within`).
The readers go down the same way as `Heap.Denotes` does, one level of containers at a
time, and leave the heap as they found it (`Spares`), so what stands for one element
is still there when another one has been read.  Nothing but the budget can get in the way.
-/

namespace Marshal

variable {heap heap' : Heap} {room n : Nat} {v : Value} {handle : Handle} {sound : Prop}
  {α : Type} {m : Marshaller Heap}

/-! ## Readers that answer -/

namespace Depicts

variable {a : α} {x : Action Heap α}

/-- Where there is something to answer, only the budget can fall short. -/
theorem ends (h : Depicts m False (some a) x heap) :
    Ends x heap (fun b heap' => b = a ∧ Spares heap heap') fun failure _ => heap.Short failure := by
  apply h.mono
  · rintro b heap' ⟨hb, hspares⟩
    exact ⟨(Option.some.inj hb).symm, hspares⟩
  · rintro failure heap' (hshort | ⟨hnone, -⟩)
    · exact hshort
    · exact nomatch hnone

theorem of_ends (h : Ends x heap (fun b heap' => b = a ∧ Spares heap heap')
    fun failure _ => heap.Short failure) : Depicts m sound (some a) x heap := by
  apply h.mono
  · rintro b heap' ⟨rfl, hspares⟩
    exact ⟨rfl, hspares⟩
  · exact fun _ _ => .inl

end Depicts

theorem Spares.denotes (h : Spares heap heap') (hdenotes : Heap.Denotes n heap room handle v) :
    Heap.Denotes n heap' room handle v :=
  hdenotes.congr fun other _ _ => h.body?_eq other

/-- The reader answers what objects stand for, where they have `room` levels. -/
def Lifts (element : Handle → Action Heap Value) (room : Nat) : Prop :=
  ∀ (n : Nat) (heap : Heap) (handle : Handle) (v : Value), heap.Positive →
    Heap.Denotes n heap room handle v →
    Ends (element handle) heap (fun a heap' => a = v ∧ Spares heap heap')
      fun failure _ => heap.Short failure

/-- An element is read while other elements have been read. -/
theorem Lifts.still {element : Handle → Action Heap Value} (h : Lifts element room)
    (hdenotes : Heap.Denotes n heap room handle v) :
    StillDepicts m sound (some v) (element handle) heap := by
  intro heap' hspares
  exact .of_ends (h n heap' handle v hspares.grows.conserved.positive (hspares.denotes hdenotes))

/-! ## Containers -/

namespace Marshaller.OnHeap

variable (h : m.OnHeap) {element : Handle → Action Heap Value} {mutable : Bool}

include h

theorem depicts_array (helement : Lifts element room) (hpos : heap.Positive)
    {items : Array Handle} {values : List Value}
    (hbody : heap.body? handle = some (.array items, mutable))
    (hitems : List.Forall₂ (Heap.Denotes n heap room) items.toList values) :
    Depicts m sound (some values) (m.readArray element handle) heap := by
  rw [← mapM_some values]
  exact h.depicts_readArray hpos hbody (hitems.imp fun _ _ hitem => helement.still hitem)

theorem depicts_dictionary (helement : Lifts element room) (hpos : heap.Positive)
    {entries : List (Handle × Handle)} {pairs : List (Value × Value)}
    (hbody : heap.body? handle = some (.dictionary entries, mutable))
    (hentries : List.Forall₂ (Both (Heap.Denotes n heap room)) entries pairs) :
    Depicts m sound (some pairs) (m.readDictionary element handle) heap := by
  rw [← mapM_some pairs]
  exact h.depicts_readDictionary hpos hbody (hentries.imp fun _ _ hboth =>
    depicts_readEntry (helement.still hboth.1) (helement.still hboth.2))

theorem depicts_members (helement : Lifts element room) (hpos : heap.Positive)
    {members : List Handle} {values : List Value}
    (hbody : heap.body? handle = some (.members members, mutable))
    (hmembers : List.Forall₂ (Heap.Denotes n heap room) members values) :
    Depicts m sound (some values) (m.readSet element handle) heap := by
  have hlive : ∀ member ∈ members, heap.Live member := by
    intro member hmember
    obtain ⟨v, hdenotes⟩ := exists_of_forall₂ hmembers hmember
    exact hdenotes.live
  rw [← mapM_some values]
  refine h.depicts_readSet hpos hbody hlive fun collected _ _ hother => ?_
  -- what stands for the members is older than the array of them
  exact hmembers.imp fun _ _ hmember => helement.still (hmember.congr fun other _ hlive =>
    hother other (Heap.ne_new_of_live hlive))

end Marshaller.OnHeap

namespace Marshaller.Standard

variable (h : m.Standard)

include h

/-! ## All levels -/

theorem depicts_of_scalar {element? : Option (Handle → Action Heap Value)} {content : Content}
    {mutable : Bool} (hpos : heap.Positive)
    (hbody : heap.body? handle = some (content, mutable)) (hv : v.scalar? = some content) :
    Depicts m sound (some v) (m.liftObject element? handle) heap := by
  obtain ⟨hscalar, hvalue⟩ := Value.value?_of_scalar hv
  rw [← hvalue]
  exact h.depicts_scalar hpos hbody hscalar

/-- Every object is read as what it stands for. -/
theorem lifts_within (room : Nat) : Lifts (m.liftWithin room) room := by
  induction room with
  | zero =>
      intro n heap handle v hpos hdenotes
      obtain ⟨-, content, mutable, hbody, hshows⟩ := hdenotes
      cases hshows with
      | scalar hv => exact (h.depicts_of_scalar hpos hbody hv).ends
      | list hchild => exact nomatch hchild
      | dict hchild => exact nomatch hchild
      | set hchild => exact nomatch hchild
  | succ room ih =>
      intro n heap handle v hpos hdenotes
      obtain ⟨-, content, mutable, hbody, hshows⟩ := hdenotes
      apply Depicts.ends
      cases hshows with
      | scalar hv => exact h.depicts_of_scalar hpos hbody hv
      | list hchild hitems =>
          obtain rfl := Option.some.inj hchild
          exact h.depicts_standard hbody rfl ((h.depicts_array ih hpos hbody hitems).map _)
      | dict hchild hentries =>
          obtain rfl := Option.some.inj hchild
          exact h.depicts_standard hbody rfl ((h.depicts_dictionary ih hpos hbody hentries).map _)
      | set hchild hmembers =>
          obtain rfl := Option.some.inj hchild
          exact h.depicts_standard hbody rfl ((h.depicts_members ih hpos hbody hmembers).map _)

theorem ends_liftList {values : List Value} (hpos : heap.Positive)
    (hdenotes : Heap.Denotes n heap m.limits.maxDepth handle (.list values)) :
    Ends (m.liftList handle) heap (fun a _ => a = values) fun failure _ => heap.Short failure := by
  obtain ⟨deeper, items, mutable, hroom, hbody, hitems⟩ := hdenotes.exists_array
  rw [liftList, hroom]
  exact (h.depicts_array (h.lifts_within deeper) hpos hbody hitems).ends.mono
    (fun _ _ hgood => hgood.1) fun _ _ => id

theorem ends_liftDict {pairs : List (Value × Value)} (hpos : heap.Positive)
    (hdenotes : Heap.Denotes n heap m.limits.maxDepth handle (.dict pairs)) :
    Ends (m.liftDict handle) heap (fun a _ => a = pairs) fun failure _ => heap.Short failure := by
  obtain ⟨deeper, entries, mutable, hroom, hbody, hentries⟩ := hdenotes.exists_dictionary
  rw [liftDict, hroom]
  exact (h.depicts_dictionary (h.lifts_within deeper) hpos hbody hentries).ends.mono
    (fun _ _ hgood => hgood.1) fun _ _ => id

theorem ends_liftSet {values : List Value} (hpos : heap.Positive)
    (hdenotes : Heap.Denotes n heap m.limits.maxDepth handle (.set values)) :
    Ends (m.liftSet handle) heap (fun a _ => a = values) fun failure _ => heap.Short failure := by
  obtain ⟨deeper, members, mutable, hroom, hbody, hmembers⟩ := hdenotes.exists_members
  rw [liftSet, hroom]
  exact (h.depicts_members (h.lifts_within deeper) hpos hbody hmembers).ends.mono
    (fun _ _ hgood => hgood.1) fun _ _ => id

end Marshaller.Standard

end Marshal
