import Mathlib.Data.List.Forall2
import Marshal.Proofs.Heap.Conservation
import Marshal.Proofs.Heap.Grounded
import Marshal.Proofs.Value.Normal

/-!
# Objects that stand for values

`Denotes n heap room handle v` says that the object of a handle stands for the
value `v`, where containers nest at most `room` levels deep.  A scalar stands in
its object, and a container holds objects that stand for the elements in turn.
All these objects are booleans or lie in slots from `n` on.  So what is said is
not touched by changes of older objects, and `n` tells apart what was made for
one element from what was made before.

From one heap to another, a handle stands for what it stood for as long as nothing that it
leads to changes (`Denotes.transport`).
-/

namespace Marshal

/-- The handle of a boolean, or of an object in a slot from `n` on. -/
def Handle.Since (n : Nat) (handle : Handle) : Prop := ∀ index, handle = .object index → n ≤ index

theorem Handle.since_object {n index : Nat} (h : n ≤ index) : (object index).Since n := by
  rintro _ ⟨⟩
  exact h

theorem Handle.Since.mono {n n' : Nat} {handle : Handle} (h : handle.Since n) (hle : n' ≤ n) :
    handle.Since n' := fun index heq => hle.trans (h index heq)

/-- The handles of an entry stand for its key and its value. -/
def Both (child : Handle → Value → Prop) (entry : Handle × Handle) (pair : Value × Value) : Prop :=
  child entry.1 pair.1 ∧ child entry.2 pair.2

/-- What contents stand for, when it is known what the handles in them stand for.
Where nothing is known of handles, only scalars stand for something. -/
inductive Shows (child? : Option (Handle → Value → Prop)) : Content → Value → Prop
  | scalar {content : Content} {v : Value} (h : v.scalar? = some content) : Shows child? content v
  | list {child : Handle → Value → Prop} {items : Array Handle} {values : List Value}
      (hchild : child? = some child) (h : List.Forall₂ child items.toList values) :
      Shows child? (.array items) (.list values)
  | dict {child : Handle → Value → Prop} {entries : List (Handle × Handle)}
      {pairs : List (Value × Value)} (hchild : child? = some child)
      (h : List.Forall₂ (Both child) entries pairs) :
      Shows child? (.dictionary entries) (.dict pairs)
  | set {child : Handle → Value → Prop} {members : List Handle} {values : List Value}
      (hchild : child? = some child) (h : List.Forall₂ child members values) :
      Shows child? (.members members) (.set values)

namespace Heap

variable {n n' room : Nat} {heap heap' : Heap} {handle : Handle} {v : Value}

/-- The object of the handle stands for the value, when it is known what the
handles in it stand for. -/
def Denoted (n : Nat) (heap : Heap) (child? : Option (Handle → Value → Prop)) (handle : Handle)
    (v : Value) : Prop :=
  handle.Since n ∧ ∃ content mutable, heap.body? handle = some (content, mutable) ∧
    Shows child? content v

/-- The object of the handle stands for the value, with at most `room` levels of
containers. -/
def Denotes (n : Nat) (heap : Heap) : (room : Nat) → Handle → Value → Prop
  | 0 => Denoted n heap none
  | room + 1 => Denoted n heap (some (Denotes n heap room))

/-- What is known of handles in an object for which there are `room` levels. -/
def child? (n : Nat) (heap : Heap) : (room : Nat) → Option (Handle → Value → Prop)
  | 0 => none
  | room + 1 => some (Denotes n heap room)

theorem denotes_eq (n : Nat) (heap : Heap) (room : Nat) :
    Denotes n heap room = Denoted n heap (child? n heap room) := by
  cases room <;> rfl

namespace Denotes

theorem since (h : Denotes n heap room handle v) : handle.Since n := by
  rw [denotes_eq] at h
  exact h.1

theorem live (h : Denotes n heap room handle v) : heap.Live handle := by
  rw [denotes_eq] at h
  obtain ⟨-, content, mutable, hbody, -⟩ := h
  exact live_of_body? hbody

end Denotes

end Heap

theorem forall₂_imp_of_mem {α β : Type} {R S : α → β → Prop} {xs : List α} {ys : List β}
    (h : List.Forall₂ R xs ys) (himp : ∀ x ∈ xs, ∀ y, R x y → S x y) : List.Forall₂ S xs ys := by
  rw [List.forall₂_iff_zip] at h ⊢
  exact ⟨h.1, fun hmem => himp _ (List.of_mem_zip hmem).1 _ (h.2 hmem)⟩

theorem exists_of_forall₂ {α β : Type} {R : α → β → Prop} {xs : List α} {ys : List β} {x : α}
    (h : List.Forall₂ R xs ys) (hmem : x ∈ xs) : ∃ y, R x y := by
  induction h with
  | nil => exact absurd hmem List.not_mem_nil
  | cons hhead _ ih =>
      rcases List.mem_cons.mp hmem with rfl | hmem
      · exact ⟨_, hhead⟩
      · exact ih hmem

/-- It is enough to look at handles that the contents hold. -/
theorem Shows.imp {child child' : Handle → Value → Prop} {content : Content} {v : Value}
    (h : Shows (some child) content v)
    (himp : ∀ handle ∈ content.children, ∀ v, child handle v → child' handle v) :
    Shows (some child') content v := by
  cases h with
  | scalar h => exact .scalar h
  | list hchild h =>
      obtain rfl := Option.some.inj hchild
      exact .list rfl (forall₂_imp_of_mem h himp)
  | dict hchild h =>
      obtain rfl := Option.some.inj hchild
      refine .dict rfl (forall₂_imp_of_mem h fun entry hentry pair hpair => ?_)
      have hmem : ∀ handle ∈ [entry.1, entry.2], handle ∈ (Content.dictionary _).children :=
        fun handle hhandle => List.mem_flatMap.mpr ⟨entry, hentry, hhandle⟩
      exact ⟨himp _ (hmem _ (by simp)) _ hpair.1, himp _ (hmem _ (by simp)) _ hpair.2⟩
  | set hchild h =>
      obtain rfl := Option.some.inj hchild
      exact .set rfl (forall₂_imp_of_mem h himp)

theorem Value.children_of_scalar {content : Content} {v : Value} (h : v.scalar? = some content) :
    content.children = [] := by
  cases v <;> cases h <;> rfl

/-- What contents hold stands for something in turn. -/
theorem Shows.exists_of_child {child? : Option (Handle → Value → Prop)} {content : Content}
    {v : Value} {handle : Handle} (h : Shows child? content v) (hmem : handle ∈ content.children) :
    ∃ child, child? = some child ∧ ∃ w, child handle w := by
  cases h with
  | scalar h =>
      rw [Value.children_of_scalar h] at hmem
      exact absurd hmem List.not_mem_nil
  | list hchild h => exact ⟨_, hchild, exists_of_forall₂ h hmem⟩
  | dict hchild h =>
      obtain ⟨entry, hentry, hhandle⟩ := List.mem_flatMap.mp hmem
      obtain ⟨pair, hkey, hvalue⟩ := exists_of_forall₂ h hentry
      rcases List.mem_pair.mp hhandle with rfl | rfl
      · exact ⟨_, hchild, _, hkey⟩
      · exact ⟨_, hchild, _, hvalue⟩
  | set hchild h => exact ⟨_, hchild, exists_of_forall₂ h hmem⟩

namespace Heap

variable {n n' room : Nat} {heap heap' : Heap} {handle : Handle} {v : Value}

/-- What is held by an object that stands for a value stands for a part of it. -/
theorem Denotes.exists_of_child {content : Content} {mutable : Bool} {child : Handle}
    (h : Denotes n heap room handle v) (hbody : heap.body? handle = some (content, mutable))
    (hmem : child ∈ content.children) : ∃ deeper w, Denotes n heap deeper child w := by
  rw [denotes_eq] at h
  obtain ⟨-, content', mutable', hbody', hshows⟩ := h
  obtain ⟨rfl, rfl⟩ := Prod.mk.inj (Option.some.inj (hbody.symm.trans hbody'))
  obtain ⟨denotes, hdenotes, w, hw⟩ := hshows.exists_of_child hmem
  cases room with
  | zero => exact nomatch hdenotes
  | succ deeper =>
      obtain rfl := Option.some.inj hdenotes
      exact ⟨deeper, w, hw⟩

/-- What a handle stands for does not change if the object does not, nor any of
those that it leads to, which are the `good` ones. -/
theorem Denotes.transport (good : Handle → Prop)
    (hsince : ∀ handle, good handle → handle.Since n → handle.Since n')
    (hbody : ∀ handle, good handle → handle.Since n → heap.Live handle →
      heap'.body? handle = heap.body? handle)
    (hchildren : ∀ handle content mutable, good handle → handle.Since n →
      heap.body? handle = some (content, mutable) → ∀ child ∈ content.children, good child)
    (hgood : good handle) (h : Denotes n heap room handle v) : Denotes n' heap' room handle v := by
  -- what an object holds is one level down and good in turn
  induction room generalizing handle v with
  | zero =>
      obtain ⟨hnew, content, mutable, hcontent, hshows⟩ := h
      exact ⟨hsince handle hgood hnew, content, mutable,
        (hbody handle hgood hnew (live_of_body? hcontent)).trans hcontent, hshows⟩
  | succ room ih =>
      obtain ⟨hnew, content, mutable, hcontent, hshows⟩ := h
      refine ⟨hsince handle hgood hnew, content, mutable,
        (hbody handle hgood hnew (live_of_body? hcontent)).trans hcontent,
        hshows.imp fun child hchild v => ?_⟩
      exact ih (hchildren handle content mutable hgood hnew hcontent child hchild)

theorem Denotes.congr (h : Denotes n heap room handle v)
    (hbody : ∀ handle, handle.Since n → heap.Live handle →
      heap'.body? handle = heap.body? handle) : Denotes n heap' room handle v :=
  transport (fun _ => True) (fun _ _ => id) (fun handle _ => hbody handle)
    (fun _ _ _ _ _ _ _ _ => trivial) trivial h

/-! ## What stands for containers -/

/-- What stands for a container has levels below. -/
theorem Denotes.exists_shows (h : Denotes n heap room handle v) (hv : v.scalar? = none) :
    ∃ deeper content mutable, room = deeper + 1 ∧ heap.body? handle = some (content, mutable) ∧
      Shows (some (Denotes n heap deeper)) content v := by
  cases room with
  | zero =>
      obtain ⟨-, content, mutable, hbody, hshows⟩ := h
      cases hshows with
      | scalar hscalar => exact nomatch hscalar.symm.trans hv
      | list hchild => exact nomatch hchild
      | dict hchild => exact nomatch hchild
      | set hchild => exact nomatch hchild
  | succ deeper =>
      obtain ⟨-, content, mutable, hbody, hshows⟩ := h
      exact ⟨deeper, content, mutable, rfl, hbody, hshows⟩

theorem Denotes.exists_array {values : List Value} (h : Denotes n heap room handle (.list values)) :
    ∃ deeper items mutable, room = deeper + 1 ∧
      heap.body? handle = some (.array items, mutable) ∧
      List.Forall₂ (Denotes n heap deeper) items.toList values := by
  obtain ⟨deeper, content, mutable, hroom, hbody, hshows⟩ := h.exists_shows rfl
  cases hshows with
  | scalar hscalar => exact nomatch hscalar
  | list hchild hitems =>
      obtain rfl := Option.some.inj hchild
      exact ⟨deeper, _, mutable, hroom, hbody, hitems⟩

theorem Denotes.exists_dictionary {pairs : List (Value × Value)}
    (h : Denotes n heap room handle (.dict pairs)) :
    ∃ deeper entries mutable, room = deeper + 1 ∧
      heap.body? handle = some (.dictionary entries, mutable) ∧
      List.Forall₂ (Both (Denotes n heap deeper)) entries pairs := by
  obtain ⟨deeper, content, mutable, hroom, hbody, hshows⟩ := h.exists_shows rfl
  cases hshows with
  | scalar hscalar => exact nomatch hscalar
  | dict hchild hentries =>
      obtain rfl := Option.some.inj hchild
      exact ⟨deeper, _, mutable, hroom, hbody, hentries⟩

theorem Denotes.exists_members {values : List Value}
    (h : Denotes n heap room handle (.set values)) :
    ∃ deeper members mutable, room = deeper + 1 ∧
      heap.body? handle = some (.members members, mutable) ∧
      List.Forall₂ (Denotes n heap deeper) members values := by
  obtain ⟨deeper, content, mutable, hroom, hbody, hshows⟩ := h.exists_shows rfl
  cases hshows with
  | scalar hscalar => exact nomatch hscalar
  | set hchild hmembers =>
      obtain rfl := Option.some.inj hchild
      exact ⟨deeper, _, mutable, hroom, hbody, hmembers⟩

end Heap

end Marshal
