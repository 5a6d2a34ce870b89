import Marshal.Proofs.Heap.Picture
import Marshal.Proofs.Heap.Stands
import Marshal.Proofs.Marshaller.Convertible

/-!
# Reading what stands for a value

Where an object stands for a value with domain objects, it is read as that value, with each
domain object replaced by what is read of the object that it wraps (`Value.resolved`).  What is
wrapped is read with fewer levels left than it would be on its own, so there is a picture of it
on its own as well, and it is the same (`Heap.Stands.resolve`).
-/

namespace Marshal

namespace Value

variable (read : Handle → Value)

mutual

/-- The value with each domain object replaced by what is read of its handle.  Keys of
dictionaries stay as they are. -/
def resolved : Value → Value
  | list items => list (resolvedIn items)
  | dict entries => dict (resolvedUnder entries)
  | set members => set (resolvedIn members)
  | object o => o.handle.elim (object o) read
  | v => v
termination_by structural v => v

def resolvedIn : List Value → List Value
  | [] => []
  | v :: vs => resolved v :: resolvedIn vs
termination_by structural vs => vs

def resolvedUnder : List (Value × Value) → List (Value × Value)
  | [] => []
  | (key, v) :: entries => (key, resolved v) :: resolvedUnder entries
termination_by structural entries => entries

end

variable {read}

theorem resolved_of_scalar {v : Value} (h : v.scalar?.isSome) : v.resolved read = v := by
  cases v <;> first | rfl | exact nomatch h

/-- The value is resolved to this, and what it wraps is pictured so. -/
structure Resolves (picture? : Handle → Option Value) (read : Handle → Value) (v w : Value) :
    Prop where
  eq : w = v.resolved read
  pictured : ∀ handle ∈ v.wrapped, picture? handle = some (read handle)

namespace Resolves

variable {picture? : Handle → Option Value} {v w : Value}

theorem of_scalar (h : v.scalar?.isSome) : Resolves picture? read v v where
  eq := (resolved_of_scalar h).symm
  pictured := by
    rw [wrapped_of_scalar h]
    exact List.forall_mem_nil _

theorem resolvedIn_eq {items items' : List Value}
    (h : List.Forall₂ (Resolves picture? read) items items') :
    items' = resolvedIn read items ∧
      ∀ handle ∈ wrappedIn items, picture? handle = some (read handle) := by
  induction h with
  | nil => exact ⟨rfl, List.forall_mem_nil _⟩
  | cons hhead _ ih =>
      rw [resolvedIn, wrappedIn, List.forall_mem_append, hhead.eq, ← ih.1]
      exact ⟨rfl, hhead.pictured, ih.2⟩

theorem resolvedUnder_eq {entries entries' : List (Value × Value)}
    (h : List.Forall₂ (fun entry entry' => entry'.1 = entry.1 ∧
      Resolves picture? read entry.2 entry'.2) entries entries') :
    entries' = resolvedUnder read entries ∧
      ∀ handle ∈ wrappedUnder entries, picture? handle = some (read handle) := by
  induction h with
  | nil => exact ⟨rfl, List.forall_mem_nil _⟩
  | @cons entry entry' _ _ hhead _ ih =>
      rw [resolvedUnder, wrappedUnder, List.forall_mem_append, ← ih.1, ← hhead.2.eq, ← hhead.1]
      exact ⟨rfl, hhead.2.pictured, ih.2⟩

end Resolves

end Value

/-! ## Lists of handles -/

/-- What is said of each element on both sides is said of the two sides. -/
theorem forall₂_of_forall₂ {α β γ : Type} {R : α → β → Prop} {S : α → γ → Prop}
    {T : β → γ → Prop} {xs : List α} {ys : List β} {zs : List γ} (h : List.Forall₂ R xs ys)
    (h' : List.Forall₂ S xs zs) (himp : ∀ x, ∀ y ∈ ys, ∀ z, R x y → S x z → T y z) :
    List.Forall₂ T ys zs := by
  induction h generalizing zs with
  | nil =>
      obtain rfl := List.forall₂_nil_left_iff.mp h'
      exact .nil
  | @cons x y xs ys hhead _ ih =>
      obtain ⟨z, rest, hz, hrest, rfl⟩ := List.forall₂_cons_left_iff.mp h'
      refine .cons (himp x y (List.mem_cons_self ..) z hhead hz) (ih hrest ?_)
      exact fun x' y' hy' => himp x' y' (List.mem_cons_of_mem y hy')

/-! ## One object and all that it leads to -/

open Value in
/-- What contents show is what they are read as, if that is so of what the handles in them
show. -/
theorem Shows.resolve {full? : Handle → Option Value} {read : Handle → Value}
    {child? : Option (Handle → Value → Prop)} {pictures? : Option (Handle → Option Value)}
    {content : Content} {window : Nat} {handle : Handle} {v w : Value}
    (hparts : ∀ child, child? = some child → ∀ picture?, pictures? = some picture? →
      ∀ other u x, child other u → picture? other = some x → Resolves full? read u x)
    (h : Shows child? content v) (hfits : handle.Fits v)
    (hpicture : content.picture? window handle pictures? = some w) : Resolves full? read v w := by
  cases h with
  | scalar hv =>
      obtain ⟨hscalar, hvalue⟩ := value?_of_scalar hv
      rw [Content.picture?_of_isScalar hscalar, hvalue] at hpicture
      obtain rfl := Option.some.inj hpicture
      exact .of_scalar (Option.isSome_of_mem hv)
  | list hchild hitems =>
      obtain ⟨values, hvalues, rfl⟩ := Option.map_eq_some_iff.mp hpicture
      obtain ⟨picture?, hpictures, hall⟩ := Option.bind_eq_some_iff.mp hvalues
      have hpart := hparts _ hchild picture? hpictures
      have hin := Resolves.resolvedIn_eq (forall₂_of_forall₂ hitems (mapM_eq_some.mp hall)
        fun other u _ => hpart other u)
      exact ⟨congrArg Value.list hin.1, hin.2⟩
  | set hchild hmembers =>
      obtain ⟨values, hvalues, rfl⟩ := Option.map_eq_some_iff.mp hpicture
      obtain ⟨picture?, hpictures, hall⟩ := Option.bind_eq_some_iff.mp hvalues
      have hpart := hparts _ hchild picture? hpictures
      have hin := Resolves.resolvedIn_eq (forall₂_of_forall₂ hmembers (mapM_eq_some.mp hall)
        fun other u _ => hpart other u)
      exact ⟨congrArg Value.set hin.1, hin.2⟩
  | @dict _ entries pairs hchild hentries =>
      obtain ⟨read?, hpairs, rfl⟩ := Option.map_eq_some_iff.mp hpicture
      obtain ⟨picture?, hpictures, hall⟩ := Option.bind_eq_some_iff.mp hpairs
      have hpart := hparts _ hchild picture? hpictures
      have hboth : List.Forall₂ (fun entry entry' => entry'.1 = entry.1 ∧
          Resolves full? read entry.2 entry'.2) pairs read? := by
        refine forall₂_of_forall₂ hentries (mapM_eq_some.mp hall) ?_
        intro entry pair hpair found hshown hfound
        obtain ⟨hkey, hvalue⟩ := readBoth_eq_some.mp hfound
        -- a key is a text, and it is read as such
        obtain ⟨s, hs⟩ := hfits pair hpair
        have hsame : found.1 = pair.1.resolved read := (hpart _ _ _ hshown.1 hkey).eq
        rw [hs, resolved_of_scalar rfl, ← hs] at hsame
        exact ⟨hsame, hpart _ _ _ hshown.2 hvalue⟩
      have hunder := Resolves.resolvedUnder_eq hboth
      exact ⟨congrArg Value.dict hunder.1, hunder.2⟩

namespace Heap

variable {kept : Handle → Prop} {heap : Heap} {n window top : Nat}

theorem exists_of_pictures? {room : Nat} {picture? : Handle → Option Value}
    (h : heap.pictures? window room = some picture?) :
    ∃ deeper, room = deeper + 1 ∧ picture? = heap.picture? window deeper := by
  cases room with
  | zero => exact nomatch h
  | succ deeper => exact ⟨deeper, rfl, (Option.some.inj h).symm⟩

/-- What stands for a value is read as the value, with what is wrapped read on its own. -/
theorem Stands.resolve {read : Handle → Value}
    (hread : ∀ handle v, heap.picture? window top handle = some v → read handle = v)
    {room level : Nat} {handle : Handle} {v w : Value} (h : Stands kept n heap room handle v)
    (hle : level ≤ top) (hpicture : heap.picture? window level handle = some w) :
    Value.Resolves (heap.picture? window top) read v w := by
  induction room using Nat.strong_induction_on generalizing level handle v w with
  | _ room ih =>
      rcases h.cases with ⟨o, rfl, ho, -⟩ | ⟨-, hfits, content, mutable, _, hbody, hshows, hchild⟩
      · -- with all levels left, what is wrapped has the picture that it has with so many
        have hfull := picture?_mono hpicture hle
        obtain rfl := hread handle w hfull
        refine ⟨?_, fun other hmem => ?_⟩
        · rw [Value.resolved, ho]
          rfl
        · rw [Value.wrapped, ho] at hmem
          obtain rfl := List.mem_singleton.mp hmem
          exact hfull
      · rw [picture?_of_body? hbody] at hpicture
        refine hshows.resolve ?_ hfits hpicture
        intro child hsome picture? hpictures other u x hu hx
        obtain ⟨below, rfl, rfl⟩ := hchild child hsome
        obtain ⟨deeper, rfl, rfl⟩ := exists_of_pictures? hpictures
        exact ih below (Nat.lt_succ_self below) hu (Nat.le_of_succ_le hle) hx

end Heap

end Marshal
