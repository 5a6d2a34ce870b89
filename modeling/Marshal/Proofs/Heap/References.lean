import Mathlib.Algebra.BigOperators.Group.List.Basic
import Marshal.Proofs.Heap.Stands
import Marshal.Proofs.Heap.Unfolding
import Marshal.Proofs.Marshaller.Conversion

/-!
# References to what stands for a value

What stands for a value unfolds to references to it and to all that it leads to.  How many of
them are references to new objects, or to a given old one, can be told from the value
(`Stands.countP_unfolding`): each part that is stored takes a new object, with a text for each
key, a truth value takes none, and a domain object refers to what it wraps.

`Value.Tallied` is the rule by which this adds up over the parts of a value.  There are two
numbers that follow it, `Value.size`, which counts new objects, and the number of times that a
handle is among those that are wrapped.
-/

namespace Marshal

namespace Value

mutual

/-- The number of objects that the value consists of in a store.  Truth values are there
already, and so is what domain objects wrap. -/
def size : Value → Nat
  | bool _ => 0
  | list items => 1 + sizeIn items
  | dict entries => 1 + sizeUnder entries
  | set members => 1 + sizeIn members
  | object _ => 0
  | _ => 1
termination_by structural v => v

def sizeIn : List Value → Nat
  | [] => 0
  | v :: vs => size v + sizeIn vs
termination_by structural vs => vs

/-- The size of entries, each with a text for its key. -/
def sizeUnder : List (Value × Value) → Nat
  | [] => 0
  | (_, v) :: entries => 1 + size v + sizeUnder entries
termination_by structural entries => entries

end

/-- `t` adds up over the parts of a value, where a new object counts `own`, and other handles
count if `p` is true of them. -/
structure Tallied (p : Handle → Prop) [DecidablePred p] (own : Nat) (t : Value → Nat) : Prop where
  bool : ∀ b, t (.bool b) = if p (.boolean b) then 1 else 0
  scalar : ∀ v, v.scalar?.isSome → (∀ b, v ≠ .bool b) → t v = own
  list : ∀ items, t (.list items) = own + (items.map t).sum
  dict : ∀ entries, t (.dict entries) = own + (entries.map fun entry => own + t entry.2).sum
  set : ∀ members, t (.set members) = own + (members.map t).sum

theorem sizeIn_eq_sum (items : List Value) : sizeIn items = (items.map size).sum := by
  induction items with
  | nil => rfl
  | cons item items ih => rw [sizeIn, ih, List.map_cons, List.sum_cons]

theorem sizeUnder_eq_sum (entries : List (Value × Value)) :
    sizeUnder entries = (entries.map fun entry => 1 + size entry.2).sum := by
  induction entries with
  | nil => rfl
  | cons entry entries ih => rw [sizeUnder, ih, List.map_cons, List.sum_cons]

/-- The size counts new objects. -/
theorem tallied_size (n : Nat) : Tallied (Handle.Newer n) 1 size where
  bool _ := rfl
  scalar v hv hbool := by
    cases v with
    | bool b => exact absurd rfl (hbool b)
    | int | float | complex | text | bytes => rfl
    | _ => exact nomatch hv
  list items := by rw [size, sizeIn_eq_sum]
  dict entries := by rw [size, sizeUnder_eq_sum]
  set members := by rw [size, sizeIn_eq_sum]

theorem count_wrappedIn (handle : Handle) (items : List Value) :
    (wrappedIn items).count handle = (items.map fun item => item.wrapped.count handle).sum := by
  induction items with
  | nil => rfl
  | cons item items ih => rw [wrappedIn, List.count_append, ih, List.map_cons, List.sum_cons]

theorem count_wrappedUnder (handle : Handle) (entries : List (Value × Value)) :
    (wrappedUnder entries).count handle =
      (entries.map fun entry => entry.2.wrapped.count handle).sum := by
  induction entries with
  | nil => rfl
  | cons entry entries ih => rw [wrappedUnder, List.count_append, ih, List.map_cons, List.sum_cons]

/-- How often an object is wrapped counts no new objects. -/
theorem tallied_wrapped (index : Nat) :
    Tallied (fun handle => .object index = handle) 0 fun v => v.wrapped.count (.object index) where
  bool _ := rfl
  scalar v hv _ := by
    cases v with
    | bool | int | float | complex | text | bytes => rfl
    | _ => exact nomatch hv
  list items := by rw [wrapped, count_wrappedIn, zero_add]
  dict entries := by simp only [wrapped, count_wrappedUnder, zero_add]
  set members := by rw [wrapped, count_wrappedIn, zero_add]

end Value

/-! ## Adding up -/

theorem countP_bind {α β : Type} (p : β → Prop) [DecidablePred p] (xs : List α)
    (f : α → Multiset β) :
    ((xs : Multiset α).bind f).countP p = (xs.map fun x => (f x).countP p).sum := by
  induction xs with
  | nil => rfl
  | cons x xs ih =>
      rw [← Multiset.cons_coe, Multiset.cons_bind, Multiset.countP_add, ih, List.map_cons,
        List.sum_cons]

theorem sum_eq_of_forall₂ {α β : Type} {f : α → Nat} {g : β → Nat} {xs : List α} {ys : List β}
    (h : List.Forall₂ (fun x y => f x = g y) xs ys) : (xs.map f).sum = (ys.map g).sum := by
  induction h with
  | nil => rfl
  | cons hhead _ ih => rw [List.map_cons, List.map_cons, List.sum_cons, List.sum_cons, hhead, ih]

theorem sum_children_dictionary (f : Handle → Nat) (entries : List (Handle × Handle)) :
    ((Content.dictionary entries).children.map f).sum =
      (entries.map fun entry => f entry.1 + f entry.2).sum := by
  induction entries with
  | nil => rfl
  | cons entry entries ih =>
      have hcons : (Content.dictionary (entry :: entries)).children =
          entry.1 :: entry.2 :: (Content.dictionary entries).children := rfl
      rw [hcons, List.map_cons, List.map_cons, List.sum_cons, List.sum_cons, ih, List.map_cons,
        List.sum_cons, Nat.add_assoc]

namespace Heap

variable {kept : Handle → Prop} {heap : Heap} {n steps room : Nat} {handle : Handle} {v : Value}
  {p : Handle → Prop} [DecidablePred p] {own : Nat} {t : Value → Nat}

/-- An object is counted with what its parts unfold to. -/
theorem countP_unfolding {content : Content} {mutable : Bool} {index : Nat}
    (hown : (if p (.object index) then 1 else 0) = own)
    (hsteps : ∀ handle, heap.unfolding n steps handle =
      handle ::ₘ (heap.branches n handle).bind (heap.unfolding n steps))
    (hindex : n ≤ index) (hbody : heap.body? (.object index) = some (content, mutable)) :
    (heap.unfolding n steps (.object index)).countP p =
      own + (content.children.map fun child => (heap.unfolding n steps child).countP p).sum := by
  rw [hsteps, branches_object hindex, refs_of_body? hbody, Multiset.countP_cons, countP_bind, hown,
    Nat.add_comm]

theorem countP_unfolding_of_not_newer (hold : ¬ handle.Newer n) :
    (heap.unfolding n steps handle).countP p = if p handle then 1 else 0 := by
  rw [unfolding_of_not_newer hold, ← Multiset.cons_zero, Multiset.countP_cons,
    Multiset.countP_zero, Nat.zero_add]

/-- The references to and in what stands for a value are as many as the value tells. -/
theorem Stands.countP_unfolding (ht : Value.Tallied p own t)
    (hown : ∀ index, n ≤ index → (if p (.object index) then 1 else 0) = own)
    (hwrapped : ∀ (o : DomainObject) handle, o.handle = some handle → kept handle →
      ¬ handle.Newer n ∧ t (.object o) = if p handle then 1 else 0)
    (hsteps : ∀ handle, heap.unfolding n steps handle =
      handle ::ₘ (heap.branches n handle).bind (heap.unfolding n steps))
    (h : Stands kept n heap room handle v) :
    (heap.unfolding n steps handle).countP p = t v := by
  -- by induction on the room, since the elements of a container stand for theirs one level deeper
  induction room using Nat.strong_induction_on generalizing handle v with
  | _ room ih =>
  rcases h.cases with ⟨o, rfl, ho, hkept, -⟩ |
    ⟨hsince, hfits, content, mutable, child?, hbody, hshows, hchild⟩
  · -- what is wrapped leads no further
    obtain ⟨hold, hobject⟩ := hwrapped o handle ho hkept
    rw [countP_unfolding_of_not_newer hold, hobject]
  · have hparts : ∀ child, child? = some child → ∀ handle v, child handle v →
        (heap.unfolding n steps handle).countP p = t v := by
      intro child hsome handle v hstands
      obtain ⟨deeper, rfl, rfl⟩ := hchild child hsome
      exact ih deeper (Nat.lt_succ_self _) hstands
    -- everything but a boolean is a new object, and counts with what it holds
    have hobject : ∀ index, handle = .object index → (heap.unfolding n steps handle).countP p =
        own + (content.children.map fun child => (heap.unfolding n steps child).countP p).sum := by
      rintro index rfl
      have hindex : n ≤ index := hsince index rfl
      exact Heap.countP_unfolding (hown index hindex) hsteps hindex hbody
    cases hshows with
    | scalar hscalar =>
        cases handle with
        | outside address => exact nomatch hbody
        | boolean b =>
            obtain ⟨rfl, -⟩ : Content.boolean b = content ∧ false = mutable := by simpa using hbody
            cases v <;> cases hscalar
            rw [countP_unfolding_of_not_newer id, ht.bool]
        | object index =>
            rw [hobject index rfl, Value.children_of_scalar hscalar, List.map_nil, List.sum_nil,
              Nat.add_zero]
            refine (ht.scalar v (by rw [hscalar]; rfl) ?_).symm
            rintro b rfl
            exact nomatch hfits
    | @list child items values hsome hitems =>
        obtain ⟨index, hindex⟩ := exists_index_of_container hbody rfl
        rw [hobject index hindex, ht.list]
        congr 1
        exact sum_eq_of_forall₂ (hitems.imp (hparts child hsome))
    | @set child members values hsome hmembers =>
        obtain ⟨index, hindex⟩ := exists_index_of_container hbody rfl
        rw [hobject index hindex, ht.set]
        congr 1
        exact sum_eq_of_forall₂ (hmembers.imp (hparts child hsome))
    | @dict child entries pairs hsome hentries =>
        obtain ⟨index, hindex⟩ := exists_index_of_container hbody rfl
        rw [hobject index hindex, ht.dict]
        congr 1
        have hsame : ∀ entry pair, Both child entry pair →
            (heap.unfolding n steps entry.1).countP p + (heap.unfolding n steps entry.2).countP p =
              t pair.1 + t pair.2 := fun entry pair hboth => by
          rw [hparts child hsome _ _ hboth.1, hparts child hsome _ _ hboth.2]
        -- a key is stored as a text, which counts as any object of its own
        have hkeys : ∀ pair ∈ pairs, t pair.1 + t pair.2 = own + t pair.2 := by
          intro pair hpair
          obtain ⟨s, hs⟩ := hfits pair hpair
          rw [hs, ht.scalar (.text s) rfl fun _ => nofun]
        rw [sum_children_dictionary, sum_eq_of_forall₂ (hentries.imp hsame),
          List.map_congr_left hkeys]

end Heap

end Marshal
