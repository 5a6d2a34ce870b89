import Marshal.Proofs.Heap.Growth
import Marshal.Proofs.Marshaller.Making
import Marshal.Proofs.Store.Fronts

/-!
# Lowering conserves references

A lowering creates containers, fills them with what it lowers in turn, and seals
them.  At each point it owns a reference to every container that is not finished
and to every element that is not yet put in.  When it fails it gives up what it
owns, and when it succeeds it owns the result.

`Lowers` says this of an action, relative to an earlier heap `base`.  What a domain
object wraps must not be one of the unfinished containers.  It is none if it was
there in `base`, and none if it is never there; but an object may name a handle
that is handed out for the first time on the way.  Whether it does is known only
when everything is done.  So `bound` stands for the number of slots at the end,
and all that is said of a state is said if it has no more slots than that
(`Sound`).
-/

namespace Marshal

theorem Content.children_empty (kind : Container) : (Content.empty kind).children = [] := by
  cases kind <;> rfl

variable {σ α : Type} {view : σ → Heap} {base : Heap} {bound : Nat}
  {unfinished owned : Multiset Handle} {handle : Handle} {s : σ}

/-- None of the handles is handed out for the first time after `base` and before
there are `bound` slots. -/
def Unissued (base : Heap) (bound : Nat) (handles : List Handle) : Prop :=
  ∀ index, .object index ∈ handles → index < base.slots.size ∨ bound ≤ index

/-- The heap that is seen grew out of `base`, if there are at most `bound`
slots. -/
def Sound (view : σ → Heap) (base : Heap) (bound : Nat) (unfinished owned : Multiset Handle)
    (s : σ) : Prop :=
  (view s).slots.size ≤ bound → Heap.Grows base unfinished (view s) owned

/-- An action hands over a reference, or leaves owned what was owned. -/
def Lowers (view : σ → Heap) (base : Heap) (bound : Nat) (x : Action σ Handle) : Prop :=
  ∀ unfinished owned s, Sound view base bound unfinished owned s →
    Ends x s (fun handle => Sound view base bound unfinished (handle ::ₘ owned))
      fun _ => Sound view base bound unfinished owned

/-- An action hands over a reference to an object that is not finished yet, or
leaves owned what was owned. -/
def Creates (view : σ → Heap) (base : Heap) (bound : Nat) (x : Action σ Handle) : Prop :=
  ∀ unfinished owned s, Sound view base bound unfinished owned s →
    Ends x s (fun handle => Sound view base bound (handle ::ₘ unfinished) owned)
      fun _ => Sound view base bound unfinished owned

/-- An action on an unfinished object leaves owned what was owned. -/
def Fills (view : σ → Heap) (base : Heap) (bound : Nat) (fill : Handle → Action σ Unit) : Prop :=
  ∀ handle unfinished owned, handle ∈ unfinished →
    Keeps (Sound view base bound unfinished owned) (fill handle)

/-! ## Rules -/

theorem Creates.lowers {x : Action σ Handle} (hx : Creates view base bound x) :
    Lowers view base bound x := by
  intro unfinished owned s hs
  exact (hx unfinished owned s hs).mono (fun handle s' hs' hle => (hs' hle).finish) fun _ _ => id

/-- What is said for every number of slots is said of the heap that comes out. -/
theorem ends_of_sound {x : Action σ α} {owned' : α → Multiset Handle}
    (h : ∀ bound, Ends x s (fun a => Sound view base bound unfinished (owned' a))
      fun _ => Sound view base bound unfinished owned) :
    Ends x s (fun a s' => Heap.Grows base unfinished (view s') (owned' a))
      fun _ s' => Heap.Grows base unfinished (view s') owned := by
  apply ends_intro
  · intro a s' hrun
    exact (h (view s').slots.size).of_ok hrun le_rfl
  · intro failure s' hrun
    exact (h (view s').slots.size).of_error hrun le_rfl

theorem lowers_throw (failure : Failure) :
    Lowers view base bound (throw failure : Action σ Handle) := fun _ _ _ hs => ends_throw hs

theorem lowers_boolean (b : Bool) :
    Lowers view base bound (pure (.boolean b) : Action σ Handle) := by
  intro unfinished owned s hs
  exact ends_pure fun hle => (hs hle).boolean b

section Stores

variable {store : Store σ} (hstore : store.Fronts view)

include hstore

/-- A request matters only where there are few enough slots. -/
theorem ends_sends {x : Action σ α} {attempt : Heap.Attempt α} {good : α → Heap → Prop}
    {bad : Heap → Prop} (hx : store.Sends x attempt)
    (h : (view s).slots.size ≤ bound →
      Ends attempt (view s) good (fun _ => bad) ∧ bad (view s)) :
    Ends x s (fun a s' => (view s').slots.size ≤ bound → good a (view s'))
      fun _ s' => (view s').slots.size ≤ bound → bad (view s') := by
  obtain ⟨request⟩ := hx
  by_cases hle : (view s).slots.size ≤ bound
  · obtain ⟨hends, hbad⟩ := h hle
    exact (hstore.ends_ask hends hbad).mono (fun _ _ hgood _ => hgood) fun _ _ hbad _ => hbad
  · -- slots never become fewer
    have hgrown := hstore.keeps_ask (Heap.stable_size (view s).slots.size) request s le_rfl
    exact hgrown.mono (fun _ _ hle' hbound => absurd (hle'.trans hbound) hle)
      fun _ _ hle' hbound => absurd (hle'.trans hbound) hle

theorem Sound.release (h : Sound view base bound unfinished (handle ::ₘ owned) s) :
    Sound view base bound unfinished owned (store.release handle s) := by
  unfold Sound at h ⊢
  rw [hstore.releases, (Heap.leaves_release handle _).size_eq]
  exact fun hle => (h hle).release

/-! ## Creating objects -/

/-- A request that creates an object which holds nothing. -/
theorem creates_of_allocate {x : Action σ Handle} {o : Object}
    (hx : store.Sends x (Heap.allocate o)) (hchildren : o.children = []) (hcount : o.count = 1) :
    Creates view base bound x := by
  intro unfinished owned s hs
  exact ends_sends hstore hx fun hle => ⟨(hs hle).ends_allocate hchildren hcount, hs hle⟩

theorem creates_text (text : String) (mutable : Bool) :
    Creates view base bound (store.lowerText text mutable) :=
  creates_of_allocate hstore (.ask (.createText text mutable)) rfl rfl

theorem creates_number (number : Number) :
    Creates view base bound (store.ask (.createNumber number)) :=
  creates_of_allocate hstore (.ask (.createNumber number)) rfl rfl

theorem creates_bytes (bytes : List UInt8) (mutable : Bool) :
    Creates view base bound (store.lowerBytes bytes mutable) :=
  creates_of_allocate hstore (.ask (.createData bytes mutable)) rfl rfl

theorem creates_container (kind : Container) :
    Creates view base bound (store.ask (.create kind)) :=
  creates_of_allocate hstore (.ask (.create kind)) (Content.children_empty kind) rfl

/-! ## Owning references -/

/-- What is retained was there before, or it is nowhere to be found. -/
theorem lowers_retain (hhandle : Unissued base bound [handle]) :
    Lowers view base bound (do store.ask (.retain handle); pure handle) := by
  intro unfinished owned s hs
  have hask : Ends (store.ask (.retain handle)) s
      (fun _ => Sound view base bound unfinished (handle ::ₘ owned))
      fun _ => Sound view base bound unfinished owned := by
    refine ends_sends hstore (.ask (.retain handle)) fun hle =>
      ⟨(hs hle).ends_retain fun hmem => ?_, hs hle⟩
    -- an unfinished object would have been handed out on the way
    obtain ⟨index, rfl, hindex⟩ := (hs hle).new handle hmem
    have hlive : (view s).Live (.object index) :=
      (hs hle).conserved.live_of_owned (Multiset.mem_add.mpr (.inl hmem))
    have hlt := Heap.lt_size_of_live hlive
    rcases hhandle index (List.mem_singleton_self _) with hold | hlate <;> omega
  exact ends_bind (hask.mono (fun _ _ hs' => ends_pure hs') fun _ _ => id)

/-- A reference is used by something that leaves owned what was owned. -/
theorem Lowers.withReference {acquire : Action σ Handle} {body : Handle → Action σ α}
    (hacquire : Lowers view base bound acquire)
    (hbody : ∀ handle, Keeps (Sound view base bound unfinished (handle ::ₘ owned)) (body handle)) :
    Keeps (Sound view base bound unfinished owned) (store.withReference acquire body) := by
  intro s hs
  refine ends_withReference ((hacquire unfinished owned s hs).mono (fun handle s' hs' => ?_)
    fun _ _ => id)
  exact (hbody handle s' hs').mono (fun _ _ hs'' => hs''.release hstore)
    fun _ _ hs'' => hs''.release hstore

theorem Creates.building {acquire : Action σ Handle} {fill : Handle → Action σ Unit}
    (hacquire : Creates view base bound acquire) (hfill : Fills view base bound fill) :
    Creates view base bound (store.building acquire fill) := by
  intro unfinished owned s hs
  refine ends_building ((hacquire unfinished owned s hs).mono (fun handle s' hs' => ?_)
    fun _ _ => id)
  refine (hfill handle _ owned (Multiset.mem_cons_self _ _) s' hs').mono (fun _ _ => id)
    fun _ s'' hs'' => ?_
  -- what was filled in vain is released like anything else that is owned
  have howned : Sound view base bound unfinished (handle ::ₘ owned) s'' :=
    fun hle => (hs'' hle).finish
  exact howned.release hstore

/-! ## Filling containers -/

/-- A request that leaves owned what was owned, wherever it is answered. -/
theorem keeps_of_grows {x : Action σ Unit} {attempt : Heap.Attempt Unit}
    (hx : store.Sends x attempt)
    (hgrows : ∀ {heap}, Heap.Grows base unfinished heap owned →
      Ends attempt heap (fun _ heap' => Heap.Grows base unfinished heap' owned)
        fun _ heap' => Heap.Grows base unfinished heap' owned) :
    Keeps (Sound view base bound unfinished owned) x := by
  intro s hs
  exact ends_sends hstore hx fun hle => ⟨hgrows (hs hle), hs hle⟩

theorem keeps_append {array item : Handle} (harray : array ∈ unfinished) :
    Keeps (Sound view base bound unfinished (item ::ₘ owned))
      (store.ask (.append array item)) :=
  keeps_of_grows hstore (.ask (.append array item)) fun h =>
    h.ends_append harray (Multiset.mem_cons_self _ _)

theorem keeps_addMember {set member : Handle} (hset : set ∈ unfinished) :
    Keeps (Sound view base bound unfinished (member ::ₘ owned))
      (store.ask (.addMember set member)) :=
  keeps_of_grows hstore (.ask (.addMember set member)) fun h =>
    h.ends_addMember hset (Multiset.mem_cons_self _ _)

theorem keeps_putEntry {dictionary key value : Handle} (hdictionary : dictionary ∈ unfinished) :
    Keeps (Sound view base bound unfinished (value ::ₘ key ::ₘ owned))
      (store.ask (.putEntry dictionary key value)) := by
  have hvalue : value ∈ value ::ₘ key ::ₘ owned := Multiset.mem_cons_self _ _
  have hkey : key ∈ value ::ₘ key ::ₘ owned :=
    Multiset.mem_cons_of_mem (Multiset.mem_cons_self _ _)
  exact keeps_of_grows hstore (.ask (.putEntry dictionary key value)) fun h =>
    h.ends_putEntry hdictionary hkey hvalue

theorem keeps_appendIndex {array : Handle} (harray : array ∈ unfinished) (value : Int64) :
    Keeps (Sound view base bound unfinished owned) (store.ask (.appendIndex array value)) :=
  keeps_of_grows hstore (.ask (.appendIndex array value)) fun h =>
    h.ends_change harray fun content => by cases content <;> rfl

theorem keeps_addIndex {set : Handle} (hset : set ∈ unfinished) (value : Int64) :
    Keeps (Sound view base bound unfinished owned) (store.ask (.addIndex set value)) :=
  keeps_of_grows hstore (.ask (.addIndex set value)) fun h =>
    h.ends_change hset fun content => by cases content <;> rfl

theorem keeps_addPair {set : Handle} (hset : set ∈ unfinished) (index value : Int64) :
    Keeps (Sound view base bound unfinished owned) (store.ask (.addPair set index value)) :=
  keeps_of_grows hstore (.ask (.addPair set index value)) fun h =>
    h.ends_change hset fun content => by cases content <;> rfl

end Stores

/-! ## Converters -/

theorem Converter.handleBacked_lower (store : Store σ) (o : DomainObject) :
    handleBacked.lower store o =
      match o.handle with
      | some handle => do
        store.ask (.retain handle)
        pure handle
      | none => throw (.wrapsNothing o.typeName) := rfl

/-- A registry whose converters share what an object wraps, if it has any. -/
def Registry.SharesOnly (registry : Registry σ) : Prop :=
  ∀ converter ∈ registry.converters, converter = .handleBacked

/-- Such a registry retains what an object wraps, or it fails. -/
theorem Registry.SharesOnly.lower_cases {registry : Registry σ} (h : registry.SharesOnly)
    (store : Store σ) (o : DomainObject) :
    (∃ handle, o.handle = some handle ∧
      registry.lower store o = do
        store.ask (.retain handle)
        pure handle) ∨
    ∃ failure, registry.lower store o = throw failure := by
  unfold Registry.lower
  cases hfind : registry.find? o with
  | none => exact .inr ⟨_, rfl⟩
  | some converter =>
      obtain ⟨_, _, hfound⟩ := List.exists_of_findSome?_eq_some hfind
      obtain rfl := h converter (List.mem_of_find?_eq_some hfound)
      simp only [Converter.handleBacked_lower]
      cases o.handle with
      | none => exact .inr ⟨_, rfl⟩
      | some handle => exact .inl ⟨handle, rfl, rfl⟩

/-! ## Values -/

theorem Unissued.mono {handles handles' : List Handle} (h : Unissued base bound handles)
    (hsub : handles' ⊆ handles) : Unissued base bound handles' :=
  fun index hmem => h index (hsub hmem)

/-- A marshaller whose store is in front of a heap and whose converters only
share. -/
structure Marshaller.Fronts (m : Marshaller σ) (view : σ → Heap) : Prop where
  store : m.store.Fronts view
  registry : m.registry.SharesOnly

namespace Marshaller.Fronts

variable {m : Marshaller σ} (h : m.Fronts view)

include h

theorem lowers_object {o : DomainObject} (ho : Unissued base bound o.handle.toList) :
    Lowers view base bound (m.registry.lower m.store o) := by
  rcases h.registry.lower_cases m.store o with ⟨handle, hhandle, heq⟩ | ⟨failure, heq⟩
  · rw [heq]
    rw [hhandle] at ho
    exact lowers_retain h.store ho
  · rw [heq]
    exact lowers_throw failure

/-- The copy is a new object too, and what it was made from is given up. -/
theorem creates_sealed {kind : Container} {staged : Action σ Handle}
    (hstaged : Creates view base bound staged) :
    Creates view base bound (m.sealed kind staged) := by
  intro unfinished owned s hs
  refine ends_withReference ((hstaged unfinished owned s hs).mono (fun handle s' hs' => ?_)
    fun _ _ => id)
  have hcopy : Ends (m.store.ask (.copy kind handle)) s'
      (fun copy => Sound view base bound (copy ::ₘ unfinished) (handle ::ₘ owned))
      fun _ => Sound view base bound unfinished (handle ::ₘ owned) := by
    have hcreated : (view s').slots.size ≤ bound →
        Ends (Heap.copy kind handle) (view s')
          (Heap.Grows.Created base unfinished (handle ::ₘ owned))
          (fun _ heap => Heap.Grows base unfinished heap (handle ::ₘ owned)) ∧
        Heap.Grows base unfinished (view s') (handle ::ₘ owned) := by
      intro hle
      obtain ⟨index, rfl, hindex⟩ := (hs' hle).new handle (Multiset.mem_cons_self _ _)
      exact ⟨(hs' hle).finish.ends_copy hindex, (hs' hle).finish⟩
    exact ends_sends h.store (.ask (.copy kind handle)) hcreated
  exact hcopy.mono (fun _ _ hs'' => hs''.release h.store) fun _ _ hs'' => hs''.release h.store

/-- The steps of lowering keep track of every reference. -/
theorem makes (base : Heap) (bound : Nat) :
    m.Makes (Unissued base bound) (Lowers view base bound) (Creates view base bound)
      (Fills view base bound) where
  parts hhandles := by
    constructor
    · exact hhandles.mono (List.subset_append_left ..)
    · exact hhandles.mono (List.subset_append_right ..)
  failed := lowers_throw
  boolean := lowers_boolean
  number number := (creates_number h.store number).lowers
  text text := (creates_text h.store text false).lowers
  bytes bytes := (creates_bytes h.store bytes false).lowers
  object _ ho := h.lowers_object ho
  refused _ _ _ _ hs := ends_throw hs
  building kind _ hfill := (creates_container h.store kind).building h.store hfill
  sealed _ _ hstaged := (h.creates_sealed hstaged).lowers
  idle _ _ _ _ := keeps_pure _
  seq hfirst hsecond := by
    intro handle unfinished owned hmem
    apply (hfirst handle unfinished owned hmem).bind
    intro _
    exact hsecond handle unfinished owned hmem
  append hitem _ _ _ harray := hitem.withReference h.store fun _ => keeps_append h.store harray
  addMember hmember _ _ _ hset :=
    hmember.withReference h.store fun _ => keeps_addMember h.store hset
  putEntry hkey hvalue _ _ _ hdictionary :=
    hkey.withReference h.store fun _ =>
      hvalue.withReference h.store fun _ => keeps_putEntry h.store hdictionary
  appendIndex value _ _ _ harray := keeps_appendIndex h.store harray value
  addIndex value _ _ _ hset := keeps_addIndex h.store hset value
  addPair index value _ _ _ hset := keeps_addPair h.store hset index value

/-- Every value is lowered without losing track of a reference. -/
theorem lowers_within (room : Nat) (v : Value) (hv : Unissued base bound v.wrapped) :
    Lowers view base bound (m.lowerWithin room v) := (h.makes base bound).within room v hv

/-- Every conversion hands over a reference or leaves owned what was owned. -/
theorem lowers_run (conversion : Conversion) (hwrapped : Unissued base bound conversion.wrapped) :
    Lowers view base bound (conversion.run m) :=
  (h.makes base bound).run (fun hx => hx.lowers)
    (fun text => (creates_text h.store text true).lowers)
    (fun bytes => (creates_bytes h.store bytes true).lowers) conversion hwrapped

end Marshaller.Fronts

end Marshal
