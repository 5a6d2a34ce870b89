import Marshal.Proofs.Heap.Denotes

/-!
# Objects that stand for values with domain objects

Where a domain object wraps a stored object, that object is shared and not copied, so it may
be old, and it may be of any kind.  `Stands kept n heap room handle v` says what `Denotes`
says, but that a domain object in the value stands for what it wraps, if that is one of the
`kept` handles.  These are handles of objects that were there before anything was stored.
Besides, keys of dictionaries are texts, and truth values have handles of their own
(`Handle.Fits`).

So there are two sorts of handles in an object that stands for a value: those since slot `n`,
which lead on, and those that are kept, where it ends.  There are three ways to get from one
heap to another.  `Stands.congr` is for heaps in which other objects change, `Stands.later` for
those in which objects are created, and `Stands.leaves` for releases.  Where no handle is kept,
what stands for a value denotes it (`Stands.denotes`).
-/

namespace Marshal

/-- For a truth value, the handle is its own, and for a dictionary, the keys are texts. -/
def Handle.Fits (handle : Handle) : Value → Prop
  | .bool b => handle = .boolean b
  | .dict entries => ∀ entry ∈ entries, ∃ s, entry.1 = .text s
  | _ => True

/-- The keys of a dictionary are texts once it is normal. -/
theorem Handle.fits_normal {entries : List (Value × Value)}
    (hkeys : ∀ entry ∈ entries, ∃ s, entry.1.keyText = .ok s) (handle : Handle) :
    handle.Fits (Value.dict entries).normal := by
  have hall := Value.forall_normal_entries (P := fun key => ∃ s, key = .text s)
    (Q := fun _ => True) hkeys (fun s => ⟨s, rfl⟩) fun _ _ => trivial
  exact fun entry hentry => (hall entry hentry).1

namespace Heap

variable {kept : Handle → Prop} {n n' room : Nat} {heap heap' : Heap} {handle : Handle}
  {v : Value} {content : Content} {mutable : Bool}

/-- The value is a domain object that wraps a live handle, one of those that are kept. -/
def Wraps (kept : Handle → Prop) (heap : Heap) (handle : Handle) (v : Value) : Prop :=
  ∃ o : DomainObject, v = .object o ∧ o.handle = some handle ∧ kept handle ∧ heap.Live handle

/-- The object of the handle stands for the value, when it is known what the handles in it
stand for. -/
def Stood (kept : Handle → Prop) (n : Nat) (heap : Heap)
    (child? : Option (Handle → Value → Prop)) (handle : Handle) (v : Value) : Prop :=
  Wraps kept heap handle v ∨ Denoted n heap child? handle v ∧ handle.Fits v

/-- The object of the handle stands for the value, with at most `room` levels of containers
above what is wrapped. -/
def Stands (kept : Handle → Prop) (n : Nat) (heap : Heap) : (room : Nat) → Handle → Value → Prop
  | 0 => Stood kept n heap none
  | room + 1 => Stood kept n heap (some (Stands kept n heap room))

/-- Whatever an object in a slot from `n` on holds is live. -/
def ClosedSince (n : Nat) (heap : Heap) : Prop := ∀ index content mutable, n ≤ index →
  heap.body? (.object index) = some (content, mutable) →
  ∀ child ∈ content.children, heap.Live child

theorem Extends.closedSince {base : Heap} {owned : Multiset Handle} (h : Extends base heap owned) :
    ClosedSince base.slots.size heap := by
  intro index content mutable hle hbody child hchild
  obtain ⟨o, ho, rfl, -⟩ := exists_of_body? hbody
  exact h.live_of_child ho hle hchild

theorem ClosedSince.mono (h : ClosedSince n' heap) (hle : n' ≤ n) : ClosedSince n heap :=
  fun index content mutable hindex => h index content mutable (hle.trans hindex)

/-- All handles that are kept are live. -/
def Provides (heap : Heap) (kept : Handle → Prop) : Prop := ∀ handle, kept handle → heap.Live handle

theorem Provides.later {owned : Multiset Handle} (h : heap.Provides kept)
    (hext : Extends heap heap' owned) : heap'.Provides kept :=
  fun handle hkept => hext.live_of_live (h handle hkept)

theorem Wraps.scalar?_eq_none (h : Wraps kept heap handle v) : v.scalar? = none := by
  obtain ⟨o, rfl, -⟩ := h
  rfl

namespace Stands

/-! ## One object -/

theorem of_wraps (h : Wraps kept heap handle v) : Stands kept n heap room handle v := by
  cases room <;> exact .inl h

/-- What stands for a value is wrapped by it, or it is one of the newer objects. -/
theorem cases (h : Stands kept n heap room handle v) :
    Wraps kept heap handle v ∨ handle.Since n ∧ handle.Fits v ∧ ∃ content mutable child?,
      heap.body? handle = some (content, mutable) ∧ Shows child? content v ∧
      ∀ child, child? = some child →
        ∃ deeper, room = deeper + 1 ∧ child = Stands kept n heap deeper := by
  cases room with
  | zero =>
      rcases h with hwraps | ⟨⟨hsince, content, mutable, hbody, hshows⟩, hfits⟩
      · exact .inl hwraps
      · exact .inr ⟨hsince, hfits, content, mutable, _, hbody, hshows, nofun⟩
  | succ deeper =>
      rcases h with hwraps | ⟨⟨hsince, content, mutable, hbody, hshows⟩, hfits⟩
      · exact .inl hwraps
      · refine .inr ⟨hsince, hfits, content, mutable, _, hbody, hshows, ?_⟩
        rintro _ ⟨⟩
        exact ⟨deeper, rfl, rfl⟩

theorem live (h : Stands kept n heap room handle v) : heap.Live handle := by
  rcases h.cases with ⟨_, _, _, _, hlive⟩ | ⟨_, _, _, _, _, hbody, _⟩
  · exact hlive
  · exact live_of_body? hbody

theorem of_scalar (hv : v.scalar? = some content) (hsince : handle.Since n)
    (hbody : heap.body? handle = some (content, mutable)) (hfits : handle.Fits v) :
    Stands kept n heap room handle v := by
  cases room <;> exact .inr ⟨⟨hsince, content, mutable, hbody, .scalar hv⟩, hfits⟩

/-- What stands for a scalar is no older object, and it has the contents of one. -/
theorem body?_of_scalar (h : Stands kept n heap room handle v) (hv : v.scalar? = some content) :
    handle.Since n ∧ ∃ mutable, heap.body? handle = some (content, mutable) := by
  rcases h.cases with hwraps | ⟨hsince, -, held, mutable, _, hbody, hshows, -⟩
  · exact nomatch hwraps.scalar?_eq_none.symm.trans hv
  · cases hshows with
    | scalar hscalar =>
        obtain rfl := Option.some.inj (hscalar.symm.trans hv)
        exact ⟨hsince, mutable, hbody⟩
    | list => exact nomatch hv
    | dict => exact nomatch hv
    | set => exact nomatch hv

/-- What holds objects that stand for the parts stands for the whole. -/
theorem of_shows (hsince : handle.Since n) (hbody : heap.body? handle = some (content, mutable))
    (hshows : Shows (some (Stands kept n heap room)) content v) (hfits : handle.Fits v) :
    Stands kept n heap (room + 1) handle v :=
  .inr ⟨⟨hsince, content, mutable, hbody, hshows⟩, hfits⟩

/-! ## From one heap to another -/

/-- What a handle stands for does not change if the object does not, nor any of those that it
leads to, which are the `good` ones. -/
theorem transport (good : Handle → Prop)
    (hsince : ∀ handle, good handle → handle.Since n → handle.Since n')
    (hbody : ∀ handle, good handle → handle.Since n ∨ kept handle → heap.Live handle →
      heap'.body? handle = heap.body? handle)
    (hchildren : ∀ handle content mutable, good handle → handle.Since n →
      heap.body? handle = some (content, mutable) → ∀ child ∈ content.children, good child)
    (hgood : good handle) (h : Stands kept n heap room handle v) :
    Stands kept n' heap' room handle v := by
  have hwrapped : ∀ handle v, good handle → Wraps kept heap handle v →
      Wraps kept heap' handle v := by
    rintro handle v hgood ⟨o, hv, ho, hkept, hlive⟩
    refine ⟨o, hv, ho, hkept, ?_⟩
    rw [live_iff_body?, hbody handle hgood (.inr hkept) hlive, ← live_iff_body?]
    exact hlive
  induction room generalizing handle v with
  | zero =>
      rcases h with hwraps | ⟨⟨hnew, content, mutable, hcontent, hshows⟩, hfits⟩
      · exact .inl (hwrapped handle v hgood hwraps)
      · have hbody' := hbody handle hgood (.inl hnew) (live_of_body? hcontent)
        exact .inr ⟨⟨hsince handle hgood hnew, content, mutable, hbody'.trans hcontent, hshows⟩,
          hfits⟩
  | succ room ih =>
      rcases h with hwraps | ⟨⟨hnew, content, mutable, hcontent, hshows⟩, hfits⟩
      · exact .inl (hwrapped handle v hgood hwraps)
      · have hbody' := hbody handle hgood (.inl hnew) (live_of_body? hcontent)
        refine of_shows (hsince handle hgood hnew) (hbody'.trans hcontent) ?_ hfits
        exact hshows.imp fun child hchild v =>
          ih (hchildren handle content mutable hgood hnew hcontent child hchild)

theorem mono (h : Stands kept n heap room handle v) (hle : n' ≤ n) :
    Stands kept n' heap room handle v :=
  transport (fun _ => True) (fun _ _ hsince => hsince.mono hle) (fun _ _ _ _ => rfl)
    (fun _ _ _ _ _ _ _ _ => trivial) trivial h

theorem congr (h : Stands kept n heap room handle v)
    (hbody : ∀ handle, handle.Since n ∨ kept handle → heap.Live handle →
      heap'.body? handle = heap.body? handle) : Stands kept n heap' room handle v :=
  transport (fun _ => True) (fun _ _ => id) (fun handle _ => hbody handle)
    (fun _ _ _ _ _ _ _ _ => trivial) trivial h

/-- What is created later makes no difference. -/
theorem later {owned : Multiset Handle} (h : Stands kept n heap room handle v)
    (hext : Extends heap heap' owned) : Stands kept n heap' room handle v :=
  h.congr fun _ _ hlive => hext.body?_of_live hlive

/-- What a release leaves stands for what it stood for.  As long as the handle itself is live,
so is all that it leads to, since nothing from slot `n` on holds what is gone. -/
theorem leaves (h : Stands kept n heap room handle v) (hleaves : Leaves heap heap')
    (hclosed : ClosedSince n heap') (hlive : heap'.Live handle) :
    Stands kept n heap' room handle v := by
  refine transport heap'.Live (fun _ _ => id)
    (fun handle hlive _ _ => hleaves.body?_eq handle hlive) ?_ hlive h
  intro handle content mutable hlive hsince hbody child hchild
  have hbody' : heap'.body? handle = some (content, mutable) :=
    (hleaves.body?_eq handle hlive).trans hbody
  obtain ⟨index, rfl⟩ := exists_index_of_child hbody hchild
  exact hclosed index content mutable (hsince index rfl) hbody' child hchild

/-! ## Nothing kept -/

/-- Where nothing is kept, there are no domain objects. -/
theorem denotes (h : Stands kept n heap room handle v) (hnone : ∀ handle, ¬ kept handle) :
    Denotes n heap room handle v := by
  have hwraps : ∀ handle v, ¬ Wraps kept heap handle v := by
    rintro handle v ⟨o, -, -, hkept, -⟩
    exact hnone handle hkept
  induction room generalizing handle v with
  | zero => exact (h.resolve_left (hwraps handle v)).1
  | succ room ih =>
      obtain ⟨⟨hsince, content, mutable, hbody, hshows⟩, -⟩ := h.resolve_left (hwraps handle v)
      exact ⟨hsince, content, mutable, hbody, hshows.imp fun _ _ _ hchild => ih hchild⟩

end Stands

end Heap

end Marshal
