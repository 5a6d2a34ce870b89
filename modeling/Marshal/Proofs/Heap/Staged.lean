import Marshal.Proofs.Heap.Growth
import Marshal.Proofs.Heap.Reachable
import Marshal.Proofs.Heap.Stands

/-!
# Containers that are being filled

A container is created in a heap `base`, so its handle is `base.next`, and then it
is filled.  `Staged kept base heap room v` says that what it holds by now stands for
the value `v`, where the objects of `kept` handles are shared.  Each way to put
something in has a rule that tells how `v` becomes longer, and it is here that the two
sides have to agree on which members and which keys are equal.

Elements are released after they were put in, and a value that is replaced is
released as well.  Releases are put off: `Left kept base room v heap` says that the
container stands for `v` but for some releases, and what grew out of `base` without
losing track of a reference has lost nothing by them (`Left.staged`).
-/

namespace Marshal.Heap

variable {kept : Handle → Prop} {base heap heap' : Heap} {room : Nat} {v : Value}
  {owned : Multiset Handle} {handle : Handle}

/-- The handle of the next object. -/
def next (heap : Heap) : Handle := .object heap.slots.size

/-- The next object of `base` is there, can be changed, and stands for the value by
what was created after it or is kept. -/
def Staged (kept : Handle → Prop) (base heap : Heap) (room : Nat) (v : Value) : Prop :=
  ∃ content, heap.body? base.next = some (content, true) ∧
    Shows (some (Stands kept (base.slots.size + 1) heap room)) content v

/-- What a container stands for, but for releases. -/
def Left (kept : Handle → Prop) (base : Heap) (room : Nat) (v : Value) (heap : Heap) : Prop :=
  ∃ heap', Staged kept base heap' room v ∧ Leaves heap' heap

theorem Staged.left (h : Staged kept base heap room v) : Left kept base room v heap :=
  ⟨heap, h, .refl heap⟩

theorem Left.release (h : Left kept base room v heap) (handle : Handle) :
    Left kept base room v (heap.release handle) := by
  obtain ⟨heap', hstaged, hleaves⟩ := h
  exact ⟨heap', hstaged, hleaves.trans (leaves_release handle heap)⟩

/-- Nothing that a container holds is gone as long as every reference is
accounted for. -/
theorem Left.staged (h : Left kept base room v heap) (hgrows : Grows base {base.next} heap 0) :
    Staged kept base heap room v := by
  obtain ⟨heap', ⟨content, hbody, hshows⟩, hleaves⟩ := h
  have hlive : heap.Live base.next :=
    hgrows.conserved.live_of_owned (Multiset.mem_add.mpr (.inl (Multiset.mem_singleton_self _)))
  have hclosed := hgrows.conserved.closedSince
  have hbody' : heap.body? base.next = some (content, true) :=
    (hleaves.body?_eq _ hlive).trans hbody
  refine ⟨content, hbody', hshows.imp fun child hchild v hstands => ?_⟩
  exact hstands.leaves hleaves (hclosed.mono (Nat.le_succ _))
    (hclosed _ content true le_rfl hbody' child hchild)

theorem Staged.later (h : Staged kept base heap room v) (hext : Extends heap heap' owned) :
    Staged kept base heap' room v := by
  obtain ⟨content, hbody, hshows⟩ := h
  have hlive := live_of_body? hbody
  exact ⟨content, (hext.body?_of_live hlive).trans hbody,
    hshows.imp fun _ _ _ hstands => hstands.later hext⟩

/-- There is room in the slots for the container and what is created after it. -/
theorem Staged.lt_size (h : Staged kept base heap room v) : base.slots.size < heap.slots.size := by
  obtain ⟨content, hbody, -⟩ := h
  exact lt_size_of_live (live_of_body? hbody)

/-- A container that is filled may as well be left as it is. -/
theorem Staged.stands (h : Staged kept base heap room v) (hfits : base.next.Fits v) :
    Stands kept base.slots.size heap (room + 1) base.next v := by
  obtain ⟨content, hbody, hshows⟩ := h
  exact .of_shows (Handle.since_object le_rfl) hbody
    (hshows.imp fun _ _ _ hstands => hstands.mono (Nat.le_succ _)) hfits

/-- New contents may hold whatever was created after the container, and what is kept. -/
theorem staged_refilled {content content' : Content} (hkept : base.Provides kept)
    (hbody : heap.body? base.next = some (content, true))
    (hsame : ∀ handle, heap'.body? handle = heap.body? handle)
    (hshows : Shows (some (Stands kept (base.slots.size + 1) heap room)) content' v) :
    Staged kept base (heap'.refilled base.next content') room v := by
  refine ⟨content', ?_, hshows.imp fun child _ v hstands => ?_⟩
  · rw [next, refilled, body?_alter_self, ← next, hsame, hbody]
    rfl
  · refine hstands.congr fun handle hgood _ => ?_
    -- the container itself is no part of what it holds
    have hne : handle ≠ .object base.slots.size := by
      rintro rfl
      rcases hgood with hsince | hold
      · exact absurd (hsince _ rfl) (Nat.not_succ_le_self _)
      · exact ne_new_of_live (hkept _ hold) rfl
    rw [next, refilled, body?_alter_of_ne _ hne, hsame]

/-! ## What is found the same -/

/-- What is live before something is created is something else, unless both are one
boolean. -/
theorem exists_boolean_of_live (hlive : heap.Live handle) (hsince : handle.Since heap.slots.size) :
    ∃ b, handle = .boolean b := by
  cases handle with
  | boolean b => exact ⟨b, rfl⟩
  | outside address => simp [Live] at hlive
  | object index => exact absurd (lt_size_of_live hlive) (Nat.not_lt.mpr (hsince index rfl))

theorem holds_eq {content held : Content} {mutable : Bool}
    (hbody : heap.body? handle = some (held, mutable)) :
    heap.holds content handle = held.same content := by
  obtain ⟨o, ho, rfl, -⟩ := exists_of_body? hbody
  rw [holds, ho]

/-- The members of a set and those of a value agree on what is there already. -/
theorem hasMember_eq {before : Heap} {n : Nat} {members : List Handle} {built : List Value}
    {member : Handle} {content : Content}
    (hmember : Stands kept before.slots.size heap room member v)
    (hv : v.scalar? = some content) (hscalars : ∀ w ∈ built, w.scalar?.isSome)
    (hbuilt : List.Forall₂ (fun m w => before.Live m ∧ Stands kept n heap room m w) members
      built) :
    heap.hasMember members member content = built.any (· == v) := by
  induction hbuilt with
  | nil => rfl
  | @cons m w members built hhead _ ih =>
      rw [List.forall_mem_cons] at hscalars
      obtain ⟨held, hheld⟩ := Option.isSome_iff_exists.mp hscalars.1
      obtain ⟨-, mutable, hbody⟩ := hhead.2.body?_of_scalar hheld
      have hsame : (decide (m = member) || heap.holds content m) = (w == v) := by
        rw [holds_eq hbody, Value.same_of_scalar hheld hv, Bool.or_eq_right_iff_imp]
        -- old and new share a handle only if both are one boolean, which equals itself
        intro hm
        obtain rfl := of_decide_eq_true hm
        obtain ⟨hsince, _, hbody'⟩ := hmember.body?_of_scalar hv
        obtain ⟨b, rfl⟩ := exists_boolean_of_live hhead.1 hsince
        obtain ⟨rfl, -⟩ : Content.boolean b = held ∧ false = mutable := by simpa using hbody
        obtain ⟨rfl, -⟩ : Content.boolean b = content ∧ _ := by simpa using hbody'
        rw [← Value.same_of_scalar hheld hv]
        exact beq_self_eq_true b
      show ((decide (m = member) || heap.holds content m) ||
        heap.hasMember members member content) = ((w == v) || built.any (· == v))
      rw [hsame, ih hscalars.2]

/-! ## Arrays -/

theorem Staged.ends_append {before : Heap} {item : Handle} {built : List Value}
    (h : Staged kept base before room (.list built)) (hkept : base.Provides kept)
    (hext : Extends before heap owned) (hitem : Stands kept before.slots.size heap room item v) :
    Ends (append base.next item) heap
      (fun _ heap' => Left kept base room (.list (built ++ [v])) heap' ∧
        (heap.budget = none → heap'.budget = none))
      fun _ _ => False := by
  obtain ⟨content, hbody, hshows⟩ := h.later hext
  cases hshows with
  | scalar hscalar => exact nomatch hscalar
  | @list _ items _ hchild hbuilt =>
      obtain rfl := Option.some.inj hchild
      refine Heap.ends_append (fun index found _ hfound _ => ?_) fun hnone _ => ?_
      · obtain rfl : items = found := by simpa [hbody] using hfound
        have hlonger : List.Forall₂ (Stands kept (base.slots.size + 1) heap room)
            (items.push item).toList (built ++ [v]) := by
          rw [Array.toList_push]
          exact List.rel_append hbuilt (.cons (hitem.mono h.lt_size) .nil)
        refine ⟨(staged_refilled hkept hbody body?_retained (.list rfl hlonger)).left,
          fun hbudget => ?_⟩
        rw [refilled, budget_alter, budget_retained, hbudget]
      · exact hnone items hbody hitem.live

/-! ## Sets -/

theorem Staged.ends_addMember {before : Heap} {member : Handle} {built : List Value}
    (h : Staged kept base before room (.set built)) (hkept : base.Provides kept)
    (hext : Extends before heap owned)
    (hmember : Stands kept before.slots.size heap room member v) (hv : v.scalar?.isSome)
    (hscalars : ∀ w ∈ built, w.scalar?.isSome) :
    Ends (addMember base.next member) heap
      (fun _ heap' => Left kept base room (.set (Value.adjoin v built)) heap' ∧
        (heap.budget = none → heap'.budget = none))
      fun _ _ => False := by
  have hstaged := h.later hext
  have hlt := h.lt_size
  obtain ⟨content, hbody, hshows⟩ := h
  cases hshows with
  | scalar hscalar => exact nomatch hscalar
  | @set _ members _ hchild hbuilt =>
      obtain rfl := Option.some.inj hchild
      obtain ⟨content, hcontent⟩ := Option.isSome_iff_exists.mp hv
      obtain ⟨-, mutable, hheld⟩ := hmember.body?_of_scalar hcontent
      have hbody' := (hext.body?_of_live (live_of_body? hbody)).trans hbody
      have hhas : heap.hasMember members member content = built.any (· == v) :=
        hasMember_eq hmember hcontent hscalars
          (hbuilt.imp fun _ _ hstands => ⟨hstands.live, hstands.later hext⟩)
      refine Heap.ends_addMember (fun found _ others hfound hothers hpresent => ?_)
        (fun index found _ others _ hfound hothers habsent => ?_) fun hnone _ => ?_
      · obtain ⟨rfl, -⟩ := Prod.mk.inj (Option.some.inj (hheld.symm.trans hfound))
        obtain rfl : members = others := by simpa [hbody'] using hothers
        rw [hhas] at hpresent
        rw [Value.adjoin_of_any hpresent]
        exact ⟨hstaged.left, id⟩
      · obtain ⟨rfl, -⟩ := Prod.mk.inj (Option.some.inj (hheld.symm.trans hfound))
        obtain rfl : members = others := by simpa [hbody'] using hothers
        rw [hhas] at habsent
        rw [Value.adjoin_of_not_any habsent]
        have hlonger : List.Forall₂ (Stands kept (base.slots.size + 1) heap room)
            (members ++ [member]) (built ++ [v]) :=
          List.rel_append (hbuilt.imp fun _ _ hstands => hstands.later hext)
            (.cons (hmember.mono hlt) .nil)
        refine ⟨(staged_refilled hkept hbody' body?_retained (.set rfl hlonger)).left,
          fun hbudget => ?_⟩
        rw [refilled, budget_alter, budget_retained, hbudget]
      · exact hnone members hbody' hmember.live

/-! ## Dictionaries -/

/-- The entries of a dictionary and those of a value agree on the place of a
key. -/
theorem keyPlace?_eq {before : Heap} {n : Nat} {entries : List (Handle × Handle)}
    {built : List (Value × Value)} {key : Handle} {s : String}
    (hkey : Stands kept before.slots.size heap room key (.text s))
    (htexts : ∀ entry ∈ built, ∃ s, entry.1 = .text s)
    (hbuilt : List.Forall₂
      (fun entry pair => before.Live entry.1 ∧ Stands kept n heap room entry.1 pair.1)
      entries built) :
    heap.keyPlace? entries key s = built.findIdx? (·.1 == .text s) := by
  induction hbuilt with
  | nil => rfl
  | @cons entry pair entries built hhead _ ih =>
      rw [List.forall_mem_cons] at htexts
      obtain ⟨held, hheld⟩ := htexts.1
      have hscalar : pair.1.scalar? = some (.text held) := by
        rw [hheld]
        rfl
      obtain ⟨-, mutable, hbody⟩ := hhead.2.body?_of_scalar hscalar
      have hsame : (decide (entry.1 = key) || heap.holds (.text s) entry.1) =
          (pair.1 == .text s) := by
        have htext : (Value.text s).scalar? = some (.text s) := rfl
        rw [holds_eq hbody, Value.same_of_scalar hscalar htext, Bool.or_eq_right_iff_imp]
        -- a text has no handle in common with an older object
        intro hentry
        obtain rfl := of_decide_eq_true hentry
        obtain ⟨b, hb⟩ := exists_boolean_of_live hhead.1 (hkey.body?_of_scalar htext).1
        rw [hb] at hbody
        simp at hbody
      unfold keyPlace? at ih ⊢
      rw [List.findIdx?_cons, List.findIdx?_cons, hsame, ih htexts.2]

theorem forall₂_modify {α β : Type} {R : α → β → Prop} {f : α → α} {g : β → β} {xs : List α}
    {ys : List β} (h : List.Forall₂ R xs ys) (hfg : ∀ x y, R x y → R (f x) (g y)) (place : Nat) :
    List.Forall₂ R (xs.modify place f) (ys.modify place g) := by
  induction h generalizing place with
  | nil => cases place <;> exact .nil
  | cons hhead htail ih =>
      cases place with
      | zero => exact .cons (hfg _ _ hhead) htail
      | succ place => exact .cons hhead (ih place)

theorem Staged.ends_putEntry {before : Heap} {key value : Handle} {s : String}
    {built : List (Value × Value)} (h : Staged kept base before room (.dict built))
    (hkept : base.Provides kept) (hext : Extends before heap owned)
    (hkey : Stands kept before.slots.size heap room key (.text s))
    (hvalue : Stands kept before.slots.size heap room value v)
    (htexts : ∀ entry ∈ built, ∃ s, entry.1 = .text s) :
    Ends (putEntry base.next key value) heap
      (fun _ heap' => Left kept base room (.dict (Value.put (.text s) v built)) heap' ∧
        (heap.budget = none → heap'.budget = none))
      fun _ _ => False := by
  have hlt := h.lt_size
  obtain ⟨content, hbody, hshows⟩ := h
  cases hshows with
  | scalar hscalar => exact nomatch hscalar
  | @dict _ entries _ hchild hbuilt =>
      obtain rfl := Option.some.inj hchild
      obtain ⟨-, mutable, hheld⟩ := hkey.body?_of_scalar rfl
      have hbody' := (hext.body?_of_live (live_of_body? hbody)).trans hbody
      have hplace : heap.keyPlace? entries key s = built.findIdx? (·.1 == .text s) :=
        keyPlace?_eq hkey htexts
          (hbuilt.imp fun _ _ hstands => ⟨hstands.1.live, hstands.1.later hext⟩)
      have hlater :
          List.Forall₂ (Both (Stands kept (base.slots.size + 1) heap room)) entries built :=
        hbuilt.imp fun _ _ hstands => ⟨hstands.1.later hext, hstands.2.later hext⟩
      refine Heap.ends_putEntry (fun index text _ found _ htext _ hfound hnone => ?_)
        (fun index text _ found place old _ htext _ hfound hsome _ => ?_) fun hnone _ => ?_
      · -- a new key comes last
        obtain ⟨⟨⟩, -⟩ := Prod.mk.inj (Option.some.inj (hheld.symm.trans htext))
        obtain rfl : entries = found := by simpa [hbody'] using hfound
        rw [Value.put_eq, ← hplace, hnone]
        have hlonger : List.Forall₂ (Both (Stands kept (base.slots.size + 1) heap room))
            (entries ++ [(key, value)]) (built ++ [(.text s, v)]) :=
          List.rel_append hlater (.cons ⟨hkey.mono hlt, hvalue.mono hlt⟩ .nil)
        refine ⟨(staged_refilled hkept hbody' (fun handle => ?_) (.dict rfl hlonger)).left,
          fun hbudget => ?_⟩
        · rw [body?_retained, body?_retained]
        · rw [refilled, budget_alter, budget_retained, budget_retained, hbudget]
      · -- an old key keeps its place and its object
        obtain ⟨⟨⟩, -⟩ := Prod.mk.inj (Option.some.inj (hheld.symm.trans htext))
        obtain rfl : entries = found := by simpa [hbody'] using hfound
        rw [Value.put_eq, ← hplace, hsome]
        have hother : List.Forall₂ (Both (Stands kept (base.slots.size + 1) heap room))
            (entries.modify place fun entry => (entry.1, value))
            (built.modify place fun entry => (entry.1, v)) := by
          refine forall₂_modify hlater (fun entry pair hstands => ?_) place
          exact ⟨hstands.1, hvalue.mono hlt⟩
        refine ⟨(staged_refilled hkept hbody' body?_retained (.dict rfl hother)).left.release _,
          fun hbudget => stable_unlimited.release _ ?_⟩
        show ((heap.retained value).refilled _ _).budget = none
        rw [refilled, budget_alter, budget_retained, hbudget]
      · exact hnone entries s mutable hbody' hheld hvalue.live

/-! ## Sealed copies -/

/-- A copy stands for what the container stands for. -/
theorem Staged.ends_copy {kind : Container} (h : Staged kept base heap room v)
    (hclosed : ClosedSince base.slots.size heap) (hfits : ∀ handle : Handle, handle.Fits v)
    (hkind : ∀ content child, Shows (some child) content v → content.container? = some kind) :
    Ends (copy kind base.next) heap
      (fun handle heap' => Stands kept base.slots.size heap' (room + 1) handle v ∧
        (heap.budget = none → heap'.budget = none))
      fun refusal _ => heap.Spent refusal := by
  have hlt := h.lt_size
  obtain ⟨content, hbody, hshows⟩ := h
  refine Heap.ends_copy (fun found mutable hfound => hclosed _ found mutable le_rfl hfound)
    (fun found mutable hfound _ => ⟨?_, fun hbudget => ?_⟩)
    fun refusal hspent => hspent content true hbody (hkind content _ hshows)
  · obtain ⟨rfl, -⟩ := Prod.mk.inj (Option.some.inj (hbody.symm.trans hfound))
    refine .of_shows (Handle.since_object hlt.le) (body?_of_get? get?_collected_new)
      (hshows.imp fun child _ v hstands => ?_) (hfits _)
    refine (hstands.mono (Nat.le_succ _)).congr fun handle _ hlive => ?_
    exact body?_collected_of_ne (ne_new_of_live hlive)
  · rw [collected, pushed, budget_retainedAll, hbudget]
    rfl

end Marshal.Heap
