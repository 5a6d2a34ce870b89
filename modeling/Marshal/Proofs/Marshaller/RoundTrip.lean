import Marshal.Proofs.Marshaller.Recovering

/-!
# Round trips

A value that is stored and read again comes back in its normal form.  This holds
for single values and for the three kinds of container, which may be left open to
change (`Form`), at every depth of nesting that is allowed, in every heap that
operations lead to.  The second trip changes nothing any more, and it can be made
in any other heap.

Reading a set takes an object, so it may fail for want of budget, and in no other
way.
-/

namespace Marshal

/-- A way to store data, with a reader of its own. -/
inductive Form where
  | value
  | list (mutable : Bool)
  | dict (mutable : Bool)
  | set (mutable : Bool)

namespace Form

/-- What is stored and read. -/
abbrev Data : Form → Type
  | value => Value
  | list _ | set _ => List Value
  | dict _ => List (Value × Value)

/-- The data as a single value. -/
def whole : (form : Form) → form.Data → Value
  | value, v => v
  | list _, items => .list items
  | dict _, entries => .dict entries
  | set _, members => .set members

/-- Stores the data. -/
def lower (m : Marshaller Heap) : (form : Form) → form.Data → Action Heap Handle
  | value, v => m.lower v
  | list mutable, items => m.lowerList items mutable
  | dict mutable, entries => m.lowerDict entries mutable
  | set mutable, members => m.lowerSet members mutable

/-- Reads the data. -/
def lift (m : Marshaller Heap) : (form : Form) → Handle → Action Heap form.Data
  | value, handle => m.lift (some handle)
  | list _, handle => m.liftList handle
  | dict _, handle => m.liftDict handle
  | set _, handle => m.liftSet handle

/-- With whatever budget, nothing but the value is read, and only the budget can
get in the way. -/
def Recovers (form : Form) (m : Marshaller Heap) (heap : Heap) (handle : Handle) (v : Value) :
    Prop :=
  ∀ budget, Ends (form.lift m handle) (heap.setBudget budget) (fun x _ => form.whole x = v)
    fun failure _ => (heap.setBudget budget).Short failure

variable {m : Marshaller Heap} {heap heap' : Heap} {handle : Handle} {v : Value} {n : Nat}

/-! ## Reading -/

theorem recovers_of_denotes (hm : m.Standard) (form : Form) {x : form.Data}
    (hpos : heap.Positive)
    (h : Heap.Denotes n heap m.limits.maxDepth handle (form.whole x)) :
    form.Recovers m heap handle (form.whole x) := by
  intro budget
  have hpos' : (heap.setBudget budget).Positive := hpos.congr rfl
  have h' : Heap.Denotes n (heap.setBudget budget) m.limits.maxDepth handle (form.whole x) :=
    h.congr fun _ _ _ => rfl
  cases form with
  | value =>
      exact (hm.lifts_within m.limits.maxDepth n _ handle x hpos' h').mono
        (fun _ _ hgood => hgood.1) fun _ _ => id
  | list mutable =>
      exact (hm.ends_liftList hpos' h').mono (fun _ _ => congrArg Value.list) fun _ _ => id
  | dict mutable =>
      exact (hm.ends_liftDict hpos' h').mono (fun _ _ => congrArg Value.dict) fun _ _ => id
  | set mutable =>
      exact (hm.ends_liftSet hpos' h').mono (fun _ _ => congrArg Value.set) fun _ _ => id

/-- The normal form of data is one of the same form. -/
theorem exists_whole_eq_normal (form : Form) (x : form.Data) :
    ∃ y : form.Data, form.whole y = (form.whole x).normal := by
  cases form with
  | value => exact ⟨Value.normal x, rfl⟩
  | list mutable => exact ⟨x.map Value.normal, (Value.normal_list x).symm⟩
  | dict mutable => exact ⟨Value.merged [] (Value.normalEntries x), rfl⟩
  | set mutable => exact ⟨Value.gathered [] x, rfl⟩

/-! ## Storing -/

/-- Only data that can be stored is. -/
theorem convertible_of_ok (hm : m.Plain) (form : Form) {x : form.Data}
    (hrun : form.lower m x heap = .ok handle heap') :
    (form.whole x).Convertible m.limits.maxDepth := by
  have hobject := Marshaller.tells_object hm.registry
  have htells : Tells (form.lower m x)
      ((form.whole x).Storable (fun _ => False) m.limits.maxDepth) := by
    cases form with
    | value => exact Marshaller.tells_storable hobject _ x
    | list mutable =>
        cases mutable with
        | true => exact Marshaller.tells_stageArray fun deeper array =>
            Marshaller.tells_items hobject deeper array x
        | false => exact Marshaller.tells_storable hobject _ (.list x)
    | dict mutable =>
        cases mutable with
        | true => exact Marshaller.tells_stageDictionary fun deeper dictionary keys hkeys =>
            Marshaller.tells_entries hobject deeper dictionary keys x hkeys
        | false => exact Marshaller.tells_storable hobject _ (.dict x)
    | set mutable =>
        cases mutable with
        | true => exact Marshaller.tells_stageSet fun deeper set =>
            Marshaller.tells_members hobject deeper set x
        | false => exact Marshaller.tells_storable hobject _ (.set x)
  exact ((htells heap).of_ok hrun).convertible fun _ => id

/-- A container that is staged in one more level stands for its contents. -/
theorem denotes_of_stages {room : Nat} {staged : Action Heap Handle}
    (hstaged : Ends staged heap
      (fun handle heap' => handle = heap.next ∧ Stages (fun _ => False) heap room v heap')
      fun failure _ => heap.Short failure)
    (hfits : heap.next.Fits v) :
    Ends staged heap
      (fun handle heap' => heap'.Positive ∧ Heap.Denotes heap.slots.size heap' (room + 1) handle v)
      fun failure _ => heap.Short failure := by
  refine hstaged.mono (fun handle heap' hgood => ?_) fun _ _ => id
  obtain ⟨rfl, hs⟩ := hgood
  exact ⟨hs.grows.conserved.positive, (hs.staged.stands hfits).denotes fun _ => id⟩

/-- Data that can be stored is stored, in its normal form. -/
theorem ends_lower (hm : m.Plain) (form : Form) {x : form.Data} (hpos : heap.Positive)
    (hx : (form.whole x).Convertible m.limits.maxDepth) :
    Ends (form.lower m x) heap
      (fun handle heap' => heap'.Positive ∧
        Heap.Denotes heap.slots.size heap' m.limits.maxDepth handle (form.whole x).normal)
      fun failure _ => heap.Short failure := by
  -- what is sealed is lowered as a single value; what stays open is only staged
  have hsealed : Ends (m.lowerWithin m.limits.maxDepth (form.whole x)) heap
      (fun handle heap' => heap'.Positive ∧
        Heap.Denotes heap.slots.size heap' m.limits.maxDepth handle (form.whole x).normal)
      fun failure _ => heap.Short failure :=
    (hx.ends hm hpos).mono
      (fun _ _ hyields => ⟨hyields.grows.conserved.positive, hyields.denotes⟩) fun _ _ => id
  have hkept : heap.Provides fun _ => False := fun _ => False.elim
  cases form with
  | value => exact hsealed
  | list mutable =>
      cases mutable with
      | false => exact hsealed
      | true =>
          show Ends (m.stageArray m.limits.maxDepth x) heap _ _
          generalize m.limits.maxDepth = room at hx ⊢
          cases hx with
          | scalar hscalar => exact nomatch hscalar
          | list hitems =>
              exact denotes_of_stages (hm.sharing.ends_stageArray
                (fun item hitem => (hitems item hitem).delivers hm) hpos hkept) trivial
  | dict mutable =>
      cases mutable with
      | false => exact hsealed
      | true =>
          show Ends (m.stageDictionary m.limits.maxDepth x) heap _ _
          generalize m.limits.maxDepth = room at hx ⊢
          cases hx with
          | scalar hscalar => exact nomatch hscalar
          | dict hkeys hvalues =>
              exact denotes_of_stages (hm.sharing.ends_stageDictionary hkeys
                (fun entry hentry => (hvalues entry hentry).delivers hm) hpos hkept)
                (Handle.fits_normal hkeys _)
  | set mutable =>
      cases mutable with
      | false => exact hsealed
      | true =>
          show Ends (m.stageSet m.limits.maxDepth x) heap _ _
          generalize m.limits.maxDepth = room at hx ⊢
          cases hx with
          | scalar hscalar => exact nomatch hscalar
          | set hmembers =>
              exact denotes_of_stages (hm.sharing.ends_stageSet hmembers hpos hkept) trivial

/-! ## There and back -/

/-- What is stored is read in its normal form. -/
theorem ends_recovers (hm : m.Plain) (form : Form) {x : form.Data} (hpos : heap.Positive)
    (hx : (form.whole x).Convertible m.limits.maxDepth) :
    Ends (form.lower m x) heap
      (fun handle heap' => form.Recovers m heap' handle (form.whole x).normal)
      fun failure _ => heap.Short failure := by
  obtain ⟨y, hy⟩ := exists_whole_eq_normal form x
  refine (ends_lower hm form hpos hx).mono (fun handle heap' hgood => ?_) fun _ _ => id
  obtain ⟨hpos', hdenotes⟩ := hgood
  rw [← hy] at hdenotes ⊢
  exact recovers_of_denotes hm.toStandard form hpos' hdenotes

/-- Data that was stored is read in its normal form, and what was read can be
stored again, in any heap, and is read as it is. -/
theorem round_trip {start : Heap} (hstart : start.Reachable) (hheap : heap.Reachable)
    (limits : Limits) (form : Form) {x : form.Data}
    (hrun : form.lower (.make Heap.store start {} limits) x heap = .ok handle heap') :
    form.Recovers (.make Heap.store start {} limits) heap' handle (form.whole x).normal ∧
    ∀ (other : Heap) (y : form.Data), other.Reachable → form.whole y = (form.whole x).normal →
      Ends (form.lower (.make Heap.store start {} limits) y) other
        (fun handle' other' =>
          form.Recovers (.make Heap.store start {} limits) other' handle' (form.whole y))
        fun failure _ => other.Short failure := by
  have hm := hstart.plain limits
  have hx := convertible_of_ok hm form hrun
  constructor
  · exact (ends_recovers hm form hheap.positive hx).of_ok hrun
  · intro other y hother hy
    -- a normal value can be stored as well, and its normal form is itself
    have hagain : (form.whole y).Convertible limits.maxDepth := by
      rw [hy]
      exact hx.normal
    have hsame : (form.whole y).normal = form.whole y := by
      rw [hy]
      exact hx.normal_normal
    have hends := ends_recovers hm form hother.positive hagain
    rwa [hsame] at hends

/-- Of two entries with one key the later value is read. -/
theorem round_trip_of_repeated_key :
    let m : Marshaller Heap := .make Heap.store {} {} {}
    let x : List (Value × Value) := [(.text "k", .int 1), (.text "k", .int 2)]
    ∃ handle heap', (dict true).lower m x {} = .ok handle heap' ∧
      (dict true).Recovers m heap' handle (.dict [(.text "k", .int 2)]) := by
  intro m x
  have hm : m.Plain := Heap.Reachable.fresh.plain {}
  have hx : (Value.dict x).Convertible 256 := by
    refine .dict (fun entry hentry => ?_) fun entry hentry => ?_
    · rcases List.mem_pair.mp hentry with rfl | rfl <;> exact ⟨"k", rfl⟩
    · rcases List.mem_pair.mp hentry with rfl | rfl <;> exact .scalar rfl
  have hnormal : (Value.dict x).normal = .dict [(.text "k", .int 2)] := by
    have hkey : (Value.text "k" == Value.text "k") = true := by
      show Value.equals _ _ = true
      simp [Value.equals]
    show Value.dict (Value.put _ _ (Value.put _ _ [])) = _
    simp [Value.put, Value.textual, Value.keyText, Value.normal, hkey]
  have hends := ends_lower hm (dict true) Heap.Reachable.fresh.positive hx
  cases hrun : (dict true).lower m x {} with
  | ok handle heap' =>
      refine ⟨handle, heap', rfl, ?_⟩
      rw [← hnormal]
      exact (round_trip .fresh .fresh {} (dict true) hrun).1
  | error failure heap' => exact absurd rfl (hends.of_error hrun).1

end Form

end Marshal
