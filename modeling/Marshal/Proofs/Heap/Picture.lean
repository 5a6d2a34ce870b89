import Mathlib.Data.List.Forall2
import Marshal.Marshaller.Lifting
import Marshal.Proofs.Heap.Chains
import Marshal.Proofs.Heap.Issued
import Marshal.Proofs.Value.Scalars

/-!
# What an object is read as

`Heap.picture? heap window room handle` is the value that a reader without converters makes
of an object, if it makes any, where `room` levels of nesting are left and pair sets are
probed in `window` places.  It is put together from the contents of the objects alone: no
count matters, no request is sent, and nothing is created on the way.

So it is the same in any two heaps that agree on what the object leads to
(`Heap.picture?_congr`), and what is read with little room is read alike with more
(`Heap.picture?_mono`).  Where all is live, there is a picture of just what is acceptable
(`Heap.acceptable_iff_picture?`).

Values are listed by `Option`'s `mapM`, which has a result when each element has one
(`mapM_eq_some`).
-/

namespace Marshal

/-- All elements have a result, and these are the results. -/
theorem mapM_eq_some {α β : Type} {f : α → Option β} {xs : List α} {ys : List β} :
    xs.mapM f = some ys ↔ List.Forall₂ (fun x y => f x = some y) xs ys := by
  induction xs generalizing ys with
  | nil =>
      rw [List.mapM_nil, List.forall₂_nil_left_iff]
      exact Option.some_inj.trans eq_comm
  | cons x xs ih =>
      rw [List.mapM_cons, List.forall₂_cons_left_iff]
      constructor
      · intro h
        obtain ⟨y, hy, hrest⟩ := Option.bind_eq_some_iff.mp h
        obtain ⟨rest, hys, hcons⟩ := Option.bind_eq_some_iff.mp hrest
        exact ⟨y, rest, hy, ih.mp hys, (Option.some.inj hcons).symm⟩
      · rintro ⟨y, rest, hy, hys, rfl⟩
        refine Option.bind_eq_some_iff.mpr ⟨y, hy, ?_⟩
        exact Option.bind_eq_some_iff.mpr ⟨rest, ih.mpr hys, rfl⟩

theorem mapM_some {α : Type} (xs : List α) : xs.mapM some = some xs :=
  mapM_eq_some.mpr (List.forall₂_same.mpr fun _ _ => rfl)

theorem isSome_mapM {α β : Type} {f : α → Option β} {xs : List α} :
    (xs.mapM f).isSome ↔ ∀ x ∈ xs, (f x).isSome := by
  simp only [Option.isSome_iff_exists]
  induction xs with
  | nil => exact iff_of_true ⟨[], rfl⟩ (List.forall_mem_nil _)
  | cons x xs ih =>
      rw [List.forall_mem_cons, ← ih]
      constructor
      · rintro ⟨ys, hys⟩
        obtain ⟨y, rest, hy, hrest, -⟩ := List.forall₂_cons_left_iff.mp (mapM_eq_some.mp hys)
        exact ⟨⟨y, hy⟩, rest, mapM_eq_some.mpr hrest⟩
      · rintro ⟨⟨y, hy⟩, rest, hrest⟩
        exact ⟨y :: rest, mapM_eq_some.mpr (.cons hy (mapM_eq_some.mp hrest))⟩

theorem mapM_congr {α β : Type} {f g : α → Option β} {xs : List α} (h : ∀ x ∈ xs, f x = g x) :
    xs.mapM f = xs.mapM g := by
  induction xs with
  | nil => rfl
  | cons x xs ih =>
      rw [List.forall_mem_cons] at h
      rw [List.mapM_cons, List.mapM_cons, h.1, ih h.2]

/-! ## Contents -/

/-- What an index set, given in descending order, is read as. -/
def Content.readIndices (values : List Int64) : List Int64 :=
  match values.getLast?, values.head? with
  | some first, some last =>
    if values.length = 1 then [first]
    else if last.toInt - first.toInt + 1 = values.length then Marshaller.interval first last
    else Sorted.insert Sorted.ascending first [last]
  | _, _ => []

/-- The pairs that are found in `window` places from `index` on, until none is missing. -/
def Content.readPairs (pairs : List (Int64 × Int64)) :
    (window index missing : Nat) → List (Int64 × Int64)
  | 0, _, _ => []
  | _ + 1, _, 0 => []
  | window + 1, index, missing + 1 =>
    match Sorted.find? (Int64.ofNat index) pairs with
    | some value => (Int64.ofNat index, value) :: readPairs pairs window (index + 1) missing
    | none => readPairs pairs window (index + 1) (missing + 1)

/-- What the handles of an entry are read as. -/
def readBoth (child : Handle → Option Value) (entry : Handle × Handle) :
    Option (Value × Value) := do
  let key ← child entry.1
  let value ← child entry.2
  pure (key, value)

/-- What contents are read as, when it is known what the handles in them are read as.  There
is nothing to go by where no level is left for them. -/
def Content.picture? (window : Nat) (handle : Handle) (child? : Option (Handle → Option Value)) :
    Content → Option Value
  | .text s => some (.text s)
  | .number (.known n) => (Store.numberValue n).toOption
  | .number (.unreadable _) => none
  | .boolean b => some (.bool b)
  | .data bytes => some (.bytes bytes)
  | .array items => .list <$> child?.bind fun child => items.toList.mapM child
  | .dictionary entries => .dict <$> child?.bind fun child => entries.mapM (readBoth child)
  | .members handles => .set <$> child?.bind fun child => handles.mapM child
  | .indexArray values => some (.list (values.toList.map .int))
  | .indexSet values => some (.set ((readIndices values).map .int))
  | .pairSet pairs =>
    let found := readPairs pairs window 0 pairs.length
    some (.dict (found.map fun pair => (.int pair.1, .int pair.2)))
  | .custom _ _ => some (.token handle)

/-- What has no parts is read as what it is. -/
theorem Content.picture?_of_isScalar {window : Nat} {handle : Handle} {content : Content}
    {child? : Option (Handle → Option Value)} (h : content.isScalar) :
    content.picture? window handle child? = content.value? := by
  cases content with
  | number numeral => cases numeral <;> rfl
  | text | boolean | data => rfl
  | _ => exact nomatch h

namespace Heap

variable {heap heap' : Heap} {window room : Nat} {handle : Handle} {v : Value}
  {content : Content} {mutable : Bool}

/-- What the object of a handle is read as, with `room` levels of nesting left. -/
def picture? (heap : Heap) (window : Nat) : (room : Nat) → Handle → Option Value
  | 0, handle => (heap.body? handle).bind fun body => body.1.picture? window handle none
  | room + 1, handle =>
    (heap.body? handle).bind fun body =>
      body.1.picture? window handle (some (picture? heap window room))

/-- What the handles in an object are read as, for which there are `room` levels. -/
def pictures? (heap : Heap) (window : Nat) : (room : Nat) → Option (Handle → Option Value)
  | 0 => none
  | room + 1 => some (heap.picture? window room)

theorem picture?_eq (heap : Heap) (window room : Nat) (handle : Handle) :
    heap.picture? window room handle = (heap.body? handle).bind fun body =>
      body.1.picture? window handle (heap.pictures? window room) := by
  cases room <;> rfl

theorem picture?_of_body? (hbody : heap.body? handle = some (content, mutable)) :
    heap.picture? window room handle =
      content.picture? window handle (heap.pictures? window room) := by
  rw [picture?_eq, hbody]
  rfl

theorem picture?_of_not_live (hdead : ¬ heap.Live handle) :
    heap.picture? window room handle = none := by
  rw [live_iff_body?, Option.not_isSome_iff_eq_none] at hdead
  rw [picture?_eq, hdead]
  rfl

/-- What is pictured is there. -/
theorem exists_of_picture? (h : heap.picture? window room handle = some v) :
    ∃ content mutable, heap.body? handle = some (content, mutable) ∧
      content.picture? window handle (heap.pictures? window room) = some v := by
  rw [picture?_eq] at h
  obtain ⟨⟨content, mutable⟩, hbody, hpicture⟩ := Option.bind_eq_some_iff.mp h
  exact ⟨content, mutable, hbody, hpicture⟩

end Heap

/-! ## What pictures depend on -/

theorem readBoth_eq_some {child : Handle → Option Value} {entry : Handle × Handle}
    {pair : Value × Value} :
    readBoth child entry = some pair ↔
      child entry.1 = some pair.1 ∧ child entry.2 = some pair.2 := by
  unfold readBoth
  constructor
  · intro h
    obtain ⟨key, hkey, hrest⟩ := Option.bind_eq_some_iff.mp h
    obtain ⟨value, hvalue, hpair⟩ := Option.bind_eq_some_iff.mp hrest
    obtain rfl := Option.some.inj hpair
    exact ⟨hkey, hvalue⟩
  · rintro ⟨hkey, hvalue⟩
    rw [hkey, hvalue]
    rfl

theorem isSome_readBoth {child : Handle → Option Value} {entry : Handle × Handle} :
    (readBoth child entry).isSome ↔ (child entry.1).isSome ∧ (child entry.2).isSome := by
  simp only [Option.isSome_iff_exists, readBoth_eq_some]
  constructor
  · rintro ⟨pair, hkey, hvalue⟩
    exact ⟨⟨pair.1, hkey⟩, pair.2, hvalue⟩
  · rintro ⟨⟨key, hkey⟩, value, hvalue⟩
    exact ⟨(key, value), hkey, hvalue⟩

/-- Only what the contents hold matters. -/
theorem Content.picture?_congr {window : Nat} {handle : Handle} {content : Content}
    {child child' : Handle → Option Value}
    (h : ∀ other ∈ content.children, child' other = child other) :
    content.picture? window handle (some child') = content.picture? window handle (some child) := by
  cases content with
  | array items =>
      have hitems : items.toList.mapM child' = items.toList.mapM child := mapM_congr h
      show Value.list <$> items.toList.mapM child' = Value.list <$> items.toList.mapM child
      rw [hitems]
  | members members =>
      have hmembers : members.mapM child' = members.mapM child := mapM_congr h
      show Value.set <$> members.mapM child' = Value.set <$> members.mapM child
      rw [hmembers]
  | dictionary entries =>
      have hentries := Content.forall_children_dictionary.mp h
      have hboth : ∀ entry ∈ entries, readBoth child' entry = readBoth child entry := by
        intro entry hentry
        rw [readBoth, readBoth, (hentries entry hentry).1, (hentries entry hentry).2]
      show Value.dict <$> entries.mapM (readBoth child') = Value.dict <$> _
      rw [mapM_congr hboth]
      rfl
  | number numeral => cases numeral <;> rfl
  | _ => rfl

/-- What can be told with less to go by is told alike with more. -/
theorem Content.picture?_mono {window : Nat} {handle : Handle} {content : Content} {v : Value}
    {child? child'? : Option (Handle → Option Value)}
    (h : content.picture? window handle child? = some v)
    (hmono : ∀ child, child? = some child →
      ∃ child', child'? = some child' ∧ ∀ other w, child other = some w → child' other = some w) :
    content.picture? window handle child'? = some v := by
  -- a container with objects needs something to go by, and its parts are told alike
  have hparts : ∀ {α β : Type} {f g : α → Option β} {xs : List α} {ys : List β},
      xs.mapM f = some ys → (∀ x y, f x = some y → g x = some y) → xs.mapM g = some ys := by
    intro α β f g xs ys hall himp
    exact mapM_eq_some.mpr ((mapM_eq_some.mp hall).imp fun x y => himp x y)
  cases content with
  | array items =>
      obtain ⟨values, hvalues, rfl⟩ := Option.map_eq_some_iff.mp h
      obtain ⟨child, hchild, hitems⟩ := Option.bind_eq_some_iff.mp hvalues
      obtain ⟨child', rfl, himp⟩ := hmono child hchild
      exact Option.map_eq_some_iff.mpr ⟨values, hparts hitems himp, rfl⟩
  | members members =>
      obtain ⟨values, hvalues, rfl⟩ := Option.map_eq_some_iff.mp h
      obtain ⟨child, hchild, hmembers⟩ := Option.bind_eq_some_iff.mp hvalues
      obtain ⟨child', rfl, himp⟩ := hmono child hchild
      exact Option.map_eq_some_iff.mpr ⟨values, hparts hmembers himp, rfl⟩
  | dictionary entries =>
      obtain ⟨pairs, hpairs, rfl⟩ := Option.map_eq_some_iff.mp h
      obtain ⟨child, hchild, hentries⟩ := Option.bind_eq_some_iff.mp hpairs
      obtain ⟨child', rfl, himp⟩ := hmono child hchild
      refine Option.map_eq_some_iff.mpr ⟨pairs, hparts hentries fun entry pair hboth => ?_, rfl⟩
      have hboth' := readBoth_eq_some.mp hboth
      exact readBoth_eq_some.mpr ⟨himp _ _ hboth'.1, himp _ _ hboth'.2⟩
  | number numeral => cases numeral <;> exact h
  | _ => exact h

namespace Heap

variable {heap heap' : Heap} {window room : Nat} {handle : Handle} {v : Value}

/-- What an object is read as does not change if the object does not, nor any of those that
it leads to, which are the `good` ones. -/
theorem picture?_congr (good : Handle → Prop)
    (hbody : ∀ handle, good handle → heap'.body? handle = heap.body? handle)
    (hchildren : ∀ handle content mutable, good handle →
      heap.body? handle = some (content, mutable) → ∀ child ∈ content.children, good child)
    (hgood : good handle) :
    heap'.picture? window room handle = heap.picture? window room handle := by
  induction room generalizing handle with
  | zero => rw [picture?_eq, picture?_eq, hbody handle hgood]; rfl
  | succ room ih =>
      rw [picture?_eq, picture?_eq, hbody handle hgood]
      cases hcontent : heap.body? handle with
      | none => rfl
      | some body =>
          exact Content.picture?_congr fun child hchild =>
            ih (hchildren handle body.1 body.2 hgood hcontent child hchild)

/-- It is only the objects that matter. -/
theorem picture?_eq_of_body? (hbody : ∀ handle, heap'.body? handle = heap.body? handle) :
    heap'.picture? window room handle = heap.picture? window room handle := by
  apply picture?_congr (fun _ => True)
  · exact fun handle _ => hbody handle
  · exact fun _ _ _ _ _ _ _ => trivial
  · trivial

@[simp] theorem picture?_setBudget (budget : Option Nat) :
    (heap.setBudget budget).picture? window room handle = heap.picture? window room handle :=
  picture?_eq_of_body? fun _ => rfl

/-- What is read is read alike with more room. -/
theorem picture?_mono {room' : Nat} (h : heap.picture? window room handle = some v)
    (hle : room ≤ room') : heap.picture? window room' handle = some v := by
  induction room generalizing room' handle v with
  | zero =>
      obtain ⟨content, mutable, hbody, hpicture⟩ := exists_of_picture? h
      rw [picture?_of_body? hbody]
      exact Content.picture?_mono hpicture fun child hchild => nomatch hchild
  | succ room ih =>
      obtain ⟨content, mutable, hbody, hpicture⟩ := exists_of_picture? h
      cases room' with
      | zero => exact absurd hle (Nat.not_succ_le_zero room)
      | succ deeper =>
          rw [picture?_of_body? hbody]
          refine Content.picture?_mono hpicture ?_
          rintro child ⟨⟩
          exact ⟨_, rfl, fun other w hother => ih hother (Nat.le_of_succ_le_succ hle)⟩

end Heap

/-! ## What has a picture -/

namespace Content

variable {window : Nat} {handle : Handle} {content : Content} {child : Handle → Option Value}
  {child? : Option (Handle → Option Value)}

/-- Of what is no container there is a picture, unless it is a number that cannot be read. -/
theorem isSome_picture?_of_not_nests (h : content.nests = false) :
    (content.picture? window handle child?).isSome ↔
      ∀ numeral, content = .number numeral → numeral.Readable := by
  cases content with
  | number numeral =>
      suffices hnumber : ((Content.number numeral).picture? window handle child?).isSome ↔
          numeral.Readable from hnumber.trans
        ⟨fun hreadable _ heq => number.inj heq ▸ hreadable, fun hall => hall numeral rfl⟩
      cases numeral with
      | unreadable layout => exact iff_of_false Bool.false_ne_true id
      | known n =>
          cases n with
          | uint64 n =>
              rw [picture?, Store.numberValue, Numeral.Readable]
              split
              · next hle => exact iff_of_true rfl hle
              · next hle => exact iff_of_false Bool.false_ne_true hle
          | _ => exact iff_of_true rfl trivial
  | array | dictionary | members => cases h
  | _ =>
      refine iff_of_true rfl fun numeral heq => ?_
      cases heq

/-- Of a container there is no picture if there is nothing to go by. -/
theorem picture?_none_of_nests (h : content.nests = true) :
    content.picture? window handle none = none := by
  cases content with
  | array | dictionary | members => rfl
  | _ => exact nomatch h

/-- Of a container there is a picture if there is one of all that it holds. -/
theorem isSome_picture?_of_nests (h : content.nests = true) :
    (content.picture? window handle (some child)).isSome ↔
      ∀ other ∈ content.children, (child other).isSome := by
  cases content with
  | array items =>
      show (Option.map Value.list (items.toList.mapM child)).isSome ↔ _
      rw [Option.isSome_map, isSome_mapM]
      rfl
  | members members =>
      show (Option.map Value.set (members.mapM child)).isSome ↔ _
      rw [Option.isSome_map, isSome_mapM]
      rfl
  | dictionary entries =>
      show (Option.map Value.dict (entries.mapM (readBoth child))).isSome ↔ _
      rw [Option.isSome_map, isSome_mapM, forall_children_dictionary]
      exact forall₂_congr fun _ _ => isSome_readBoth
  | _ => exact nomatch h

end Content

/-- Where nothing holds what is gone, the acceptable objects are those that there is a picture
of. -/
theorem Heap.acceptable_iff_picture? {heap : Heap} {window levels : Nat} {handle : Handle}
    (hclosed : heap.Closed) (hlive : heap.Live handle) :
    heap.Acceptable levels handle ↔ (heap.picture? window levels handle).isSome := by
  obtain ⟨⟨content, mutable⟩, hbody⟩ := Option.isSome_iff_exists.mp (live_iff_body?.mp hlive)
  induction levels generalizing handle content mutable with
  | zero =>
      rw [picture?_of_body? hbody]
      cases hnests : content.nests with
      | true =>
          refine iff_of_false (not_acceptable_zero hbody hnests) ?_
          rw [pictures?, Content.picture?_none_of_nests hnests]
          exact nofun
      | false =>
          rw [acceptable_of_not_nests hbody hnests, Content.isSome_picture?_of_not_nests hnests]
  | succ levels ih =>
      rw [picture?_of_body? hbody]
      cases hnests : content.nests with
      | true =>
          rw [acceptable_succ hbody hnests, pictures?, Content.isSome_picture?_of_nests hnests]
          refine forall₂_congr fun child hchild => ?_
          have hchildLive := hclosed handle content mutable hbody child hchild
          obtain ⟨⟨content', mutable'⟩, hchildBody⟩ :=
            Option.isSome_iff_exists.mp (live_iff_body?.mp hchildLive)
          exact ih hchildLive content' mutable' hchildBody
      | false =>
          rw [acceptable_of_not_nests hbody hnests, Content.isSome_picture?_of_not_nests hnests]

end Marshal
