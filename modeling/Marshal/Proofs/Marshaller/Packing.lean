import Marshal.Proofs.Heap.Operations
import Marshal.Proofs.Numeric.Packing
import Marshal.Marshaller.Scalar

/-!
# Packed numbers in a buffer

Packed numbers are lowered to a data buffer and lifted from one.  On the heap the two undo each
other, whichever byte of a number comes first (`Heap.packed_inverse`): what was lowered is
lifted again, and a buffer whose length is right is what the numbers lifted from it pack to.
A buffer whose length is not right is refused, and lifting never changes the heap.
-/

namespace Marshal

/-! ## Byte orders -/

namespace Store

variable {σ : Type} (store : Store σ)

/-- Lowers numbers of one layout to a data buffer, their bytes in some order. -/
def lowerPackedIn (order : ByteOrder) (layout : Layout) (values : List layout.Carrier)
    (mutable : Bool) : Action σ Handle :=
  store.lowerBytes (layout.packIn order values) mutable

/-- Reads a data buffer as numbers of one layout, their bytes in some order. -/
def liftPackedIn (order : ByteOrder) (layout : Layout) (handle : Handle) :
    Action σ (List layout.Carrier) := do
  let slices : List (List UInt8) ← store.ask (.dataBytes handle)
  match slices.getLast? with
  | none => throw .noDataLent
  | some bytes =>
    match layout.unpackIn? order bytes with
    | some values => pure values
    | none => throw (.raggedData bytes.length layout.width)

theorem lowerPackedIn_lowestFirst (layout : Layout) :
    store.lowerPackedIn .lowestFirst layout = store.lowerPacked layout := by
  funext values mutable
  rw [lowerPackedIn, lowerPacked, layout.packIn_lowestFirst]

theorem liftPackedIn_lowestFirst (layout : Layout) :
    store.liftPackedIn .lowestFirst layout = store.liftPacked layout := by
  funext handle
  have hunpack : layout.unpackIn? .lowestFirst = layout.unpack? :=
    funext layout.unpackIn?_lowestFirst
  unfold liftPackedIn liftPacked
  generalize layout.unpackIn? .lowestFirst = unpack? at hunpack
  subst hunpack
  rfl

end Store

/-! ## Buffers on the heap -/

namespace Heap

variable {heap : Heap} {order : ByteOrder} {layout : Layout} {handle : Handle}
  {bytes : List UInt8} {values : List layout.Carrier}

theorem lowerPackedIn_eq_ok (mutable : Bool) (h : heap.budget ≠ some 0) :
    store.lowerPackedIn order layout values mutable heap =
      .ok (.object heap.slots.size)
        (heap.pushed { content := .data (layout.packIn order values), mutable }) := by
  have hanswer : store.answer (.createData (layout.packIn order values) mutable) heap = _ :=
    (allocate_eq heap _).trans (if_neg h)
  rw [Store.lowerPackedIn, Store.lowerBytes, Store.ask, hanswer]

theorem ask_dataBytes (h : heap.dataOf handle = .ok bytes) :
    store.ask (.dataBytes handle) heap = .ok [bytes] heap := by
  have hanswer : store.answer (.dataBytes handle) heap = .ok [bytes] heap := by
    show reading (fun heap => (fun bytes => [bytes]) <$> heap.dataOf handle) heap = _
    rw [reading, h]
    rfl
  exact ask_of_ok hanswer

theorem liftPackedIn_eq_ok (h : heap.dataOf handle = .ok bytes)
    (hvalues : layout.unpackIn? order bytes = some values) :
    store.liftPackedIn order layout handle heap = .ok values heap := by
  rw [Store.liftPackedIn, bind_of_ok (ask_dataBytes h)]
  simp only [List.getLast?_singleton, hvalues]
  rfl

theorem liftPackedIn_eq_error (h : heap.dataOf handle = .ok bytes)
    (hragged : ¬ layout.width ∣ bytes.length) :
    store.liftPackedIn order layout handle heap =
      .error (.raggedData bytes.length layout.width) heap := by
  have hnone : layout.unpackIn? order bytes = none := if_neg hragged
  rw [Store.liftPackedIn, bind_of_ok (ask_dataBytes h)]
  simp only [List.getLast?_singleton, hnone]
  rfl

/-- Packing and unpacking are inverse: numbers that were lowered are lifted again, each from its
own place in the buffer, and a buffer is read if and only if it is a whole number of elements
long.  With the lowest byte first this is `Store.lowerPacked` and `Store.liftPacked`. -/
theorem packed_inverse (heap : Heap) (order : ByteOrder) (layout : Layout) :
    (∀ values mutable, heap.budget ≠ some 0 → ∃ handle heap',
      store.lowerPackedIn order layout values mutable heap = .ok handle heap' ∧
      heap'.get? handle = some { content := .data (layout.packIn order values), mutable } ∧
      store.liftPackedIn order layout handle heap' = .ok values heap') ∧
    (∀ values, (layout.packIn order values).length = values.length * layout.width ∧
      ∀ i (h : i < values.length),
        ((layout.packIn order values).drop (i * layout.width)).take layout.width =
          layout.encodeIn order values[i]) ∧
    (∀ z, Layout.complex64.encodeIn order z =
      Layout.float32.encodeIn order z.re ++ Layout.float32.encodeIn order z.im) ∧
    (∀ z, Layout.complex128.encodeIn order z =
      Layout.float64.encodeIn order z.re ++ Layout.float64.encodeIn order z.im) ∧
    (∀ handle bytes, heap.dataOf handle = .ok bytes →
      (layout.width ∣ bytes.length → ∃ values,
        store.liftPackedIn order layout handle heap = .ok values heap ∧
        layout.packIn order values = bytes) ∧
      (¬ layout.width ∣ bytes.length → ∃ failure,
        store.liftPackedIn order layout handle heap = .error failure heap ∧
        failure.kind = .runtime)) ∧
    store.lowerPackedIn .lowestFirst layout = store.lowerPacked layout ∧
    store.liftPackedIn .lowestFirst layout = store.liftPacked layout := by
  refine ⟨?_, fun values => ⟨Layout.length_packIn values, fun _ => Layout.slice_packIn⟩,
    fun _ => rfl, fun _ => rfl, ?_, store.lowerPackedIn_lowestFirst layout,
    store.liftPackedIn_lowestFirst layout⟩
  · intro values mutable hbudget
    have hstored : (heap.pushed { content := .data (layout.packIn order values), mutable }).get?
        (.object heap.slots.size) =
          some { content := .data (layout.packIn order values), mutable } := get?_pushed_new
    have hbytes := dataOf_eq_ok.mpr ⟨mutable, body?_of_get? hstored⟩
    exact ⟨_, _, lowerPackedIn_eq_ok mutable hbudget, hstored,
      liftPackedIn_eq_ok hbytes (Layout.unpackIn?_packIn values)⟩
  · intro handle bytes hbytes
    constructor
    · intro hdvd
      obtain ⟨values, hvalues, hpack⟩ := Layout.exists_unpackIn? hdvd
      exact ⟨values, liftPackedIn_eq_ok hbytes hvalues, hpack⟩
    · intro hragged
      exact ⟨_, liftPackedIn_eq_error hbytes hragged, rfl⟩

/-- Six bytes are three short words, and no whole number of long ones. -/
theorem packed_inverse_six_bytes : ∃ heap : Heap, heap.budget ≠ some 0 ∧
    heap.dataOf (.object 0) = .ok [1, 2, 3, 4, 5, 6] ∧
    (∃ handle heap',
      store.lowerPackedIn .highestFirst .uint16 [0x0102, 0x0304] true heap = .ok handle heap' ∧
      store.liftPackedIn .highestFirst .uint16 handle heap' = .ok [0x0102, 0x0304] heap') ∧
    ((Layout.uint16.packIn .highestFirst [0x0102, 0x0304]).drop (1 * 2)).take 2 = [3, 4] ∧
    (∃ values, store.liftPackedIn .highestFirst .uint16 (.object 0) heap = .ok values heap ∧
      Layout.uint16.packIn .highestFirst values = [1, 2, 3, 4, 5, 6]) ∧
    ∃ failure, store.liftPackedIn .highestFirst .uint32 (.object 0) heap = .error failure heap ∧
      failure.kind = .runtime := by
  have hbudget : (({} : Heap).pushed { content := .data [1, 2, 3, 4, 5, 6] }).budget ≠ some 0 :=
    fun hspent => nomatch hspent
  have hbytes : (({} : Heap).pushed { content := .data [1, 2, 3, 4, 5, 6] }).dataOf (.object 0) =
      .ok [1, 2, 3, 4, 5, 6] := rfl
  obtain ⟨hback, hplaces, -, -, hread, -, -⟩ := packed_inverse _ .highestFirst .uint16
  obtain ⟨handle, heap', hlower, -, hlift⟩ := hback [0x0102, 0x0304] true hbudget
  obtain ⟨-, -, -, -, hrefuse, -, -⟩ := packed_inverse _ .highestFirst .uint32
  exact ⟨_, hbudget, hbytes, ⟨handle, heap', hlower, hlift⟩,
    ((hplaces [0x0102, 0x0304]).2 1 (by decide)).trans (by decide),
    (hread _ _ hbytes).1 (by decide), (hrefuse _ _ hbytes).2 (by decide)⟩

end Heap

end Marshal
