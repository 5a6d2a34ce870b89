import Mathlib.Data.List.Induction
import Marshal.Fault
import Marshal.Heap.Answer
import Marshal.Marshaller.Scalar
import Marshal.Proofs.Outcome

/-!
# Bytes that are lent

A store lends bytes in slices, as many as it likes, and a reader sees one slice after another.
What it makes of a slice takes the place of what it had made before (`SliceReader.made`), so the
last slice alone decides, and where none is lent the reader is left with what it started with.

Texts, byte buffers and packed numbers are read by three such readers (`liftText_eq`,
`liftBytes_eq`, `liftPacked_eq`).  Two of them start with a failure, so they refuse a store that
lends nothing.  The reader of byte buffers starts with the empty buffer, and so it cannot tell
such a store from one that lends an empty slice.  That is the only case in which it does not agree
with the reader of packed bytes.
-/

namespace Marshal

variable {σ α : Type}

/-! ## Readers of slices -/

/-- A reader of slices: what it has before the first one, and what it makes of each. -/
structure SliceReader (α : Type) where
  start : Result α
  take : List UInt8 → Result α

namespace SliceReader

/-- What a reader has made of the slices when all were lent. -/
def made (reader : SliceReader α) (slices : List (List UInt8)) : Result α :=
  slices.foldl (fun _ slice => reader.take slice) reader.start

variable {reader : SliceReader α}

@[simp] theorem made_append_singleton (before : List (List UInt8)) (last : List UInt8) :
    reader.made (before ++ [last]) = reader.take last := by
  rw [made, List.foldl_append]
  rfl

theorem made_eq (slices : List (List UInt8)) :
    reader.made slices = (slices.getLast?.map reader.take).getD reader.start := by
  induction slices using List.reverseRecOn with
  | nil => rfl
  | append_singleton before last _ =>
      rw [made_append_singleton, List.getLast?_concat]
      rfl

def text : SliceReader String where
  start := .error .noTextLent
  take bytes :=
    match Utf8.decode bytes with
    | .ok text => .ok text
    | .error fault => .error (.malformedText fault)

def bytes : SliceReader (List UInt8) where
  start := .ok []
  take := .ok

def packed (layout : Layout) : SliceReader (List layout.Carrier) where
  start := .error .noDataLent
  take bytes :=
    match layout.unpack? bytes with
    | some values => .ok values
    | none => .error (.raggedData bytes.length layout.width)

end SliceReader

/-- Every byte is an element of its own. -/
theorem Layout.unpack?_uint8 (bytes : List UInt8) : uint8.unpack? bytes = some bytes := by
  have hall : ∀ bytes : List UInt8, uint8.decodeMany bytes.length bytes = bytes := by
    intro bytes
    induction bytes with
    | nil => rfl
    | cons byte bytes ih =>
        have hbyte : uint8.decode [byte] = byte := by simp [decode, ofLittleEndian]
        show uint8.decode [byte] :: uint8.decodeMany bytes.length bytes = _
        rw [hbyte, ih]
  have hwidth : bytes.length % uint8.width = 0 := Nat.mod_one _
  rw [unpack?, if_pos hwidth, show uint8.width = 1 from rfl, Nat.div_one, hall]

/-- Bytes are read as packed bytes in the same way, once there is a slice. -/
theorem SliceReader.take_packed_uint8 (slice : List UInt8) :
    (packed .uint8).take slice = bytes.take slice := by
  have hunpack := Layout.unpack?_uint8 slice
  simp only [packed, hunpack]
  rfl

/-! ## What is read of a store -/

namespace Store

variable (store : Store σ) (handle : Handle) {s s' : σ}

theorem liftText_eq : store.liftText handle = (do
    let slices : List (List UInt8) ← store.ask (.textBytes handle)
    (SliceReader.text.made slices).toAction) := by
  unfold liftText
  congr
  funext slices
  rw [SliceReader.made_eq]
  cases slices.getLast? with
  | none => rfl
  | some last =>
      show _ = (SliceReader.text.take last).toAction
      unfold SliceReader.text
      dsimp only
      cases Utf8.decode last <;> rfl

theorem liftBytes_eq : store.liftBytes handle = (do
    let slices : List (List UInt8) ← store.ask (.dataBytes handle)
    (SliceReader.bytes.made slices).toAction) := by
  unfold liftBytes
  congr
  funext slices
  rw [SliceReader.made_eq]
  cases slices.getLast? <;> rfl

theorem liftPacked_eq (layout : Layout) : store.liftPacked layout handle = (do
    let slices : List (List UInt8) ← store.ask (.dataBytes handle)
    ((SliceReader.packed layout).made slices).toAction) := by
  unfold liftPacked
  congr
  funext slices
  rw [SliceReader.made_eq]
  cases slices.getLast? with
  | none => rfl
  | some last =>
      show _ = ((SliceReader.packed layout).take last).toAction
      unfold SliceReader.packed
      dsimp only
      cases layout.unpack? last <;> rfl

section Lent

variable {store handle} {slices : List (List UInt8)}

theorem liftText_of_ok (h : store.answer (.textBytes handle) s = .ok slices s') :
    store.liftText handle s = (SliceReader.text.made slices).toAction s' := by
  rw [liftText_eq, bind_of_ok (ask_of_ok h)]

theorem liftBytes_of_ok (h : store.answer (.dataBytes handle) s = .ok slices s') :
    store.liftBytes handle s = (SliceReader.bytes.made slices).toAction s' := by
  rw [liftBytes_eq, bind_of_ok (ask_of_ok h)]

theorem liftPacked_of_ok {layout : Layout}
    (h : store.answer (.dataBytes handle) s = .ok slices s') :
    store.liftPacked layout handle s = ((SliceReader.packed layout).made slices).toAction s' := by
  rw [liftPacked_eq, bind_of_ok (ask_of_ok h)]

/-- Bytes and packed bytes are read in the same way, unless nothing is lent. -/
theorem liftPacked_uint8_eq_iff (store : Store σ) (handle : Handle) (s : σ) :
    store.liftPacked .uint8 handle s = store.liftBytes handle s ↔
      ∀ s', store.answer (.dataBytes handle) s ≠ .ok [] s' := by
  cases hanswer : store.answer (.dataBytes handle) s with
  | error refusal s' =>
      have hask := ask_of_error hanswer
      rw [liftPacked_eq, liftBytes_eq, bind_of_error hask, bind_of_error hask]
      exact iff_of_true rfl fun _ => nofun
  | ok slices s' =>
      rw [liftPacked_of_ok hanswer, liftBytes_of_ok hanswer]
      cases slices using List.reverseRecOn with
      | nil => exact iff_of_false nofun fun h => h s' rfl
      | append_singleton before last _ =>
          rw [SliceReader.made_append_singleton, SliceReader.made_append_singleton,
            SliceReader.take_packed_uint8]
          refine iff_of_true rfl fun t heq => ?_
          obtain ⟨hslices, -⟩ := EStateM.Result.ok.inj heq
          exact List.append_ne_nil_of_right_ne_nil before (List.cons_ne_nil last []) hslices

end Lent

/-- Whatever a store lends before it, the last slice decides what is read.  Where nothing is
lent, texts and packed numbers are refused as a failure of the store, and a byte buffer is read
as empty.  But for that case, bytes are read in the same way whether as such or packed. -/
theorem last_slice_decides (store : Store σ) (handle : Handle) (s : σ) :
    (∀ before last s', store.answer (.textBytes handle) s = .ok (before ++ [last]) s' →
      store.liftText handle s = (SliceReader.text.take last).toAction s') ∧
    (∀ s', store.answer (.textBytes handle) s = .ok [] s' →
      ∃ failure, store.liftText handle s = .error failure s' ∧ failure.kind = .runtime) ∧
    (∀ before last s', store.answer (.dataBytes handle) s = .ok (before ++ [last]) s' →
      store.liftBytes handle s = .ok last s' ∧ ∀ layout,
      store.liftPacked layout handle s = ((SliceReader.packed layout).take last).toAction s') ∧
    (∀ s', store.answer (.dataBytes handle) s = .ok [] s' →
      store.liftBytes handle s = .ok [] s' ∧ ∀ layout, ∃ failure,
      store.liftPacked layout handle s = .error failure s' ∧ failure.kind = .runtime) ∧
    (store.liftPacked .uint8 handle s = store.liftBytes handle s ↔
      ∀ s', store.answer (.dataBytes handle) s ≠ .ok [] s') := by
  refine ⟨fun before last s' h => ?_, fun s' h => ?_, fun before last s' h => ?_, fun s' h => ?_,
    liftPacked_uint8_eq_iff store handle s⟩
  · rw [liftText_of_ok h, SliceReader.made_append_singleton]
  · exact ⟨.noTextLent, liftText_of_ok h, rfl⟩
  · refine ⟨?_, fun layout => ?_⟩
    · rw [liftBytes_of_ok h, SliceReader.made_append_singleton]
      rfl
    · rw [liftPacked_of_ok h, SliceReader.made_append_singleton]
  · exact ⟨liftBytes_of_ok h, fun layout => ⟨.noDataLent, liftPacked_of_ok h, rfl⟩⟩

/-- A heap with a text and a data buffer. -/
def lender : Heap where
  slots := #[some { content := .text "a" }, some { content := .data [1] }]

/-- The same heap behind a store that lends two slices of its own, of which the first is malformed
as a text and ragged as a buffer of short words, and behind one that lends nothing. -/
theorem last_slice_decides_of_lender :
    let slices : List (List UInt8) := [[0xff], [0x62, 0x63]]
    let twice := Faults.applyTo { textSlices := some slices, dataSlices := some slices } Heap.store
    let never := Faults.applyTo { textSlices := some [], dataSlices := some [] } Heap.store
    (twice.answer (.textBytes (.object 0)) lender = .ok ([[0xff]] ++ [[0x62, 0x63]]) lender ∧
      twice.liftText (.object 0) lender = .ok "bc" lender) ∧
    (twice.answer (.dataBytes (.object 1)) lender = .ok ([[0xff]] ++ [[0x62, 0x63]]) lender ∧
      twice.liftBytes (.object 1) lender = .ok [0x62, 0x63] lender ∧
      twice.liftPacked .uint16 (.object 1) lender = .ok [0x6362] lender) ∧
    (never.answer (.textBytes (.object 0)) lender = .ok [] lender ∧
      ∃ failure, never.liftText (.object 0) lender = .error failure lender ∧
        failure.kind = .runtime) ∧
    never.answer (.dataBytes (.object 1)) lender = .ok [] lender ∧
      never.liftBytes (.object 1) lender = .ok [] lender ∧
      ∃ failure, never.liftPacked .uint8 (.object 1) lender = .error failure lender ∧
        failure.kind = .runtime := by
  intro slices twice never
  have htext : twice.answer (.textBytes (.object 0)) lender =
      .ok ([[0xff]] ++ [[0x62, 0x63]]) lender := rfl
  have hdata : twice.answer (.dataBytes (.object 1)) lender =
      .ok ([[0xff]] ++ [[0x62, 0x63]]) lender := rfl
  have hnoText : never.answer (.textBytes (.object 0)) lender = .ok [] lender := rfl
  have hnoData : never.answer (.dataBytes (.object 1)) lender = .ok [] lender := rfl
  obtain ⟨hlastText, -⟩ := last_slice_decides twice (.object 0) lender
  obtain ⟨-, -, hlastData, -⟩ := last_slice_decides twice (.object 1) lender
  obtain ⟨-, hrefuse, -⟩ := last_slice_decides never (.object 0) lender
  obtain ⟨-, -, -, hempty, -⟩ := last_slice_decides never (.object 1) lender
  obtain ⟨hbytes, hpacked⟩ := hlastData _ _ _ hdata
  obtain ⟨hnone, hrefused⟩ := hempty _ hnoData
  exact ⟨⟨htext, (hlastText _ _ _ htext).trans rfl⟩,
    ⟨hdata, hbytes, (hpacked .uint16).trans rfl⟩, ⟨hnoText, hrefuse _ hnoText⟩,
    hnoData, hnone, hrefused .uint8⟩

/-- It is not so that every reader refuses a store that lends nothing. -/
theorem reads_nothing_as_empty :
    ¬ ∀ (store : Store Heap) handle heap heap',
      store.answer (.dataBytes handle) heap = .ok [] heap' →
        ∃ failure, store.liftBytes handle heap = .error failure heap' ∧
          failure.kind = .runtime := by
  intro h
  let never := Faults.applyTo { dataSlices := some [] } Heap.store
  obtain ⟨failure, hfails, -⟩ := h never (.object 1) lender lender rfl
  have hempty : never.liftBytes (.object 1) lender = .ok [] lender := rfl
  rw [hempty] at hfails
  exact nomatch hfails

end Store

end Marshal
