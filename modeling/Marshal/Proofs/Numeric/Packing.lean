import Marshal.Numeric.Packing
import Mathlib.Algebra.Order.Group.Nat
import Mathlib.Algebra.Order.Ring.Nat
import Mathlib.Tactic.Ring

/-!
# Packing is undone by unpacking

`Codes` says of two functions that what one of them encodes in a fixed number of bytes the
other decodes, in both directions.  The bytes of a word do so (`codes_word`), and from them the
bytes of an element of any layout (`Layout.codes`).

Nothing depends on the order of the bytes of a number.  `Layout.encodeIn` and `Layout.decodeIn`
take either order, and with the lowest byte first they are `Layout.encode` and `Layout.decode`.
A buffer of packed elements unpacks to them (`unpackIn?_packIn`), and a buffer that is a whole
number of elements long is what its elements pack to (`exists_unpackIn?`).
-/

namespace Marshal

/-! ## Words -/

theorem length_toLittleEndian (width n : ℕ) : (toLittleEndian width n).length = width := by
  induction width generalizing n with
  | zero => rfl
  | succ width ih => rw [toLittleEndian, List.length_cons, ih]

theorem ofLittleEndian_toLittleEndian {width n : ℕ} (h : n < 256 ^ width) :
    ofLittleEndian (toLittleEndian width n) = n := by
  induction width generalizing n with
  | zero =>
      rw [pow_zero, Nat.lt_one_iff] at h
      rw [h]
      rfl
  | succ width ih =>
      have hrest : n / 256 < 256 ^ width := by
        rw [pow_succ'] at h
        exact Nat.div_lt_of_lt_mul h
      rw [toLittleEndian, ofLittleEndian, ih hrest,
        UInt8.toNat_ofNat_of_lt' (Nat.mod_lt n (by decide)), Nat.mod_add_div]

theorem ofLittleEndian_lt (bytes : List UInt8) : ofLittleEndian bytes < 256 ^ bytes.length := by
  induction bytes with
  | nil => decide
  | cons b bytes ih =>
      have hlt := b.toNat_lt
      rw [ofLittleEndian, List.length_cons, pow_succ']
      omega

theorem toLittleEndian_ofLittleEndian (bytes : List UInt8) :
    toLittleEndian bytes.length (ofLittleEndian bytes) = bytes := by
  induction bytes with
  | nil => rfl
  | cons b bytes ih =>
      have hlt := b.toNat_lt
      have hlow : (b.toNat + 256 * ofLittleEndian bytes) % 256 = b.toNat := by omega
      have hrest : (b.toNat + 256 * ofLittleEndian bytes) / 256 = ofLittleEndian bytes := by omega
      rw [List.length_cons, ofLittleEndian, toLittleEndian, hlow, hrest, ih, UInt8.ofNat_toNat]

/-! ## Encodings -/

/-- The two functions are inverse to each other, between all values and all lists of so many
bytes. -/
structure Codes {α : Type} (width : ℕ) (encode : α → List UInt8) (decode : List UInt8 → α) :
    Prop where
  length : ∀ a, (encode a).length = width
  decode_encode : ∀ a, decode (encode a) = a
  encode_decode : ∀ bytes, bytes.length = width → encode (decode bytes) = bytes

section Codes

variable {α : Type} {width : ℕ} {encode : α → List UInt8} {decode : List UInt8 → α}

/-- Words of so many bytes are encoded by the bytes of their numbers. -/
theorem codes_word (toNat : α → ℕ) (ofNat : ℕ → α) (hlt : ∀ a, toNat a < 256 ^ width)
    (hof : ∀ a, ofNat (toNat a) = a) (hto : ∀ n < 256 ^ width, toNat (ofNat n) = n) :
    Codes width (fun a => toLittleEndian width (toNat a))
      fun bytes => ofNat (ofLittleEndian bytes) where
  length a := length_toLittleEndian width (toNat a)
  decode_encode a := by rw [ofLittleEndian_toLittleEndian (hlt a), hof]
  encode_decode := by
    rintro bytes rfl
    rw [hto _ (ofLittleEndian_lt bytes), toLittleEndian_ofLittleEndian]

/-- What is told by its word is encoded as the word is. -/
theorem Codes.through {β : Type} (h : Codes width encode decode) (word : β → α) (ofWord : α → β)
    (hof : ∀ b, ofWord (word b) = b) (hword : ∀ a, word (ofWord a) = a) :
    Codes width (fun b => encode (word b)) fun bytes => ofWord (decode bytes) where
  length b := h.length (word b)
  decode_encode b := by rw [h.decode_encode, hof]
  encode_decode bytes hlength := by rw [hword, h.encode_decode bytes hlength]

/-- A complex number is encoded part by part. -/
theorem Codes.parts (h : Codes width encode decode) :
    Codes (width + width) (fun z : Cartesian α => encode z.re ++ encode z.im)
      fun bytes => ⟨decode (bytes.take width), decode (bytes.drop width)⟩ where
  length z := by rw [List.length_append, h.length, h.length]
  decode_encode z := by
    rw [List.take_left' (h.length z.re), List.drop_left' (h.length z.re), h.decode_encode,
      h.decode_encode]
  encode_decode bytes hlength := by
    have htake : (bytes.take width).length = width := by rw [List.length_take]; omega
    have hdrop : (bytes.drop width).length = width := by rw [List.length_drop]; omega
    rw [h.encode_decode _ htake, h.encode_decode _ hdrop, List.take_append_drop]

end Codes

/-! ## Byte orders -/

/-- Which byte of a number is the first one. -/
inductive ByteOrder where
  | lowestFirst
  | highestFirst
deriving DecidableEq

namespace ByteOrder

/-- Puts bytes that are given lowest first into the order, and back. -/
def arrange : ByteOrder → List UInt8 → List UInt8
  | lowestFirst, bytes => bytes
  | highestFirst, bytes => bytes.reverse

theorem length_arrange (order : ByteOrder) (bytes : List UInt8) :
    (order.arrange bytes).length = bytes.length := by
  cases order
  · rfl
  · exact List.length_reverse

theorem arrange_arrange (order : ByteOrder) (bytes : List UInt8) :
    order.arrange (order.arrange bytes) = bytes := by
  cases order
  · rfl
  · exact List.reverse_reverse bytes

end ByteOrder

/-- A value is encoded as well by its bytes in either order. -/
theorem Codes.arranged {α : Type} {width : ℕ} {encode : α → List UInt8}
    {decode : List UInt8 → α} (h : Codes width encode decode) (order : ByteOrder) :
    Codes width (fun a => order.arrange (encode a)) fun bytes => decode (order.arrange bytes) where
  length a := by rw [order.length_arrange, h.length]
  decode_encode a := by rw [order.arrange_arrange, h.decode_encode]
  encode_decode bytes hlength := by
    rw [h.encode_decode _ ((order.length_arrange bytes).trans hlength), order.arrange_arrange]

/-! ## Elements -/

namespace Layout

theorem width_pos (layout : Layout) : 0 < layout.width := by cases layout <;> decide

theorem codes_uint8 : Codes 1 uint8.encode uint8.decode :=
  codes_word UInt8.toNat UInt8.ofNat UInt8.toNat_lt (fun _ => UInt8.ofNat_toNat) fun _ hlt =>
    UInt8.toNat_ofNat_of_lt' hlt

theorem codes_uint16 : Codes 2 uint16.encode uint16.decode :=
  codes_word UInt16.toNat UInt16.ofNat UInt16.toNat_lt (fun _ => UInt16.ofNat_toNat) fun _ hlt =>
    UInt16.toNat_ofNat_of_lt' hlt

theorem codes_uint32 : Codes 4 uint32.encode uint32.decode :=
  codes_word UInt32.toNat UInt32.ofNat UInt32.toNat_lt (fun _ => UInt32.ofNat_toNat) fun _ hlt =>
    UInt32.toNat_ofNat_of_lt' hlt

theorem codes_uint64 : Codes 8 uint64.encode uint64.decode :=
  codes_word UInt64.toNat UInt64.ofNat UInt64.toNat_lt (fun _ => UInt64.ofNat_toNat) fun _ hlt =>
    UInt64.toNat_ofNat_of_lt' hlt

/-- A floating-point number is encoded as the word that holds its bits. -/
theorem codes_binary (p : Precision) {width : Nat} {encode : p.Word → List UInt8}
    {decode : List UInt8 → p.Word} (h : Codes width encode decode) :
    Codes width (fun x : Binary p => encode x.bits) fun bytes => ⟨decode bytes⟩ :=
  h.through Binary.bits Binary.mk (fun _ => rfl) fun _ => rfl

theorem codes_float32 : Codes 4 float32.encode float32.decode :=
  codes_binary .single codes_uint32

theorem codes_float64 : Codes 8 float64.encode float64.decode :=
  codes_binary .double codes_uint64

/-- The bytes of an element tell the element, and any bytes are those of an element. -/
theorem codes (layout : Layout) : Codes layout.width layout.encode layout.decode := by
  cases layout with
  | sint8 =>
      exact codes_uint8.through Int8.toUInt8 UInt8.toInt8 Int8.toInt8_toUInt8 UInt8.toUInt8_toInt8
  | sint16 =>
      exact codes_uint16.through Int16.toUInt16 UInt16.toInt16 Int16.toInt16_toUInt16
        UInt16.toUInt16_toInt16
  | sint32 =>
      exact codes_uint32.through Int32.toUInt32 UInt32.toInt32 Int32.toInt32_toUInt32
        UInt32.toUInt32_toInt32
  | sint64 =>
      exact codes_uint64.through Int64.toUInt64 UInt64.toInt64 Int64.toInt64_toUInt64
        UInt64.toUInt64_toInt64
  | uint8 => exact codes_uint8
  | uint16 => exact codes_uint16
  | uint32 => exact codes_uint32
  | uint64 => exact codes_uint64
  | float32 => exact codes_float32
  | float64 => exact codes_float64
  | complex64 => exact codes_float32.parts
  | complex128 => exact codes_float64.parts

/-- The bytes of an element, those of each number in it in some order. -/
def encodeIn (order : ByteOrder) : (layout : Layout) → layout.Carrier → List UInt8
  | complex64, z => order.arrange (float32.encode z.re) ++ order.arrange (float32.encode z.im)
  | complex128, z => order.arrange (float64.encode z.re) ++ order.arrange (float64.encode z.im)
  | layout, v => order.arrange (layout.encode v)

/-- The element that has the bytes in some order. -/
def decodeIn (order : ByteOrder) : (layout : Layout) → List UInt8 → layout.Carrier
  | complex64, bytes =>
    ⟨float32.decode (order.arrange (bytes.take 4)), float32.decode (order.arrange (bytes.drop 4))⟩
  | complex128, bytes =>
    ⟨float64.decode (order.arrange (bytes.take 8)), float64.decode (order.arrange (bytes.drop 8))⟩
  | layout, bytes => layout.decode (order.arrange bytes)

theorem codesIn (order : ByteOrder) (layout : Layout) :
    Codes layout.width (layout.encodeIn order) (layout.decodeIn order) := by
  cases layout with
  | complex64 => exact (codes_float32.arranged order).parts
  | complex128 => exact (codes_float64.arranged order).parts
  | _ => exact (codes _).arranged order

theorem encodeIn_lowestFirst (layout : Layout) (v : layout.Carrier) :
    layout.encodeIn .lowestFirst v = layout.encode v := by
  cases layout <;> rfl

theorem decodeIn_lowestFirst (layout : Layout) (bytes : List UInt8) :
    layout.decodeIn .lowestFirst bytes = layout.decode bytes := by
  cases layout <;> rfl

/-! ## Buffers -/

/-- The buffer that holds the elements, their bytes in some order. -/
def packIn (order : ByteOrder) (layout : Layout) (values : List layout.Carrier) : List UInt8 :=
  values.flatMap (layout.encodeIn order)

/-- The first `count` elements of a buffer, their bytes in some order. -/
def decodeManyIn (order : ByteOrder) (layout : Layout) :
    (count : ℕ) → List UInt8 → List layout.Carrier
  | 0, _ => []
  | count + 1, bytes =>
    layout.decodeIn order (bytes.take layout.width) ::
      decodeManyIn order layout count (bytes.drop layout.width)

/-- The elements of a buffer, if it is a whole number of them long. -/
def unpackIn? (order : ByteOrder) (layout : Layout) (bytes : List UInt8) :
    Option (List layout.Carrier) :=
  if layout.width ∣ bytes.length then
    some (layout.decodeManyIn order (bytes.length / layout.width) bytes)
  else none

section Buffers

variable {order : ByteOrder} {layout : Layout} {values : List layout.Carrier} {bytes : List UInt8}

theorem packIn_cons (v : layout.Carrier) (values : List layout.Carrier) :
    layout.packIn order (v :: values) = layout.encodeIn order v ++ layout.packIn order values :=
  List.flatMap_cons

theorem length_packIn (values : List layout.Carrier) :
    (layout.packIn order values).length = values.length * layout.width := by
  induction values with
  | nil => exact (Nat.zero_mul _).symm
  | cons v values ih =>
      rw [packIn_cons, List.length_append, (layout.codesIn order).length, ih, List.length_cons]
      ring

/-- Each element of a buffer has its place. -/
theorem slice_packIn {i : ℕ} (h : i < values.length) :
    ((layout.packIn order values).drop (i * layout.width)).take layout.width =
      layout.encodeIn order values[i] := by
  induction values generalizing i with
  | nil => exact absurd h (Nat.not_lt_zero i)
  | cons v values ih =>
      have hlength := (layout.codesIn order).length v
      rw [packIn_cons]
      cases i with
      | zero =>
          rw [Nat.zero_mul, List.drop_zero, List.take_left' hlength]
          rfl
      | succ i =>
          rw [Nat.succ_mul, Nat.add_comm, ← List.drop_drop, List.drop_left' hlength,
            ih (Nat.lt_of_succ_lt_succ h)]
          rfl

theorem decodeManyIn_packIn (values : List layout.Carrier) :
    layout.decodeManyIn order values.length (layout.packIn order values) = values := by
  induction values with
  | nil => rfl
  | cons v values ih =>
      have hlength := (layout.codesIn order).length v
      rw [packIn_cons, List.length_cons, decodeManyIn, List.take_left' hlength,
        List.drop_left' hlength, ih, (layout.codesIn order).decode_encode]

theorem packIn_decodeManyIn {count : ℕ} (h : bytes.length = count * layout.width) :
    layout.packIn order (layout.decodeManyIn order count bytes) = bytes := by
  induction count generalizing bytes with
  | zero => exact (List.eq_nil_of_length_eq_zero (h.trans (Nat.zero_mul _))).symm
  | succ count ih =>
      rw [Nat.succ_mul] at h
      have htake : (bytes.take layout.width).length = layout.width := by
        rw [List.length_take]
        omega
      have hdrop : (bytes.drop layout.width).length = count * layout.width := by
        rw [List.length_drop]
        omega
      rw [decodeManyIn, packIn_cons, (layout.codesIn order).encode_decode _ htake, ih hdrop,
        List.take_append_drop]

theorem unpackIn?_packIn (values : List layout.Carrier) :
    layout.unpackIn? order (layout.packIn order values) = some values := by
  have hlength : (layout.packIn order values).length = values.length * layout.width :=
    length_packIn values
  rw [unpackIn?, if_pos (hlength ▸ Nat.dvd_mul_left ..), hlength,
    Nat.mul_div_cancel _ layout.width_pos, decodeManyIn_packIn]

/-- A buffer of the right length is what its elements pack to. -/
theorem exists_unpackIn? (h : layout.width ∣ bytes.length) :
    ∃ values, layout.unpackIn? order bytes = some values ∧ layout.packIn order values = bytes :=
  ⟨_, if_pos h, packIn_decodeManyIn (Nat.div_mul_cancel h).symm⟩

end Buffers

/-! ## The lowest byte first -/

theorem packIn_lowestFirst (layout : Layout) (values : List layout.Carrier) :
    layout.packIn .lowestFirst values = layout.pack values := by
  rw [packIn, pack, funext (layout.encodeIn_lowestFirst)]

theorem decodeManyIn_lowestFirst (layout : Layout) (count : ℕ) (bytes : List UInt8) :
    layout.decodeManyIn .lowestFirst count bytes = layout.decodeMany count bytes := by
  induction count generalizing bytes with
  | zero => rfl
  | succ count ih => rw [decodeManyIn, decodeMany, decodeIn_lowestFirst, ih]

theorem unpackIn?_lowestFirst (layout : Layout) (bytes : List UInt8) :
    layout.unpackIn? .lowestFirst bytes = layout.unpack? bytes := by
  rw [unpackIn?, unpack?, decodeManyIn_lowestFirst]
  exact if_congr Nat.dvd_iff_mod_eq_zero rfl rfl

end Layout

end Marshal
