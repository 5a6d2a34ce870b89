import Marshal.Heap.Object
import Marshal.Marshaller.Scalar
import Marshal.Proofs.Numeric.Widening
import Marshal.Proofs.Value.Normal

/-!
# Stored scalars as values

A stored text, boolean, buffer or number is read as one value (`Content.value?`), and
numbers are read in the widest layout of their sort.  Two stored scalars that count as one
(`Content.same`) are read as equal values.

The converse has one exception, which `Content.mixed` names: a complex number of single and
one of double precision never count as one, though they are read as equal values if the
first one, widened, equals the second one (`beq_value`).
-/

namespace Marshal

namespace Number

variable {a b : Number} {v w : Value}

/-- Whether the numbers are complex, of different precision, and of one value. -/
def mixed : Number → Number → Bool
  | complex64 z, complex128 w => z.map Binary.widen == w
  | complex128 z, complex64 w => z == w.map Binary.widen
  | _, _ => false

/-- The four layouts that are not of integers. -/
theorem inexact_cases (h : a.integer? = none) :
    (∃ x, a = float32 x) ∨ (∃ x, a = float64 x) ∨ (∃ z, a = complex64 z) ∨
      ∃ z, a = complex128 z := by
  cases a with
  | float32 x => exact .inl ⟨x, rfl⟩
  | float64 x => exact .inr (.inl ⟨x, rfl⟩)
  | complex64 z => exact .inr (.inr (.inl ⟨z, rfl⟩))
  | complex128 z => exact .inr (.inr (.inr ⟨z, rfl⟩))
  | _ => exact nomatch h

theorem not_mixed_of_integer {i : Int} (h : a.integer? = some i) :
    a.mixed b = false ∧ b.mixed a = false := by
  cases a with
  | float32 | float64 | complex64 | complex128 => exact nomatch h
  | _ => cases b <;> exact ⟨rfl, rfl⟩

/-- Small unsigned integers fit into signed ones. -/
theorem toInt_toInt64_of_lt {n : UInt64} (h : n.toNat < 2 ^ 63) :
    n.toInt64.toInt = n.toNat := by
  rw [Int64.toInt, UInt64.toBitVec_toInt64, BitVec.toInt_eq_toNat_bmod, UInt64.toNat_toBitVec]
  apply Int.bmod_eq_of_le <;> omega

/-- An integer is read as the integer that it is. -/
theorem numberValue_of_integer {i : Int} (h : a.integer? = some i)
    (hv : Store.numberValue a = .ok v) : ∃ n : Int64, v = .int n ∧ n.toInt = i := by
  cases a with
  | float32 | float64 | complex64 | complex128 => exact nomatch h
  | sint8 n =>
      obtain rfl := Option.some.inj h
      exact ⟨_, (Except.ok.inj hv).symm, Int8.toInt_toInt64 n⟩
  | sint16 n =>
      obtain rfl := Option.some.inj h
      exact ⟨_, (Except.ok.inj hv).symm, Int16.toInt_toInt64 n⟩
  | sint32 n =>
      obtain rfl := Option.some.inj h
      exact ⟨_, (Except.ok.inj hv).symm, Int32.toInt_toInt64 n⟩
  | sint64 n =>
      obtain rfl := Option.some.inj h
      exact ⟨_, (Except.ok.inj hv).symm, rfl⟩
  | uint8 n =>
      obtain rfl := Option.some.inj h
      have hlt := n.toNat_lt
      refine ⟨_, (Except.ok.inj hv).symm, ?_⟩
      rw [toInt_toInt64_of_lt] <;> rw [UInt8.toNat_toUInt64]
      omega
  | uint16 n =>
      obtain rfl := Option.some.inj h
      have hlt := n.toNat_lt
      refine ⟨_, (Except.ok.inj hv).symm, ?_⟩
      rw [toInt_toInt64_of_lt] <;> rw [UInt16.toNat_toUInt64]
      omega
  | uint32 n =>
      obtain rfl := Option.some.inj h
      have hlt := n.toNat_lt
      refine ⟨_, (Except.ok.inj hv).symm, ?_⟩
      rw [toInt_toInt64_of_lt] <;> rw [UInt32.toNat_toUInt64]
      omega
  | uint64 n =>
      -- only here a number can be too large to be read
      obtain rfl := Option.some.inj h
      unfold Store.numberValue at hv
      dsimp only at hv
      split at hv
      · next hle =>
        have hmax : Int64.maxValue.toInt = 2 ^ 63 - 1 := by decide
        exact ⟨_, (Except.ok.inj hv).symm, toInt_toInt64_of_lt (by omega)⟩
      · exact nomatch hv

/-- Numbers are read as equal values if they count as one, or if they are equal complex
numbers of different precision. -/
theorem beq_numberValue (hv : Store.numberValue a = .ok v) (hw : Store.numberValue b = .ok w) :
    (v == w) = (a.same b || a.mixed b) := by
  show v.equals w = _
  cases ha : a.integer? with
  | some i =>
      obtain ⟨n, rfl, rfl⟩ := numberValue_of_integer ha hv
      rw [(not_mixed_of_integer ha).1, Bool.or_false]
      cases hb : b.integer? with
      | some j =>
          obtain ⟨m, rfl, rfl⟩ := numberValue_of_integer hb hw
          simp [Value.equals, same, ha, hb, Bool.beq_eq_decide_eq, Int64.toInt_inj]
      | none =>
          rcases inexact_cases hb with ⟨x, rfl⟩ | ⟨x, rfl⟩ | ⟨z, rfl⟩ | ⟨z, rfl⟩ <;>
            obtain rfl := Except.ok.inj hw <;>
            simp [Value.equals, same, ha, hb]
  | none =>
      cases hb : b.integer? with
      | some j =>
          obtain ⟨m, rfl, rfl⟩ := numberValue_of_integer hb hw
          rw [(not_mixed_of_integer hb).2, Bool.or_false]
          rcases inexact_cases ha with ⟨x, rfl⟩ | ⟨x, rfl⟩ | ⟨z, rfl⟩ | ⟨z, rfl⟩ <;>
            obtain rfl := Except.ok.inj hv <;>
            simp [Value.equals, same, ha, hb]
      | none =>
          rcases inexact_cases ha with ⟨x, rfl⟩ | ⟨x, rfl⟩ | ⟨z, rfl⟩ | ⟨z, rfl⟩ <;>
            rcases inexact_cases hb with ⟨x', rfl⟩ | ⟨x', rfl⟩ | ⟨z', rfl⟩ | ⟨z', rfl⟩ <;>
            obtain rfl := Except.ok.inj hv <;>
            obtain rfl := Except.ok.inj hw <;>
            simp [Value.equals, same, ha, hb, sameInexact, mixed, Binary.widen_beq,
              Cartesian.map_widen_beq, BEq.comm]

end Number

namespace Content

variable {c d : Content} {v w : Value}

/-- The contents of an object without parts: a text, a boolean, a buffer or a number. -/
def isScalar : Content → Bool
  | .text _ | .boolean _ | .data _ | .number _ => true
  | _ => false

/-- What contents without parts are read as. -/
def value? : Content → Option Value
  | .text s => some (.text s)
  | .boolean b => some (.bool b)
  | .data bytes => some (.bytes bytes)
  | .number (.known n) => (Store.numberValue n).toOption
  | _ => none

/-- Whether the contents are complex numbers of different precision and one value. -/
def mixed : Content → Content → Bool
  | .number (.known a), .number (.known b) => a.mixed b
  | _, _ => false

/-- Stored numbers are read as numbers. -/
theorem value?_number {numeral : Numeral} (hv : (number numeral).value? = some v) :
    ∃ n, numeral = .known n ∧ Store.numberValue n = .ok v ∧
      ((∃ i, v = .int i) ∨ (∃ x, v = .float x) ∨ ∃ z, v = .complex z) := by
  cases numeral with
  | unreadable => exact nomatch hv
  | known n =>
      replace hv : (Store.numberValue n).toOption = some v := hv
      cases hn : Store.numberValue n with
      | error failure =>
          rw [hn] at hv
          exact nomatch hv
      | ok u =>
          rw [hn] at hv
          obtain rfl := Option.some.inj hv
          refine ⟨n, rfl, hn, ?_⟩
          cases hi : n.integer? with
          | some i =>
              obtain ⟨m, rfl, -⟩ := Number.numberValue_of_integer hi hn
              exact .inl ⟨m, rfl⟩
          | none =>
              rcases Number.inexact_cases hi with ⟨x, rfl⟩ | ⟨x, rfl⟩ | ⟨z, rfl⟩ | ⟨z, rfl⟩
              · exact .inr (.inl ⟨_, (Except.ok.inj hn).symm⟩)
              · exact .inr (.inl ⟨_, (Except.ok.inj hn).symm⟩)
              · exact .inr (.inr ⟨_, (Except.ok.inj hn).symm⟩)
              · exact .inr (.inr ⟨_, (Except.ok.inj hn).symm⟩)

/-- Scalars are read as equal values if they count as one, or if they are equal complex
numbers of different precision. -/
theorem beq_value (hv : c.value? = some v) (hw : d.value? = some w) :
    (v == w) = (c.same d || c.mixed d) := by
  show v.equals w = _
  cases c with
  | number numeral =>
      obtain ⟨a, rfl, ha, hsort⟩ := value?_number hv
      cases d with
      | number numeral' =>
          obtain ⟨b, rfl, hb, -⟩ := value?_number hw
          exact Number.beq_numberValue ha hb
      | text | boolean | data =>
          obtain rfl := Option.some.inj hw
          rcases hsort with ⟨i, rfl⟩ | ⟨x, rfl⟩ | ⟨z, rfl⟩ <;> simp [Value.equals, same, mixed]
      | _ => cases hw
  | text | boolean | data =>
      obtain rfl := Option.some.inj hv
      cases d with
      | number numeral' =>
          obtain ⟨b, rfl, -, hsort⟩ := value?_number hw
          rcases hsort with ⟨i, rfl⟩ | ⟨x, rfl⟩ | ⟨z, rfl⟩ <;> simp [Value.equals, same, mixed]
      | text | boolean | data =>
          obtain rfl := Option.some.inj hw
          simp [Value.equals, same, mixed]
      | _ => cases hw
  | _ => cases hv

end Content

/-- A scalar is read from the contents that are stored for it. -/
theorem Value.value?_of_scalar {v : Value} {content : Content} (h : v.scalar? = some content) :
    content.isScalar ∧ content.value? = some v := by
  cases v with
  | int n =>
      obtain rfl := Option.some.inj h
      refine ⟨rfl, ?_⟩
      rw [Content.value?, Store.numberValue_integerNumber]
      rfl
  | bool | float | complex | text | bytes =>
      obtain rfl := Option.some.inj h
      exact ⟨rfl, rfl⟩
  | _ => exact nomatch h

end Marshal
