import Marshal.Proofs.Numeric.Spelling
import Marshal.Value.Key

/-!
# Literals as dictionary keys

A key that is a literal, which is any scalar but text, collides with no other literal: its text
tells its kind (`LiteralKind.ofText`), and within the kind the text tells the value, where all
NaNs count as one (`Value.sameUpToNaN_of_keyText`).

Numbers are told by their spelling.  Quoted bytes are read one by one (`unquoteByte`), since how
a byte is written shows where it ends.
-/

namespace Marshal

namespace Text

/-! ## Quoted bytes -/

/-- The byte that stands for itself. -/
def byteOf (c : Char) : UInt8 := UInt8.ofNat c.toNat

/-- The byte that is written after a backslash, and the text after it. -/
def unescapeByte : List Char → UInt8 × List Char
  | [] => (0, [])
  | c :: text =>
    if c = 't' then (byteOf '\t', text)
    else if c = 'r' then (byteOf '\r', text)
    else if c = 'n' then (byteOf '\n', text)
    else if c = 'x' then
      (UInt8.ofNat ((Hex.read? (text.take 2)).getD 0), text.drop 2)
    else (byteOf c, text)

/-- The byte at the start of quoted bytes, and the text after it. -/
def unquoteByte : List Char → UInt8 × List Char
  | [] => (0, [])
  | c :: text => if c = '\\' then unescapeByte text else (byteOf c, text)

variable {b b' : UInt8} {bytes bytes' : List UInt8} {rest rest' : List Char}

theorem byteOf_ofNat (b : UInt8) : byteOf (Char.ofNat b.toNat) = b := by
  have hlt := b.toNat_lt
  have hvalid : Nat.isValidChar b.toNat := .inl (by omega)
  rw [byteOf, Char.ofNat, dif_pos hvalid]
  exact UInt8.ofNat_toNat

theorem read?_padded (b : UInt8) : Hex.read? (Hex.padded 2 b.toNat) = some b.toNat := by
  have hlt := b.toNat_lt
  have hdigits : ∀ n < 16, ∀ m < 16,
      Hex.read? [Hex.digit n, Hex.digit m] = some (16 * n + m) := by decide
  show Hex.read? [Hex.digit (b.toNat / 16 % 16), Hex.digit (b.toNat % 16)] = _
  rw [hdigits _ (Nat.mod_lt _ (by decide)) _ (Nat.mod_lt _ (by decide))]
  congr 1
  omega

theorem length_padded (b : UInt8) : (Hex.padded 2 b.toNat).length = 2 := rfl

/-- A quoted byte is read, wherever it stands. -/
theorem unquoteByte_quotedByte (b : UInt8) (rest : List Char) :
    unquoteByte (quotedByte b ++ rest) = (b, rest) := by
  have hbyte := byteOf_ofNat b
  unfold quotedByte
  dsimp only
  generalize Char.ofNat b.toNat = c at hbyte
  split_ifs with htab hreturn hnewline hquote
  · rw [← hbyte, htab]
    rfl
  · rw [← hbyte, hreturn]
    rfl
  · rw [← hbyte, hnewline]
    rfl
  · rw [← hbyte]
    rcases hquote with rfl | rfl | rfl <;> rfl
  · show unquoteByte (c :: rest) = _
    rw [unquoteByte, if_neg fun hbackslash => hquote (.inr (.inr hbackslash)), hbyte]
  · show unescapeByte ('x' :: (Hex.padded 2 b.toNat ++ rest)) = _
    rw [unescapeByte, if_neg (by decide), if_neg (by decide), if_neg (by decide), if_pos rfl,
      List.take_left' (length_padded b), List.drop_left' (length_padded b), read?_padded,
      Option.getD_some, UInt8.ofNat_toNat]

theorem quotedByte_ne_nil (b : UInt8) : quotedByte b ≠ [] := by
  unfold quotedByte
  dsimp only
  split_ifs <;> simp

/-- Quoted bytes tell the bytes. -/
theorem quotedBytes_inj (h : quotedBytes bytes = quotedBytes bytes') : bytes = bytes' := by
  have hbody : bytes.flatMap quotedByte = bytes'.flatMap quotedByte :=
    List.append_cancel_left (List.append_cancel_right h)
  clear h
  induction bytes generalizing bytes' with
  | nil =>
      cases bytes' with
      | nil => rfl
      | cons b' bytes' => exact absurd hbody.symm (by simp [quotedByte_ne_nil])
  | cons b bytes ih =>
      cases bytes' with
      | nil => exact absurd hbody (by simp [quotedByte_ne_nil])
      | cons b' bytes' =>
          have hread := congrArg unquoteByte hbody
          rw [List.flatMap_cons, List.flatMap_cons, unquoteByte_quotedByte,
            unquoteByte_quotedByte] at hread
          obtain ⟨rfl, hrest⟩ := Prod.mk.inj hread
          rw [ih hrest]

end Text

/-! ## Integers -/

theorem signedDigits_eq (n : ℤ) :
    signedDigits n = signed (decide (n < 0)) (Nat.toDigits 10 n.natAbs) := by
  unfold signedDigits signed
  split <;> simp_all

theorem toDigits_ne_minus (n : ℕ) (rest : List Char) : Nat.toDigits 10 n ≠ '-' :: rest := by
  intro heq
  have hdigits := digits_toDigits n
  rw [heq] at hdigits
  exact nomatch hdigits '-' (List.mem_cons_self ..)

theorem signedDigits_inj {m n : ℤ} (h : signedDigits m = signedDigits n) : m = n := by
  rw [signedDigits_eq, signedDigits_eq] at h
  obtain ⟨hsign, hdigits⟩ := signed_inj (toDigits_ne_minus _) (toDigits_ne_minus _) h
  have habs := congrArg readDigits hdigits
  rw [readDigits_toDigits, readDigits_toDigits] at habs
  rw [decide_eq_decide] at hsign
  omega

/-! ## Kinds -/

/-- The kinds of keys that are written as literals. -/
inductive LiteralKind where
  | null
  | bool
  | int
  | float
  | complex
  | bytes
deriving DecidableEq

/-- The kind of a value that is written as a literal when it is a key. -/
def Value.literalKind? : Value → Option LiteralKind
  | .null => some .null
  | .bool _ => some .bool
  | .int _ => some .int
  | .float _ => some .float
  | .complex _ => some .complex
  | .bytes _ => some .bytes
  | _ => none

/-- Whether the text starts as the text of a number does. -/
def StartsNumber (text : List Char) : Prop :=
  ∀ c ∈ text.head?, c.isDigit ∨ c ∈ ['-', '(', 'n', 'i']

section StartsNumber

variable {x : Binary64} {text : List Char} {c : Char}

theorem StartsNumber.signed (h : StartsNumber text) (negative : Bool) :
    StartsNumber (signed negative text) := by
  cases negative with
  | false => exact h
  | true =>
      intro c hc
      obtain rfl := Option.some.inj hc
      exact .inr (by simp)

theorem Binary.Spells.startsNumber (h : x.Spells text) (more : List Char) :
    StartsNumber (text ++ more) := by
  obtain ⟨first, rest, rfl, hfirst⟩ := h.exists_cons
  intro c hc
  obtain rfl := Option.some.inj hc
  rcases hfirst with hdigit | hname
  · exact .inl hdigit
  · simp only [List.mem_cons, List.not_mem_nil, or_false] at hname
    rcases hname with rfl | rfl <;> exact .inr (by simp)

theorem mem_signed (h : c ∈ text) (negative : Bool) : c ∈ signed negative text := by
  cases negative with
  | false => exact h
  | true => exact List.mem_cons_of_mem _ h

theorem notMem_signed (h : c ∉ text) (hc : c ≠ '-') (negative : Bool) :
    c ∉ signed negative text := by
  cases negative with
  | false => exact h
  | true => exact List.not_mem_cons_of_ne_of_not_mem hc h

end StartsNumber

namespace LiteralKind

/-- The kind of literal that a text is. -/
def ofText (text : List Char) : LiteralKind :=
  if 'N' ∈ text.head? then null
  else if 'T' ∈ text.head? ∨ 'F' ∈ text.head? then bool
  else if 'b' ∈ text.head? then bytes
  else if 'j' ∈ text then complex
  else if Marked text then float
  else int

variable {text : List Char}

theorem ofText_of_startsNumber (h : StartsNumber text) :
    ofText text = if 'j' ∈ text then complex else if Marked text then float else int := by
  have hother : ∀ {c : Char}, ¬ (c.isDigit ∨ c ∈ ['-', '(', 'n', 'i']) → c ∉ text.head? :=
    fun hnot hc => hnot (h _ hc)
  rw [ofText, if_neg (hother (by decide)), if_neg, if_neg (hother (by decide))]
  rintro (htrue | hfalse)
  · exact hother (by decide) htrue
  · exact hother (by decide) hfalse

theorem ofText_signedDigits (n : ℤ) : ofText (signedDigits n) = int := by
  have hdigits := digits_toDigits n.natAbs
  have hnotMem : ∀ {c : Char}, c.isDigit = false → c ≠ '-' → c ∉ signedDigits n := by
    intro c hdigit hc
    rw [signedDigits_eq]
    exact notMem_signed (hdigits.notMem hdigit) hc _
  have hstarts : StartsNumber (signedDigits n) := by
    rw [signedDigits_eq]
    exact StartsNumber.signed (fun c hc => .inl (hdigits c (List.mem_of_mem_head? hc))) _
  rw [ofText_of_startsNumber hstarts, if_neg (hnotMem rfl (by decide)), if_neg]
  rintro (hpoint | hexponent | hname)
  · exact hnotMem rfl (by decide) hpoint
  · exact hnotMem rfl (by decide) hexponent
  · exact hnotMem rfl (by decide) hname

theorem ofText_write (x : Binary64) : ofText (FloatStyle.key.write x) = float := by
  obtain ⟨text, hspells, hmarked, hwritten⟩ := x.exists_write_key
  have hstarts := hspells.startsNumber []
  rw [List.append_nil] at hstarts
  rw [hwritten, ofText_of_startsNumber (hstarts.signed _),
    if_neg (notMem_signed hspells.notMem_j (by decide) _), if_pos]
  rcases hmarked with hpoint | hexponent | hname
  · exact .inl (mem_signed hpoint _)
  · exact .inr (.inl (mem_signed hexponent _))
  · exact .inr (.inr (mem_signed hname _))

theorem ofText_key (z : Cartesian Binary64) : ofText z.key = complex := by
  obtain ⟨im, him, ⟨-, hkey⟩ | ⟨re, -, hkey⟩⟩ := z.exists_key
  · rw [hkey, ofText_of_startsNumber ((him.startsNumber ['j']).signed _), if_pos]
    exact mem_signed (by simp) _
  · rw [hkey, ofText_of_startsNumber, if_pos (by simp)]
    intro c hc
    obtain rfl := Option.some.inj hc
    exact .inr (by simp)

/-- The text of a literal tells its kind. -/
theorem ofText_keyText {v : Value} {kind : LiteralKind} {s : String}
    (hkind : v.literalKind? = some kind) (hs : v.keyText = .ok s) : ofText s.toList = kind := by
  cases v with
  | null =>
      obtain rfl := Except.ok.inj hs
      exact Option.some.inj hkind
  | bool b =>
      obtain rfl := Option.some.inj hkind
      cases b <;> (obtain rfl := Except.ok.inj hs; rfl)
  | int n =>
      obtain rfl := Option.some.inj hkind
      obtain rfl := Except.ok.inj hs
      rw [String.toList_ofList, ofText_signedDigits]
  | float x =>
      obtain rfl := Option.some.inj hkind
      obtain rfl := Except.ok.inj hs
      rw [String.toList_ofList, ofText_write]
  | complex z =>
      obtain rfl := Option.some.inj hkind
      obtain rfl := Except.ok.inj hs
      rw [String.toList_ofList, ofText_key]
  | bytes b =>
      obtain rfl := Option.some.inj hkind
      obtain rfl := Except.ok.inj hs
      rw [String.toList_ofList]
      rfl
  | _ => exact nomatch hkind

end LiteralKind

/-! ## Values -/

namespace Value

/-- Equality of values, where a NaN is equal to every NaN, also as part of a complex number. -/
def sameUpToNaN : Value → Value → Bool
  | float x, float y => x.sameUpToNaN y
  | complex z, complex w => z.re.sameUpToNaN w.re && z.im.sameUpToNaN w.im
  | v, w => v == w

/-- Two literals with one key text are of one kind and equal, where NaNs count as equal. -/
theorem sameUpToNaN_of_keyText {v w : Value} {kind kind' : LiteralKind} {s : String}
    (hv : v.literalKind? = some kind) (hw : w.literalKind? = some kind')
    (hs : v.keyText = .ok s) (hs' : w.keyText = .ok s) :
    kind = kind' ∧ v.sameUpToNaN w := by
  obtain rfl : kind = kind' :=
    (LiteralKind.ofText_keyText hv hs).symm.trans (LiteralKind.ofText_keyText hw hs')
  refine ⟨rfl, ?_⟩
  have hsame := hv.trans hw.symm
  have htext := hs.trans hs'.symm
  -- only values of one kind are left
  cases v <;> cases w <;> first | (cases hv; done) | (cases hsame; done) | skip
  case null.null =>
    show equals null null = true
    rw [equals]
  case bool.bool a b =>
    have heq : a = b := by
      cases a <;> cases b <;> first | rfl | exact absurd (Except.ok.inj htext) (by decide)
    show equals (bool a) (bool b) = true
    rw [equals]
    exact beq_iff_eq.2 heq
  case int.int a b =>
    have hdigits := String.ofList_injective (Except.ok.inj htext)
    have heq : a = b := Int64.toInt_inj.1 (signedDigits_inj hdigits)
    show equals (int a) (int b) = true
    rw [equals]
    exact beq_iff_eq.2 heq
  case float.float x y =>
    exact Binary.sameUpToNaN_of_write (String.ofList_injective (Except.ok.inj htext))
  case complex.complex z w =>
    have hparts := Cartesian.sameUpToNaN_of_key (String.ofList_injective (Except.ok.inj htext))
    exact Bool.and_eq_true_iff.2 hparts
  case bytes.bytes a b =>
    have heq : a = b := Text.quotedBytes_inj (String.ofList_injective (Except.ok.inj htext))
    show equals (bytes a) (bytes b) = true
    rw [equals]
    exact beq_iff_eq.2 heq

/-- NaNs of two signs and payloads share a key, and they count as equal. -/
theorem sameUpToNaN_nan_keys :
    (complex ⟨⟨0x7ff8000000000000⟩, ⟨0⟩⟩).keyText = .ok "(nan+0j)" ∧
    (complex ⟨⟨0xfff8000000000001⟩, ⟨0⟩⟩).keyText = .ok "(nan+0j)" ∧
    LiteralKind.complex = LiteralKind.complex ∧
    (complex ⟨⟨0x7ff8000000000000⟩, ⟨0⟩⟩).sameUpToNaN (complex ⟨⟨0xfff8000000000001⟩, ⟨0⟩⟩) :=
  have hleft : (complex ⟨⟨0x7ff8000000000000⟩, ⟨0⟩⟩).keyText = .ok "(nan+0j)" := by rfl
  have hright : (complex ⟨⟨0xfff8000000000001⟩, ⟨0⟩⟩).keyText = .ok "(nan+0j)" := by rfl
  ⟨hleft, hright, sameUpToNaN_of_keyText rfl rfl hleft hright⟩

end Value

end Marshal
