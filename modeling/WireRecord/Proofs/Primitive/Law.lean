import WireRecord.Proofs.Cursor.Refinement
import WireRecord.Proofs.Record.FormatCanonical

/-!
The law of the primitive codec. What is written of a value are the last digits of the integer that
it stands for, to the base 256 and in two's complement, in one order or the other. Written values
read back as they are, and what reads as a value is written again but for the bytes that stand for
true.
-/

namespace WireRecord

/-- The digits of an integer to the base 256, least significant first, as many as asked for. Those
of a negative integer are in two's complement, since the division rounds down. -/
def digits (width : Nat) (n : Int) : Bytes :=
  (List.range width).map fun i => UInt8.ofInt (n / valueCount i)

/-- The bytes of a number are the digits of every integer that differs from it by a multiple of the
number of values that they can hold. -/
theorem littleBytes_eq_digits {width m : Nat} {n k : Int} (h : (m : Int) = n + valueCount width * k) :
    littleBytes width m = digits width n := by
  induction width generalizing m n k with
  | zero => rfl
  | succ width ih =>
      have hMultiple : ((valueCount (width + 1) : Nat) : Int) * k = 256 * (valueCount width * k) := by
        rw [valueCount, Int.natCast_mul, Int.mul_assoc]
        rfl
      rw [hMultiple] at h
      have hFirst : UInt8.ofNat m = UInt8.ofInt n := by
        apply UInt8.toNat_inj.mp
        rw [UInt8.ofInt, UInt8.toNat_ofNat', UInt8.toNat_ofNat']
        omega
      have hRest : ((m / 256 : Nat) : Int) = n / 256 + valueCount width * k := by omega
      have hLater : ∀ i, n / 256 / ((valueCount i : Nat) : Int) = n / (valueCount (i + 1) : Nat) := by
        intro i
        rw [Int.ediv_ediv_of_nonneg (by decide), valueCount, Int.natCast_mul]
        rfl
      simp only [littleBytes, ih hRest, digits, List.range_succ_eq_map, List.map_cons,
        List.map_map, Function.comp_def, hLater, hFirst]
      simp [valueCount]

namespace Scalar

/-- The integer that a value stands for. A float stands for its bit pattern, a character for its
code point. -/
def number : Scalar → Int
  | bool b => if b then 1 else 0
  | i8 x => x.toInt
  | i16 x => x.toInt
  | i32 x => x.toInt
  | i64 x => x.toInt
  | u8 x => x.toNat
  | u16 x => x.toNat
  | u32 x => x.toNat
  | u64 x => x.toNat
  | f32 bits => bits.toNat
  | f64 bits => bits.toNat
  | char c => c.toNat

end Scalar

/-- The unsigned and the signed reading of bits differ by a multiple of the modulus. -/
theorem toNat_eq_toInt_add {width : Nat} (x : BitVec width) :
    ∃ k : Int, (x.toNat : Int) = x.toInt + (Nat.pow 2 width : Nat) * k := by
  rw [BitVec.toInt_eq_toNat_cond, Nat.pow_eq]
  split
  · exact ⟨0, by omega⟩
  · exact ⟨1, by omega⟩

namespace Scalar

theorem code?_eq_number_add {v : Scalar} {m : Nat} (h : v.code? = some m) :
    ∃ k : Int, (m : Int) = v.number + valueCount v.width * k := by
  cases v with
  | bool b =>
      cases h
      exact ⟨0, by cases b <;> rfl⟩
  | char c =>
      obtain ⟨_, h⟩ := Option.ite_none_right_eq_some.mp h
      cases h
      exact ⟨0, by simp [number]⟩
  | i8 x | i16 x | i32 x | i64 x =>
      cases h
      exact toNat_eq_toInt_add x.toBitVec
  | u8 x | u16 x | u32 x | u64 x | f32 x | f64 x =>
      cases h
      exact ⟨0, by simp [number]⟩

/-- Encodes a value in place: whether it succeeded, and the target afterwards. -/
def encodeInto (v : Scalar) (order : ByteOrder) (target : Bytes) : Bool × Bytes :=
  match v.encode order target with
  | some result => (true, result)
  | none => (false, target)

end Scalar

/-- Digits in a byte order, given least significant first. -/
def ByteOrder.arrange : ByteOrder → Bytes → Bytes
  | little, digits => digits
  | big, digits => digits.reverse

/-- The bytes of a scalar are the digits of its number, in the byte order asked for. -/
theorem Leaf.bytes_eq_digits {l : Leaf} (hFits : l.fits) :
    l.bytes = l.order.arrange (digits l.scalar.width l.scalar.number) := by
  obtain ⟨m, hCode⟩ := Option.isSome_iff_exists.mp hFits
  obtain ⟨k, hNumber⟩ := Scalar.code?_eq_number_add hCode
  rw [bytes, hCode, Option.getD_some, ← littleBytes_eq_digits hNumber]
  cases l.order <;> rfl

/-- A value is encoded if there is room and it has a number, and otherwise nothing changes. -/
theorem Leaf.encodeInto_eq (l : Leaf) (target : Bytes) :
    l.scalar.encodeInto l.order target =
      if l.scalar.width ≤ target.length ∧ l.fits then
        (true, l.bytes ++ target.drop l.scalar.width)
      else (false, target) := by
  rw [Scalar.encodeInto]
  cases hFits : l.fits with
  | false => simp [encode_eq_none hFits]
  | true =>
      by_cases hRoom : l.scalar.width ≤ target.length
      · simp [encode_eq hFits hRoom, hRoom]
      · obtain ⟨n, hCode⟩ := Option.isSome_iff_exists.mp hFits
        simp [Scalar.encode, hCode, hRoom, Nat.not_le.mp hRoom]

/-- What is encoded decodes, whatever follows it. -/
theorem Leaf.decode_bytes {l : Leaf} (hFits : l.fits) (rest : Bytes) :
    l.scalar.primitive.decode l.order (l.bytes ++ rest) = some l.scalar := by
  have hWidth : l.scalar.primitive.width = l.bytes.length := l.length_bytes.symm
  have hLong : ¬(l.bytes ++ rest).length < l.bytes.length := by simp
  rw [Primitive.decode, hWidth, if_neg hLong, List.take_left, ofCode?_bytes hFits]

namespace Scalar

variable {v : Scalar} {order : ByteOrder} {target : Bytes}

/-- A scalar is written exactly if there is room, and a character only if it is in the basic plane.
-/
theorem encodeInto_done_iff : (v.encodeInto order target).1 = true ↔
    v.width ≤ target.length ∧ ∀ c, v = .char c → c.toNat ≤ 0xffff := by
  rw [Leaf.encodeInto_eq ⟨v, order⟩ target, ← code?_isSome_iff]
  by_cases hBoth : v.width ≤ target.length ∧ Leaf.fits ⟨v, order⟩
  · rw [if_pos hBoth]
    exact iff_of_true rfl hBoth
  · rw [if_neg hBoth]
    exact iff_of_false Bool.false_ne_true hBoth

theorem encodeInto_of_failed (hFailed : (v.encodeInto order target).1 = false) :
    (v.encodeInto order target).2 = target := by
  rw [Leaf.encodeInto_eq ⟨v, order⟩ target] at hFailed ⊢
  split at hFailed
  · cases hFailed
  · next hNot => rw [if_neg hNot]

/-- The digits of a value replace the first bytes, and the value is decoded from there. -/
theorem encodeInto_of_done (hDone : (v.encodeInto order target).1 = true) :
    (v.encodeInto order target).2.take v.width = order.arrange (digits v.width v.number) ∧
      (v.encodeInto order target).2.drop v.width = target.drop v.width ∧
      v.primitive.decode order (v.encodeInto order target).2 = some v := by
  rw [Leaf.encodeInto_eq ⟨v, order⟩ target] at hDone ⊢
  split at hDone
  · next hBoth =>
    have hLength : (Leaf.bytes ⟨v, order⟩).length = v.width := Leaf.length_bytes _
    rw [if_pos hBoth, List.take_left' hLength, List.drop_left' hLength]
    exact ⟨Leaf.bytes_eq_digits hBoth.2, rfl, Leaf.decode_bytes hBoth.2 _⟩
  · cases hDone

end Scalar

namespace Primitive

variable {p : Primitive} {order : ByteOrder} {source other : Bytes}

/-- Only the first bytes of the source count, as many as the primitive is wide. -/
theorem decode_congr (hStart : other.take p.width = source.take p.width) :
    p.decode order other = p.decode order source := by
  have hTake : ∀ bytes : Bytes, p.decode order (bytes.take p.width) = p.decode order bytes := by
    intro bytes
    rcases Nat.le_total p.width bytes.length with hLong | hShort
    · exact decode_take hLong
    · rw [List.take_of_length_le hShort]
  rw [← hTake other, hStart, hTake source]

/-- The window from which a primitive is decoded. -/
def window (p : Primitive) (order : ByteOrder) (source : Bytes) : Window :=
  ⟨p, order, source.take p.width⟩

/-- A read fails exactly if bytes are missing, or if they are a surrogate read as a character. -/
theorem decode_eq_none_iff_surrogate :
    p.decode order source = none ↔
      source.length < p.width ∨ (p.window order source).isSurrogate := by
  rw [decode_eq_none_iff]
  rcases Nat.lt_or_ge source.length p.width with hShort | hLong
  · simp [hShort]
  · have hTaken : (source.take p.width).length = p.width := by
      rw [List.length_take, Nat.min_eq_left hLong]
    have hCode := ofCode?_isSome_iff (order.decode_lt hTaken)
    rw [← Bool.not_eq_true, hCode, not_not]
    rfl

/-- A value that was decoded is encoded to the normalized bytes that it was read from. -/
theorem encodeInto_of_decode {v : Scalar} (hDecode : p.decode order source = some v)
    {target : Bytes} (hRoom : p.width ≤ target.length) :
    v.primitive = p ∧ v.encodeInto order target =
      (true, (p.window order source).normalized ++ target.drop p.width) := by
  obtain ⟨hLong, hCode⟩ := Option.ite_none_left_eq_some.mp hDecode
  have hTaken : (source.take p.width).length = p.width := by
    rw [List.length_take, Nat.min_eq_left (Nat.not_lt.mp hLong)]
  obtain ⟨rfl, hFits, hBytes⟩ :=
    Window.bytes_of_ofCode? (w := p.window order source) hTaken hCode
  refine ⟨rfl, ?_⟩
  rw [← hBytes]
  exact (Leaf.encodeInto_eq ⟨v, order⟩ target).trans (if_pos ⟨hRoom, hFits⟩)

end Primitive

/-- Encoding succeeds exactly if there is room and the value is no character above `U+FFFF`. It then
replaces the first bytes by the digits of the value, most significant first if the order is big, and
these decode to the same value; otherwise it changes nothing. Decoding looks at the first bytes
only, and fails exactly if they are too few or a surrogate. What is decoded is encoded again as the
bytes that it was read from, but for a truth value, which is encoded as 0 or 1. -/
theorem primitive_codec_law :
    (∀ (v : Scalar) (order : ByteOrder) (target : Bytes),
      ((v.encodeInto order target).1 = true ↔
        v.width ≤ target.length ∧ ∀ c, v = .char c → c.toNat ≤ 0xffff) ∧
      ((v.encodeInto order target).1 = false → (v.encodeInto order target).2 = target) ∧
      ((v.encodeInto order target).1 = true →
        (v.encodeInto order target).2.take v.width = order.arrange (digits v.width v.number) ∧
        (v.encodeInto order target).2.drop v.width = target.drop v.width ∧
        v.primitive.decode order (v.encodeInto order target).2 = some v)) ∧
    (∀ (p : Primitive) (order : ByteOrder) (source : Bytes),
      (p.decode order source = none ↔
        source.length < p.width ∨ (p.window order source).isSurrogate) ∧
      (∀ other : Bytes, other.take p.width = source.take p.width →
        p.decode order other = p.decode order source) ∧
      ∀ v, p.decode order source = some v → ∀ target : Bytes, p.width ≤ target.length →
        v.primitive = p ∧ v.encodeInto order target =
          (true, (p.window order source).normalized ++ target.drop p.width)) ∧
    ∀ (v : Scalar) (target target' : Bytes), (v.encodeInto .little target).1 = true →
      (v.encodeInto .big target').1 = true →
        (v.encodeInto .big target').2.take v.width =
          ((v.encodeInto .little target).2.take v.width).reverse := by
  refine ⟨fun v order target => ⟨Scalar.encodeInto_done_iff, Scalar.encodeInto_of_failed,
      Scalar.encodeInto_of_done⟩,
    fun p order source => ⟨Primitive.decode_eq_none_iff_surrogate,
      fun other hStart => Primitive.decode_congr hStart,
      fun v hDecode target hRoom => Primitive.encodeInto_of_decode hDecode hRoom⟩,
    fun v target target' hLittle hBig => ?_⟩
  rw [(Scalar.encodeInto_of_done hBig).1, (Scalar.encodeInto_of_done hLittle).1]
  rfl

/-- A negative number is written in two's complement, and every byte but 0 is read as true. -/
example : (Scalar.i16 (-2)).encodeInto .big [0, 0, 7] = (true, [0xff, 0xfe, 7]) ∧
    Primitive.decode .bool .little [9] = some (.bool true) := by decide

end WireRecord
