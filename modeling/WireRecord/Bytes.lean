/-!
Byte strings, the two byte orders, and the fixed-width bytes of a natural number.
The two readings `littleBytes` and `littleValue` are inverse to each other on numbers that fit.
-/

namespace WireRecord

/-- A byte string, first byte first. -/
abbrev Bytes := List UInt8

/-- Byte order of a number that takes more than one byte. -/
inductive ByteOrder where
  /-- Least significant byte first. -/
  | little
  /-- Most significant byte first. -/
  | big
  deriving DecidableEq, Repr

/-- Numbers are little-endian unless something else is asked for. -/
instance : Inhabited ByteOrder := ⟨.little⟩

/-- Number of values that `width` bytes can hold. -/
def valueCount : Nat → Nat
  | 0 => 1
  | width + 1 => 256 * valueCount width

/-- The `width` bytes of `n`, least significant first; what does not fit is dropped. -/
def littleBytes : Nat → Nat → Bytes
  | 0, _ => []
  | width + 1, n => UInt8.ofNat n :: littleBytes width (n / 256)

/-- The number written by `bytes`, least significant first. -/
def littleValue : Bytes → Nat
  | [] => 0
  | b :: bs => b.toNat + 256 * littleValue bs

/-- The bytes `new` written over the start of `old`; what does not fit is dropped. -/
def overlay (new old : Bytes) : Bytes := new.take old.length ++ old.drop new.length

@[simp] theorem length_overlay (new old : Bytes) : (overlay new old).length = old.length := by
  simp only [overlay, List.length_append, List.length_take, List.length_drop]
  omega

/-- New bytes that fit stand in front of what they leave of the old ones. -/
theorem overlay_eq_append {new old : Bytes} (hLength : new.length ≤ old.length) :
    overlay new old = new ++ old.drop new.length := by
  rw [overlay, List.take_of_length_le hLength]

/-- Byte strings are written one after the other. -/
theorem overlay_append {first : Bytes} (second : Bytes) {old : Bytes}
    (hLength : first.length ≤ old.length) :
    overlay (first ++ second) old = first ++ overlay second (old.drop first.length) := by
  rw [overlay, overlay, List.take_append, List.take_of_length_le hLength, List.length_append,
    List.length_drop, List.drop_drop, List.append_assoc]

theorem overlay_overlay (new old : Bytes) : overlay (overlay new old) old = overlay new old := by
  have hLength := length_overlay new old
  rw [overlay_eq_append (Nat.le_of_eq hLength), hLength, List.drop_length, List.append_nil]

@[simp] theorem length_littleBytes (width n : Nat) : (littleBytes width n).length = width := by
  induction width generalizing n with
  | zero => rfl
  | succ width ih => simp [littleBytes, ih]

/-- A byte string writes a number that fits into its length. -/
theorem littleValue_lt (bytes : Bytes) : littleValue bytes < valueCount bytes.length := by
  induction bytes with
  | nil => simp [littleValue, valueCount]
  | cons b bs ih =>
    have hByte : b.toNat < 256 := b.toNat_lt
    simp only [littleValue, List.length_cons, valueCount]
    omega

/-- A number comes back from its bytes if there are enough of them. -/
theorem littleValue_littleBytes {width n : Nat} (hFits : n < valueCount width) :
    littleValue (littleBytes width n) = n := by
  induction width generalizing n with
  | zero => simp only [valueCount] at hFits; simp only [littleBytes, littleValue]; omega
  | succ width ih =>
    have hRest : n / 256 < valueCount width := Nat.div_lt_of_lt_mul hFits
    simp only [littleBytes, littleValue, ih hRest, UInt8.toNat_ofNat']
    omega

/-- A byte string is the one of its length that writes its number. -/
theorem littleBytes_littleValue (bytes : Bytes) :
    littleBytes bytes.length (littleValue bytes) = bytes := by
  induction bytes with
  | nil => rfl
  | cons b bs ih =>
    have hByte : b.toNat < 256 := b.toNat_lt
    have hRest : (b.toNat + 256 * littleValue bs) / 256 = littleValue bs := by omega
    simp only [List.length_cons, littleValue, littleBytes, hRest, ih]
    congr 1
    apply UInt8.toNat_inj.mp
    simp only [UInt8.toNat_ofNat']
    omega

namespace ByteOrder

/-- The spelling of a byte order as the value of a marker option. -/
def name : ByteOrder → String
  | little => "little"
  | big => "big"

/-- The `width` bytes of `n` in this order. -/
def encode (order : ByteOrder) (width n : Nat) : Bytes :=
  match order with
  | little => littleBytes width n
  | big => (littleBytes width n).reverse

/-- The number that `bytes` write in this order. -/
def decode (order : ByteOrder) (bytes : Bytes) : Nat :=
  match order with
  | little => littleValue bytes
  | big => littleValue bytes.reverse

@[simp] theorem length_encode (order : ByteOrder) (width n : Nat) :
    (order.encode width n).length = width := by
  cases order <;> simp [encode]

/-- A byte string writes a number that fits into its length, in either order. -/
theorem decode_lt (order : ByteOrder) {width : Nat} {bytes : Bytes} (hWidth : bytes.length = width) :
    order.decode bytes < valueCount width := by
  subst hWidth
  cases order with
  | little => exact littleValue_lt bytes
  | big => simpa [decode] using littleValue_lt bytes.reverse

/-- A number that fits reads back in the order in which it was written. -/
theorem decode_encode (order : ByteOrder) {width n : Nat} (hFits : n < valueCount width) :
    order.decode (order.encode width n) = n := by
  cases order <;> simp [encode, decode, littleValue_littleBytes hFits]

/-- A byte string is what its number is written as, in the order in which it was read. -/
theorem encode_decode (order : ByteOrder) (bytes : Bytes) :
    order.encode bytes.length (order.decode bytes) = bytes := by
  cases order with
  | little => exact littleBytes_littleValue bytes
  | big =>
    have h := littleBytes_littleValue bytes.reverse
    rw [List.length_reverse] at h
    simp [encode, decode, h]

end ByteOrder

end WireRecord
