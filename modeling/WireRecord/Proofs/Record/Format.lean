import WireRecord.Proofs.Primitive.Code
import WireRecord.Record.Value

/-!
What a record looks like on the wire, without the procedures that write and read it: a tree of
members, the leaves of a value in depth-first order, and the windows that they occupy. Everything
here is read off the members alone, so that it can be held against the emitted procedures.
-/

namespace WireRecord

/-- The members of a record value, in the order of their declaration. -/
abbrev Members := List (MemberName × Value)

/-- The members of a record, each a primitive in a byte order, a record again, or not encoded and
set to a value when the record is read. -/
inductive WireFormat where
  | nil
  | scalar (name : MemberName) (p : Primitive) (order : ByteOrder) (rest : WireFormat)
  | nested (name : MemberName) (inner rest : WireFormat)
  | skipped (name : MemberName) (initial : Value) (rest : WireFormat)

/-- A primitive value that is encoded, with its byte order. -/
structure Leaf where
  scalar : Scalar
  order : ByteOrder
  deriving DecidableEq

namespace Leaf

def fits (l : Leaf) : Bool := l.scalar.code?.isSome

/-- The fixed-width encoding of the value. -/
def bytes (l : Leaf) : Bytes := l.order.encode l.scalar.width (l.scalar.code?.getD 0)

@[simp] theorem length_bytes (l : Leaf) : l.bytes.length = l.scalar.width :=
  ByteOrder.length_encode ..

/-- A leaf that fits is written to the front of the target. -/
theorem encode_eq {l : Leaf} {target : Bytes} (hFits : l.fits)
    (hLength : l.scalar.width ≤ target.length) :
    l.scalar.encode l.order target = some (l.bytes ++ target.drop l.scalar.width) := by
  obtain ⟨n, hCode⟩ := Option.isSome_iff_exists.mp hFits
  have hLong : ¬target.length < l.scalar.width := Nat.not_lt.mpr hLength
  simp [Scalar.encode, bytes, hCode, hLong]

theorem encode_eq_none {l : Leaf} {target : Bytes} (hFits : l.fits = false) :
    l.scalar.encode l.order target = none := by
  have hCode : l.scalar.code? = none := by simpa [fits] using hFits
  simp [Scalar.encode, hCode]

/-- A leaf that fits comes back from its bytes. -/
theorem ofCode?_bytes {l : Leaf} (hFits : l.fits) :
    l.scalar.primitive.ofCode? (l.order.decode l.bytes) = some l.scalar := by
  obtain ⟨n, hCode⟩ := Option.isSome_iff_exists.mp hFits
  rw [bytes, hCode, Option.getD_some, ByteOrder.decode_encode l.order (Scalar.code?_lt hCode)]
  exact Scalar.ofCode?_of_code? hCode

end Leaf

/-- The bytes that a leaf occupies. -/
structure Window where
  primitive : Primitive
  order : ByteOrder
  bytes : Bytes
  deriving DecidableEq

namespace Window

/-- Whether a character is asked for and the bytes are a surrogate. -/
def isSurrogate (w : Window) : Prop :=
  w.primitive = .char ∧ 0xd800 ≤ w.order.decode w.bytes ∧ w.order.decode w.bytes ≤ 0xdfff

instance (w : Window) : Decidable w.isSurrogate :=
  inferInstanceAs (Decidable (_ ∧ _))

/-- The bytes with which the value read from them is written: a byte that stands for true becomes 1,
and all others stay. -/
def normalized (w : Window) : Bytes :=
  if w.primitive = .bool then w.bytes.map fun byte => if byte = 0 then 0 else 1 else w.bytes

@[simp] theorem length_normalized (w : Window) : w.normalized.length = w.bytes.length := by
  rw [normalized]
  split
  · exact List.length_map ..
  · rfl

end Window

namespace WireFormat

/-- Number of bytes of the encoded members. -/
def size : WireFormat → Nat
  | nil => 0
  | scalar _ p _ rest => p.width + rest.size
  | nested _ inner rest => inner.size + rest.size
  | skipped _ _ rest => rest.size

/-- Whether members have the names and types of a record. Of a member that is not encoded only the
name counts. -/
@[simp]
def admits : WireFormat → Members → Bool
  | nil, [] => true
  | scalar name p _ rest, (name', .scalar v) :: members =>
    name' == name && v.primitive == p && rest.admits members
  | nested name inner rest, (name', .record inner') :: members =>
    name' == name && inner.admits inner' && rest.admits members
  | skipped name _ rest, (name', _) :: members => name' == name && rest.admits members
  | _, _ => false

/-- The members with those that are not encoded, at every depth, set to what a read sets them to. -/
def erase : WireFormat → Members → Members
  | scalar _ _ _ rest, member :: members => member :: rest.erase members
  | nested _ inner rest, (name, .record inner') :: members =>
    (name, .record (inner.erase inner')) :: rest.erase members
  | skipped _ initial rest, (name, _) :: members => (name, initial) :: rest.erase members
  | _, members => members

/-- The encoded primitives, those of a nested record in its place. -/
def leaves : WireFormat → Members → List Leaf
  | scalar _ _ order rest, (_, .scalar v) :: members => ⟨v, order⟩ :: rest.leaves members
  | nested _ inner rest, (_, .record inner') :: members =>
    inner.leaves inner' ++ rest.leaves members
  | skipped _ _ rest, _ :: members => rest.leaves members
  | _, _ => []

/-- The windows of the encoded primitives in a buffer, those of a nested record in its place. -/
def windows : WireFormat → Bytes → List Window
  | nil, _ => []
  | scalar _ p order rest, bytes =>
    ⟨p, order, bytes.take p.width⟩ :: rest.windows (bytes.drop p.width)
  | nested _ inner rest, bytes => inner.windows bytes ++ rest.windows (bytes.drop inner.size)
  | skipped _ _ rest, bytes => rest.windows bytes

/-- The members read from the start of a buffer. -/
def decode : WireFormat → Bytes → Option Members
  | nil, _ => some []
  | scalar name p order rest, bytes => do
    let v ← p.ofCode? (order.decode (bytes.take p.width))
    let members ← rest.decode (bytes.drop p.width)
    return (name, .scalar v) :: members
  | nested name inner rest, bytes => do
    let inner' ← inner.decode bytes
    let members ← rest.decode (bytes.drop inner.size)
    return (name, .record inner') :: members
  | skipped name initial rest, bytes => do
    let members ← rest.decode bytes
    return (name, initial) :: members

/-- The encodings of the leaves of a value, one after the other. -/
def encode (f : WireFormat) (members : Members) : Bytes := (f.leaves members).flatMap Leaf.bytes

/-- The first bytes of a buffer with every byte that stands for true set to 1. -/
def normalize (f : WireFormat) (bytes : Bytes) : Bytes :=
  (f.windows bytes).flatMap Window.normalized

variable {name : MemberName} {inner rest : WireFormat} {members : Members}

theorem admits_nil_iff : nil.admits members ↔ members = [] := by
  cases members <;> simp

/-- The first member of an admitted list is a scalar of the kind that the format has there. -/
theorem admits_scalar_iff {p : Primitive} {order : ByteOrder} :
    (scalar name p order rest).admits members ↔
      ∃ v later, members = (name, .scalar v) :: later ∧ v.primitive = p ∧ rest.admits later := by
  constructor
  · intro h
    rcases members with _ | ⟨⟨name', v | inner'⟩, later⟩
    · simp at h
    · simp only [admits, Bool.and_eq_true, beq_iff_eq] at h
      obtain ⟨⟨rfl, hPrimitive⟩, hRest⟩ := h
      exact ⟨v, later, rfl, hPrimitive, hRest⟩
    · simp at h
  · rintro ⟨v, later, rfl, rfl, hRest⟩
    simp [hRest]

theorem admits_nested_iff :
    (nested name inner rest).admits members ↔
      ∃ inner' later, members = (name, .record inner') :: later ∧ inner.admits inner' ∧
        rest.admits later := by
  constructor
  · intro h
    rcases members with _ | ⟨⟨name', v | inner'⟩, later⟩
    · simp at h
    · simp at h
    · simp only [admits, Bool.and_eq_true, beq_iff_eq] at h
      obtain ⟨⟨rfl, hInner⟩, hRest⟩ := h
      exact ⟨inner', later, rfl, hInner, hRest⟩
  · rintro ⟨inner', later, rfl, hInner, hRest⟩
    simp [hInner, hRest]

theorem admits_skipped_iff {initial : Value} :
    (skipped name initial rest).admits members ↔
      ∃ v later, members = (name, v) :: later ∧ rest.admits later := by
  constructor
  · intro h
    rcases members with _ | ⟨⟨name', v⟩, later⟩
    · simp at h
    · simp only [admits, Bool.and_eq_true, beq_iff_eq] at h
      obtain ⟨rfl, hRest⟩ := h
      exact ⟨v, later, rfl, hRest⟩
  · rintro ⟨v, later, rfl, hRest⟩
    simp [hRest]

end WireFormat

end WireRecord
