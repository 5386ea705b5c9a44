import WireRecord.Bytes

/-!
The twelve primitives that have a width on the wire, their values, and how a value becomes bytes.
Every value except a character outside the first 65536 is numbered by a natural below
`valueCount width`; that number is what travels.
-/

namespace WireRecord

inductive Primitive where
  | bool | u8 | i8 | i16 | u16 | i32 | u32 | i64 | u64 | f32 | f64 | char
  deriving DecidableEq, Repr

/-- How a cursor moves a primitive: as one bare byte, or as a number in a byte order. -/
inductive Encoding where
  | byte
  | ordered (order : ByteOrder)
  deriving DecidableEq, Repr

/-- A value of a primitive. Floats are held as their bit patterns, so that no payload is lost. -/
inductive Scalar where
  | bool (value : Bool)
  | u8 (value : UInt8)
  | i8 (value : Int8)
  | i16 (value : Int16)
  | u16 (value : UInt16)
  | i32 (value : Int32)
  | u32 (value : UInt32)
  | i64 (value : Int64)
  | u64 (value : UInt64)
  | f32 (bits : UInt32)
  | f64 (bits : UInt64)
  | char (value : Char)
  deriving DecidableEq

namespace Primitive

/-- Number of bytes on the wire. A character travels as one UTF-16 code unit. -/
def width : Primitive → Nat
  | bool | u8 | i8 => 1
  | i16 | u16 | char => 2
  | i32 | u32 | f32 => 4
  | i64 | u64 | f64 => 8

/-- One-byte primitives have no byte order. -/
def isSingleByte (p : Primitive) : Bool := p.width == 1

/-- The name by which a declaration refers to the primitive. -/
def name : Primitive → String
  | bool => "bool"
  | u8 => "u8"
  | i8 => "i8"
  | i16 => "i16"
  | u16 => "u16"
  | i32 => "i32"
  | u32 => "u32"
  | i64 => "i64"
  | u64 => "u64"
  | f32 => "f32"
  | f64 => "f64"
  | char => "char"

def all : List Primitive := [bool, u8, i8, i16, u16, i32, u32, i64, u64, f32, f64, char]

def ofName? (text : String) : Option Primitive := all.find? fun p => p.name == text

/-- The value a member starts from when it is not read: false, zero or the character 0. -/
def zero : Primitive → Scalar
  | bool => .bool false
  | u8 => .u8 0
  | i8 => .i8 0
  | i16 => .i16 0
  | u16 => .u16 0
  | i32 => .i32 0
  | u32 => .u32 0
  | i64 => .i64 0
  | u64 => .u64 0
  | f32 => .f32 0
  | f64 => .f64 0
  | char => .char (Char.ofNat 0)

/-- The value numbered `n`. Every number but zero stands for true, signed numbers are two's
complement, and a surrogate code unit is no character. -/
def ofCode? (p : Primitive) (n : Nat) : Option Scalar :=
  match p with
  | bool => some (.bool (n != 0))
  | u8 => some (.u8 (UInt8.ofNat n))
  | i8 => some (.i8 (UInt8.ofNat n).toInt8)
  | i16 => some (.i16 (UInt16.ofNat n).toInt16)
  | u16 => some (.u16 (UInt16.ofNat n))
  | i32 => some (.i32 (UInt32.ofNat n).toInt32)
  | u32 => some (.u32 (UInt32.ofNat n))
  | i64 => some (.i64 (UInt64.ofNat n).toInt64)
  | u64 => some (.u64 (UInt64.ofNat n))
  | f32 => some (.f32 (UInt32.ofNat n))
  | f64 => some (.f64 (UInt64.ofNat n))
  | char => if n.isValidChar then some (.char (Char.ofNat n)) else none

/-- The value of a one-byte primitive held by `byte`. -/
def ofByte? (p : Primitive) (byte : UInt8) : Option Scalar :=
  match p with
  | bool => some (.bool (byte != 0))
  | u8 => some (.u8 byte)
  | i8 => some (.i8 byte.toInt8)
  | _ => none

/-- Decodes the first bytes of `source`. Fails if they are too few or are no value of `p`. -/
def decode (p : Primitive) (order : ByteOrder) (source : Bytes) : Option Scalar :=
  if source.length < p.width then none else p.ofCode? (order.decode (source.take p.width))

end Primitive

namespace Scalar

/-- The primitive that a value belongs to. -/
def primitive : Scalar → Primitive
  | bool _ => .bool
  | u8 _ => .u8
  | i8 _ => .i8
  | i16 _ => .i16
  | u16 _ => .u16
  | i32 _ => .i32
  | u32 _ => .u32
  | i64 _ => .i64
  | u64 _ => .u64
  | f32 _ => .f32
  | f64 _ => .f64
  | char _ => .char

def width (v : Scalar) : Nat := v.primitive.width

/-- The number that travels for a value; a character above `U+FFFF` has none. -/
def code? : Scalar → Option Nat
  | bool b => some (if b then 1 else 0)
  | u8 x => some x.toNat
  | i8 x => some x.toUInt8.toNat
  | i16 x => some x.toUInt16.toNat
  | u16 x => some x.toNat
  | i32 x => some x.toUInt32.toNat
  | u32 x => some x.toNat
  | i64 x => some x.toUInt64.toNat
  | u64 x => some x.toNat
  | f32 x => some x.toNat
  | f64 x => some x.toNat
  | char c => if c.toNat < 65536 then some c.toNat else none

/-- The byte that holds a value of a one-byte primitive. -/
def toByte? : Scalar → Option UInt8
  | bool b => some (if b then 1 else 0)
  | u8 x => some x
  | i8 x => some x.toUInt8
  | _ => none

/-- Encodes a value over the first bytes of `target`. Fails, and so changes nothing, if `target` is
too short or the value has no number. -/
def encode (v : Scalar) (order : ByteOrder) (target : Bytes) : Option Bytes :=
  match v.code? with
  | none => none
  | some n =>
    if target.length < v.width then none
    else some (order.encode v.width n ++ target.drop v.width)

end Scalar

/-- The value numbered in a primitive belongs to it. -/
theorem Primitive.primitive_of_ofCode? {p : Primitive} {n : Nat} {v : Scalar}
    (h : p.ofCode? n = some v) : v.primitive = p := by
  cases p <;> simp [Primitive.ofCode?] at h
  case char => obtain ⟨_, rfl⟩ := h; rfl
  all_goals subst h; rfl

end WireRecord
