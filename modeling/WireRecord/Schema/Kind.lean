import WireRecord.Primitive

/-!
Kinds of member types. A kind is a primitive by name, or it is user-defined; two of the primitives
have a width that differs between platforms, and so none on the wire.
-/

namespace WireRecord

inductive Kind where
  | boolean | byte | sbyte | short | ushort | int | uint | long | ulong | float | double
  | nativeInt | nativeUInt | char
  | userDefined
  deriving DecidableEq, Repr

namespace Kind

/-- The kinds that have a name, with their names. -/
def named : List (String × Kind) :=
  [("bool", boolean), ("u8", byte), ("i8", sbyte), ("i16", short), ("u16", ushort), ("i32", int),
   ("u32", uint), ("i64", long), ("u64", ulong), ("f32", float), ("f64", double),
   ("isize", nativeInt), ("usize", nativeUInt), ("char", char)]

def ofName? (name : String) : Option Kind := named.lookup name

def isPrimitive (k : Kind) : Bool := k != userDefined

/-- Whether values of the kind take one byte, and so have no byte order. -/
def isSingleByte : Kind → Bool
  | boolean | byte | sbyte => true
  | _ => false

def isNativeWidth : Kind → Bool
  | nativeInt | nativeUInt => true
  | _ => false

def wireWidth : Kind → Option Nat
  | boolean | byte | sbyte => some 1
  | short | ushort | char => some 2
  | int | uint | float => some 4
  | long | ulong | double => some 8
  | nativeInt | nativeUInt | userDefined => none

/-- The primitive of fixed width that a kind is. -/
def primitive? : Kind → Option Primitive
  | boolean => some .bool
  | byte => some .u8
  | sbyte => some .i8
  | short => some .i16
  | ushort => some .u16
  | int => some .i32
  | uint => some .u32
  | long => some .i64
  | ulong => some .u64
  | float => some .f32
  | double => some .f64
  | char => some .char
  | nativeInt | nativeUInt | userDefined => none

/-- A kind has a width on the wire exactly if it is a primitive of that width. -/
theorem wireWidth_eq (k : Kind) : k.wireWidth = k.primitive?.map Primitive.width := by
  cases k <;> rfl

/-- A kind takes one byte exactly if it is a primitive that does. -/
theorem isSingleByte_eq (k : Kind) : k.isSingleByte = k.primitive?.any Primitive.isSingleByte := by
  cases k <;> rfl

end Kind

end WireRecord
