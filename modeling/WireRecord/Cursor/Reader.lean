import WireRecord.Primitive

/-!
A bounds-checked read cursor over a contiguous buffer, and the operations that every read cursor
has. A failed read has no next cursor.
-/

namespace WireRecord

/-- A buffer and the offset of the next unread byte. -/
structure Reader where
  buffer : Bytes
  position : Nat := 0
  deriving DecidableEq

namespace Reader

/-- A cursor at the start of `buffer`. -/
def start (buffer : Bytes) : Reader := ⟨buffer, 0⟩

/-- The bytes from the cursor to the end of the buffer. -/
def unread (r : Reader) : Bytes := r.buffer.drop r.position

/-- Moves `count` bytes on, unless fewer remain. -/
def advance (r : Reader) (count : Nat) : Option Reader :=
  if r.buffer.length - r.position < count then none
  else some { r with position := r.position + count }

def readByte (r : Reader) (p : Primitive) : Option (Scalar × Reader) :=
  match r.buffer[r.position]? with
  | none => none
  | some byte => (p.ofByte? byte).map fun v => (v, { r with position := r.position + 1 })

/-- Reads a primitive in the given byte order. -/
def read (r : Reader) (p : Primitive) (order : ByteOrder) : Option (Scalar × Reader) :=
  (p.decode order r.unread).map fun v => (v, { r with position := r.position + p.width })

end Reader

class ReadCursor (ρ : Type) where
  readByte : ρ → Primitive → Option (Scalar × ρ)
  /-- Reads a primitive in the given byte order. -/
  read : ρ → Primitive → ByteOrder → Option (Scalar × ρ)
  /-- Moves on by a number of bytes. -/
  advance : ρ → Nat → Option ρ

instance : ReadCursor Reader := ⟨Reader.readByte, Reader.read, Reader.advance⟩

namespace ReadCursor

variable {ρ : Type} [ReadCursor ρ]

/-- Reads a primitive least significant byte first. -/
def readLittle (r : ρ) (p : Primitive) : Option (Scalar × ρ) := read r p .little

/-- Reads a primitive most significant byte first. -/
def readBig (r : ρ) (p : Primitive) : Option (Scalar × ρ) := read r p .big

/-- Reads a primitive by the given encoding. -/
def get (r : ρ) (p : Primitive) : Encoding → Option (Scalar × ρ)
  | .byte => readByte r p
  | .ordered .little => readLittle r p
  | .ordered .big => readBig r p

end ReadCursor

inductive ReadStep where
  | byte (p : Primitive)
  | little (p : Primitive)
  | big (p : Primitive)
  | ordered (p : Primitive) (order : ByteOrder)
  | advance (count : Nat)
  deriving DecidableEq

inductive ReadReport where
  /-- The value read, if there was one. -/
  | value (v : Option Scalar)
  | moved (done : Bool)
  deriving DecidableEq

/-- The report of a read and the cursor afterwards; a failed read leaves the cursor where it was. -/
def ReadReport.ofRead {ρ : Type} (r : ρ) : Option (Scalar × ρ) → ReadReport × ρ
  | some (v, r') => (value (some v), r')
  | none => (value none, r)

/-- The report of a move and the cursor afterwards; a failed move leaves the cursor where it was. -/
def ReadReport.ofMove {ρ : Type} (r : ρ) : Option ρ → ReadReport × ρ
  | some r' => (moved true, r')
  | none => (moved false, r)

/-- Runs a step: its report, and the cursor afterwards. -/
def ReadStep.run {ρ : Type} [ReadCursor ρ] (step : ReadStep) (r : ρ) : ReadReport × ρ :=
  match step with
  | byte p => ReadReport.ofRead r (ReadCursor.readByte r p)
  | little p => ReadReport.ofRead r (ReadCursor.readLittle r p)
  | big p => ReadReport.ofRead r (ReadCursor.readBig r p)
  | ordered p order => ReadReport.ofRead r (ReadCursor.read r p order)
  | advance count => ReadReport.ofMove r (ReadCursor.advance r count)

end WireRecord
