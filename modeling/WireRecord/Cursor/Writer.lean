import WireRecord.Primitive

/-!
A bounds-checked write cursor over a buffer of fixed length. A step either fails, and then there is
no next cursor, or writes exactly the window at the cursor and moves past it.
-/

namespace WireRecord

/-- A buffer and the offset where the next byte goes. -/
structure Writer where
  buffer : Bytes
  position : Nat := 0
  deriving DecidableEq

namespace Writer

/-- A cursor at the start of `buffer`. -/
def start (buffer : Bytes) : Writer := ⟨buffer, 0⟩

/-- Number of bytes from the cursor to the end of the buffer. -/
def remaining (w : Writer) : Nat := w.buffer.length - w.position

/-- The bytes from the cursor to the end of the buffer. -/
def tail (w : Writer) : Bytes := w.buffer.drop w.position

/-- Writes `bytes` over the start of the tail without moving; what does not fit is dropped. -/
def fill (w : Writer) (bytes : Bytes) : Writer :=
  { w with buffer := w.buffer.take w.position ++ overlay bytes w.tail }

/-- Moves `count` bytes on, unless fewer remain. -/
def advance (w : Writer) (count : Nat) : Option Writer :=
  if w.remaining < count then none else some { w with position := w.position + count }

def writeByte (w : Writer) (v : Scalar) : Option Writer :=
  match v.toByte?, w.buffer[w.position]? with
  | some byte, some _ =>
    some { buffer := w.buffer.set w.position byte, position := w.position + 1 }
  | _, _ => none

/-- Writes a primitive in the given byte order. -/
def write (w : Writer) (v : Scalar) (order : ByteOrder) : Option Writer :=
  if w.remaining < v.width then none
  else match v.encode order (w.tail.take v.width) with
    | none => none
    | some window =>
      some {
        buffer := w.buffer.take w.position ++ window ++ w.buffer.drop (w.position + v.width)
        position := w.position + v.width }

/-- Writes a primitive least significant byte first. -/
def writeLittle (w : Writer) (v : Scalar) : Option Writer := w.write v .little

/-- Writes a primitive most significant byte first. -/
def writeBig (w : Writer) (v : Scalar) : Option Writer := w.write v .big

/-- Writes a primitive by the given encoding. -/
def put (w : Writer) (v : Scalar) : Encoding → Option Writer
  | .byte => w.writeByte v
  | .ordered .little => w.writeLittle v
  | .ordered .big => w.writeBig v

end Writer

inductive WriteStep where
  | byte (v : Scalar)
  | little (v : Scalar)
  | big (v : Scalar)
  | ordered (v : Scalar) (order : ByteOrder)
  | advance (count : Nat)
  deriving DecidableEq

/-- The cursor after a step, if the step succeeds. -/
def WriteStep.next? (step : WriteStep) (w : Writer) : Option Writer :=
  match step with
  | byte v => w.writeByte v
  | little v => w.writeLittle v
  | big v => w.writeBig v
  | ordered v order => w.write v order
  | advance count => w.advance count

/-- Runs a step: whether it succeeded, and the cursor afterwards. -/
def WriteStep.run (step : WriteStep) (w : Writer) : Bool × Writer :=
  match step.next? w with
  | some w' => (true, w')
  | none => (false, w)

end WireRecord
