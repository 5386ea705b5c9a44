import WireRecord.Record.Value
import WireRecord.Segments.Reader
import WireRecord.Sink

/-!
Types that can be nested in a record: a fixed size, and a writer and two readers that agree on it.
Writing into a sink is the same for all of them, so it is defined once.
-/

namespace WireRecord

/-- A type with a fixed-size binary encoding. -/
structure RecordType where
  shape : Shape
  /-- Number of bytes on the wire, the same for every value. -/
  size : Nat
  /-- Writes a value into the start of a buffer: whether it succeeded, and the buffer afterwards. -/
  write : Value → Bytes → Bool × Bytes
  /-- Reads a value from the start of a buffer. -/
  read : Bytes → Option Value
  /-- Reads a value from the start of a segmented sequence. -/
  readSequence : Segments → Option Value
  /-- The value that a member of the type starts from when it is not read. -/
  initial : Value := shape.zero

namespace RecordType

/-- The type of values of a shape that cannot be encoded. -/
def unencoded (shape : Shape) : RecordType where
  shape := shape
  size := 0
  write := fun _ buffer => (false, buffer)
  read := fun _ => none
  readSequence := fun _ => none

/-- Writes a value into a sink. The sink is asked for one region of the type's size, and commits
that size exactly if the whole value was written. -/
def writeTo {σ : Type} [Sink σ] (t : RecordType) (v : Value) (sink : σ) : Bool × σ :=
  match Sink.getSpan sink t.size with
  | (.error _, sink) => (false, sink)
  | (.ok span, sink) =>
    let (done, span) := t.write v span
    let sink := Sink.store sink span
    if done then (true, Sink.advance sink t.size) else (false, sink)

end RecordType

end WireRecord
