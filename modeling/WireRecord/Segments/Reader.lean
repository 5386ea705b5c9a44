import WireRecord.Cursor.Reader
import WireRecord.Segments

/-!
A read cursor over a segmented sequence. It never rests on an exhausted segment while a later one
exists, and it gathers a primitive that straddles segments before decoding it.
-/

namespace WireRecord

/-- The place reached by passing exhausted and empty segments, from a place with the bytes `current`
unread in its segment and the given segments after it. The last segment is never passed. -/
def Position.settle (p : Position) (current : Bytes) : List Bytes → Position
  | [] => p
  | next :: later => if current.isEmpty then settle ⟨p.segment + 1, 0⟩ next later else p

/-- The first `count` bytes of the given segments, taken from one after the other. -/
def gather (count : Nat) : List Bytes → Option Bytes
  | [] => if count = 0 then some [] else none
  | segment :: later =>
    if count = 0 then some []
    else (gather (count - segment.length) later).map (segment.take count ++ ·)

/-- The most bytes that are gathered for one primitive. -/
def gatherLimit : Nat := 8

/-- A sequence, the place of the next unread byte, the number of bytes before it, and the number of
bytes in the sequence. -/
structure SegmentReader where
  sequence : Segments
  position : Position
  consumed : Nat
  length : Nat
  deriving DecidableEq

namespace SegmentReader

def remaining (r : SegmentReader) : Nat := r.length - r.consumed

def isEnd (r : SegmentReader) : Bool := r.remaining == 0

/-- The unread bytes of the current segment. -/
def current (r : SegmentReader) : Bytes := r.sequence.current r.position

def later (r : SegmentReader) : List Bytes := r.sequence.later r.position

/-- The cursor past the exhausted and empty segments at its place. -/
def settle (r : SegmentReader) : SegmentReader :=
  { r with position := r.position.settle r.current r.later }

/-- A cursor at the first byte of `sequence`. -/
def start (sequence : Segments) : SegmentReader :=
  settle { sequence, position := ⟨0, 0⟩, consumed := 0, length := sequence.length }

/-- Moves `count` bytes on inside the current segment, and past it if that exhausts it. -/
def skip (r : SegmentReader) (count : Nat) : SegmentReader :=
  settle { r with
    position := { r.position with offset := r.position.offset + count }
    consumed := r.consumed + count }

/-- Moves `left` bytes on, at most to the end of a segment at a time. Fails at a place where nothing
is unread. -/
def walk (r : SegmentReader) (left : Nat) : Option SegmentReader :=
  if left = 0 then some r
  else
    let taken := min r.current.length left
    if taken = 0 then none else (r.skip taken).walk (left - taken)
termination_by left
decreasing_by omega

/-- Moves `count` bytes on, across segments as needed, unless fewer remain. -/
def advance (r : SegmentReader) (count : Nat) : Option SegmentReader :=
  if r.remaining < count then none else r.walk count

/-- The bytes from which the next primitive is decoded: those of the current segment if it holds
all of them, else as many as are needed from it and the segments after it. -/
def window (r : SegmentReader) (width : Nat) : Option Bytes :=
  if width ≤ r.current.length then some r.current
  else if gatherLimit < width then none
  else gather width (r.current :: r.later)

/-- Reads a primitive in the given byte order. -/
def read (r : SegmentReader) (p : Primitive) (order : ByteOrder) :
    Option (Scalar × SegmentReader) :=
  if r.remaining < p.width then none
  else do
    let window ← r.window p.width
    let v ← p.decode order window
    let r' ← r.advance p.width
    return (v, r')

def readByte (r : SegmentReader) (p : Primitive) : Option (Scalar × SegmentReader) :=
  r.read p .little

end SegmentReader

instance : ReadCursor SegmentReader :=
  ⟨SegmentReader.readByte, SegmentReader.read, SegmentReader.advance⟩

end WireRecord
