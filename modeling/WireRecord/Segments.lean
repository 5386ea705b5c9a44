import WireRecord.Bytes

/-!
Byte sequences held in several segments, and their slices. The bytes of a sequence are those of its
segments in order; empty segments may stand anywhere.
-/

namespace WireRecord

/-- A sequence of bytes in one or more segments. -/
structure Segments where
  first : Bytes
  rest : List Bytes
  deriving DecidableEq

/-- A place in a sequence: a segment, and an offset into it. -/
structure Position where
  segment : Nat
  offset : Nat
  deriving DecidableEq, Repr

namespace Segments

def ofBytes (bytes : Bytes) : Segments := ⟨bytes, []⟩

/-- The sequence of the given segments; no segment at all counts as one empty segment. -/
def ofList : List Bytes → Segments
  | [] => ofBytes []
  | first :: rest => ⟨first, rest⟩

def toList (s : Segments) : List Bytes := s.first :: s.rest

def bytes (s : Segments) : Bytes := s.toList.flatten

/-- Whether the sequence has exactly one segment. -/
def isSingle (s : Segments) : Bool := s.rest.isEmpty

def length (s : Segments) : Nat := (s.toList.map List.length).foldr (· + ·) 0

def isEmpty (s : Segments) : Bool := s.toList.all List.isEmpty

def segment? (s : Segments) (index : Nat) : Option Bytes := s.toList[index]?

/-- The unread bytes of the segment that a place lies in. -/
def current (s : Segments) (p : Position) : Bytes := ((s.segment? p.segment).getD []).drop p.offset

/-- The segments after the one that a place lies in. -/
def later (s : Segments) (p : Position) : List Bytes := s.toList.drop (p.segment + 1)

/-- The part of the sequence from a place to the end. It is empty if the sequence has no such
segment; an offset past the end of its segment leaves the later segments. -/
def slice (s : Segments) (p : Position) : Segments :=
  match s.segment? p.segment with
  | none => ofBytes []
  | some segment => ⟨segment.drop p.offset, s.later p⟩

/-- The length of a sequence is that of its bytes, however they are cut. -/
theorem length_eq (s : Segments) : s.length = s.bytes.length := by
  unfold length bytes
  induction s.toList with
  | nil => rfl
  | cons segment later ih => simp [ih]

end Segments

end WireRecord
