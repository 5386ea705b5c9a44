import WireRecord.Bytes

/-!
Sinks: destinations that hand out a writable region after the bytes committed so far. A growable
sink extends its buffer on request; a fixed sink has only the buffer that it was given.
-/

namespace WireRecord

/-- Number of addressable bytes; a length at or above it cannot be expressed. -/
def addressSpace : Nat := Nat.pow 2 64

/-- The largest buffer that may exist at all. -/
def largestBuffer : Nat := Nat.pow 2 63 - 1

/-- The largest buffer that the allocator grants. -/
def largestGrant : Nat := Nat.pow 2 62 - 1

inductive AllocationFailure where
  /-- The buffer would be larger than any buffer may be. -/
  | tooLarge
  | refused
  deriving DecidableEq, Repr

/-- Why a sink cannot hand out a region. -/
inductive SinkError where
  | outOfMemory (cause : AllocationFailure)
  | capacityExceeded (requested limit : Nat)
  deriving DecidableEq, Repr

/-- What is said to a request for a buffer of some length: nothing if it is granted. -/
abbrev Allocator := Nat → Option AllocationFailure

/-- Grants the lengths up to `largestGrant`. -/
def Allocator.bounded : Allocator := fun length =>
  if largestBuffer < length then some .tooLarge
  else if largestGrant < length then some .refused
  else none

def AllocationFailure.message : AllocationFailure → String
  | tooLarge =>
    "memory allocation failed because the computed capacity exceeded the collection's maximum"
  | refused => "memory allocation failed because the memory allocator returned an error"

namespace SinkError

def message : SinkError → String
  | outOfMemory cause => "sink allocation failed: " ++ cause.message
  | capacityExceeded requested limit =>
    "sink capacity exceeded: " ++ toString requested ++ " bytes requested, limit is " ++
      toString limit

/-- The failure underneath a sink error, if there is one. -/
def cause? : SinkError → Option AllocationFailure
  | outOfMemory cause => some cause
  | capacityExceeded _ _ => none

end SinkError

/-- What a record needs of a sink. -/
class Sink (σ : Type) where
  /-- Asks for a region of at least so many bytes: the region as it is, or why there is none, and
  the sink afterwards. -/
  getSpan : σ → Nat → Except SinkError Bytes × σ
  /-- The sink after the region handed out last was changed to the given bytes. -/
  store : σ → Bytes → σ
  /-- Commits so many bytes of the region handed out last. -/
  advance : σ → Nat → σ

/-- A sink that grows, up to a limit if it has one. -/
structure GrowableSink where
  buffer : Bytes := []
  committed : Nat := 0
  limit : Option Nat := none
  deriving DecidableEq

namespace GrowableSink

def empty (limit : Option Nat) : GrowableSink := { limit }

def written (s : GrowableSink) : Bytes := s.buffer.take s.committed

def region (s : GrowableSink) : Bytes := s.buffer.drop s.committed

/-- Extends the buffer with zeros to `length` bytes, if it is shorter and the allocator grants
it. -/
def grow (s : GrowableSink) (length : Nat) (allocator : Allocator := .bounded) :
    Except SinkError GrowableSink :=
  if length ≤ s.buffer.length then .ok s
  else
    match allocator length with
    | some cause => .error (.outOfMemory cause)
    | none => .ok { s with buffer := s.buffer ++ List.replicate (length - s.buffer.length) 0 }

/-- Makes room for `request` bytes after the committed ones. -/
def reserve (s : GrowableSink) (request : Nat) (allocator : Allocator := .bounded) :
    Except SinkError GrowableSink :=
  let length := s.committed + request
  if addressSpace ≤ length then
    .error (.capacityExceeded request (addressSpace - 1 - s.committed))
  else
    match s.limit with
    | none => s.grow length allocator
    | some limit =>
      if limit < length then .error (.capacityExceeded request (limit - s.committed))
      else s.grow length allocator

/-- Hands out the region after the committed bytes. -/
def getSpan (s : GrowableSink) (request : Nat) (allocator : Allocator := .bounded) :
    Except SinkError Bytes × GrowableSink :=
  match s.reserve request allocator with
  | .ok s' => (.ok s'.region, s')
  | .error e => (.error e, s)

/-- Changes the bytes after the committed ones. -/
def store (s : GrowableSink) (bytes : Bytes) : GrowableSink :=
  { s with buffer := s.buffer.take s.committed ++ overlay bytes s.region }

/-- Commits `count` more bytes, or all there are. -/
def advance (s : GrowableSink) (count : Nat) : GrowableSink :=
  { s with committed := min (s.committed + count) s.buffer.length }

/-- Takes back all commitments; the buffer stays as it is. -/
def clear (s : GrowableSink) : GrowableSink := { s with committed := 0 }

/-- Growable sinks that meet an allocator. -/
@[reducible] def sink (allocator : Allocator) : Sink GrowableSink :=
  ⟨fun s request => s.getSpan request allocator, store, advance⟩

end GrowableSink

instance : Sink GrowableSink := GrowableSink.sink .bounded

/-- A sink over a buffer of fixed length. -/
structure FixedSink where
  buffer : Bytes
  committed : Nat := 0
  deriving DecidableEq

namespace FixedSink

/-- A sink that writes into `buffer` from its start. -/
def ofBuffer (buffer : Bytes) : FixedSink := { buffer }

def written (s : FixedSink) : Bytes := s.buffer.take s.committed

def region (s : FixedSink) : Bytes := s.buffer.drop s.committed

/-- Hands out the region after the committed bytes, if it is long enough. -/
def getSpan (s : FixedSink) (request : Nat) : Except SinkError Bytes × FixedSink :=
  let available := s.buffer.length - s.committed
  if available < request then (.error (.capacityExceeded request available), s)
  else (.ok s.region, s)

/-- Changes the bytes after the committed ones. -/
def store (s : FixedSink) (bytes : Bytes) : FixedSink :=
  { s with buffer := s.buffer.take s.committed ++ overlay bytes s.region }

/-- Commits `count` more bytes, or all there are. -/
def advance (s : FixedSink) (count : Nat) : FixedSink :=
  { s with committed := min (s.committed + count) s.buffer.length }

@[reducible] def sink : Sink FixedSink := ⟨getSpan, store, advance⟩

end FixedSink

instance : Sink FixedSink := FixedSink.sink

/-- One step of a sink script: ask for a region and write to its start, or commit. -/
inductive SinkStep where
  | span (request : Nat) (bytes : Bytes)
  | advance (count : Nat)
  deriving DecidableEq

/-- Runs a step: the region handed out or the error, if the step asks for one, and the sink
afterwards. -/
def SinkStep.run {σ : Type} [Sink σ] (step : SinkStep) (s : σ) :
    Option (Except SinkError Bytes) × σ :=
  match step with
  | advance count => (none, Sink.advance s count)
  | span request bytes =>
    match Sink.getSpan s request with
    | (.ok region, s') => (some (.ok region), Sink.store s' (overlay bytes region))
    | (.error e, s') => (some (.error e), s')

end WireRecord
