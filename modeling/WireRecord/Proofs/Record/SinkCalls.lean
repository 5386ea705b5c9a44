import Mathlib.Data.List.Flatten
import WireRecord.Proofs.Record.SinkRun

/-!
The calls that the write of a record makes of a sink. Nothing is assumed of the sink: it may refuse,
or hand out a region that is longer than asked for or, against its contract, shorter. There is one
request and, if the whole record was written into the region, one commitment, both for the size of
the record.
-/

namespace WireRecord

/-- A call of a sink, with what the sink answers to a request. -/
inductive SinkCall where
  | getSpan (request : Nat) (answer : Except SinkError Bytes)
  | store (bytes : Bytes)
  | advance (count : Nat)

namespace SinkCall

def requested? : SinkCall → Option Nat
  | getSpan request _ => some request
  | store _ | advance _ => none

/-- What the region is left as. -/
def stored? : SinkCall → Option Bytes
  | store bytes => some bytes
  | getSpan _ _ | advance _ => none

def committed? : SinkCall → Option Nat
  | advance count => some count
  | getSpan _ _ | store _ => none

end SinkCall

variable {σ : Type}

/-- The sink with a record of all its calls, in order. -/
@[reducible] def Sink.recorded (sink : Sink σ) : Sink (σ × List SinkCall) where
  getSpan := fun (s, calls) request =>
    ((sink.getSpan s request).1,
      (sink.getSpan s request).2, calls ++ [.getSpan request (sink.getSpan s request).1])
  store := fun (s, calls) bytes => (sink.store s bytes, calls ++ [.store bytes])
  advance := fun (s, calls) count => (sink.advance s count, calls ++ [.advance count])

/-- The record of calls does not get in the way of a request. -/
theorem Sink.recorded_getSpan (sink : Sink σ) {s s' : σ} {request : Nat}
    {answer : Except SinkError Bytes} (calls : List SinkCall)
    (hSpan : sink.getSpan s request = (answer, s')) :
    sink.recorded.getSpan (s, calls) request = (answer, s', calls ++ [.getSpan request answer]) := by
  change ((sink.getSpan s request).1, (sink.getSpan s request).2,
    calls ++ [SinkCall.getSpan request (sink.getSpan s request).1]) = _
  rw [hSpan]

/-- The bytes after those that are written over stay. -/
theorem drop_overlay {new old : Bytes} {count : Nat} (hLength : new.length ≤ count) :
    (overlay new old).drop count = old.drop count := by
  rcases Nat.le_total new.length old.length with hInside | hOutside
  · rw [overlay_eq_append hInside, List.drop_append, List.drop_eq_nil_of_le hLength,
      List.nil_append, List.drop_drop, Nat.add_sub_cancel' hLength]
  · have hOld : old.length ≤ count := Nat.le_trans hOutside hLength
    rw [List.drop_eq_nil_of_le hOld, List.drop_eq_nil_of_le ((length_overlay ..).trans_le hOld)]

/-- A write that fails puts down no more than the whole record has. -/
theorem Leaf.length_written_le (leaves : List Leaf) :
    (written leaves).length ≤ (leaves.flatMap bytes).length :=
  ((List.takeWhile_sublist fits).flatMap bytes).length_le

namespace Entry

/-- A record that is written into a region of any length succeeds if the region is long enough and
the record can be encoded, and leaves the bytes after its size as they are. -/
theorem exists_write (e : Entry) (region : Bytes) :
    ∃ done bytes, e.type.write e.value region = (done, bytes) ∧
      (done = true ↔ e.type.size ≤ region.length ∧ e.Encodable) ∧
      bytes.length = region.length ∧ bytes.drop e.type.size = region.drop e.type.size ∧
      (done = true → bytes.take e.type.size = e.encoding) := by
  obtain ⟨hValue, hAdmits⟩ := e.admits_members
  have hWrite := e.derived.writesAs.write_eq region hAdmits
  rw [← hValue, ← e.derived.size_eq] at hWrite
  rcases Nat.lt_or_ge region.length e.type.size with hShort | hLong
  · rw [if_pos hShort] at hWrite
    refine ⟨false, region, hWrite, ?_, rfl, rfl, fun hDone => by cases hDone⟩
    exact iff_of_false Bool.false_ne_true fun hBoth => Nat.not_le.mpr hShort hBoth.1
  · rw [if_neg (Nat.not_lt.mpr hLong)] at hWrite
    have hSize : (Leaf.written e.leaves).length ≤ e.type.size :=
      (Leaf.length_written_le e.leaves).trans_eq e.length_encoding
    refine ⟨_, _, hWrite, ?_, length_overlay .., drop_overlay hSize, fun hFits => ?_⟩
    · rw [Leaf.all_fits_iff]
      exact (and_iff_right hLong).symm
    · obtain ⟨bytes, hRegion, _, hStart⟩ := e.write_region hLong
      cases hWrite.symm.trans hRegion
      exact hStart hFits

theorem writeTo_of_refused [Sink σ] (e : Entry) {s s' : σ} {error : SinkError}
    (hRefused : Sink.getSpan s e.type.size = (.error error, s')) : e.writeTo s = (false, s') := by
  simp only [writeTo, RecordType.writeTo, hRefused]

/-- A region that is handed out is written to in any case, and committed only if the whole record is
there. -/
theorem writeTo_of_granted [Sink σ] (e : Entry) {s s' : σ} {region bytes : Bytes} {done : Bool}
    (hGranted : Sink.getSpan s e.type.size = (.ok region, s'))
    (hWrite : e.type.write e.value region = (done, bytes)) :
    e.writeTo s = if done then (true, Sink.advance (Sink.store s' bytes) e.type.size)
      else (false, Sink.store s' bytes) := by
  simp only [writeTo, RecordType.writeTo, hGranted, hWrite]

variable (e : Entry) (sink : Sink σ) (s : σ)

/-- Writes the record and keeps the calls: whether it was written, the sink, and the calls. -/
def watched : Bool × σ × List SinkCall := @writeTo _ sink.recorded e (s, [])

variable {sink s}

/-- If the request is refused, nothing else is asked of the sink. -/
theorem watched_of_refused {error : SinkError} {s' : σ}
    (hRefused : sink.getSpan s e.type.size = (.error error, s')) :
    e.watched sink s = (false, s', [.getSpan e.type.size (.error error)]) :=
  @writeTo_of_refused _ sink.recorded e (s, []) _ _ (sink.recorded_getSpan [] hRefused)

/-- If a region is handed out, the record is written into it and committed if that succeeds. -/
theorem watched_of_granted {region bytes : Bytes} {s' : σ} {done : Bool}
    (hGranted : sink.getSpan s e.type.size = (.ok region, s'))
    (hWrite : e.type.write e.value region = (done, bytes)) :
    e.watched sink s =
      if done then (true, sink.advance (sink.store s' bytes) e.type.size,
        [.getSpan e.type.size (.ok region), .store bytes, .advance e.type.size])
      else (false, sink.store s' bytes, [.getSpan e.type.size (.ok region), .store bytes]) :=
  @writeTo_of_granted _ sink.recorded e (s, []) _ _ _ _ (sink.recorded_getSpan [] hGranted) hWrite

/-- Keeping the calls has no effect on the write. -/
theorem watched_eq (sink : Sink σ) (s : σ) :
    ((e.watched sink s).1, (e.watched sink s).2.1) = @writeTo _ sink e s := by
  rcases hSpan : sink.getSpan s e.type.size with ⟨error | region, s'⟩
  · rw [e.watched_of_refused hSpan, @writeTo_of_refused _ sink e s _ _ hSpan]
  · obtain ⟨done, bytes, hWrite, _⟩ := e.exists_write region
    rw [e.watched_of_granted hSpan hWrite, @writeTo_of_granted _ sink e s _ _ _ _ hSpan hWrite]
    cases done <;> rfl

variable (sink s)

/-- What a sink sees of the write of a record. -/
structure AllOrNothing : Prop where
  /-- One region is asked for, of the size of the record. -/
  requests : (e.watched sink s).2.2.filterMap SinkCall.requested? = [e.type.size]
  done_iff : (e.watched sink s).1 = true ↔ ∃ region : Bytes,
    (sink.getSpan s e.type.size).1 = .ok region ∧ e.type.size ≤ region.length ∧ e.Encodable
  /-- The size of the record is committed once if the record was written, and else nothing is. -/
  commits : (e.watched sink s).2.2.filterMap SinkCall.committed? =
    if (e.watched sink s).1 then [e.type.size] else []
  /-- A region that was handed out is left as it was after the size of the record. If the record was
  written, its encoding stands before. -/
  leaves : ∀ region : Bytes, (sink.getSpan s e.type.size).1 = .ok region →
    ∃ bytes, (e.watched sink s).2.2.filterMap SinkCall.stored? = [bytes] ∧
      bytes.length = region.length ∧ bytes.drop e.type.size = region.drop e.type.size ∧
      ((e.watched sink s).1 = true → bytes.take e.type.size = e.encoding)

variable {e sink s}

theorem allOrNothing_of_refused {error : SinkError} {s' : σ}
    (hRefused : sink.getSpan s e.type.size = (.error error, s')) : e.AllOrNothing sink s := by
  have hWatched := e.watched_of_refused hRefused
  have hNone : ∀ region : Bytes, (sink.getSpan s e.type.size).1 ≠ .ok region := by simp [hRefused]
  refine ⟨?_, ?_, ?_, fun region hGranted => absurd hGranted (hNone region)⟩
  · rw [hWatched]
    rfl
  · rw [hWatched]
    exact iff_of_false Bool.false_ne_true fun ⟨region, hGranted, _⟩ => hNone region hGranted
  · rw [hWatched]
    rfl

/-- After a granted request the region is stored once, and committed at most once. -/
theorem allOrNothing_of_granted {region : Bytes} {s' : σ}
    (hGranted : sink.getSpan s e.type.size = (.ok region, s')) : e.AllOrNothing sink s := by
  obtain ⟨done, bytes, hWrite, hDone, hLength, hRest, hStart⟩ := e.exists_write region
  have hWatched := e.watched_of_granted hGranted hWrite
  have hReport : (e.watched sink s).1 = done := by
    rw [hWatched]
    cases done <;> rfl
  have hRegion : ∀ region' : Bytes, (sink.getSpan s e.type.size).1 = .ok region' ↔
      region' = region := by simp [hGranted, eq_comm]
  refine ⟨?_, ?_, ?_, fun region' hSame => ⟨bytes, ?_, ?_⟩⟩
  · rw [hWatched]
    cases done <;> rfl
  · simp only [hReport, hDone, hRegion, exists_eq_left]
  · rw [hReport, hWatched]
    cases done <;> rfl
  · rw [hWatched]
    cases done <;> rfl
  · rw [hReport, (hRegion region').mp hSame]
    exact ⟨hLength, hRest, hStart⟩

end Entry

/-- Whatever sink a record is written to, it commits all of the record or nothing. That the calls
are kept has no effect on what is done. -/
theorem writes_commit_all_or_nothing (e : Entry) {σ : Type} (sink : Sink σ) (s : σ) :
    e.AllOrNothing sink s ∧
      ((e.watched sink s).1, (e.watched sink s).2.1) = @Entry.writeTo _ sink e s := by
  refine ⟨?_, e.watched_eq sink s⟩
  rcases hSpan : sink.getSpan s e.type.size with ⟨error | region, s'⟩
  · exact Entry.allOrNothing_of_refused hSpan
  · exact Entry.allOrNothing_of_granted hSpan

/-- A sink that hands out the bytes that it has, whatever is asked for. -/
@[reducible] def Sample.handout : Sink Bytes where
  getSpan := fun bytes _ => (.ok bytes, bytes)
  store := fun _ bytes => bytes
  advance := fun bytes count => bytes.drop count

/-- Three bytes are too few for a letter. Of seven bytes it takes five. -/
example : Sample.letterEntry.watched Sample.handout [9, 9, 9] =
      (false, [9, 9, 9], [.getSpan 5 (.ok [9, 9, 9]), .store [9, 9, 9]]) ∧
    Sample.letterEntry.watched Sample.handout [9, 9, 9, 9, 9, 9, 9] =
      (true, [9, 9], [.getSpan 5 (.ok [9, 9, 9, 9, 9, 9, 9]), .store [1, 2, 0x26, 0x3a, 1, 9, 9],
        .advance 5]) := ⟨rfl, rfl⟩

end WireRecord
