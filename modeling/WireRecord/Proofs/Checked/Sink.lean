import WireRecord.Proofs.Checked.Segments
import WireRecord.Proofs.Sink.Headroom

/-!
Sinks with every step checked, and what the checks come to for cursors, sequences and sinks alike:
no script and no history leads to a state in which any operation meets a fault, whatever it is
given.
-/

namespace WireRecord

open Checked

/-- What a sink does itself, with every step checked. What is stored in a region that it handed out
is not its own doing. -/
structure CheckedSink (σ : Type) where
  getSpan : σ → Nat → Checked (Except SinkError Bytes × σ)
  advance : σ → Nat → Checked σ

/-- The sink after an action. -/
def SinkAction.runChecked {σ : Type} (sink : Sink σ) (checked : CheckedSink σ) (a : SinkAction)
    (s : σ) : Checked σ :=
  match a with
  | advance count => checked.advance s count
  | span request settings => do
    match ← checked.getSpan s request with
    | (.ok region, s') => return sink.store s' (setBytes settings region)
    | (.error _, s') => return s'

/-- Neither asking for a region nor committing meets a fault. -/
structure Sink.Faultless {σ : Type} (sink : Sink σ) (checked : CheckedSink σ) (s : σ) : Prop where
  getSpan : ∀ request, checked.getSpan s request = pure (sink.getSpan s request)
  advance : ∀ count, checked.advance s count = pure (sink.advance s count)

/-- A call on a sink faults only if the sink does, or else a write into the region that it has
handed out. -/
theorem SinkAction.runChecked_eq {σ : Type} {sink : Sink σ} {checked : CheckedSink σ} {s : σ}
    (h : sink.Faultless checked s) (view : σ → FixedSink) (a : SinkAction) :
    a.runChecked sink checked s = pure (a.run sink view s).1 := by
  cases a with
  | advance count => exact h.advance count
  | span request settings =>
      rw [runChecked, h.getSpan, pure_bind, run]
      split <;> simp only [*]

theorem runHistory_eq_foldl {α σ : Type} (run : α → σ → σ × List Setting) (history : List α)
    (s : σ) : (runHistory run history s).1 = history.foldl (fun s a => (run a s).1) s := by
  induction history generalizing s with
  | nil => rfl
  | cons a later ih => exact ih _

namespace FixedSink

def writtenChecked (s : FixedSink) : Checked Bytes := take s.buffer s.committed

def getSpanChecked (s : FixedSink) (request : Nat) :
    Checked (Except SinkError Bytes × FixedSink) := do
  let available ← sub s.buffer.length s.committed
  if available < request then return (.error (.capacityExceeded request available), s)
  let region ← drop s.buffer s.committed
  return (.ok region, s)

def advanceChecked (s : FixedSink) (count : Nat) : Checked FixedSink :=
  return { s with committed := min (saturate s.committed count) s.buffer.length }

def checkedSink : CheckedSink FixedSink := ⟨getSpanChecked, advanceChecked⟩

/-- The sink over a buffer that a history leads to. -/
def afterChecked (buffer : Bytes) (history : List SinkAction) : Checked FixedSink :=
  history.foldlM (fun s a => a.runChecked sink checkedSink s) (ofBuffer buffer)

/-- No more is committed than there is, and nothing that is done with the sink meets a fault. -/
structure Safe (s : FixedSink) : Prop where
  committed_le : s.committed ≤ s.buffer.length
  written : s.writtenChecked = pure s.written
  faultless : sink.Faultless checkedSink s

/-- That no more is committed than there is, and that the buffer fits into the address space, is all
that the checks of a sink need. -/
theorem safe_of_inside {s : FixedSink} (h : Inside s.buffer s.committed) : s.Safe where
  committed_le := h.position_le
  written := take_eq h.position_le
  faultless := by
    constructor
    · intro request
      change s.getSpanChecked request = pure (s.getSpan request)
      rw [getSpanChecked, getSpan, h.sub_eq, pure_bind]
      split
      · rfl
      · rw [h.drop_eq, pure_bind, region]
    · intro count
      change s.advanceChecked count = pure (s.advance count)
      rw [advanceChecked, min_saturate h.length_lt, advance]

theorem safe_after {buffer : Bytes} (hBuffer : buffer.length < addressSpace)
    (history : List SinkAction) : (after buffer history).Safe := by
  obtain ⟨hValid, _, hLength⟩ := sound_after buffer history
  exact safe_of_inside ⟨hValid, hLength.trans_lt hBuffer⟩

/-- A history of calls, checked one by one, runs as it does without checks. -/
theorem afterChecked_eq {buffer : Bytes} (hBuffer : buffer.length < addressSpace)
    (history : List SinkAction) : afterChecked buffer history = pure (after buffer history) := by
  rw [afterChecked, after, runHistory_eq_foldl]
  refine foldlM_eq (fun earlier a => ?_) history
  rw [← runHistory_eq_foldl, ← after]
  exact a.runChecked_eq (safe_after hBuffer earlier).faultless id

end FixedSink

namespace GrowableSink

def writtenChecked (s : GrowableSink) : Checked Bytes := take s.buffer s.committed

def growChecked (s : GrowableSink) (length : Nat) (allocator : Allocator) :
    Checked (Except SinkError GrowableSink) := do
  if s.buffer.length < length then
    let missing ← sub length s.buffer.length
    match allocator length with
    | some cause => return .error (.outOfMemory cause)
    | none => return .ok { s with buffer := s.buffer ++ List.replicate missing 0 }
  else return .ok s

def reserveChecked (s : GrowableSink) (request : Nat) (allocator : Allocator) :
    Checked (Except SinkError GrowableSink) := do
  -- what is left of the address space is computed for every request
  let left ← sub (addressSpace - 1) s.committed
  let some length := add? s.committed request | return .error (.capacityExceeded request left)
  let some limit := s.limit | s.growChecked length allocator
  if limit < length then return .error (.capacityExceeded request (← sub limit s.committed))
  s.growChecked length allocator

def getSpanChecked (s : GrowableSink) (request : Nat) (allocator : Allocator) :
    Checked (Except SinkError Bytes × GrowableSink) := do
  match ← s.reserveChecked request allocator with
  | .error e => return (.error e, s)
  | .ok s' => return (.ok (← drop s'.buffer s'.committed), s')

def advanceChecked (s : GrowableSink) (count : Nat) : Checked GrowableSink :=
  return { s with committed := min (saturate s.committed count) s.buffer.length }

def checkedSink (allocator : Allocator) : CheckedSink GrowableSink :=
  ⟨fun s request => s.getSpanChecked request allocator, advanceChecked⟩

def actChecked (s : GrowableSink) : GrowableAction → Checked GrowableSink
  | .act allocator a => a.runChecked (sink allocator) (checkedSink allocator) s
  | .clear => return s.clear

/-- No more is committed than there is, there is no more than the limit allows, and nothing that is
done with the sink meets a fault. -/
structure Safe (s : GrowableSink) : Prop where
  committed_le : s.committed ≤ s.buffer.length
  length_le : ∀ limit ∈ s.limit, s.buffer.length ≤ limit
  written : s.writtenChecked = pure s.written
  faultless : ∀ allocator, (sink allocator).Faultless (checkedSink allocator) s

variable {s s' : GrowableSink}

theorem growChecked_eq (s : GrowableSink) (length : Nat) (allocator : Allocator) :
    s.growChecked length allocator = pure (s.grow length allocator) := by
  rw [growChecked, grow]
  rcases Nat.lt_or_ge s.buffer.length length with hMore | hEnough
  · rw [if_pos hMore, if_neg (Nat.not_le.mpr hMore), sub_eq (Nat.le_of_lt hMore), pure_bind]
    cases allocator length <;> rfl
  · rw [if_neg (Nat.not_lt.mpr hEnough), if_pos hEnough]

theorem Within.inside (h : s.Within) : Inside s.buffer s.committed :=
  ⟨h.committed_le, Nat.lt_of_le_of_lt h.length_le s.capacity_lt⟩

/-- A reservation adds to what is committed only after it has looked whether the sum fits into a
word. -/
theorem Within.reserveChecked_eq (h : s.Within) (request : Nat) (allocator : Allocator) :
    s.reserveChecked request allocator = pure (s.reserve request allocator) := by
  have hCommitted : s.committed ≤ addressSpace - 1 :=
    Nat.le_sub_one_of_lt (Nat.lt_of_le_of_lt h.committed_le h.inside.length_lt)
  simp only [reserveChecked, reserve, sub_eq hCommitted, pure_bind, growChecked_eq]
  rcases Nat.lt_or_ge (s.committed + request) addressSpace with hInside | hOutside
  · simp only [add?, if_pos hInside, if_neg (Nat.not_le.mpr hInside)]
    cases hLimit : s.limit with
    | none => rfl
    | some limit =>
        have hBound : s.committed ≤ limit :=
          Nat.le_trans h.committed_le (Nat.le_trans h.length_le (capacity_le hLimit))
        simp only [sub_eq hBound, pure_bind]
        split <;> rfl
  · simp only [add?, if_neg (Nat.not_lt.mpr hOutside), if_pos hOutside]

/-- Room is made after the committed bytes. -/
theorem committed_le_of_reserve {request : Nat} {allocator : Allocator}
    (h : s.committed ≤ s.buffer.length) (hReserve : s.reserve request allocator = .ok s') :
    s'.committed ≤ s'.buffer.length := by
  rcases s.reserve_cases request allocator with ⟨e, hError⟩ | ⟨hGrows, _⟩
  · rw [hReserve] at hError
    cases hError
  · rcases s.grow_cases (s.committed + request) allocator with ⟨e, hError⟩ | ⟨count, hGrow, _⟩
    · rw [← hGrows, hReserve] at hError
      cases hError
    · rw [← hGrows, hReserve] at hGrow
      cases hGrow
      rw [extended, List.length_append]
      exact Nat.le_add_right_of_le h

/-- No call on a growable sink faults, whatever the allocator answers. -/
theorem Within.faultless (h : s.Within) (allocator : Allocator) :
    (sink allocator).Faultless (checkedSink allocator) s where
  getSpan := by
    intro request
    change s.getSpanChecked request allocator = pure (s.getSpan request allocator)
    rw [getSpanChecked, h.reserveChecked_eq, pure_bind, getSpan]
    cases hReserve : s.reserve request allocator with
    | error e => rfl
    | ok s' =>
        simp only [drop_eq (committed_le_of_reserve h.committed_le hReserve), pure_bind]
        rfl
  advance := by
    intro count
    change s.advanceChecked count = pure (s.advance count)
    rw [advanceChecked, min_saturate h.inside.length_lt, advance]

theorem Within.safe (h : s.Within) : s.Safe where
  committed_le := h.committed_le
  length_le := fun _ hLimit => Nat.le_trans h.length_le (capacity_le hLimit)
  written := take_eq h.committed_le
  faultless := h.faultless

/-- No action on a growable sink faults, and clearing it does not either. -/
theorem Within.actChecked_eq (h : s.Within) (a : GrowableAction) :
    s.actChecked a = pure (s.act a) := by
  cases a with
  | act allocator a => exact a.runChecked_eq (h.faultless allocator) fixed
  | clear => rfl

end GrowableSink

namespace FamilyAction

def runChecked (members : List GrowableSink) : FamilyAction → Checked (List GrowableSink)
  | use place a => do
    let some s := members[place]? | return members
    let s' ← s.actChecked a
    return members.set place s'
  | clone place => return members ++ members[place]?.toList

/-- The sinks of a family that starts with an empty sink. -/
def sinksChecked (limit : Option Nat) (steps : List FamilyAction) : Checked (List GrowableSink) :=
  steps.foldlM runChecked [GrowableSink.empty limit]

theorem runChecked_eq {members : List GrowableSink} (h : ∀ s ∈ members, s.Within)
    (step : FamilyAction) : step.runChecked members = pure (step.run GrowableSink.act members) := by
  cases step with
  | clone place => rfl
  | use place a =>
      rw [runChecked, run, List.modify_eq_set_getElem?]
      cases hMember : members[place]? with
      | none => rfl
      | some s =>
          have hWithin := h s (List.mem_of_getElem? hMember)
          simp only [hWithin.actChecked_eq, pure_bind]
          rfl

/-- A family of sinks, made from one by acting and cloning, runs as it does without checks. -/
theorem sinksChecked_eq (limit : Option Nat) (steps : List FamilyAction) :
    sinksChecked limit steps = pure (sinks limit steps) :=
  foldlM_eq (fun _ step => runChecked_eq
    (fun _ hMember => (GrowableSink.within_of_mem_sinks hMember).2) step) steps

end FamilyAction

/-- Every script of a cursor, over a buffer or a sequence, and every history of sinks runs without a
fault, so that all loops end, and comes to the state that it comes to without the checks. In this
state the invariants hold that the operations rely on, and each operation, with whatever it is
given, computes without a fault what it computes unchecked. That includes steps that fail, and
slices at places of other sequences; these have no more bytes and segments than the sequence, so
slices of slices are covered. A cursor that is copied and restored is where an earlier script led.
-/
theorem operations_never_fault :
    (∀ buffer : Bytes, buffer.length < addressSpace →
      (∀ script, Writer.afterChecked buffer script = pure (Writer.after buffer script) ∧
        (Writer.after buffer script).Safe) ∧
      (∀ script, ReadStep.finishChecked script (Reader.start buffer) =
          pure (ReadStep.finish script (Reader.start buffer)) ∧
        (ReadStep.finish script (Reader.start buffer)).Safe) ∧
      ∀ history, FixedSink.afterChecked buffer history = pure (FixedSink.after buffer history) ∧
        (FixedSink.after buffer history).Safe) ∧
    (∀ s : Segments, s.Addressable →
      s.lengthChecked = pure s.length ∧
      (∀ p, s.sliceChecked p = pure (s.slice p) ∧ (s.slice p).Addressable) ∧
      ∀ script, s.cursorAfterChecked script = pure (s.cursorAfter script) ∧
        (s.cursorAfter script).Safe) ∧
    ∀ limit steps, FamilyAction.sinksChecked limit steps = pure (FamilyAction.sinks limit steps) ∧
      ∀ s ∈ FamilyAction.sinks limit steps, s.limit = limit ∧ s.Safe := by
  refine ⟨fun buffer hBuffer => ⟨fun script => ?_, fun script => ?_, fun history => ?_⟩,
    fun s hAddressable => ⟨hAddressable.lengthChecked_eq, fun p => ?_, fun script => ?_⟩,
    fun limit steps => ⟨FamilyAction.sinksChecked_eq limit steps, fun s hMember => ?_⟩⟩
  · exact ⟨Writer.afterChecked_eq hBuffer script, Writer.safe_after hBuffer script⟩
  · exact ⟨ReadStep.finishChecked_eq (fun earlier => (Reader.safe_finish hBuffer earlier).faultless)
      script, Reader.safe_finish hBuffer script⟩
  · exact ⟨FixedSink.afterChecked_eq hBuffer history, FixedSink.safe_after hBuffer history⟩
  · exact ⟨s.sliceChecked_eq p, hAddressable.slice p⟩
  · exact ⟨hAddressable.cursorAfterChecked_eq script,
      SegmentReader.safe_cursorAfter hAddressable script⟩
  · obtain ⟨hLimit, hWithin⟩ := GrowableSink.within_of_mem_sinks hMember
    exact ⟨hLimit, hWithin.safe⟩

namespace Sample

/-- Six bytes in five segments, two of them empty. -/
def pieces : Segments := .ofList [[], [1, 2], [], [3, 4, 5], [6]]

/-- A move out of the address space, a number, bytes put into the rest, a number that does not fit.
-/
def edges : List WriterAction :=
  [.act (.advance (addressSpace - 1)), .act (.little (.u16 7)), .fill [9, 9], .act (.big (.u32 1))]

/-- Four bytes, a commitment of more than there are, a request that leads out of the address space,
and a clone. -/
def demands : List FamilyAction :=
  [.use 0 (.act .bounded (.span 4 [])), .use 0 (.act .bounded (.advance (addressSpace - 1))),
    .use 0 (.act .bounded (.span (addressSpace - 1) [])), .clone 0]

/-- A sink of at most ten bytes, four of them committed. -/
def filled : GrowableSink := { buffer := [0, 0, 0, 0], committed := 4, limit := some 10 }

end Sample

/-- Counts and places at the end of the address space. -/
theorem operations_never_fault_at_edges :
    Writer.afterChecked [0, 0, 0] Sample.edges = pure ⟨[7, 0, 9], 2⟩ ∧
      Sample.pieces.sliceChecked ⟨addressSpace - 1, addressSpace - 1⟩ = pure (.ofBytes []) ∧
      Sample.pieces.sliceChecked ⟨2, addressSpace - 1⟩ = pure (.ofList [[], [3, 4, 5], [6]]) ∧
      (Sample.pieces.cursorAfter [.big .u32, .advance (addressSpace - 1), .little .u16]).Safe ∧
      FamilyAction.sinksChecked (some 10) Sample.demands =
        pure [Sample.filled, Sample.filled] := by
  obtain ⟨hBuffers, hSequences, hSinks⟩ := operations_never_fault
  obtain ⟨hWriter, _⟩ := hBuffers [0, 0, 0] (by decide)
  obtain ⟨_, hSlice, hCursor⟩ := hSequences Sample.pieces ⟨by decide, by decide⟩
  obtain ⟨hFamily, _⟩ := hSinks (some 10) Sample.demands
  have hDemands : FamilyAction.sinks (some 10) Sample.demands =
      [Sample.filled, Sample.filled] := by decide +kernel
  rw [hDemands] at hFamily
  exact ⟨(hWriter Sample.edges).1, (hSlice _).1, (hSlice _).1, (hCursor _).2, hFamily⟩

end WireRecord
