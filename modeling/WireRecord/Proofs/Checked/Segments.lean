import WireRecord.Proofs.Checked.Cursor
import WireRecord.Proofs.Segments.Canonical

/-!
Segmented sequences and cursors over them, with every step checked. All sums that a cursor forms are
bounded by the length of the sequence or by the number of its segments. The loops that pass segments
and gather take at most one round for each segment and one more, those that move on one for each
byte.
-/

namespace WireRecord

open Checked

namespace Segments

def segmentChecked (s : Segments) (index : Nat) : Checked (Option Bytes) := do
  if index = 0 then return some s.first
  let place ← sub index 1
  return s.rest[place]?

def lengthChecked (s : Segments) : Checked Nat := do
  let later ← (s.rest.map List.length).foldlM add 0
  add s.first.length later

def sliceChecked (s : Segments) (p : Position) : Checked Segments := do
  let some segment ← s.segmentChecked p.segment | return ofBytes []
  let rest ← if p.segment = 0 then pure s.rest else drop s.rest p.segment
  return { first := segment.drop p.offset, rest }

/-- Words hold the length of the sequence and the number of its segments. -/
structure Addressable (s : Segments) : Prop where
  length_lt : s.length < addressSpace
  count_lt : s.toList.length < addressSpace

variable {s : Segments} {p : Position}

/-- A look-up past the last segment finds nothing and is no fault. -/
theorem segmentChecked_eq (s : Segments) (index : Nat) :
    s.segmentChecked index = pure (s.segment? index) := by
  cases index with
  | zero => rfl
  | succ place => simp [segmentChecked, sub_eq (Nat.le_add_left 1 place), segment?, toList]

/-- The lengths of all segments together fit into a word. -/
theorem Addressable.lengthChecked_eq (h : s.Addressable) : s.lengthChecked = pure s.length := by
  have hLength : s.length = s.first.length + (s.rest.map List.length).foldr (· + ·) 0 := rfl
  have hBound := h.length_lt
  rw [hLength] at hBound
  rw [lengthChecked, foldlM_add_eq (by omega), pure_bind, Nat.zero_add, add_eq hBound, hLength]

/-- A slice takes what exists of the segments, so it does not fault at any position, also at one
that is not of this sequence. -/
theorem sliceChecked_eq (s : Segments) (p : Position) : s.sliceChecked p = pure (s.slice p) := by
  rw [sliceChecked, segmentChecked_eq, pure_bind, slice]
  cases hSegment : s.segment? p.segment with
  | none => rfl
  | some segment =>
      obtain ⟨index, offset⟩ := p
      cases index with
      | zero => rfl
      | succ place =>
          have hPlace : place + 1 < s.rest.length + 1 := (List.getElem?_eq_some_iff.mp hSegment).1
          simp only [Nat.add_one_ne_zero, if_false, drop_eq (Nat.le_of_lt_succ hPlace), pure_bind]
          rfl

theorem toList_drop_eq {segment : Bytes} (hSegment : s.segment? p.segment = some segment) :
    s.toList.drop p.segment = segment :: s.later p := by
  obtain ⟨hIndex, hGet⟩ := List.getElem?_eq_some_iff.mp hSegment
  rw [List.drop_eq_getElem_cons hIndex, hGet]
  rfl

/-- A slice at any place, of the sequence or not, has no more bytes and no more segments. -/
theorem Addressable.slice (h : s.Addressable) (p : Position) : (s.slice p).Addressable := by
  rw [Segments.slice]
  cases hSegment : s.segment? p.segment with
  | none =>
      have hLength : (ofBytes []).length < addressSpace := by decide
      have hCount : (ofBytes []).toList.length < addressSpace := by decide
      exact ⟨hLength, hCount⟩
  | some segment =>
      have hDrop := toList_drop_eq hSegment
      constructor
      · have hAll : (s.toList.drop p.segment).flatten.length ≤ s.bytes.length :=
          (List.drop_sublist ..).flatten.length_le
        have hBound := h.length_lt
        rw [hDrop, List.flatten_cons, List.length_append] at hAll
        rw [length_eq] at hBound ⊢
        simp only [bytes, toList, List.flatten_cons, List.length_append, List.length_drop]
        omega
      · have hCount := congrArg List.length hDrop
        have hBound := h.count_lt
        rw [List.length_drop, List.length_cons] at hCount
        simp only [toList, List.length_cons]
        omega

/-- Before a place of the sequence there are no more bytes than it has. -/
theorem Holds.before_le (h : s.Holds p) : s.before p ≤ s.bytes.length := by
  obtain ⟨segment, _, hOffset, _, hBytes⟩ := h.split
  rw [hBytes, before, List.length_append, List.length_append]
  omega

theorem Holds.segment_lt (h : s.Holds p) : p.segment < s.toList.length := by
  obtain ⟨segment, hSegment, _⟩ := h
  exact (List.getElem?_eq_some_iff.mp hSegment).1

theorem segment?_succ (s : Segments) (p : Position) :
    s.segment? (p.segment + 1) = (s.later p).head? := by
  rw [later, List.head?_drop, segment?]

/-- Copies bytes of the segment at a place to a cursor, unless the buffer of the cursor is full. -/
def copyRound (s : Segments) :
    Writer × Position → Checked ((Writer × Position) ⊕ Option Bytes) := fun (w, p) => do
  if w.position < w.buffer.length then
    let some segment ← s.segmentChecked p.segment | return .inr none
    let available := segment.drop p.offset
    let left ← w.remainingChecked
    let bytes ← take available (min available.length left)
    let w' ← w.putChecked bytes
    let index ← add p.segment 1
    return .inl (w', ⟨index, 0⟩)
  else return .inr (some w.buffer)

/-- The given number of bytes at a place, of one segment after the other. -/
def gatherChecked (s : Segments) (count : Nat) (p : Position) : Checked (Option Bytes) :=
  loop s.copyRound (s.toList.length + 1) (.start (List.replicate count 0), p)

/-- A round copies what is missing, or all that the segment has. -/
theorem Addressable.copyRound_eq (h : s.Addressable) {w : Writer} {segment : Bytes}
    (hSegment : s.segment? p.segment = some segment) (hInside : Inside w.buffer w.position)
    (hMore : w.position < w.buffer.length) :
    s.copyRound (w, p) =
      pure (.inl (w.pass ((segment.drop p.offset).take w.remaining), ⟨p.segment + 1, 0⟩)) := by
  have hIndex : p.segment + 1 < addressSpace :=
    Nat.lt_of_le_of_lt (List.getElem?_eq_some_iff.mp hSegment).1 h.count_lt
  simp only [copyRound, if_pos hMore, segmentChecked_eq, pure_bind, hSegment,
    Writer.remainingChecked, hInside.sub_eq]
  generalize segment.drop p.offset = available
  have hTake : available.take (min available.length w.remaining) = available.take w.remaining := by
    rw [Nat.min_comm, ← List.take_eq_take_min]
  have hRoom : (available.take w.remaining).length ≤ w.remaining := List.length_take_le ..
  rw [← Writer.remaining, take_eq (Nat.min_le_left ..), pure_bind, hTake,
    Writer.putChecked_eq hInside hRoom, pure_bind, add_eq hIndex, pure_bind]

/-- Once the target is full the loop ends, with what is to be gathered of no more bytes. -/
theorem copyRound_of_full {w : Writer} (hFull : w.buffer.length ≤ w.position) (s : Segments)
    (p : Position) (segments : List Bytes) : s.copyRound (w, p) =
      pure (.inr ((gather w.remaining segments).map (w.buffer.take w.position ++ ·))) := by
  have hGather : gather w.remaining segments = some [] := by
    rw [Writer.remaining, Nat.sub_eq_zero_of_le hFull]
    cases segments <;> rfl
  rw [hGather, Option.map_some, List.append_nil, List.take_of_length_le hFull]
  exact if_neg (Nat.not_lt.mpr hFull)

/-- By induction on the segments that are left, for each of which there is a round. -/
theorem Addressable.loop_copyRound_eq (h : s.Addressable) {w : Writer} {segments : List Bytes}
    (hAhead : s.toList.drop p.segment = segments) (hInside : Inside w.buffer w.position)
    {rounds : Nat} (hRounds : segments.length < rounds) :
    loop s.copyRound rounds (w, p) =
      pure ((gather w.remaining (segments.modifyHead (List.drop p.offset))).map
        (w.buffer.take w.position ++ ·)) := by
  have hSegment : s.segment? p.segment = segments.head? := by
    rw [← hAhead, List.head?_drop, segment?]
  -- Past the first segment the offset is zero, so that a later one is copied as a whole.
  induction segments generalizing w p rounds with
  | nil =>
      rcases Nat.lt_or_ge w.position w.buffer.length with hMore | hFull
      · have hLeft : w.remaining ≠ 0 := Nat.sub_ne_zero_of_lt hMore
        have hRound : s.copyRound (w, p) = pure (.inr none) := by
          simp only [copyRound, if_pos hMore, segmentChecked_eq, pure_bind, hSegment, List.head?_nil]
        rw [loop_done hRound hRounds]
        simp [gather, hLeft]
      · exact loop_done (copyRound_of_full hFull s p _) hRounds
  | cons segment later ih =>
      rcases Nat.lt_or_ge w.position w.buffer.length with hMore | hFull
      · have hLeft : w.remaining ≠ 0 := Nat.sub_ne_zero_of_lt hMore
        have hLater : s.toList.drop (p.segment + 1) = later := by
          rw [← List.drop_drop, hAhead]
          rfl
        have hNext : s.segment? (p.segment + 1) = later.head? :=
          (s.segment?_succ p).trans (congrArg List.head? hLater)
        have hWhole : later.modifyHead (List.drop 0) = later := by cases later <;> rfl
        have hRoom : ((segment.drop p.offset).take w.remaining).length ≤ w.remaining :=
          List.length_take_le ..
        have hRemaining : (w.pass ((segment.drop p.offset).take w.remaining)).remaining =
            w.remaining - (segment.drop p.offset).length := by
          rw [Writer.remaining_pass, List.length_take]
          omega
        obtain ⟨rounds, rfl⟩ := Nat.exists_eq_add_one_of_ne_zero (Nat.ne_zero_of_lt hRounds)
        have hRest := ih (p := ⟨p.segment + 1, 0⟩) hLater (Writer.inside_pass hInside hRoom)
          (Nat.lt_of_succ_lt_succ hRounds) hNext
        rw [hRemaining, Writer.take_pass hRoom, hWhole] at hRest
        rw [loop_more (h.copyRound_eq hSegment hInside hMore), hRest]
        simp [gather, hLeft, Function.comp_def]
      · exact loop_done (copyRound_of_full hFull s p _) (Nat.zero_lt_of_lt hRounds)

/-- Gathering bytes across segments goes once through the segments, so the rounds suffice; every
copy is of what both the segment and the target have. -/
theorem Addressable.gatherChecked_eq (h : s.Addressable) {segment : Bytes} {count : Nat}
    (hSegment : s.segment? p.segment = some segment) (hCount : count < addressSpace) :
    s.gatherChecked count p = pure (gather count (segment.drop p.offset :: s.later p)) := by
  have hAhead := toList_drop_eq hSegment
  have hInside : Inside (List.replicate count 0) 0 := .zero (by rwa [List.length_replicate])
  have hRounds : (segment :: s.later p).length < s.toList.length + 1 := by
    rw [← hAhead, List.length_drop]
    omega
  have hLoop := h.loop_copyRound_eq (w := .start (List.replicate count 0)) hAhead hInside hRounds
  rw [gatherChecked, hLoop]
  simp [Writer.remaining, Writer.start]

end Segments

namespace SegmentReader

def remainingChecked (r : SegmentReader) : Checked Nat := sub r.length r.consumed

def currentChecked (r : SegmentReader) : Checked Bytes := do
  let segment? ← r.sequence.segmentChecked r.position.segment
  return (segment?.getD []).drop r.position.offset

/-- Passes the segment at the place of a cursor, if nothing of it is unread and it is not the last
one. -/
def settleRound (r : SegmentReader) : Checked (SegmentReader ⊕ SegmentReader) := do
  let current ← r.currentChecked
  if current.isEmpty then
    let index ← add r.position.segment 1
    let some _ ← r.sequence.segmentChecked index | return .inr r
    return .inl { r with position := ⟨index, 0⟩ }
  else return .inr r

def settleChecked (r : SegmentReader) : Checked SegmentReader :=
  loop settleRound (r.sequence.toList.length + 1) r

def startChecked (sequence : Segments) : Checked SegmentReader := do
  let length ← sequence.lengthChecked
  settleChecked { sequence, position := ⟨0, 0⟩, consumed := 0, length }

def skipChecked (r : SegmentReader) (count : Nat) : Checked SegmentReader := do
  let offset ← add r.position.offset count
  let consumed ← add r.consumed count
  settleChecked { r with position := { r.position with offset }, consumed }

/-- Moves a cursor on inside its segment, unless no byte is left to move. -/
def walkRound : SegmentReader × Nat →
    Checked ((SegmentReader × Nat) ⊕ Option SegmentReader) := fun (r, left) => do
  if left = 0 then return .inr (some r)
  let current ← r.currentChecked
  let taken := min current.length left
  if taken = 0 then return .inr none
  let r' ← r.skipChecked taken
  let left' ← sub left taken
  return .inl (r', left')

def walkChecked (r : SegmentReader) (left : Nat) : Checked (Option SegmentReader) :=
  loop walkRound (left + 1) (r, left)

def advanceChecked (r : SegmentReader) (count : Nat) : Checked (Option SegmentReader) := do
  let left ← r.remainingChecked
  if left < count then return none
  r.walkChecked count

def windowChecked (r : SegmentReader) (width : Nat) : Checked (Option Bytes) := do
  let current ← r.currentChecked
  if width ≤ current.length then return some current
  if gatherLimit < width then return none
  r.sequence.gatherChecked width r.position

def readChecked (r : SegmentReader) (p : Primitive) (order : ByteOrder) :
    Checked (Option (Scalar × SegmentReader)) := do
  let left ← r.remainingChecked
  if left < p.width then return none
  let some window ← r.windowChecked p.width | return none
  let some v := p.decode order window | return none
  let some r' ← r.advanceChecked p.width | return none
  return some (v, r')

def readByteChecked (r : SegmentReader) (p : Primitive) :
    Checked (Option (Scalar × SegmentReader)) := r.readChecked p .little

instance : CheckedReadCursor SegmentReader := ⟨readByteChecked, readChecked, advanceChecked⟩

/-- The cursor has passed no more than there is and stands in a segment of its sequence or at its
end, and nothing that is done with it meets a fault. -/
structure Safe (r : SegmentReader) : Prop where
  consumed_le : r.consumed ≤ r.length
  holds : r.sequence.Holds r.position
  remaining : r.remainingChecked = pure r.remaining
  faultless : ReadCursor.Faultless r

variable {r : SegmentReader}

theorem currentChecked_eq (r : SegmentReader) : r.currentChecked = pure r.current := by
  rw [currentChecked, Segments.segmentChecked_eq, pure_bind]
  rfl

/-- By induction on the segments that come later, for each of which there is a round. -/
theorem loop_settleRound_eq (hAddressable : r.sequence.Addressable)
    (hHolds : r.sequence.Holds r.position) {rounds : Nat} (hRounds : r.later.length < rounds) :
    loop settleRound rounds r = pure r.settle := by
  -- The induction is on the later segments: a round that goes on takes one of them.
  generalize hLater : r.later = later at hRounds
  induction later generalizing r rounds with
  | nil =>
      have hIndex := Nat.lt_of_le_of_lt hHolds.segment_lt hAddressable.count_lt
      have hNone : r.sequence.segment? (r.position.segment + 1) = none :=
        (r.sequence.segment?_succ r.position).trans (congrArg List.head? hLater)
      have hStay : r.settle = r := by rw [settle, hLater, Position.settle]
      have hRound : settleRound r = pure (.inr r) := by
        simp only [settleRound, currentChecked_eq, add_eq hIndex, Segments.segmentChecked_eq,
          pure_bind, hNone, ite_self]
      rw [loop_done hRound hRounds, hStay]
  | cons next later ih =>
      by_cases hCurrent : r.current = []
      · obtain ⟨hHolds', _, hBytes, hRest⟩ := hHolds.next hCurrent hLater
        have hIndex := Nat.lt_of_le_of_lt hHolds.segment_lt hAddressable.count_lt
        have hSome : r.sequence.segment? (r.position.segment + 1) = some next :=
          (r.sequence.segment?_succ r.position).trans (congrArg List.head? hLater)
        have hRound : settleRound r =
            pure (.inl { r with position := ⟨r.position.segment + 1, 0⟩ }) := by
          simp only [settleRound, currentChecked_eq, add_eq hIndex, Segments.segmentChecked_eq,
            pure_bind, hSome, hCurrent, List.isEmpty_nil, if_true]
        have hPosition : r.position.settle r.current r.later =
            Position.settle ⟨r.position.segment + 1, 0⟩
              (r.sequence.current ⟨r.position.segment + 1, 0⟩)
              (r.sequence.later ⟨r.position.segment + 1, 0⟩) := by
          rw [hLater, hCurrent, hBytes, hRest]
          rfl
        have hSettle : r.settle = settle { r with position := ⟨r.position.segment + 1, 0⟩ } :=
          congrArg (fun position => { r with position }) hPosition
        obtain ⟨rounds, rfl⟩ := Nat.exists_eq_add_one_of_ne_zero (Nat.ne_zero_of_lt hRounds)
        rw [loop_more hRound, hSettle]
        exact ih (r := { r with position := ⟨r.position.segment + 1, 0⟩ }) hAddressable hHolds' hRest
          (Nat.lt_of_succ_lt_succ hRounds)
      · have hStay : r.settle = r := by simp [settle, hLater, Position.settle, hCurrent]
        have hRound : settleRound r = pure (.inr r) := by
          simp only [settleRound, currentChecked_eq, pure_bind, List.isEmpty_iff, hCurrent,
            if_false]
        rw [loop_done hRound (Nat.zero_lt_of_lt hRounds), hStay]

/-- A cursor settles in as many rounds as there are segments left. -/
theorem settleChecked_eq (hAddressable : r.sequence.Addressable)
    (hHolds : r.sequence.Holds r.position) : r.settleChecked = pure r.settle := by
  refine loop_settleRound_eq hAddressable hHolds ?_
  rw [later, Segments.later, List.length_drop]
  omega

theorem startChecked_eq {s : Segments} (h : s.Addressable) : startChecked s = pure (start s) := by
  rw [startChecked, h.lengthChecked_eq, pure_bind]
  exact settleChecked_eq h s.holds_zero

namespace Valid

theorem consumed_le (h : r.Valid) : r.consumed ≤ r.length := by
  rw [h.consumed_eq, h.length_eq]
  exact h.holds.before_le

theorem remainingChecked_eq (h : r.Valid) : r.remainingChecked = pure r.remaining :=
  sub_eq h.consumed_le

variable (h : r.Valid) (hAddressable : r.sequence.Addressable)
include h hAddressable

/-- The offset in the segment and the number of bytes passed are at most the length of the
sequence, before and after a move. -/
theorem skipChecked_eq {count : Nat} (hCount : count ≤ r.current.length) :
    r.skipChecked count = pure (r.skip count) := by
  obtain ⟨hHolds, hBefore⟩ := h.holds.forward hCount
  have hPassed := hHolds.before_le
  have hLength := hAddressable.length_lt
  rw [Segments.length_eq] at hLength
  have hConsumed : r.consumed + count < addressSpace := by
    rw [h.consumed_eq, ← hBefore]
    exact Nat.lt_of_le_of_lt hPassed hLength
  have hOffset : r.position.offset + count < addressSpace := by
    have hPart : r.position.offset ≤ r.sequence.before r.position := Nat.le_add_left ..
    rw [h.consumed_eq] at hConsumed
    omega
  rw [skipChecked, add_eq hOffset, pure_bind, add_eq hConsumed, pure_bind]
  exact settleChecked_eq hAddressable hHolds

/-- By induction along the unchecked loop: every round moves a byte or more. -/
theorem loop_walkRound_eq (left : Nat) {rounds : Nat} (hRounds : left < rounds) :
    loop walkRound rounds (r, left) = pure (r.walk left) := by
  fun_induction SegmentReader.walk r left generalizing rounds with
  | case1 r => exact loop_done rfl hRounds
  | case2 r left hPositive taken hNone =>
      have hRound : walkRound (r, left) = pure (.inr none) := by
        simp only [walkRound, currentChecked_eq, pure_bind, if_neg hPositive]
        exact if_pos hNone
      exact loop_done hRound (Nat.zero_lt_of_lt hRounds)
  | case3 r left hPositive taken hSome ih =>
      have hTaken : taken ≤ r.current.length := Nat.min_le_left ..
      have hLeft : taken ≤ left := Nat.min_le_right ..
      have hRound : walkRound (r, left) = pure (.inl (r.skip taken, left - taken)) := by
        simp only [walkRound, currentChecked_eq, pure_bind, if_neg hPositive]
        refine (if_neg hSome).trans ?_
        rw [h.skipChecked_eq hAddressable hTaken, pure_bind, sub_eq hLeft, pure_bind]
      obtain ⟨rounds, rfl⟩ := Nat.exists_eq_add_one_of_ne_zero (Nat.ne_zero_of_lt hRounds)
      rw [loop_more hRound]
      exact ih (h.skip hTaken) hAddressable (by omega)

/-- A move is compared with what is left before the walk starts, so the walk has a byte to move in
each round. -/
theorem advanceChecked_eq (count : Nat) : r.advanceChecked count = pure (r.advance count) := by
  rw [advanceChecked, h.remainingChecked_eq, pure_bind, SegmentReader.advance]
  split
  · rfl
  · exact h.loop_walkRound_eq hAddressable count (Nat.lt_succ_self count)

/-- A window is what the current segment has of it or what is gathered. -/
theorem windowChecked_eq (width : Nat) : r.windowChecked width = pure (r.window width) := by
  rw [windowChecked, currentChecked_eq, pure_bind, SegmentReader.window]
  split
  · rfl
  · split
    · rfl
    · next hLimit =>
      have hWidth : width < addressSpace :=
        Nat.lt_of_le_of_lt (Nat.not_lt.mp hLimit) (by decide)
      obtain ⟨segment, hSegment, _, hCurrent, _⟩ := h.holds.split
      rw [hAddressable.gatherChecked_eq hSegment hWidth, current, hCurrent, later]

/-- A read takes its window, decodes it, and walks as far as the value is wide. -/
theorem readChecked_eq (p : Primitive) (order : ByteOrder) :
    r.readChecked p order = pure (r.read p order) := by
  rw [readChecked, h.remainingChecked_eq, pure_bind, SegmentReader.read]
  by_cases hShort : r.remaining < p.width
  · rw [if_pos hShort, if_pos hShort]
  · rw [if_neg hShort, if_neg hShort, h.windowChecked_eq hAddressable, pure_bind]
    cases hWindow : r.window p.width with
    | none => rfl
    | some window =>
        cases hValue : p.decode order window with
        | none => simp [hValue]
        | some v =>
            simp only [hValue, h.advanceChecked_eq hAddressable, pure_bind, Option.bind_eq_bind,
              Option.bind_some]
            cases r.advance p.width <;> rfl

theorem safe : r.Safe where
  consumed_le := h.consumed_le
  holds := h.holds
  remaining := h.remainingChecked_eq
  faultless := {
    readByte := fun p => h.readChecked_eq hAddressable p .little
    read := h.readChecked_eq hAddressable
    advance := h.advanceChecked_eq hAddressable }

end Valid

theorem safe_cursorAfter {s : Segments} (h : s.Addressable) (script : List ReadStep) :
    (s.cursorAfter script).Safe := by
  obtain ⟨hValid, hSequence⟩ := valid_finish s script
  exact hValid.safe (hSequence.symm ▸ h)

end SegmentReader

/-- The cursor over a sequence at the end of a script. -/
def Segments.cursorAfterChecked (s : Segments) (script : List ReadStep) : Checked SegmentReader := do
  ReadStep.finishChecked script (← SegmentReader.startChecked s)

/-- A script of operations on a segmented cursor runs as it does without checks. -/
theorem Segments.Addressable.cursorAfterChecked_eq {s : Segments} (h : s.Addressable)
    (script : List ReadStep) : s.cursorAfterChecked script = pure (s.cursorAfter script) := by
  rw [cursorAfterChecked, SegmentReader.startChecked_eq h, pure_bind, cursorAfter]
  exact ReadStep.finishChecked_eq
    (fun earlier => (SegmentReader.safe_cursorAfter h earlier).faultless) script

end WireRecord
