import Mathlib.Data.List.Flatten
import WireRecord.Proofs.Segments.Slice

/-!
The places where cursors stand. In the sequence that a cursor runs over, its place and the number of
bytes that it has passed tell each other, however it has passed them. In another sequence the place
need not lie, and a slice there holds all segments after the one that the place names.
-/

namespace WireRecord

namespace Segments

variable {s : Segments} {p q : Position}

/-- A settled place at the end of its segment is in the last one. -/
theorem Settled.segment_eq (hSettled : s.Settled p) {segment : Bytes}
    (hSegment : s.segment? p.segment = some segment) (hEnd : segment.length ≤ p.offset) :
    p.segment + 1 = s.toList.length := by
  have hCurrent : s.current p = [] := by
    rw [current, hSegment]
    exact List.drop_eq_nil_of_le hEnd
  have hBound := (List.getElem?_eq_some_iff.mp hSegment).1
  have hLast : s.toList.length ≤ p.segment + 1 := List.drop_eq_nil_iff.mp (hSettled hCurrent)
  omega

/-- More bytes are before a place in a later segment, since some are unread at the first place. -/
theorem before_lt_before (hHolds : s.Holds p) (hSettled : s.Settled p) (hHolds' : s.Holds q)
    (hSegment : p.segment < q.segment) : s.before p < s.before q := by
  obtain ⟨segment, hFirst, _⟩ := hHolds
  obtain ⟨_, hSecond, _⟩ := hHolds'
  have hBound : q.segment < s.toList.length := (List.getElem?_eq_some_iff.mp hSecond).1
  have hUnread : p.offset < segment.length := by
    by_contra hExhausted
    have hLast := hSettled.segment_eq hFirst (Nat.not_lt.mp hExhausted)
    omega
  have hTake : s.toList.take (p.segment + 1) = s.toList.take p.segment ++ [segment] := by
    rw [List.take_add_one, ← segment?, hFirst]
    rfl
  have hPrefix : (s.toList.take (p.segment + 1)).flatten.length ≤
      (s.toList.take q.segment).flatten.length :=
    (List.take_sublist_take_left hSegment).flatten.length_le
  calc s.before p
      < (s.toList.take p.segment).flatten.length + segment.length :=
        Nat.add_lt_add_left hUnread _
    _ = (s.toList.take (p.segment + 1)).flatten.length := by simp [hTake]
    _ ≤ s.before q := Nat.le_trans hPrefix (Nat.le_add_right ..)

/-- Settled places with as many bytes before them are the same. -/
theorem eq_of_before_eq (hHolds : s.Holds p) (hSettled : s.Settled p) (hHolds' : s.Holds q)
    (hSettled' : s.Settled q) (hBefore : s.before p = s.before q) : p = q := by
  have hSegment : p.segment = q.segment := by
    rcases Nat.lt_trichotomy p.segment q.segment with hLess | hEqual | hGreater
    · have := before_lt_before hHolds hSettled hHolds' hLess
      omega
    · exact hEqual
    · have := before_lt_before hHolds' hSettled' hHolds hGreater
      omega
  obtain ⟨index, offset⟩ := p
  obtain ⟨index', offset'⟩ := q
  obtain rfl : index = index' := hSegment
  have hOffset : offset = offset' := Nat.add_left_cancel hBefore
  rw [hOffset]

end Segments

namespace SegmentReader

variable {r q : SegmentReader}

/-- Two cursors over one sequence are in the same place if they have passed as many bytes. -/
theorem Valid.position_eq_iff (h : r.Valid) (h' : q.Valid) (hSequence : r.sequence = q.sequence) :
    r.position = q.position ↔ r.consumed = q.consumed := by
  rw [h.consumed_eq, h'.consumed_eq, hSequence]
  constructor
  · intro hPosition
    rw [hPosition]
  · exact Segments.eq_of_before_eq (hSequence ▸ h.holds) (hSequence ▸ h.settled) h'.holds h'.settled

/-- Something is unread in the current segment exactly if something is unread at all. -/
theorem Valid.current_ne_nil_iff (h : r.Valid) : r.current ≠ [] ↔ 0 < r.remaining := by
  constructor
  · intro hCurrent
    rw [h.remaining_eq, List.length_append]
    have := List.length_pos_iff.mpr hCurrent
    omega
  · exact h.current_ne_nil

end SegmentReader

/-- The cursor over a sequence at the end of a script. -/
def Segments.cursorAfter (s : Segments) (script : List ReadStep) : SegmentReader :=
  ReadStep.finish script (SegmentReader.start s)

/-- Wherever two scripts leave cursors over one sequence, these are in the same place exactly if
they have passed the same number of bytes. A cursor is in a segment of the sequence, at its end only
if it is the last one, so as long as any bytes are left some are unread in the current segment. -/
theorem cursor_places_canonical (s : Segments) (script : List ReadStep) :
    (∀ other : List ReadStep,
      (s.cursorAfter script).position = (s.cursorAfter other).position ↔
        (s.cursorAfter script).consumed = (s.cursorAfter other).consumed) ∧
    (∃ segment, s.segment? (s.cursorAfter script).position.segment = some segment ∧
      (s.cursorAfter script).position.offset ≤ segment.length ∧
      ((s.cursorAfter script).position.offset = segment.length →
        (s.cursorAfter script).position.segment + 1 = s.toList.length)) ∧
    ((s.cursorAfter script).current ≠ [] ↔ 0 < (s.cursorAfter script).remaining) := by
  obtain ⟨hValid, hSequence⟩ := SegmentReader.valid_finish s script
  refine ⟨fun other => ?_, ?_, hValid.current_ne_nil_iff⟩
  · obtain ⟨hOther, hSequence'⟩ := SegmentReader.valid_finish s other
    exact hValid.position_eq_iff hOther (hSequence.trans hSequence'.symm)
  · have hHolds := hValid.holds
    have hSettled := hValid.settled
    rw [hSequence] at hHolds hSettled
    obtain ⟨segment, hSegment, hOffset⟩ := hHolds
    exact ⟨segment, hSegment, hOffset,
      fun hEnd => hSettled.segment_eq hSegment (Nat.le_of_eq hEnd.symm)⟩

namespace Segments

variable {s : Segments} {p : Position}

/-- The place names no segment of the sequence, or an offset past the end of the one it names. -/
def Foreign (s : Segments) (p : Position) : Prop :=
  s.toList.length ≤ p.segment ∨
    ∃ segment, s.segment? p.segment = some segment ∧ segment.length < p.offset

/-- A foreign place is cut off from its own segment, but not from those after it. -/
theorem Foreign.slice_eq (h : s.Foreign p) : s.slice p = ⟨[], s.later p⟩ := by
  rcases h with hIndex | ⟨segment, hSegment, hOffset⟩
  · have hNone : s.segment? p.segment = none := List.getElem?_eq_none hIndex
    have hLater : s.later p = [] := List.drop_eq_nil_of_le (Nat.le_succ_of_le hIndex)
    rw [slice, hNone, hLater, ofBytes]
  · have hUnread : segment.drop p.offset = [] := List.drop_eq_nil_of_le (Nat.le_of_lt hOffset)
    simp only [slice, hSegment, hUnread]

theorem toList_ofList {segments : List Bytes} (h : segments ≠ []) :
    (ofList segments).toList = segments := by
  cases segments with
  | nil => exact absurd rfl h
  | cons first rest => rfl

/-- One move takes a cursor to any settled place. -/
theorem position_cursorAfter_advance (hHolds : s.Holds p) (hSettled : s.Settled p) :
    (s.cursorAfter [.advance (s.before p)]).position = p := by
  have hStart := SegmentReader.start_valid s
  have hBefore : s.before p ≤ (SegmentReader.start s).remaining := by
    obtain ⟨segment, _, hOffset, _, hBytes⟩ := hHolds.split
    have hAll : (SegmentReader.start s).remaining = s.bytes.length := s.length_eq
    rw [hAll, hBytes, before, List.length_append, List.length_append]
    omega
  obtain ⟨r, hAdvance, hValid, hSequence, hConsumed⟩ := hStart.advance hBefore
  have hCursor : s.cursorAfter [.advance (s.before p)] = r := by
    change (ReadReport.ofMove _ ((SegmentReader.start s).advance (s.before p))).2 = r
    rw [hAdvance]
    rfl
  have hOver : r.sequence = s := hSequence
  have hPassed : r.sequence.before r.position = s.before p := by
    rw [← hValid.consumed_eq, hConsumed]
    exact Nat.zero_add _
  rw [hCursor]
  rw [hOver] at hPassed
  exact eq_of_before_eq (hOver ▸ hValid.holds) (hOver ▸ hValid.settled) hHolds hSettled hPassed

/-- Every place is one where a cursor over some sequence stands. -/
theorem exists_cursorAfter_position (p : Position) :
    ∃ (other : Segments) (script : List ReadStep), (other.cursorAfter script).position = p := by
  have hList : (ofList (List.replicate p.segment [] ++ [List.replicate p.offset 0])).toList =
      List.replicate p.segment [] ++ [List.replicate p.offset 0] :=
    toList_ofList (by simp)
  refine ⟨_, _, position_cursorAfter_advance
    (s := ofList (List.replicate p.segment [] ++ [List.replicate p.offset 0])) ?_ ?_⟩
  · refine ⟨List.replicate p.offset 0, ?_, by simp⟩
    simp [segment?, hList]
  · intro _
    simp [later, hList]

end Segments

/-- Where a cursor over another sequence stands, if this place is foreign to a sequence, a slice of
the sequence holds exactly the segments after the one that the place names. So it is empty if the
place names no segment or the last one; and it is empty for all foreign places exactly if the
sequence has no bytes after its first segment. -/
theorem foreign_slice_eq_later (s : Segments) :
    (∀ (other : Segments) (script : List ReadStep),
      s.Foreign (other.cursorAfter script).position →
        s.slice (other.cursorAfter script).position =
            ⟨[], s.later (other.cursorAfter script).position⟩ ∧
          (s.toList.length ≤ (other.cursorAfter script).position.segment + 1 →
            s.slice (other.cursorAfter script).position = .ofBytes [])) ∧
    ((∀ (other : Segments) (script : List ReadStep),
      s.Foreign (other.cursorAfter script).position →
        (s.slice (other.cursorAfter script).position).isEmpty) ↔ s.rest.flatten = []) := by
  refine ⟨fun other script hForeign => ⟨hForeign.slice_eq, fun hLast => ?_⟩, ?_, ?_⟩
  · have hLater : s.later (other.cursorAfter script).position = [] :=
      List.drop_eq_nil_of_le hLast
    rw [hForeign.slice_eq, hLater, Segments.ofBytes]
  · intro hEmpty
    -- The place past the end of the first segment is foreign, and a slice there holds all others.
    obtain ⟨other, script, hPosition⟩ :=
      Segments.exists_cursorAfter_position ⟨0, s.first.length + 1⟩
    have hForeign : s.Foreign ⟨0, s.first.length + 1⟩ :=
      .inr ⟨s.first, rfl, Nat.lt_succ_self _⟩
    have hSlice := hEmpty other script
    rw [hPosition, hForeign.slice_eq] at hSlice
    have hRest := hSlice hForeign
    simpa [Segments.isEmpty, Segments.toList, Segments.later] using hRest
  · intro hRest other script hForeign
    rw [hForeign.slice_eq]
    have hLater : ∀ segment ∈ s.later (other.cursorAfter script).position, segment = [] :=
      fun segment hSegment =>
        List.flatten_eq_nil_iff.mp hRest segment (List.mem_of_mem_drop hSegment)
    simpa [Segments.isEmpty, Segments.toList] using hLater

namespace Sample

def shelf : Segments := .ofList [[0], [0x11, 0x22]]

/-- A cursor two bytes into a segment of three. -/
def drawer : SegmentReader := (Segments.ofBytes [0xaa, 0xbb, 0xcc]).cursorAfter [.advance 2]

/-- A cursor in the third of three segments. -/
def attic : SegmentReader := (Segments.ofList [[1], [2], [3]]).cursorAfter [.advance 2]

theorem position_drawer : drawer.position = ⟨0, 2⟩ := by
  have hHolds : (Segments.ofBytes [0xaa, 0xbb, 0xcc]).Holds ⟨0, 2⟩ :=
    ⟨[0xaa, 0xbb, 0xcc], rfl, by decide⟩
  have hSettled : (Segments.ofBytes [0xaa, 0xbb, 0xcc]).Settled ⟨0, 2⟩ := fun _ => rfl
  exact Segments.position_cursorAfter_advance hHolds hSettled

theorem position_attic : attic.position = ⟨2, 0⟩ := by
  have hHolds : (Segments.ofList [[1], [2], [3]]).Holds ⟨2, 0⟩ := ⟨[3], rfl, by decide⟩
  have hSettled : (Segments.ofList [[1], [2], [3]]).Settled ⟨2, 0⟩ := fun _ => rfl
  exact Segments.position_cursorAfter_advance hHolds hSettled

end Sample

/-- The shelf has no third segment, so a slice at a place in the third segment is empty. -/
theorem foreign_slice_eq_later_shelf :
    Sample.shelf.Foreign Sample.attic.position ∧
      Sample.shelf.slice Sample.attic.position = .ofBytes [] := by
  have hForeign : Sample.shelf.Foreign Sample.attic.position := by
    rw [Sample.position_attic]
    exact .inl (by decide)
  have hLast : Sample.shelf.toList.length ≤ Sample.attic.position.segment + 1 := by
    rw [Sample.position_attic]
    decide
  exact ⟨hForeign, ((foreign_slice_eq_later Sample.shelf).1 _ _ hForeign).2 hLast⟩

/-- The first segment of the shelf has no third byte, and yet a slice there is not empty. -/
theorem foreign_slice_shows_bytes :
    Sample.shelf.Foreign Sample.drawer.position ∧
      Sample.shelf.slice Sample.drawer.position = ⟨[], [[0x11, 0x22]]⟩ ∧
      (Sample.shelf.slice Sample.drawer.position).isEmpty = false := by
  rw [Sample.position_drawer]
  exact ⟨.inr ⟨[0], rfl, by decide⟩, rfl, rfl⟩

end WireRecord
