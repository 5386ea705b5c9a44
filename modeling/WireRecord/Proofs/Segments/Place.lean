import WireRecord.Segments.Reader

/-!
Places in a segmented sequence. A place that lies in the sequence stands for a number of bytes
before it, and a slice there is the rest of the bytes. Places that stand for the same number differ
only by empty and exhausted segments, of which a settled place has none before it in its way.
-/

namespace WireRecord

namespace Segments

theorem bytes_ofList (segments : List Bytes) : (ofList segments).bytes = segments.flatten := by
  cases segments with
  | nil => rfl
  | cons first rest => rfl

/-- The place names a segment, and no offset past its end. -/
def Holds (s : Segments) (p : Position) : Prop :=
  ∃ segment, s.segment? p.segment = some segment ∧ p.offset ≤ segment.length

def before (s : Segments) (p : Position) : Nat :=
  (s.toList.take p.segment).flatten.length + p.offset

/-- Bytes are unread in the segment of the place, or it is the last segment. -/
def Settled (s : Segments) (p : Position) : Prop := s.current p = [] → s.later p = []

theorem holds_zero (s : Segments) : s.Holds ⟨0, 0⟩ := ⟨s.first, rfl, Nat.zero_le _⟩

@[simp] theorem before_zero (s : Segments) : s.before ⟨0, 0⟩ = 0 := by simp [before]

variable {s : Segments} {p : Position}

/-- The segment of a place that lies in the sequence, the bytes around the place, and what is unread
of the segment. -/
theorem Holds.split (h : s.Holds p) :
    ∃ segment, s.segment? p.segment = some segment ∧ p.offset ≤ segment.length ∧
      s.current p = segment.drop p.offset ∧
      s.bytes = (s.toList.take p.segment).flatten ++ (segment ++ (s.later p).flatten) := by
  obtain ⟨segment, hSegment, hOffset⟩ := h
  refine ⟨segment, hSegment, hOffset, by simp [current, hSegment], ?_⟩
  obtain ⟨hLength, hGet⟩ := List.getElem?_eq_some_iff.mp hSegment
  have hDrop : s.toList.drop p.segment = segment :: s.later p := by
    rw [List.drop_eq_getElem_cons hLength, hGet]
    rfl
  calc s.bytes
      = (s.toList.take p.segment ++ s.toList.drop p.segment).flatten := by
        rw [List.take_append_drop, bytes]
    _ = _ := by rw [hDrop, List.flatten_append, List.flatten_cons]

/-- What is left at a place are the bytes of the sequence but for those before the place. -/
theorem Holds.drop_before (h : s.Holds p) :
    s.bytes.drop (s.before p) = s.current p ++ (s.later p).flatten := by
  obtain ⟨segment, _, hOffset, hCurrent, hBytes⟩ := h.split
  rw [hBytes, before, ← List.drop_drop, List.drop_left, List.drop_append_of_le_length hOffset,
    hCurrent]

/-- A slice at a place of the sequence holds the bytes from there to the end. -/
theorem Holds.slice_eq (h : s.Holds p) : s.slice p = ofList (s.current p :: s.later p) := by
  obtain ⟨segment, hSegment, _, hCurrent, _⟩ := h.split
  simp [slice, hSegment, ofList, hCurrent]

/-- A move inside of a segment leads to a place of the sequence, by as many bytes further on. -/
theorem Holds.forward {count : Nat} (h : s.Holds p) (hCount : count ≤ (s.current p).length) :
    s.Holds { p with offset := p.offset + count } ∧
      s.before { p with offset := p.offset + count } = s.before p + count := by
  obtain ⟨segment, hSegment, hOffset, hCurrent, _⟩ := h.split
  rw [hCurrent, List.length_drop] at hCount
  exact ⟨⟨segment, hSegment, by simp only; omega⟩, by simp [before, Nat.add_assoc]⟩

/-- Passing a segment of which nothing is unread. -/
theorem Holds.next {next : Bytes} {later : List Bytes} (h : s.Holds p)
    (hCurrent : s.current p = []) (hLater : s.later p = next :: later) :
    s.Holds ⟨p.segment + 1, 0⟩ ∧ s.before ⟨p.segment + 1, 0⟩ = s.before p ∧
      s.current ⟨p.segment + 1, 0⟩ = next ∧ s.later ⟨p.segment + 1, 0⟩ = later := by
  obtain ⟨segment, hSegment, hOffset, hDropped, _⟩ := h.split
  have hRest : s.toList.drop (p.segment + 1) = next :: later := hLater
  have hNext : s.segment? (p.segment + 1) = some next := by
    rw [segment?, ← List.head?_drop, hRest]
    rfl
  have hEnd : p.offset = segment.length := by
    rw [hDropped, List.drop_eq_nil_iff] at hCurrent
    omega
  refine ⟨⟨next, hNext, Nat.zero_le _⟩, ?_, by simp [current, hNext], ?_⟩
  · have hTake : s.toList.take (p.segment + 1) = s.toList.take p.segment ++ [segment] := by
      rw [List.take_add_one, ← segment?, hSegment]
      rfl
    simp [before, hTake, hEnd]
  · rw [Segments.later, ← List.drop_drop, hRest]
    rfl

/-- Settling keeps the number of bytes before the place, and ends at a settled place. -/
theorem Holds.settle (h : s.Holds p) :
    s.Holds (p.settle (s.current p) (s.later p)) ∧
      s.before (p.settle (s.current p) (s.later p)) = s.before p ∧
      s.Settled (p.settle (s.current p) (s.later p)) := by
  generalize hLater : s.later p = later
  induction later generalizing p with
  | nil => exact ⟨h, rfl, fun _ => hLater⟩
  | cons next later ih =>
      by_cases hCurrent : s.current p = []
      · obtain ⟨hHolds, hBefore, hNext, hRest⟩ := h.next hCurrent hLater
        have hSettled := ih hHolds hRest
        rw [hNext, hBefore] at hSettled
        simpa [Position.settle, hCurrent] using hSettled
      · have hStay : p.settle (s.current p) (next :: later) = p := by
          simp [Position.settle, hCurrent]
        rw [hStay]
        exact ⟨h, rfl, fun hEmpty => absurd hEmpty hCurrent⟩

end Segments

/-- Gathering fails only if there are too few bytes, and gives the first ones otherwise. -/
theorem gather_eq (count : Nat) (segments : List Bytes) :
    gather count segments =
      if count ≤ segments.flatten.length then some (segments.flatten.take count) else none := by
  induction segments generalizing count with
  | nil =>
      by_cases hCount : count = 0
      · simp [gather, hCount]
      · simp [gather, hCount]
  | cons segment later ih =>
      by_cases hCount : count = 0
      · simp [gather, hCount]
      · simp only [gather, hCount, if_false, ih, List.flatten_cons, List.length_append,
          List.take_append, Nat.sub_le_iff_le_add']
        split <;> rfl

end WireRecord
