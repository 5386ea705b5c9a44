import WireRecord.Proofs.Segments.Place

/-!
The invariant of a cursor over a segmented sequence, and what each of its moves does. A valid cursor
moves by every count that is left, and the bytes it decodes from are the unread ones, in place or
gathered.
-/

namespace WireRecord

/-- Decoding looks at no more bytes than the primitive is wide. -/
theorem Primitive.decode_append {p : Primitive} {order : ByteOrder} {start : Bytes} (rest : Bytes)
    (hWidth : p.width ≤ start.length) :
    p.decode order (start ++ rest) = p.decode order start := by
  have hStart : ¬start.length < p.width := by omega
  have hAll : ¬(start ++ rest).length < p.width := by
    rw [List.length_append]
    omega
  rw [Primitive.decode, Primitive.decode, if_neg hStart, if_neg hAll,
    List.take_append_of_le_length hWidth]

/-- Decoding looks at the first bytes only. -/
theorem Primitive.decode_take {p : Primitive} {order : ByteOrder} {source : Bytes}
    (hWidth : p.width ≤ source.length) :
    p.decode order (source.take p.width) = p.decode order source := by
  have hTaken : p.width ≤ (source.take p.width).length := by
    rw [List.length_take]
    omega
  rw [← Primitive.decode_append (source.drop p.width) hTaken, List.take_append_drop]

/-- Every primitive fits into the buffer in which bytes are gathered. -/
theorem Primitive.width_le_gatherLimit (p : Primitive) : p.width ≤ gatherLimit := by
  cases p <;> decide

namespace SegmentReader

/-- The four fields of a cursor agree, and bytes are unread in the current segment unless it is the
last one. -/
structure Valid (r : SegmentReader) : Prop where
  length_eq : r.length = r.sequence.bytes.length
  holds : r.sequence.Holds r.position
  consumed_eq : r.consumed = r.sequence.before r.position
  settled : r.sequence.Settled r.position

variable {r : SegmentReader}

/-- What is left of the current segment and the later ones is what has not been consumed. -/
theorem Valid.unread (h : r.Valid) :
    r.current ++ r.later.flatten = r.sequence.bytes.drop r.consumed := by
  rw [h.consumed_eq, h.holds.drop_before]
  rfl

theorem Valid.remaining_eq (h : r.Valid) :
    r.remaining = (r.current ++ r.later.flatten).length := by
  rw [h.unread, remaining, h.length_eq, List.length_drop]

/-- Nothing is left in the current segment only at the end of the sequence. -/
theorem Valid.current_ne_nil (h : r.Valid) (hRemaining : 0 < r.remaining) : r.current ≠ [] := by
  intro hEmpty
  have hLater : r.later = [] := h.settled hEmpty
  rw [h.remaining_eq, hEmpty, hLater] at hRemaining
  simp at hRemaining

/-- To settle moves over empty segments only, so that no byte is passed. -/
theorem settle_valid (hLength : r.length = r.sequence.bytes.length)
    (hHolds : r.sequence.Holds r.position)
    (hConsumed : r.consumed = r.sequence.before r.position) : r.settle.Valid := by
  obtain ⟨hNew, hBefore, hSettled⟩ := hHolds.settle
  exact ⟨hLength, hNew, hConsumed.trans hBefore.symm, hSettled⟩

theorem start_valid (s : Segments) : (start s).Valid :=
  settle_valid (s.length_eq) s.holds_zero s.before_zero.symm

/-- A move inside of a segment keeps the count of consumed bytes right. -/
theorem Valid.skip {count : Nat} (h : r.Valid) (hCount : count ≤ r.current.length) :
    (r.skip count).Valid := by
  obtain ⟨hHolds, hBefore⟩ := h.holds.forward hCount
  exact settle_valid h.length_eq hHolds (by simp only [hBefore, h.consumed_eq])

/-- The loop that moves a cursor never meets a place where nothing is unread. -/
theorem Valid.walk {left : Nat} (h : r.Valid) (hLeft : left ≤ r.remaining) :
    ∃ r', r.walk left = some r' ∧ r'.Valid ∧ r'.sequence = r.sequence ∧
      r'.consumed = r.consumed + left := by
  fun_induction SegmentReader.walk r left with
  | case1 r => exact ⟨r, rfl, h, rfl, rfl⟩
  | case2 r left hPositive taken hNone =>
      have hCurrent := List.length_pos_iff.mpr (h.current_ne_nil (by omega))
      omega
  | case3 r left hPositive taken hSome ih =>
      have hTaken : taken ≤ r.current.length := by omega
      have hRest : left - taken ≤ (r.skip taken).remaining := by
        change left - taken ≤ r.length - (r.consumed + taken)
        change left ≤ r.length - r.consumed at hLeft
        omega
      obtain ⟨r', hWalk, hValid, hSequence, hConsumed⟩ := ih (h.skip hTaken) hRest
      refine ⟨r', hWalk, hValid, hSequence, ?_⟩
      rw [hConsumed]
      change r.consumed + taken + (left - taken) = r.consumed + left
      omega

/-- A valid cursor moves by every count that remains, and by no other. -/
theorem Valid.advance {count : Nat} (h : r.Valid) (hCount : count ≤ r.remaining) :
    ∃ r', r.advance count = some r' ∧ r'.Valid ∧ r'.sequence = r.sequence ∧
      r'.consumed = r.consumed + count := by
  rw [SegmentReader.advance, if_neg (by omega)]
  exact h.walk hCount

theorem advance_eq_none {count : Nat} (hCount : r.remaining < count) : r.advance count = none :=
  if_pos hCount

/-- Gathering never fails where enough bytes remain, and what is decoded are the unread bytes. -/
theorem Valid.window {p : Primitive} (h : r.Valid) (hWidth : p.width ≤ r.remaining)
    (order : ByteOrder) :
    ∃ window, r.window p.width = some window ∧
      p.decode order window = p.decode order (r.sequence.bytes.drop r.consumed) := by
  rw [h.remaining_eq] at hWidth
  rw [← h.unread]
  by_cases hCurrent : p.width ≤ r.current.length
  · exact ⟨r.current, if_pos hCurrent, (Primitive.decode_append _ hCurrent).symm⟩
  · have hLimit : ¬gatherLimit < p.width := Nat.not_lt.mpr p.width_le_gatherLimit
    rw [SegmentReader.window, if_neg hCurrent, if_neg hLimit, gather_eq, List.flatten_cons,
      if_pos hWidth]
    exact ⟨_, rfl, Primitive.decode_take hWidth⟩

/-- A read decodes the unread bytes and moves past those of the primitive. It fails exactly if they
are too few or do not decode. -/
theorem Valid.read (h : r.Valid) (p : Primitive) (order : ByteOrder) :
    (p.decode order (r.sequence.bytes.drop r.consumed) = none ∧ r.read p order = none) ∨
      ∃ v r', p.decode order (r.sequence.bytes.drop r.consumed) = some v ∧
        r.read p order = some (v, r') ∧ r'.Valid ∧ r'.sequence = r.sequence ∧
        r'.consumed = r.consumed + p.width := by
  by_cases hWidth : p.width ≤ r.remaining
  · obtain ⟨window, hWindow, hDecode⟩ := h.window hWidth order
    obtain ⟨r', hAdvance, hValid, hSequence, hConsumed⟩ := h.advance hWidth
    rw [SegmentReader.read, if_neg (by omega), hWindow, ← hDecode]
    cases hValue : p.decode order window with
    | none => exact .inl ⟨rfl, by simp [hValue]⟩
    | some v =>
        refine .inr ⟨v, r', rfl, ?_, hValid, hSequence, hConsumed⟩
        simp [hValue, hAdvance]
  · refine .inl ⟨?_, if_pos (by omega)⟩
    rw [h.remaining_eq, h.unread] at hWidth
    exact if_pos (by omega)

end SegmentReader

end WireRecord
