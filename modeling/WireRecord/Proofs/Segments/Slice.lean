import WireRecord.Proofs.Cursor.Refinement

/-!
Slices of a segmented sequence where a cursor stands. A settled place is known by the number of
bytes before it, so a slice there is the sequence without that many bytes. Such slices compose, and
a fresh cursor on one goes on as the cursor that cut it would.
-/

namespace WireRecord

namespace Segments

/-- The given segments without their first `count` bytes. A segment of which nothing is left is
passed, unless it is the last one. -/
def beyond (count : Nat) (first : Bytes) : List Bytes → Segments
  | [] => ⟨first.drop count, []⟩
  | next :: later =>
    if first.length ≤ count then beyond (count - first.length) next later
    else ⟨first.drop count, next :: later⟩

/-- The sequence without its first `count` bytes. -/
def dropBytes (s : Segments) (count : Nat) : Segments := beyond count s.first s.rest

/-- A slice where a cursor can rest is told by the number of bytes before the place. -/
theorem slice_eq_dropBytes {s : Segments} {p : Position} (hHolds : s.Holds p)
    (hSettled : s.Settled p) : s.slice p = s.dropBytes (s.before p) := by
  obtain ⟨first, rest⟩ := s
  obtain ⟨index, offset⟩ := p
  induction index generalizing first rest with
  | zero =>
      have hBefore : before ⟨first, rest⟩ ⟨0, offset⟩ = offset := by simp [before]
      have hSlice : slice ⟨first, rest⟩ ⟨0, offset⟩ = ⟨first.drop offset, rest⟩ := rfl
      rw [hBefore, hSlice, dropBytes]
      cases rest with
      | nil => rfl
      -- a settled place is not at the end of its segment, so no later one is cut
      | cons next later =>
          have hUnread : ¬first.length ≤ offset := by
            intro hExhausted
            have hLater : next :: later = [] := hSettled (List.drop_eq_nil_of_le hExhausted)
            cases hLater
          rw [beyond, if_neg hUnread]
  | succ index ih =>
      cases rest with
      | nil =>
          obtain ⟨segment, hSegment, _⟩ := hHolds
          cases hSegment
      | cons next later =>
          have hBefore : before ⟨first, next :: later⟩ ⟨index + 1, offset⟩ =
              first.length + before ⟨next, later⟩ ⟨index, offset⟩ := by
            simp [before, toList, Nat.add_assoc]
          have hRest := ih next later hHolds hSettled
          rw [hBefore, dropBytes, beyond, if_pos (Nat.le_add_right ..), Nat.add_sub_cancel_left]
          exact hRest

/-- Segments cut off at the front have the bytes that are left. -/
theorem bytes_dropBytes (s : Segments) (count : Nat) :
    (s.dropBytes count).bytes = s.bytes.drop count := by
  obtain ⟨first, rest⟩ := s
  simp only [dropBytes]
  induction rest generalizing first count with
  | nil => simp [beyond, bytes, toList]
  | cons next later ih =>
      have hBytes : bytes ⟨first, next :: later⟩ = first ++ bytes ⟨next, later⟩ := rfl
      rw [hBytes, beyond]
      by_cases hFirst : first.length ≤ count
      · rw [if_pos hFirst, ih, List.drop_append, List.drop_eq_nil_of_le hFirst, List.nil_append]
      · rw [if_neg hFirst, List.drop_append_of_le_length (Nat.le_of_not_le hFirst)]
        rfl

theorem dropBytes_dropBytes (s : Segments) (a b : Nat) :
    (s.dropBytes a).dropBytes b = s.dropBytes (a + b) := by
  obtain ⟨first, rest⟩ := s
  simp only [dropBytes]
  induction rest generalizing first a with
  | nil => simp [beyond, List.drop_drop]
  | cons next later ih =>
      by_cases hFirst : first.length ≤ a
      · have hBoth : first.length ≤ a + b := by omega
        have hLeft : a - first.length + b = a + b - first.length := by omega
        rw [beyond, if_pos hFirst, ih, beyond, if_pos hBoth, hLeft]
      · have hLength : (first.drop a).length = first.length - a := List.length_drop
        by_cases hBoth : first.length ≤ a + b
        · have hLeft : b - (first.length - a) = a + b - first.length := by omega
          have hSecond : first.length - a ≤ b := by omega
          simp only [beyond, if_neg hFirst, hLength, if_pos hSecond, if_pos hBoth, hLeft]
        · have hSecond : ¬first.length - a ≤ b := by omega
          simp only [beyond, if_neg hFirst, hLength, if_neg hSecond, if_neg hBoth, List.drop_drop]

end Segments

namespace ReadStep

variable {ρ σ : Type} [ReadCursor ρ] [ReadCursor σ]

/-- The cursor that a script leaves. -/
def finish : List ReadStep → ρ → ρ
  | [], r => r
  | step :: rest, r => finish rest (step.run r).2

/-- A script after another one starts where that has ended. -/
theorem finish_append (script further : List ReadStep) (r : ρ) :
    finish (script ++ further) r = finish further (finish script r) := by
  induction script generalizing r with
  | nil => rfl
  | cons step rest ih => exact ih _

/-- The run lemma for scripts: a relation that every step keeps holds at the end. -/
theorem finish_rel {R : ρ → σ → Prop} {r : ρ} {q : σ}
    (hStep : ∀ (step : ReadStep) r q, R r q →
      (step.run r).1 = (step.run q).1 ∧ R (step.run r).2 (step.run q).2)
    (script : List ReadStep) (h : R r q) : R (finish script r) (finish script q) := by
  induction script generalizing r q with
  | nil => exact h
  | cons step rest ih => exact ih (hStep step r q h).2

end ReadStep

namespace SegmentReader

variable {r q : SegmentReader} {s t : Segments} {skipped : Nat}

/-- A slice at a cursor is the sequence without what the cursor has consumed, segment by segment. -/
theorem Valid.slice_eq (h : r.Valid) :
    r.sequence.slice r.position = r.sequence.dropBytes r.consumed := by
  rw [h.consumed_eq]
  exact Segments.slice_eq_dropBytes h.holds h.settled

/-- The cursor `r` over `s` and the cursor `q` over the rest `t` of `s` stand before the same byte.
-/
structure Leads (s t : Segments) (skipped : Nat) (r q : SegmentReader) : Prop where
  rest_eq : t.bytes = s.bytes.drop skipped
  valid : r.Valid
  valid' : q.Valid
  sequence_eq : r.sequence = s
  sequence_eq' : q.sequence = t
  consumed_eq : r.consumed = skipped + q.consumed

namespace Leads

theorem unread_eq (h : Leads s t skipped r q) :
    r.sequence.bytes.drop r.consumed = q.sequence.bytes.drop q.consumed := by
  rw [h.sequence_eq, h.sequence_eq', h.rest_eq, h.consumed_eq, List.drop_drop]

theorem remaining_eq (h : Leads s t skipped r q) : r.remaining = q.remaining := by
  rw [h.valid.remaining_eq, h.valid.unread, h.unread_eq, ← h.valid'.unread,
    ← h.valid'.remaining_eq]

/-- Both cursors move on by the same number of bytes. -/
theorem forward {count : Nat} {r' q' : SegmentReader} (h : Leads s t skipped r q)
    (hMoved : r'.Valid ∧ r'.sequence = r.sequence ∧ r'.consumed = r.consumed + count)
    (hMoved' : q'.Valid ∧ q'.sequence = q.sequence ∧ q'.consumed = q.consumed + count) :
    Leads s t skipped r' q' := by
  obtain ⟨hValid, hSequence, hConsumed⟩ := hMoved
  obtain ⟨hValid', hSequence', hConsumed'⟩ := hMoved'
  refine ⟨h.rest_eq, hValid, hValid', hSequence.trans h.sequence_eq,
    hSequence'.trans h.sequence_eq', ?_⟩
  rw [hConsumed, hConsumed', h.consumed_eq, Nat.add_assoc]

theorem read (h : Leads s t skipped r q) (p : Primitive) (order : ByteOrder) :
    Option.Rel (fun a b => a.1 = b.1 ∧ Leads s t skipped a.2 b.2)
      (r.read p order) (q.read p order) := by
  have hRead := h.valid.read p order
  rw [h.unread_eq] at hRead
  rcases hRead with ⟨hDecode, hNone⟩ | ⟨v, r', hDecode, hSome, hMoved⟩
  · rcases h.valid'.read p order with ⟨_, hNone'⟩ | ⟨v', q', hDecode', _⟩
    · rw [hNone, hNone']
      exact .none
    · cases hDecode.symm.trans hDecode'
  · rcases h.valid'.read p order with ⟨hDecode', _⟩ | ⟨v', q', hDecode', hSome', hMoved'⟩
    · cases hDecode.symm.trans hDecode'
    · cases hDecode.symm.trans hDecode'
      rw [hSome, hSome']
      exact .some ⟨rfl, h.forward hMoved hMoved'⟩

theorem advance (h : Leads s t skipped r q) (count : Nat) :
    Option.Rel (Leads s t skipped) (r.advance count) (q.advance count) := by
  by_cases hCount : r.remaining < count
  · rw [advance_eq_none hCount, advance_eq_none (h.remaining_eq ▸ hCount)]
    exact .none
  · obtain ⟨r', hSome, hMoved⟩ := h.valid.advance (Nat.not_lt.mp hCount)
    obtain ⟨q', hSome', hMoved'⟩ :=
      h.valid'.advance (h.remaining_eq ▸ Nat.not_lt.mp hCount)
    rw [hSome, hSome']
    exact .some (h.forward hMoved hMoved')

theorem run (step : ReadStep) (r q : SegmentReader) (h : Leads s t skipped r q) :
    (step.run r).1 = (step.run q).1 ∧ Leads s t skipped (step.run r).2 (step.run q).2 := by
  cases step with
  | byte p => exact ReadReport.ofRead_rel h (h.read p .little)
  | little p => exact ReadReport.ofRead_rel h (h.read p .little)
  | big p => exact ReadReport.ofRead_rel h (h.read p .big)
  | ordered p order => exact ReadReport.ofRead_rel h (h.read p order)
  | advance count => exact ReadReport.ofMove_rel h (h.advance count)

/-- Slices of a sequence and of its rest, at places before the same byte, are the same. -/
theorem slice_eq (h : Leads s (s.dropBytes skipped) skipped r q) :
    (s.dropBytes skipped).slice q.position = s.slice r.position := by
  have hSlice := h.valid.slice_eq
  have hSlice' := h.valid'.slice_eq
  rw [h.sequence_eq] at hSlice
  rw [h.sequence_eq'] at hSlice'
  rw [hSlice, hSlice', Segments.dropBytes_dropBytes, h.consumed_eq]

/-- A sequence and its rest, with cursors that both stand where the rest starts. -/
theorem start (hValid : r.Valid) (hSequence : r.sequence = s) (hConsumed : r.consumed = skipped)
    (hRest : t.bytes = s.bytes.drop skipped) : Leads s t skipped r (start t) :=
  ⟨hRest, hValid, start_valid t, hSequence, rfl, hConsumed⟩

end Leads

/-- A script that starts at the start of a sequence leaves a valid cursor over that sequence. -/
theorem valid_finish (s : Segments) (script : List ReadStep) :
    (ReadStep.finish script (start s)).Valid ∧
      (ReadStep.finish script (start s)).sequence = s := by
  have hSame : Leads s s 0 (start s) (start s) :=
    ⟨rfl, start_valid s, start_valid s, rfl, rfl, (Nat.zero_add _).symm⟩
  have hFinish := ReadStep.finish_rel Leads.run script hSame
  exact ⟨hFinish.valid, hFinish.sequence_eq⟩

end SegmentReader

/-- The slice of a sequence where a script of a cursor over it ends. -/
def Segments.sliceAfter (s : Segments) (script : List ReadStep) : Segments :=
  s.slice (ReadStep.finish script (SegmentReader.start s)).position

namespace Segments

variable (s : Segments) (script : List ReadStep)

theorem sliceAfter_eq : s.sliceAfter script =
    s.dropBytes (ReadStep.finish script (SegmentReader.start s)).consumed := by
  obtain ⟨hValid, hSequence⟩ := SegmentReader.valid_finish s script
  have hSlice := hValid.slice_eq
  rwa [hSequence] at hSlice

/-- A slice after a script has the bytes that the script has left unread. -/
theorem bytes_sliceAfter : (s.sliceAfter script).bytes =
    s.bytes.drop (ReadStep.finish script (SegmentReader.start s)).consumed := by
  rw [sliceAfter_eq, bytes_dropBytes]

/-- The cursor at the end of a script leads a fresh one on the slice there. -/
theorem leads_sliceAfter :
    SegmentReader.Leads s (s.sliceAfter script)
      (ReadStep.finish script (SegmentReader.start s)).consumed
      (ReadStep.finish script (SegmentReader.start s))
      (SegmentReader.start (s.sliceAfter script)) := by
  obtain ⟨hValid, hSequence⟩ := SegmentReader.valid_finish s script
  exact .start hValid hSequence rfl (s.bytes_sliceAfter script)

/-- Slices of slices are slices after the scripts taken together. -/
theorem sliceAfter_sliceAfter (further : List ReadStep) :
    (s.sliceAfter script).sliceAfter further = s.sliceAfter (script ++ further) := by
  have hFinish := ReadStep.finish_rel SegmentReader.Leads.run further (s.leads_sliceAfter script)
  rw [sliceAfter_eq] at hFinish
  have hSlice := hFinish.slice_eq
  rw [← sliceAfter_eq] at hSlice
  rw [sliceAfter, hSlice, sliceAfter, ReadStep.finish_append]

/-- Nothing is unread in the first segment of a slice only at the end of the sequence. -/
theorem first_sliceAfter_eq_nil_iff : (s.sliceAfter script).first = [] ↔
    (ReadStep.finish script (SegmentReader.start s)).isEnd := by
  obtain ⟨hValid, hSequence⟩ := SegmentReader.valid_finish s script
  have hFirst : (s.sliceAfter script).first =
      (ReadStep.finish script (SegmentReader.start s)).current := by
    have hSlice := hValid.holds.slice_eq
    rw [hSequence] at hSlice
    rw [sliceAfter, hSlice, SegmentReader.current, hSequence]
    rfl
  rw [hFirst, SegmentReader.isEnd, beq_iff_eq]
  constructor
  · intro hEmpty
    by_contra hMore
    exact hValid.current_ne_nil (Nat.pos_of_ne_zero hMore) hEmpty
  · intro hEnd
    rw [hValid.remaining_eq, List.length_eq_zero_iff] at hEnd
    exact (List.append_eq_nil_iff.mp hEnd).1

end Segments

/-- The slice where a cursor stands has the unread bytes, and some in its first segment unless there
are none. A fresh cursor on it reports and has left what the first cursor would if it went on, and
slices there have the same segments. So it does not matter how often a sequence is sliced and read
again: the slice is the one at the end of all that was read. -/
theorem slices_are_unread_rest (s : Segments) (script : List ReadStep) :
    (s.sliceAfter script).bytes =
      s.bytes.drop (ReadStep.finish script (SegmentReader.start s)).consumed ∧
    ((s.sliceAfter script).first = [] ↔
      (ReadStep.finish script (SegmentReader.start s)).isEnd) ∧
    (∀ further : List ReadStep,
      List.Forall₂ (fun a b => a.step = b.step ∧ a.report = b.report ∧
          a.after.remaining = b.after.remaining)
        (ReadStep.trace further (SegmentReader.start (s.sliceAfter script)))
        (ReadStep.trace further (ReadStep.finish script (SegmentReader.start s))) ∧
      (s.sliceAfter script).sliceAfter further =
        s.slice (ReadStep.finish further
          (ReadStep.finish script (SegmentReader.start s))).position) ∧
    ∀ scripts : List (List ReadStep),
      scripts.foldl Segments.sliceAfter (s.sliceAfter script) =
        s.sliceAfter (script ++ scripts.flatten) := by
  refine ⟨s.bytes_sliceAfter script, s.first_sliceAfter_eq_nil_iff script, fun further => ⟨?_, ?_⟩,
    fun scripts => ?_⟩
  · have hTrace := ReadStep.trace_rel
      (fun step (_ : step ∈ further) => SegmentReader.Leads.run step) (s.leads_sliceAfter script)
    refine hTrace.flip.imp ?_
    rintro a b ⟨hStep, hReport, _, hAfter⟩
    exact ⟨hStep.symm, hReport.symm, hAfter.remaining_eq.symm⟩
  · rw [s.sliceAfter_sliceAfter, Segments.sliceAfter, ReadStep.finish_append]
  · induction scripts generalizing script with
    | nil => simp
    | cons next later ih =>
        rw [List.foldl_cons, s.sliceAfter_sliceAfter, ih, List.flatten_cons, List.append_assoc]

end WireRecord
