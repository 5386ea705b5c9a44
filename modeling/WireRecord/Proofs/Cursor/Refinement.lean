import Mathlib.Data.List.Forall2
import WireRecord.Proofs.Segments.Reader

/-!
A cursor over a segmented sequence does what a cursor over its concatenated bytes does. The relation
between the two is kept by every move, and so every script reports the same on both.
-/

namespace WireRecord

/-- The two cursors run over the given bytes, in segments and in one piece, and stand before the
same one of them. -/
structure Refines (bytes : Bytes) (r : SegmentReader) (q : Reader) : Prop where
  valid : r.Valid
  segmented : r.sequence.bytes = bytes
  contiguous : q.buffer = bytes
  position_eq : q.position = r.consumed

/-- The two results are both absent, or agree in their values and leave related cursors. -/
abbrev RefinesResult (bytes : Bytes) :
    Option (Scalar × SegmentReader) → Option (Scalar × Reader) → Prop :=
  Option.Rel fun a b => a.1 = b.1 ∧ Refines bytes a.2 b.2

theorem refines_start (s : Segments) :
    Refines s.bytes (SegmentReader.start s) (Reader.start s.bytes) :=
  ⟨SegmentReader.start_valid s, rfl, rfl, rfl⟩

namespace Refines

variable {bytes : Bytes} {r : SegmentReader} {q : Reader}

theorem unread_eq (h : Refines bytes r q) : q.unread = bytes.drop r.consumed := by
  rw [Reader.unread, h.contiguous, h.position_eq]

theorem remaining_eq (h : Refines bytes r q) : r.remaining = q.unread.length := by
  rw [h.valid.remaining_eq, h.valid.unread, h.unread_eq, h.segmented]

/-- A move fails for both cursors or for none. -/
theorem advance (h : Refines bytes r q) (count : Nat) :
    Option.Rel (Refines bytes) (r.advance count) (q.advance count) := by
  have hLength : q.buffer.length - q.position = r.remaining := by
    rw [h.remaining_eq, Reader.unread, List.length_drop]
  by_cases hCount : r.remaining < count
  · rw [SegmentReader.advance_eq_none hCount, Reader.advance, if_pos (by omega)]
    exact .none
  · obtain ⟨r', hAdvance, hValid, hSequence, hConsumed⟩ := h.valid.advance (Nat.not_lt.mp hCount)
    rw [hAdvance, Reader.advance, if_neg (by omega)]
    exact .some ⟨hValid, (congrArg Segments.bytes hSequence).trans h.segmented, h.contiguous,
      by simp only [hConsumed, h.position_eq]⟩

/-- A read gives both cursors the same value, also where its bytes lie in several segments. -/
theorem read (h : Refines bytes r q) (p : Primitive) (order : ByteOrder) :
    RefinesResult bytes (r.read p order) (q.read p order) := by
  have hCases := h.valid.read p order
  rw [h.segmented] at hCases
  rw [Reader.read, h.unread_eq]
  rcases hCases with ⟨hDecode, hRead⟩ | ⟨v, r', hDecode, hRead, hValid, hSequence, hConsumed⟩
  · rw [hDecode, hRead]
    exact .none
  · rw [hDecode, hRead]
    exact .some ⟨rfl, hValid, (congrArg Segments.bytes hSequence).trans h.segmented, h.contiguous,
      by simp only [hConsumed, h.position_eq]⟩

end Refines

/-- A primitive of one byte is the same in both byte orders. -/
theorem Primitive.decode_of_isSingleByte {p : Primitive} (hSingle : p.isSingleByte)
    (order : ByteOrder) (source : Bytes) : p.decode order source = source.head?.bind p.ofByte? := by
  have hWidth : p.width = 1 := by simpa [Primitive.isSingleByte] using hSingle
  cases source with
  | nil => simp [Primitive.decode, hWidth]
  | cons byte rest =>
      have hNumber : order.decode [byte] = byte.toNat := by
        cases order <;> simp [ByteOrder.decode, littleValue]
      have hCode : p.ofCode? byte.toNat = p.ofByte? byte := by
        cases p with
        | bool =>
            have hZero : byte.toNat = 0 ↔ byte = 0 := UInt8.toNat_inj (b := 0)
            simp [Primitive.ofCode?, Primitive.ofByte?, bne, Bool.beq_eq_decide_eq, hZero]
        | u8 | i8 => simp [Primitive.ofCode?, Primitive.ofByte?]
        | i16 | u16 | i32 | u32 | i64 | u64 | f32 | f64 | char => cases hSingle
      simp [Primitive.decode, hWidth, hNumber, hCode]

theorem Reader.readByte_eq {p : Primitive} (hSingle : p.isSingleByte) (q : Reader)
    (order : ByteOrder) : q.readByte p = q.read p order := by
  have hWidth : p.width = 1 := by simpa [Primitive.isSingleByte] using hSingle
  rw [Reader.read, Primitive.decode_of_isSingleByte hSingle, Reader.unread, List.head?_drop,
    Reader.readByte, hWidth]
  cases q.buffer[q.position]? <;> rfl

/-- A single byte is never cut up. -/
theorem Refines.readByte {bytes : Bytes} {r : SegmentReader} {q : Reader} (h : Refines bytes r q)
    {p : Primitive} (hSingle : p.isSingleByte) :
    RefinesResult bytes (r.readByte p) (q.readByte p) := by
  rw [Reader.readByte_eq hSingle q .little]
  exact h.read p .little

/-- Bytes that a step takes: the width of what it reads, or the count by which it moves. -/
def ReadStep.width : ReadStep → Nat
  | byte p | little p | big p | ordered p _ => p.width
  | advance count => count

/-- Whether the bytes that a step takes are a value of what it reads. Every byte can be passed. -/
def ReadStep.decodes (window : Bytes) : ReadStep → Bool
  | byte p | little p => (p.ofCode? (ByteOrder.little.decode window)).isSome
  | big p => (p.ofCode? (ByteOrder.big.decode window)).isSome
  | ordered p order => (p.ofCode? (order.decode window)).isSome
  | advance _ => true

/-- Only one-byte primitives are read as bare bytes; the other steps are open to all. -/
def ReadStep.isTyped : ReadStep → Bool
  | byte p => p.isSingleByte
  | _ => true

def ReadReport.isFailure : ReadReport → Bool
  | value v => v.isNone
  | moved done => !done

/-- A step that was run: what it reported, and the cursor before and after it. -/
structure RanStep (ρ : Type) where
  step : ReadStep
  before : ρ
  report : ReadReport
  after : ρ

/-- Runs a script, each step from the cursor that the one before it left. -/
def ReadStep.trace {ρ : Type} [ReadCursor ρ] : List ReadStep → ρ → List (RanStep ρ)
  | [], _ => []
  | step :: rest, r => ⟨step, r, (step.run r).1, (step.run r).2⟩ :: trace rest (step.run r).2

/-- A failed step leaves every cursor as it was. -/
theorem ReadStep.run_of_isFailure {ρ : Type} [ReadCursor ρ] {step : ReadStep} {r : ρ}
    (hFailure : (step.run r).1.isFailure) : (step.run r).2 = r := by
  have hRead : ∀ found : Option (Scalar × ρ), (ReadReport.ofRead r found).1.isFailure →
      (ReadReport.ofRead r found).2 = r := by
    rintro (_ | found) h
    · rfl
    · cases h
  have hMove : ∀ next : Option ρ, (ReadReport.ofMove r next).1.isFailure →
      (ReadReport.ofMove r next).2 = r := by
    rintro (_ | next) h
    · rfl
    · cases h
  cases step with
  | byte p | little p | big p | ordered p order => exact hRead _ hFailure
  | advance count => exact hMove _ hFailure

section InStep

variable {ρ σ : Type} {R : ρ → σ → Prop} {r : ρ} {q : σ}

/-- Reads with the same result report the same, whether they fail or not. -/
theorem ReadReport.ofRead_rel (h : R r q) {found : Option (Scalar × ρ)}
    {found' : Option (Scalar × σ)}
    (hFound : Option.Rel (fun a b => a.1 = b.1 ∧ R a.2 b.2) found found') :
    (ofRead r found).1 = (ofRead q found').1 ∧ R (ofRead r found).2 (ofRead q found').2 := by
  cases hFound with
  | none => exact ⟨rfl, h⟩
  | some hPair => exact ⟨by simp only [ofRead, hPair.1], hPair.2⟩

/-- A move that fails leaves a cursor where it was, so that the relation is kept in any case. -/
theorem ReadReport.ofMove_rel (h : R r q) {next : Option ρ} {next' : Option σ}
    (hNext : Option.Rel R next next') :
    (ofMove r next).1 = (ofMove q next').1 ∧ R (ofMove r next).2 (ofMove q next').2 := by
  cases hNext with
  | none => exact ⟨rfl, h⟩
  | some hMoved => exact ⟨rfl, hMoved⟩

/-- Cursors whose relation is kept by every step of a script run it in step. -/
theorem ReadStep.trace_rel [ReadCursor ρ] [ReadCursor σ] {script : List ReadStep}
    (hStep : ∀ step ∈ script, ∀ r q, R r q →
      (step.run r).1 = (step.run q).1 ∧ R (step.run r).2 (step.run q).2) (h : R r q) :
    List.Forall₂ (fun a b => a.step = b.step ∧ a.report = b.report ∧
      R a.before b.before ∧ R a.after b.after)
      (ReadStep.trace script r) (ReadStep.trace script q) := by
  induction script generalizing r q with
  | nil => exact .nil
  | cons step rest ih =>
      rw [List.forall_mem_cons] at hStep
      obtain ⟨hReport, hAfter⟩ := hStep.1 r q h
      exact .cons ⟨rfl, hReport, h, hAfter⟩ (ih hStep.2 hAfter)

end InStep

/-- The step lemma of the simulation: both cursors answer the same, and stay in step. -/
theorem Refines.run {bytes : Bytes} {r : SegmentReader} {q : Reader} (h : Refines bytes r q)
    {step : ReadStep} (hTyped : step.isTyped) :
    (step.run r).1 = (step.run q).1 ∧ Refines bytes (step.run r).2 (step.run q).2 := by
  cases step with
  | byte p => exact ReadReport.ofRead_rel h (h.readByte hTyped)
  | little p => exact ReadReport.ofRead_rel h (h.read p .little)
  | big p => exact ReadReport.ofRead_rel h (h.read p .big)
  | ordered p order => exact ReadReport.ofRead_rel h (h.read p order)
  | advance count => exact ReadReport.ofMove_rel h (h.advance count)

/-- A primitive cannot be decoded from too few bytes, or from bytes that stand for none of its
values. -/
theorem Primitive.decode_eq_none_iff {p : Primitive} {order : ByteOrder} {source : Bytes} :
    p.decode order source = none ↔
      source.length < p.width ∨
        (p.ofCode? (order.decode (source.take p.width))).isSome = false := by
  by_cases hShort : source.length < p.width
  · simp [Primitive.decode, hShort]
  · simp [Primitive.decode, hShort]

/-- What a valid cursor has left decides alone whether a step fails. -/
theorem SegmentReader.Valid.isFailure_iff {r : SegmentReader} (h : r.Valid) (step : ReadStep) :
    (step.run r).1.isFailure ↔ r.remaining < step.width ∨
      step.decodes ((r.sequence.bytes.drop r.consumed).take step.width) = false := by
  have hLength : (r.sequence.bytes.drop r.consumed).length = r.remaining := by
    rw [h.remaining_eq, h.unread]
  have hRead : ∀ p order, (ReadReport.ofRead r (r.read p order)).1.isFailure ↔
      r.remaining < p.width ∨
        (p.ofCode?
          (order.decode ((r.sequence.bytes.drop r.consumed).take p.width))).isSome = false := by
    intro p order
    rw [← hLength, ← Primitive.decode_eq_none_iff]
    rcases h.read p order with ⟨hDecode, hRead⟩ | ⟨v, r', hDecode, hRead, _⟩
    · rw [hDecode, hRead]
      exact iff_of_true rfl rfl
    · rw [hDecode, hRead]
      exact iff_of_false (by simp [ReadReport.ofRead, ReadReport.isFailure]) (by simp)
  -- The four reads are one read, in an order that for a byte does not matter.
  cases step with
  | byte p => exact hRead p .little
  | little p => exact hRead p .little
  | big p => exact hRead p .big
  | ordered p order => exact hRead p order
  | advance count =>
      change (ReadReport.ofMove r (r.advance count)).1.isFailure ↔
        r.remaining < count ∨ true = false
      by_cases hCount : r.remaining < count
      · rw [SegmentReader.advance_eq_none hCount]
        exact iff_of_true rfl (.inl hCount)
      · obtain ⟨r', hAdvance, _⟩ := h.advance (Nat.not_lt.mp hCount)
        rw [hAdvance]
        exact iff_of_false (by simp [ReadReport.ofMove, ReadReport.isFailure])
          (by simpa using hCount)

/-- Every step of a script keeps the two cursors related, and so reports the same on both. -/
theorem Refines.trace {script : List ReadStep} (hTyped : ∀ step ∈ script, step.isTyped)
    {bytes : Bytes} {r : SegmentReader} {q : Reader} (h : Refines bytes r q) :
    List.Forall₂ (fun a b => a.step = b.step ∧ a.report = b.report ∧
      Refines bytes a.before b.before ∧ Refines bytes a.after b.after)
      (ReadStep.trace script r) (ReadStep.trace script q) :=
  ReadStep.trace_rel (fun step hStep _ _ hRelated => hRelated.run (hTyped step hStep)) h

/-- Every entry of a trace is one run of its step. -/
theorem ReadStep.mem_trace {ρ : Type} [ReadCursor ρ] {script : List ReadStep} {r : ρ}
    {ran : RanStep ρ} (hRan : ran ∈ ReadStep.trace script r) :
    ran.report = (ran.step.run ran.before).1 ∧ ran.after = (ran.step.run ran.before).2 := by
  induction script generalizing r with
  | nil => cases hRan
  | cons step rest ih =>
      rcases List.mem_cons.mp hRan with hHead | hRest
      · subst hHead
        exact ⟨rfl, rfl⟩
      · exact ih hRest

/-- A related contiguous cursor stands behind every entry of the trace of a segmented one. -/
theorem Refines.of_mem_trace {script : List ReadStep} (hTyped : ∀ step ∈ script, step.isTyped)
    {bytes : Bytes} {r : SegmentReader} {q : Reader} (h : Refines bytes r q)
    {ran : RanStep SegmentReader} (hRan : ran ∈ ReadStep.trace script r) :
    ∃ q', Refines bytes ran.before q' := by
  obtain ⟨i, hi, hGet⟩ := List.mem_iff_getElem.mp hRan
  have hTrace := h.trace hTyped
  have hLength := hTrace.length_eq
  have hPair := hTrace.get hi (hLength ▸ hi)
  subst hGet
  exact ⟨_, hPair.2.2.1⟩

/-- A script runs on a segmented sequence as it does on the concatenated bytes: every step reports
the same and leaves as many bytes behind it and before it. A step on the segmented sequence fails
exactly if too few bytes remain or they are no value of what is read, and then changes nothing, so
no failure comes from where the bytes are cut. -/
theorem segmented_run_eq_contiguous_run (segments : List Bytes) (script : List ReadStep)
    (hTyped : ∀ step ∈ script, step.isTyped) :
    List.Forall₂ (fun a b => a.step = b.step ∧ a.report = b.report ∧
        a.after.consumed = b.after.position ∧ a.after.remaining = b.after.unread.length ∧
        (a.after.isEnd ↔ b.after.unread = []))
      (ReadStep.trace script (SegmentReader.start (.ofList segments)))
      (ReadStep.trace script (Reader.start segments.flatten)) ∧
    ∀ ran ∈ ReadStep.trace script (SegmentReader.start (.ofList segments)),
      (ran.report.isFailure ↔ ran.before.remaining < ran.step.width ∨
        ran.step.decodes
          ((segments.flatten.drop ran.before.consumed).take ran.step.width) = false) ∧
      (ran.report.isFailure → ran.after = ran.before) := by
  have hStart := refines_start (.ofList segments)
  rw [Segments.bytes_ofList] at hStart
  constructor
  · refine (hStart.trace hTyped).imp ?_
    rintro a b ⟨hStep, hReport, _, hAfter⟩
    have hRemaining := hAfter.remaining_eq
    refine ⟨hStep, hReport, hAfter.position_eq.symm, hRemaining, ?_⟩
    rw [SegmentReader.isEnd, beq_iff_eq, hRemaining, List.length_eq_zero_iff]
  · intro ran hRan
    obtain ⟨hReport, hAfter⟩ := ReadStep.mem_trace hRan
    obtain ⟨q, hBefore⟩ := hStart.of_mem_trace hTyped hRan
    rw [hReport, hAfter]
    refine ⟨?_, ReadStep.run_of_isFailure⟩
    rw [hBefore.valid.isFailure_iff, hBefore.segmented]

/-- A number and a character that lie across cuts, a lone surrogate, and moves up to and past the
end: the reports on five segments, two of them empty. -/
theorem segmented_run_across_cuts :
    (ReadStep.trace
        [.little .u32, .big .char, .ordered .char .little, .advance 4, .byte .bool, .advance 1]
        (SegmentReader.start (.ofList [[], [1, 2], [], [3, 4, 0xd8], [0x41, 7]]))).map
          RanStep.report =
      [.value (some (.u32 0x04030201)), .value none, .value (some (.char '\u41d8')), .moved false,
        .value (some (.bool true)), .moved false] := by
  have hRun := (segmented_run_eq_contiguous_run [[], [1, 2], [], [3, 4, 0xd8], [0x41, 7]]
    [.little .u32, .big .char, .ordered .char .little, .advance 4, .byte .bool, .advance 1]
    (by decide)).1
  have hReports := List.forall₂_map_left_iff.mpr
    (List.forall₂_map_right_iff.mpr (hRun.imp fun a b h => h.2.1))
  rw [List.forall₂_eq_eq_eq] at hReports
  rw [hReports]
  decide

end WireRecord
