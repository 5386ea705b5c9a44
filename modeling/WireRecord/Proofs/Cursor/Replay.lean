import WireRecord.Proofs.Record.Writing

/-!
Scripts of a write cursor, and their replay by a read cursor. A step that succeeds replaces the
bytes at the cursor and moves past them, and a step that fails changes nothing. No step touches what
lies before the cursor, so the final buffer still shows what every step wrote, at the place where it
was written.
-/

namespace WireRecord

namespace WriteStep

/-- Only one-byte primitives are written as bare bytes; the other steps are open to all. -/
def isTyped : WriteStep → Bool
  | byte v => v.primitive.isSingleByte
  | _ => true

/-- The value that a step writes and its byte order, which does not matter for a bare byte. -/
def leaf? : WriteStep → Option Leaf
  | byte v | little v => some ⟨v, .little⟩
  | big v => some ⟨v, .big⟩
  | ordered v order => some ⟨v, order⟩
  | advance _ => none

/-- Bytes that a step takes: the width of what it writes, or the count by which it moves. -/
def width : WriteStep → Nat
  | byte v | little v | big v | ordered v _ => v.width
  | advance count => count

/-- Whether a step has nothing to write that cannot be encoded. -/
def fits (step : WriteStep) : Bool := step.leaf?.all Leaf.fits

/-- What stands at the cursor after a step: the encoding of what it writes, or what stood there. -/
def window (step : WriteStep) (w : Writer) : Bytes :=
  match step.leaf? with
  | some l => l.bytes
  | none => w.tail.take step.width

/-- The step of a read cursor that goes over the same bytes. -/
def replay : WriteStep → ReadStep
  | byte v => .byte v.primitive
  | little v => .little v.primitive
  | big v => .big v.primitive
  | ordered v order => .ordered v.primitive order
  | advance count => .advance count

/-- What a read cursor reports that finds what the step wrote. -/
def answer : WriteStep → ReadReport
  | byte v | little v | big v | ordered v _ => .value (some v)
  | advance _ => .moved true

variable {step : WriteStep} {w w' : Writer}

/-- Of all that a script can write only a character may be too wide, for it has two bytes. -/
theorem fits_iff :
    step.fits ↔ ∀ l, step.leaf? = some l → ∀ c, l.scalar = .char c → c.toNat ≤ 0xffff := by
  cases hLeaf : step.leaf? with
  | none => simp [fits, hLeaf]
  | some l => simp [fits, hLeaf, Leaf.fits, Scalar.code?_isSome_iff]

theorem length_window (hRoom : step.width ≤ w.remaining) :
    (step.window w).length = step.width := by
  cases step with
  | byte v | little v | big v | ordered v order => exact Leaf.length_bytes _
  | advance count =>
      change (w.tail.take count).length = count
      rw [List.length_take, Writer.length_tail]
      exact Nat.min_eq_left hRoom

/-- A step succeeds exactly if it has room and can be encoded, and then passes its window. -/
theorem next?_eq (hTyped : step.isTyped) (w : Writer) :
    step.next? w =
      if step.width ≤ w.remaining ∧ step.fits then some (w.pass (step.window w)) else none := by
  have hWrite : ∀ l : Leaf, w.write l.scalar l.order =
      if l.scalar.width ≤ w.remaining ∧ l.fits then some (w.pass l.bytes) else none := by
    intro l
    by_cases hRoom : l.scalar.width ≤ w.remaining
    · simp only [Writer.write_eq hRoom, hRoom, true_and]
    · rw [Writer.write, if_pos (Nat.not_le.mp hRoom), if_neg fun h => hRoom h.1]
  cases step with
  | byte v => exact (Writer.writeByte_eq hTyped w .little).trans (hWrite ⟨v, .little⟩)
  | little v => exact hWrite ⟨v, .little⟩
  | big v => exact hWrite ⟨v, .big⟩
  | ordered v order => exact hWrite ⟨v, order⟩
  | advance count =>
      change w.advance count =
        if count ≤ w.remaining ∧ true = true then some (w.pass (w.tail.take count)) else none
      by_cases hRoom : count ≤ w.remaining
      · have hLength : (w.tail.take count).length = count :=
          @length_window (.advance count) w hRoom
        have hFill : w.fill (w.tail.take count) = w := by
          have hInside : (w.tail.take count).length ≤ w.tail.length := by
            rwa [hLength, Writer.length_tail]
          rw [Writer.fill, overlay_eq_append hInside, hLength, List.take_append_drop,
            Writer.tail, List.take_append_drop]
        rw [Writer.advance, if_neg (Nat.not_lt.mpr hRoom), if_pos ⟨hRoom, rfl⟩, Writer.pass, hFill,
          hLength]
      · rw [Writer.advance, if_pos (Nat.not_le.mp hRoom), if_neg fun h => hRoom h.1]

/-- The final cursor of a script. -/
def finish : List WriteStep → Writer → Writer
  | [], w => w
  | step :: rest, w => finish rest (step.run w).2

end WriteStep

/-- A step that was run: whether it succeeded, and the cursor before and after it. -/
structure RanWrite where
  step : WriteStep
  before : Writer
  done : Bool
  after : Writer

/-- Runs a script, each step from the cursor that the one before it left. -/
def WriteStep.trace : List WriteStep → Writer → List RanWrite
  | [], _ => []
  | step :: rest, w => ⟨step, w, (step.run w).1, (step.run w).2⟩ :: trace rest (step.run w).2

/-- A step succeeds exactly if it has room and what it writes can be encoded. It then puts its
window at the cursor and moves by the width of the window, and otherwise changes nothing. -/
structure RanWrite.Exact (ran : RanWrite) : Prop where
  done_iff : ran.done ↔ ran.step.width ≤ ran.before.remaining ∧
    ∀ l, ran.step.leaf? = some l → ∀ c, l.scalar = .char c → c.toNat ≤ 0xffff
  passed : ran.done → (ran.step.window ran.before).length = ran.step.width ∧
    ran.after.position = ran.before.position + ran.step.width ∧
    ran.after.buffer = ran.before.buffer.take ran.before.position ++
      (ran.step.window ran.before ++
        ran.before.buffer.drop (ran.before.position + ran.step.width))
  unchanged : ran.done = false → ran.after = ran.before

/-- A step of a read cursor goes over the bytes of a step of a write cursor, and finds in them what
that step wrote. -/
structure RanWrite.ReadBy (ran : RanWrite) (seen : RanStep Reader) : Prop where
  step_eq : seen.step = ran.step.replay
  report_eq : seen.report = ran.step.answer
  starts : seen.before.position = ran.before.position
  ends : seen.after.position = ran.after.position

namespace Writer

/-- The later cursor has the same bytes as the earlier one up to where that stood. -/
structure Extends (later earlier : Writer) : Prop where
  position_le : earlier.position ≤ later.position
  length_eq : later.buffer.length = earlier.buffer.length
  take_eq : later.buffer.take earlier.position = earlier.buffer.take earlier.position

variable {w a b c : Writer} {bytes : Bytes}

theorem Extends.refl (w : Writer) : w.Extends w := ⟨Nat.le_refl _, rfl, rfl⟩

/-- What one write leaves alone and what the next one does make up what both do. -/
theorem Extends.trans (hLater : c.Extends b) (hEarlier : b.Extends a) : c.Extends a := by
  refine ⟨Nat.le_trans hEarlier.position_le hLater.position_le,
    hLater.length_eq.trans hEarlier.length_eq, ?_⟩
  have hShort := congrArg (List.take a.position) hLater.take_eq
  rw [List.take_take, List.take_take, Nat.min_eq_left hEarlier.position_le] at hShort
  exact hShort.trans hEarlier.take_eq

theorem length_pass (w : Writer) (bytes : Bytes) :
    (w.pass bytes).buffer.length = w.buffer.length := by
  simp only [pass, fill, List.length_append, List.length_take, length_overlay, length_tail,
    remaining]
  omega

/-- Bytes that end where the cursor moves to start where it stood, inside of the buffer. -/
theorem length_take_position
    (h : (w.buffer.take w.position ++ bytes).length = (w.pass bytes).position) :
    (w.buffer.take w.position).length = w.position := by
  rw [List.length_append, pass] at h
  exact Nat.add_right_cancel h

/-- Bytes written at the cursor leave what stands before it. -/
theorem extends_pass (hRoom : bytes.length ≤ w.remaining) : (w.pass bytes).Extends w := by
  refine ⟨Nat.le_add_right .., w.length_pass bytes, ?_⟩
  rcases pass_cases hRoom with rfl | ⟨hBuffer, hPosition⟩
  · rw [pass_nil]
  · rw [hBuffer, List.append_assoc, List.take_left' (length_take_position hPosition)]

/-- Bytes written at the cursor are still there under every later cursor. -/
theorem Extends.window_eq {later : Writer} (h : later.Extends (w.pass bytes))
    (hRoom : bytes.length ≤ w.remaining) :
    (later.buffer.drop w.position).take bytes.length = bytes := by
  rcases pass_cases hRoom with rfl | ⟨_, hPosition⟩
  · rfl
  · have hTake := congrArg (List.drop w.position) h.take_eq
    rwa [take_pass hRoom, List.drop_left' (length_take_position hPosition), pass, List.drop_take,
      Nat.add_sub_cancel_left] at hTake

end Writer

namespace WriteStep

variable {step : WriteStep}

/-- What running a step comes to: its window is passed, or nothing happens. -/
theorem run_cases (hTyped : step.isTyped) (w : Writer) :
    (step.width ≤ w.remaining ∧ step.fits ∧ step.run w = (true, w.pass (step.window w))) ∨
      (¬(step.width ≤ w.remaining ∧ step.fits) ∧ step.run w = (false, w)) := by
  rw [run, next?_eq hTyped]
  by_cases hDone : step.width ≤ w.remaining ∧ step.fits
  · rw [if_pos hDone]
    exact .inl ⟨hDone.1, hDone.2, rfl⟩
  · rw [if_neg hDone]
    exact .inr ⟨hDone, rfl⟩

/-- A single write is exact: it takes its width or fails for a reason, and touches nothing else. -/
theorem exact_of_run (hTyped : step.isTyped) (w : Writer) :
    RanWrite.Exact ⟨step, w, (step.run w).1, (step.run w).2⟩ := by
  rcases run_cases hTyped w with ⟨hRoom, hFits, hRun⟩ | ⟨hFailed, hRun⟩
  · have hLength := length_window hRoom
    rw [hRun]
    refine ⟨iff_of_true rfl ⟨hRoom, fits_iff.mp hFits⟩, fun _ => ⟨hLength, ?_, ?_⟩,
      fun hFailed => by cases hFailed⟩
    · exact congrArg (w.position + ·) hLength
    · have hTail : (step.window w).length ≤ w.tail.length := by rwa [hLength, Writer.length_tail]
      change w.buffer.take w.position ++ overlay (step.window w) w.tail = _
      rw [overlay_eq_append hTail, hLength, Writer.tail, List.drop_drop]
  · rw [hRun]
    refine ⟨iff_of_false Bool.false_ne_true ?_, fun hDone => (by cases hDone), fun _ => rfl⟩
    rwa [← fits_iff]

/-- A write adds to what has been written before and changes none of it. -/
theorem extends_run (hTyped : step.isTyped) (w : Writer) : (step.run w).2.Extends w := by
  rcases run_cases hTyped w with ⟨hRoom, _, hRun⟩ | ⟨_, hRun⟩
  · rw [hRun]
    exact Writer.extends_pass ((length_window hRoom).trans_le hRoom)
  · rw [hRun]
    exact .refl w

/-- No script changes what lies before the cursor where it starts. -/
theorem extends_finish {script : List WriteStep} (hTyped : ∀ step ∈ script, step.isTyped)
    (w : Writer) : (finish script w).Extends w := by
  induction script generalizing w with
  | nil => exact .refl w
  | cons step rest ih =>
      rw [List.forall_mem_cons] at hTyped
      exact (ih hTyped.2 _).trans (extends_run hTyped.1 w)

/-- Every write of a script is exact at the cursor that the writes before it have left. -/
theorem exact_of_mem_trace {script : List WriteStep} (hTyped : ∀ step ∈ script, step.isTyped)
    {w : Writer} {ran : RanWrite} (hRan : ran ∈ trace script w) : ran.Exact := by
  induction script generalizing w with
  | nil => cases hRan
  | cons step rest ih =>
      rw [List.forall_mem_cons] at hTyped
      rcases List.mem_cons.mp hRan with rfl | hLater
      · exact exact_of_run hTyped.1 w
      · exact ih hTyped.2 hLater

/-- A read cursor that stands before what a step wrote reads it, and moves as the step did. -/
theorem run_replay (hTyped : step.isTyped) (hFits : step.fits) {q : Reader}
    (hRoom : step.width ≤ q.unread.length)
    (hWindow : ∀ l, step.leaf? = some l → q.unread.take l.scalar.width = l.bytes) :
    step.replay.run q = (step.answer, { q with position := q.position + step.width }) := by
  have hRead : ∀ l : Leaf, step.leaf? = some l → l.scalar.width ≤ q.unread.length →
      q.read l.scalar.primitive l.order =
        some (l.scalar, { q with position := q.position + l.scalar.width }) := by
    intro l hLeaf hWidth
    have hCode : l.fits := by simpa [fits, hLeaf] using hFits
    have hDecode : l.scalar.primitive.decode l.order q.unread = some l.scalar := by
      have hLong : ¬q.unread.length < l.scalar.primitive.width := Nat.not_lt.mpr hWidth
      rw [Primitive.decode, if_neg hLong, ← Scalar.width, hWindow l hLeaf]
      exact Leaf.ofCode?_bytes hCode
    rw [Reader.read, hDecode]
    rfl
  -- Whichever call has written the scalar, the read that answers it takes the same window.
  cases step with
  | byte v =>
      have hByte : ReadCursor.readByte q v.primitive = q.read v.primitive .little :=
        Reader.readByte_eq hTyped q .little
      simp only [replay, ReadStep.run, hByte, hRead ⟨v, .little⟩ rfl hRoom]
      rfl
  | little v =>
      have hLittle : ReadCursor.readLittle q v.primitive = q.read v.primitive .little := rfl
      simp only [replay, ReadStep.run, hLittle, hRead ⟨v, .little⟩ rfl hRoom]
      rfl
  | big v =>
      have hBig : ReadCursor.readBig q v.primitive = q.read v.primitive .big := rfl
      simp only [replay, ReadStep.run, hBig, hRead ⟨v, .big⟩ rfl hRoom]
      rfl
  | ordered v order =>
      have hOrdered : ReadCursor.read q v.primitive order = q.read v.primitive order := rfl
      simp only [replay, ReadStep.run, hOrdered, hRead ⟨v, order⟩ rfl hRoom]
      rfl
  | advance count =>
      have hAdvance : ReadCursor.advance q count = _ := Reader.advance_eq hRoom
      simp only [replay, ReadStep.run, hAdvance]
      rfl

/-- The steps of a script that succeed. -/
def succeeded (script : List WriteStep) (w : Writer) : List RanWrite :=
  (trace script w).filter RanWrite.done

/-- The successful steps of a script, replayed over the final buffer from where the script starts.
-/
theorem trace_replay {script : List WriteStep} (hTyped : ∀ step ∈ script, step.isTyped)
    (w : Writer) :
    List.Forall₂ RanWrite.ReadBy (succeeded script w)
      (ReadStep.trace ((succeeded script w).map fun ran => ran.step.replay)
        ⟨(finish script w).buffer, w.position⟩) := by
  induction script generalizing w with
  | nil => exact .nil
  | cons step rest ih =>
      rw [List.forall_mem_cons] at hTyped
      rcases run_cases hTyped.1 w with ⟨hRoom, hFits, hRun⟩ | ⟨_, hRun⟩
      · have hLength := length_window hRoom
        have hExtends := extends_finish hTyped.2 (w.pass (step.window w))
        have hRest := ih hTyped.2 (w.pass (step.window w))
        have hFinish : finish (step :: rest) w = finish rest (w.pass (step.window w)) := by
          rw [finish, hRun]
        rw [hFinish]
        generalize finish rest (w.pass (step.window w)) = final at hExtends hRest
        -- a read cursor over the final buffer, where the step stood
        have hStep : step.replay.run (⟨final.buffer, w.position⟩ : Reader) =
            (step.answer, ⟨final.buffer, w.position + step.width⟩) := by
          refine run_replay hTyped.1 hFits ?_ fun l hLeaf => ?_
          · rw [Reader.unread, List.length_drop, hExtends.length_eq, Writer.length_pass]
            exact hRoom
          · have hWindow : step.window w = l.bytes := by rw [window, hLeaf]
            have hBytes := hExtends.window_eq (hLength.trans_le hRoom)
            rwa [hWindow, Leaf.length_bytes] at hBytes
        have hPosition : (w.pass (step.window w)).position = w.position + step.width :=
          congrArg (w.position + ·) hLength
        rw [hPosition] at hRest
        simp only [succeeded, trace, hRun, List.filter_cons_of_pos, List.map_cons,
          ReadStep.trace, hStep]
        exact .cons ⟨rfl, rfl, rfl, hPosition.symm⟩ hRest
      · have hRest := ih hTyped.2 w
        simpa only [succeeded, trace, finish, hRun, List.filter_cons_of_neg, Bool.false_eq_true,
          not_false_eq_true] using hRest

end WriteStep

/-- Each step of a script of a write cursor does exactly what it reports. The steps that succeed,
replayed by a read cursor over the final buffer, all succeed, read back what was written, and stand
where the writer stood before and after each of them. Bare bytes are written and read as one-byte
primitives are in either order. -/
theorem cursor_scripts_replay (buffer : Bytes) (script : List WriteStep)
    (hTyped : ∀ step ∈ script, step.isTyped) :
    (∀ ran ∈ WriteStep.trace script (Writer.start buffer), ran.Exact) ∧
    List.Forall₂ RanWrite.ReadBy (WriteStep.succeeded script (Writer.start buffer))
      (ReadStep.trace
        ((WriteStep.succeeded script (Writer.start buffer)).map fun ran => ran.step.replay)
        (Reader.start (WriteStep.finish script (Writer.start buffer)).buffer)) ∧
    (∀ (v : Scalar) (w : Writer) (order : ByteOrder), v.primitive.isSingleByte →
      w.writeByte v = w.write v order) ∧
    ∀ (p : Primitive) (q : Reader) (order : ByteOrder), p.isSingleByte →
      q.readByte p = q.read p order :=
  ⟨fun _ hRan => WriteStep.exact_of_mem_trace hTyped hRan, WriteStep.trace_replay hTyped _,
    fun _ w order hSingle => Writer.writeByte_eq hSingle w order,
    fun _ q order hSingle => Reader.readByte_eq hSingle q order⟩

/-- A character that cannot be encoded and a move past the end between steps that succeed. -/
theorem cursor_scripts_replay_ticket :
    (WriteStep.finish [.little (.u16 0x201), .big (.char (Char.ofNat 0x1f600)), .byte (.bool true),
        .advance 9, .advance 1, .ordered (.char '\u263a') .big] (Writer.start [9, 9, 9, 9, 9, 9])).buffer =
      [1, 2, 1, 9, 0x26, 0x3a] ∧
    (ReadStep.trace [.little .u16, .byte .bool, .advance 1, .ordered .char .big]
        (Reader.start [1, 2, 1, 9, 0x26, 0x3a])).map RanStep.report =
      [.value (some (.u16 0x201)), .value (some (.bool true)), .moved true,
        .value (some (.char '\u263a'))] := by
  have hBuffer : (WriteStep.finish [.little (.u16 0x201), .big (.char (Char.ofNat 0x1f600)),
      .byte (.bool true), .advance 9, .advance 1, .ordered (.char '\u263a') .big]
      (Writer.start [9, 9, 9, 9, 9, 9])).buffer = [1, 2, 1, 9, 0x26, 0x3a] := by decide
  refine ⟨hBuffer, ?_⟩
  have hReplay := (cursor_scripts_replay [9, 9, 9, 9, 9, 9] [.little (.u16 0x201),
    .big (.char (Char.ofNat 0x1f600)), .byte (.bool true), .advance 9, .advance 1,
    .ordered (.char '\u263a') .big] (by decide)).2.1
  rw [hBuffer] at hReplay
  have hReports := List.forall₂_map_left_iff.mpr
    (List.forall₂_map_right_iff.mpr (hReplay.imp fun a b h => h.report_eq.symm))
  rw [List.forall₂_eq_eq_eq] at hReports
  exact hReports.symm

end WireRecord
