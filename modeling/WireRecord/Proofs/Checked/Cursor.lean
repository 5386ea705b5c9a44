import WireRecord.Proofs.Checked.Word
import WireRecord.Proofs.Cursor.Replay
import WireRecord.Proofs.Segments.Slice

/-!
Cursors over contiguous buffers, with every step checked. A cursor that stands in its buffer,
however it came there, computes without a fault what the unchecked one computes, and stands in it
again.
-/

namespace WireRecord

open Checked

/-- A place in a buffer or at its end, where a word holds the length of the buffer. -/
structure Inside (buffer : Bytes) (position : Nat) : Prop where
  position_le : position ≤ buffer.length
  length_lt : buffer.length < addressSpace

namespace Inside

variable {buffer : Bytes} {position count : Nat}

theorem zero (hBuffer : buffer.length < addressSpace) : Inside buffer 0 := ⟨Nat.zero_le _, hBuffer⟩

theorem sub_eq (h : Inside buffer position) :
    sub buffer.length position = pure (buffer.length - position) := Checked.sub_eq h.position_le

theorem drop_eq (h : Inside buffer position) : drop buffer position = pure (buffer.drop position) :=
  Checked.drop_eq h.position_le

theorem forward (h : Inside buffer position) (hCount : count ≤ buffer.length - position) :
    Inside buffer (position + count) :=
  ⟨Nat.add_le_of_le_sub' h.position_le hCount, h.length_lt⟩

/-- A word holds the sum with no more than what is left of the buffer. -/
theorem add_eq (h : Inside buffer position) (hCount : count ≤ buffer.length - position) :
    add position count = pure (position + count) :=
  Checked.add_eq (Nat.lt_of_le_of_lt (h.forward hCount).position_le h.length_lt)

end Inside

/-- Copies the bytes of a value over the first ones of `target`. -/
def Scalar.encodeChecked (v : Scalar) (order : ByteOrder) (target : Bytes) :
    Checked (Option Bytes) := do
  let some n := v.code? | return none
  if target.length < v.width then return none
  let bytes ← copy (target.take v.width) (order.encode v.width n)
  return some (bytes ++ target.drop v.width)

/-- To encode a scalar copies as many bytes as it has room for, so the copy is between slices of one
length. -/
theorem Scalar.encodeChecked_eq (v : Scalar) (order : ByteOrder) (target : Bytes) :
    v.encodeChecked order target = pure (v.encode order target) := by
  rw [encodeChecked, encode]
  cases v.code? with
  | none => rfl
  | some n =>
      by_cases hShort : target.length < v.width
      · simp only [if_pos hShort]
      · have hLength : (target.take v.width).length = (order.encode v.width n).length := by
          rw [List.length_take, ByteOrder.length_encode]
          omega
        simp only [if_neg hShort, copy_eq hLength, pure_bind]

namespace Writer

def remainingChecked (w : Writer) : Checked Nat := sub w.buffer.length w.position

def tailChecked (w : Writer) : Checked Bytes := drop w.buffer w.position

def fillChecked (w : Writer) (bytes : Bytes) : Checked Writer := do
  let tail ← w.tailChecked
  return { w with buffer := w.buffer.take w.position ++ overlay bytes tail }

def advanceChecked (w : Writer) (count : Nat) : Checked (Option Writer) := do
  let left ← w.remainingChecked
  if left < count then return none
  let position ← add w.position count
  return some { w with position }

def writeByteChecked (w : Writer) (v : Scalar) : Checked (Option Writer) := do
  let some byte := v.toByte? | return none
  let some _ := w.buffer[w.position]? | return none
  let position ← add w.position 1
  return some { buffer := w.buffer.set w.position byte, position }

def writeChecked (w : Writer) (v : Scalar) (order : ByteOrder) : Checked (Option Writer) := do
  let left ← w.remainingChecked
  if left < v.width then return none
  let stop ← add w.position v.width
  let target ← window w.buffer w.position stop
  let some bytes ← v.encodeChecked order target | return none
  let position ← add w.position v.width
  return some { buffer := w.buffer.take w.position ++ bytes ++ w.buffer.drop stop, position }

/-- Copies bytes to where the cursor stands and moves past them. -/
def putChecked (w : Writer) (bytes : Bytes) : Checked Writer := do
  let stop ← add w.position bytes.length
  let copied ← copy (← window w.buffer w.position stop) bytes
  return { buffer := w.buffer.take w.position ++ copied ++ w.buffer.drop stop, position := stop }

end Writer

/-- The cursor after a step, if the step succeeds. -/
def WriteStep.nextChecked (step : WriteStep) (w : Writer) : Checked (Option Writer) :=
  match step with
  | byte v => w.writeByteChecked v
  | little v => w.writeChecked v .little
  | big v => w.writeChecked v .big
  | ordered v order => w.writeChecked v order
  | advance count => w.advanceChecked count

/-- What is done with a write cursor: a step, or bytes are put into the rest of its buffer. -/
inductive WriterAction where
  | act (step : WriteStep)
  | fill (bytes : Bytes)

namespace WriterAction

/-- The cursor after an action, whether it succeeds or not. -/
def next (w : Writer) : WriterAction → Writer
  | act step => (step.run w).2
  | fill bytes => w.fill bytes

def nextChecked (w : Writer) : WriterAction → Checked Writer
  | act step => return (← step.nextChecked w).getD w
  | fill bytes => w.fillChecked bytes

end WriterAction

/-- A value that is no single byte is not written as one. -/
theorem WriteStep.next?_of_untyped {step : WriteStep} (hTyped : ¬step.isTyped) (w : Writer) :
    step.next? w = none := by
  cases step with
  | byte v =>
      have hByte : v.toByte? = none := by
        cases v with
        | bool | u8 | i8 => exact absurd rfl hTyped
        | i16 | u16 | i32 | u32 | i64 | u64 | f32 | f64 | char => rfl
      simp only [next?, Writer.writeByte, hByte]
  | little | big | ordered | advance => exact absurd rfl hTyped

namespace Writer

/-- The cursor over a buffer that a script leads to. -/
def after (buffer : Bytes) (script : List WriterAction) : Writer :=
  script.foldl WriterAction.next (start buffer)

def afterChecked (buffer : Bytes) (script : List WriterAction) : Checked Writer :=
  script.foldlM WriterAction.nextChecked (start buffer)

/-- The cursor stands in its buffer, and nothing that is done with it meets a fault. -/
structure Safe (w : Writer) : Prop where
  position_le : w.position ≤ w.buffer.length
  remaining : w.remainingChecked = pure w.remaining
  tail : w.tailChecked = pure w.tail
  fill : ∀ bytes, w.fillChecked bytes = pure (w.fill bytes)
  next : ∀ step : WriteStep, step.nextChecked w = pure (step.next? w)

theorem remaining_pass (w : Writer) (bytes : Bytes) :
    (w.pass bytes).remaining = w.remaining - bytes.length := by
  rw [remaining, w.length_pass, pass, remaining, Nat.sub_sub]

section

variable {w : Writer} (h : Inside w.buffer w.position)
include h

theorem fillChecked_eq (bytes : Bytes) : w.fillChecked bytes = pure (w.fill bytes) := by
  rw [fillChecked, tailChecked, h.drop_eq, pure_bind]
  rfl

/-- A move looks at what is left before it adds, so the sum fits into a word. -/
theorem advanceChecked_eq (count : Nat) : w.advanceChecked count = pure (w.advance count) := by
  rw [advanceChecked, advance, remainingChecked, h.sub_eq, pure_bind, ← remaining]
  split
  · rfl
  · next hRoom => rw [h.add_eq (Nat.not_lt.mp hRoom), pure_bind]

theorem writeByteChecked_eq (v : Scalar) : w.writeByteChecked v = pure (w.writeByte v) := by
  rw [writeByteChecked, writeByte]
  cases v.toByte? with
  | none => rfl
  | some byte =>
      cases hSlot : w.buffer[w.position]? with
      | none => rfl
      | some old =>
          have hRoom := Nat.sub_pos_of_lt (List.getElem?_eq_some_iff.mp hSlot).1
          simp only [h.add_eq hRoom, pure_bind]

/-- A write compares its width with what is left before it takes the window. -/
theorem writeChecked_eq (v : Scalar) (order : ByteOrder) :
    w.writeChecked v order = pure (w.write v order) := by
  rw [writeChecked, write, remainingChecked, h.sub_eq, pure_bind, ← remaining]
  by_cases hShort : w.remaining < v.width
  · simp only [if_pos hShort]
  · have hRoom : v.width ≤ w.remaining := Nat.not_lt.mp hShort
    have hWindow : w.position + v.width ≤ w.buffer.length := (h.forward hRoom).position_le
    simp only [if_neg hShort, h.add_eq hRoom, window_eq hWindow, Scalar.encodeChecked_eq, pure_bind,
      tail]
    cases v.encode order ((w.buffer.drop w.position).take v.width) with
    | none => rfl
    | some bytes => rfl

/-- Where there is room for bytes, copying them and moving behind them is a pass. -/
theorem putChecked_eq {bytes : Bytes} (hRoom : bytes.length ≤ w.remaining) :
    w.putChecked bytes = pure (w.pass bytes) := by
  have hTail : bytes.length ≤ w.tail.length := by rwa [length_tail]
  have hCopied : (w.tail.take bytes.length).length = bytes.length := List.length_take_of_le hTail
  rw [putChecked, h.add_eq hRoom, pure_bind, window_eq (h.forward hRoom).position_le, pure_bind,
    ← tail, copy_eq hCopied, pure_bind, pass, fill, overlay_eq_append hTail, tail, List.drop_drop,
    List.append_assoc]

theorem nextChecked_eq (step : WriteStep) : step.nextChecked w = pure (step.next? w) := by
  cases step with
  | byte v => exact writeByteChecked_eq h v
  | little v => exact writeChecked_eq h v .little
  | big v => exact writeChecked_eq h v .big
  | ordered v order => exact writeChecked_eq h v order
  | advance count => exact advanceChecked_eq h count

/-- What a cursor tells of itself it computes from a position inside of its buffer. -/
theorem safe_of_inside : w.Safe where
  position_le := h.position_le
  remaining := h.sub_eq
  tail := h.drop_eq
  fill := fillChecked_eq h
  next := nextChecked_eq h

theorem inside_fill (bytes : Bytes) : Inside (w.fill bytes).buffer w.position := by
  have hLength : (w.fill bytes).buffer.length = w.buffer.length := w.length_pass bytes
  exact ⟨h.position_le.trans_eq hLength.symm, hLength.trans_lt h.length_lt⟩

theorem inside_pass {bytes : Bytes} (hRoom : bytes.length ≤ w.remaining) :
    Inside (w.pass bytes).buffer (w.pass bytes).position :=
  (inside_fill h bytes).forward (hRoom.trans_eq (w.remaining_fill bytes).symm)

/-- A step that succeeds passes its window, and one that fails leaves the cursor where it stands. -/
theorem inside_run (step : WriteStep) : Inside (step.run w).2.buffer (step.run w).2.position := by
  by_cases hTyped : step.isTyped
  · rcases WriteStep.run_cases hTyped w with ⟨hRoom, _, hRun⟩ | ⟨_, hRun⟩
    · rw [hRun]
      exact inside_pass h ((WriteStep.length_window hRoom).trans_le hRoom)
    · rw [hRun]
      exact h
  · rw [WriteStep.run, WriteStep.next?_of_untyped hTyped]
    exact h

/-- Whatever an operation does, it leaves the cursor inside: the step lemma for runs of scripts. -/
theorem inside_next (a : WriterAction) : Inside (a.next w).buffer (a.next w).position := by
  cases a with
  | act step => exact inside_run h step
  | fill bytes => exact inside_fill h bytes

/-- No operation of a write cursor faults, wherever it stands inside of its buffer. -/
theorem actionChecked_eq (a : WriterAction) : a.nextChecked w = pure (a.next w) := by
  cases a with
  | act step =>
      rw [WriterAction.nextChecked, nextChecked_eq h, pure_bind, WriterAction.next, WriteStep.run]
      cases step.next? w <;> rfl
  | fill bytes => exact fillChecked_eq h bytes

end

variable {buffer : Bytes}

/-- By induction on the script: every action leaves the cursor inside of its buffer. -/
theorem inside_after (hBuffer : buffer.length < addressSpace) (script : List WriterAction) :
    Inside (after buffer script).buffer (after buffer script).position :=
  List.foldlRecOn script WriterAction.next
    (motive := fun w : Writer => Inside w.buffer w.position) (Inside.zero hBuffer)
    fun _ hInside a _ => inside_next hInside a

theorem safe_after (hBuffer : buffer.length < addressSpace) (script : List WriterAction) :
    (after buffer script).Safe :=
  safe_of_inside (inside_after hBuffer script)

/-- A script of operations, checked one by one, runs as it does without checks. -/
theorem afterChecked_eq (hBuffer : buffer.length < addressSpace) (script : List WriterAction) :
    afterChecked buffer script = pure (after buffer script) :=
  foldlM_eq (fun earlier a => actionChecked_eq (inside_after hBuffer earlier) a) script

/-- Past the end of the buffer, where no script leads, there would be a fault. -/
example : (Writer.mk [1, 2] 3).advanceChecked 0 = throw .negative := rfl

end Writer

/-- The operations of a read cursor, with every step checked. -/
class CheckedReadCursor (ρ : Type) where
  readByte : ρ → Primitive → Checked (Option (Scalar × ρ))
  read : ρ → Primitive → ByteOrder → Checked (Option (Scalar × ρ))
  advance : ρ → Nat → Checked (Option ρ)

namespace ReadStep

variable {ρ : Type} [CheckedReadCursor ρ]

/-- Runs a step: its report, and the cursor afterwards. -/
def runChecked (step : ReadStep) (r : ρ) : Checked (ReadReport × ρ) :=
  match step with
  | byte p => return ReadReport.ofRead r (← CheckedReadCursor.readByte r p)
  | little p => return ReadReport.ofRead r (← CheckedReadCursor.read r p .little)
  | big p => return ReadReport.ofRead r (← CheckedReadCursor.read r p .big)
  | ordered p order => return ReadReport.ofRead r (← CheckedReadCursor.read r p order)
  | advance count => return ReadReport.ofMove r (← CheckedReadCursor.advance r count)

/-- The cursor that a script leaves. -/
def finishChecked (script : List ReadStep) (r : ρ) : Checked ρ :=
  script.foldlM (fun r step => return (← step.runChecked r).2) r

end ReadStep

/-- No operation of the cursor meets a fault. -/
structure ReadCursor.Faultless {ρ : Type} [ReadCursor ρ] [CheckedReadCursor ρ] (r : ρ) : Prop where
  readByte : ∀ p, CheckedReadCursor.readByte r p = pure (ReadCursor.readByte r p)
  read : ∀ p order, CheckedReadCursor.read r p order = pure (ReadCursor.read r p order)
  advance : ∀ count, CheckedReadCursor.advance r count = pure (ReadCursor.advance r count)

namespace ReadStep

variable {ρ : Type} [ReadCursor ρ] [CheckedReadCursor ρ] {r : ρ}

/-- A step of a script faults only if the operation that it stands for does. -/
theorem runChecked_eq (h : ReadCursor.Faultless r) (step : ReadStep) :
    step.runChecked r = pure (step.run r) := by
  cases step with
  | byte p => rw [runChecked, h.readByte, pure_bind, run]
  | little p => rw [runChecked, h.read, pure_bind, run, ReadCursor.readLittle]
  | big p => rw [runChecked, h.read, pure_bind, run, ReadCursor.readBig]
  | ordered p order => rw [runChecked, h.read, pure_bind, run]
  | advance count => rw [runChecked, h.advance, pure_bind, run]

omit [CheckedReadCursor ρ] in
theorem finish_eq_foldl (script : List ReadStep) (r : ρ) :
    finish script r = script.foldl (fun r step => (step.run r).2) r := by
  induction script generalizing r with
  | nil => rfl
  | cons step rest ih => exact ih _

/-- If no cursor that a script leads to faults, the script does not. -/
theorem finishChecked_eq (h : ∀ script, ReadCursor.Faultless (finish script r))
    (script : List ReadStep) : finishChecked script r = pure (finish script r) := by
  rw [finishChecked, finish_eq_foldl]
  refine foldlM_eq (fun earlier step => ?_) script
  rw [← finish_eq_foldl, runChecked_eq (h earlier), pure_bind]

end ReadStep

namespace ReadReport

variable {ρ : Type} {P : ρ → Prop} {r : ρ}

/-- What holds of a cursor, and of every cursor that a read hands on, holds after the read, also
where it fails. -/
theorem ofRead_keeps (h : P r) {out : Option (Scalar × ρ)} (hOut : ∀ next ∈ out, P next.2) :
    P (ofRead r out).2 := by
  cases out with
  | none => exact h
  | some next => exact hOut next rfl

theorem ofMove_keeps (h : P r) {out : Option ρ} (hOut : ∀ next ∈ out, P next) :
    P (ofMove r out).2 := by
  cases out with
  | none => exact h
  | some next => exact hOut next rfl

end ReadReport

/-- Bytes that denote a scalar are at least as many as it takes. -/
theorem Primitive.width_le_of_decode {p : Primitive} {order : ByteOrder} {source : Bytes}
    {v : Scalar} (hDecode : p.decode order source = some v) : p.width ≤ source.length := by
  rw [decode, Option.ite_none_left_eq_some] at hDecode
  exact Nat.not_lt.mp hDecode.1

namespace Reader

def unreadChecked (r : Reader) : Checked Bytes := drop r.buffer r.position

def advanceChecked (r : Reader) (count : Nat) : Checked (Option Reader) := do
  let left ← sub r.buffer.length r.position
  if left < count then return none
  let position ← add r.position count
  return some { r with position }

def readByteChecked (r : Reader) (p : Primitive) : Checked (Option (Scalar × Reader)) := do
  let some byte := r.buffer[r.position]? | return none
  let position ← add r.position 1
  return (p.ofByte? byte).map fun v => (v, { r with position })

def readChecked (r : Reader) (p : Primitive) (order : ByteOrder) :
    Checked (Option (Scalar × Reader)) := do
  let unread ← r.unreadChecked
  let some v := p.decode order unread | return none
  let position ← add r.position p.width
  return some (v, { r with position })

instance : CheckedReadCursor Reader := ⟨readByteChecked, readChecked, advanceChecked⟩

/-- The cursor stands in its buffer, and nothing that is done with it meets a fault. -/
structure Safe (r : Reader) : Prop where
  position_le : r.position ≤ r.buffer.length
  unread : r.unreadChecked = pure r.unread
  faultless : ReadCursor.Faultless r

section

variable {r : Reader} (h : Inside r.buffer r.position)
include h

theorem advanceChecked_eq (count : Nat) : r.advanceChecked count = pure (r.advance count) := by
  rw [advanceChecked, advance, h.sub_eq, pure_bind]
  split
  · rfl
  · next hRoom => rw [h.add_eq (Nat.not_lt.mp hRoom), pure_bind]

theorem readByteChecked_eq (p : Primitive) : r.readByteChecked p = pure (r.readByte p) := by
  rw [readByteChecked, readByte]
  cases hByte : r.buffer[r.position]? with
  | none => rfl
  | some byte =>
      have hRoom := Nat.sub_pos_of_lt (List.getElem?_eq_some_iff.mp hByte).1
      simp only [h.add_eq hRoom, pure_bind]

/-- A read decodes before it moves, so it moves by no more than what is left. -/
theorem readChecked_eq (p : Primitive) (order : ByteOrder) :
    r.readChecked p order = pure (r.read p order) := by
  rw [readChecked, read, unreadChecked, h.drop_eq, pure_bind, ← unread]
  cases hDecode : p.decode order r.unread with
  | none => rfl
  | some v =>
      have hRoom : p.width ≤ r.buffer.length - r.position :=
        (Primitive.width_le_of_decode hDecode).trans_eq List.length_drop
      simp only [h.add_eq hRoom, pure_bind, Option.map_some]

theorem safe_of_inside : r.Safe where
  position_le := h.position_le
  unread := h.drop_eq
  faultless := ⟨readByteChecked_eq h, readChecked_eq h, advanceChecked_eq h⟩

theorem inside_read (p : Primitive) (order : ByteOrder) :
    ∀ next ∈ r.read p order, Inside next.2.buffer next.2.position := by
  intro next hNext
  obtain ⟨v, hDecode, rfl⟩ := Option.map_eq_some_iff.mp hNext
  exact h.forward ((Primitive.width_le_of_decode hDecode).trans_eq List.length_drop)

theorem inside_readByte (p : Primitive) :
    ∀ next ∈ r.readByte p, Inside next.2.buffer next.2.position := by
  intro next hNext
  rw [readByte] at hNext
  split at hNext
  · cases hNext
  · next byte hByte =>
    obtain ⟨v, _, rfl⟩ := Option.map_eq_some_iff.mp hNext
    exact h.forward (Nat.sub_pos_of_lt (List.getElem?_eq_some_iff.mp hByte).1)

theorem inside_advance (count : Nat) :
    ∀ next ∈ r.advance count, Inside next.buffer next.position := by
  intro next hNext
  rw [advance, Option.mem_def, Option.ite_none_left_eq_some] at hNext
  obtain ⟨hRoom, hSome⟩ := hNext
  cases hSome
  exact h.forward (Nat.not_lt.mp hRoom)

/-- Whatever a step of a script does, it leaves the cursor inside. -/
theorem inside_run (step : ReadStep) : Inside (step.run r).2.buffer (step.run r).2.position := by
  have hKept : ∀ out : Option (Scalar × Reader),
      (∀ next ∈ out, Inside next.2.buffer next.2.position) →
        Inside (ReadReport.ofRead r out).2.buffer (ReadReport.ofRead r out).2.position :=
    fun out hOut => ReadReport.ofRead_keeps (P := fun q : Reader => Inside q.buffer q.position) h hOut
  cases step with
  | byte p => exact hKept _ (inside_readByte h p)
  | little p => exact hKept _ (inside_read h p .little)
  | big p => exact hKept _ (inside_read h p .big)
  | ordered p order => exact hKept _ (inside_read h p order)
  | advance count =>
      exact ReadReport.ofMove_keeps (P := fun q : Reader => Inside q.buffer q.position) h
        (inside_advance h count)

end

theorem safe_finish {buffer : Bytes} (hBuffer : buffer.length < addressSpace)
    (script : List ReadStep) : (ReadStep.finish script (start buffer)).Safe := by
  rw [ReadStep.finish_eq_foldl]
  exact safe_of_inside (List.foldlRecOn script _
    (motive := fun r : Reader => Inside r.buffer r.position) (Inside.zero hBuffer)
    fun _ hInside step _ => inside_run hInside step)

end Reader

end WireRecord
