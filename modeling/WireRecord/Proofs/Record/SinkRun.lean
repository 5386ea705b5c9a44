import WireRecord.Proofs.Record.RoundTrip
import WireRecord.Proofs.Sink.Commitment

/-!
Runs of record writes into a sink. A run on a sink shows the same as a run on a log, which has no
buffer: it takes a whole record or nothing of it. Sinks that may grow to the same lengths therefore
cannot be told apart.
-/

namespace WireRecord

/-- The members of a record. -/
def Value.members : Value → Members
  | scalar _ => []
  | record members => members

/-- A record to be written: a value of a type that is compiled all the way down. -/
structure Entry where
  type : RecordType
  format : WireFormat
  value : Value
  derived : Derived type format
  admitted : type.shape.admits value

namespace Entry

/-- The primitives that are encoded, in depth-first order. -/
def leaves (e : Entry) : List Leaf := e.format.leaves e.value.members

def encoding (e : Entry) : Bytes := e.leaves.flatMap Leaf.bytes

/-- No character to be encoded, at any depth, is above `U+FFFF`. -/
def Encodable (e : Entry) : Prop :=
  ∀ leaf ∈ e.leaves, ∀ c, leaf.scalar = .char c → c.toNat ≤ 0xffff

def writeTo {σ : Type} [Sink σ] (e : Entry) (s : σ) : Bool × σ := e.type.writeTo e.value s

/-- An entry is a record that its format admits, all the way down. -/
theorem admits_members (e : Entry) :
    e.value = .record e.value.members ∧ e.format.admits e.value.members := by
  obtain ⟨members, hValue, hAdmits⟩ := e.derived.shapedAs e.value e.admitted
  rw [hValue]
  exact ⟨rfl, hAdmits⟩

theorem length_encoding (e : Entry) : e.encoding.length = e.type.size :=
  (WireFormat.length_encode e.admits_members.2).trans e.derived.size_eq.symm

/-- What is left in a region that is long enough: its length is kept, and if the record can be
encoded, it stands at the start. -/
theorem write_region (e : Entry) {region : Bytes} (hLength : e.type.size ≤ region.length) :
    ∃ bytes, e.type.write e.value region = (e.leaves.all Leaf.fits, bytes) ∧
      bytes.length = region.length ∧
      (e.leaves.all Leaf.fits → bytes.take e.type.size = e.encoding) := by
  obtain ⟨hValue, hAdmits⟩ := e.admits_members
  have hWrite := e.derived.writesAs.write_eq region hAdmits
  rw [if_neg (Nat.not_lt.mpr (e.derived.size_eq ▸ hLength)), ← hValue] at hWrite
  refine ⟨_, hWrite, length_overlay .., fun hFits => ?_⟩
  change (overlay (Leaf.written e.leaves) region).take e.type.size = e.encoding
  have hBytes : e.encoding.length ≤ region.length := e.length_encoding ▸ hLength
  rw [Leaf.written_eq hFits, ← encoding, overlay_eq_append hBytes,
    List.take_left' e.length_encoding]

end Entry

/-- Writes records in order: after each, whether it was written, and the sink. -/
def writeAll {σ : Type} [Sink σ] : List Entry → σ → List (Bool × σ)
  | [], _ => []
  | e :: later, s => e.writeTo s :: writeAll later (e.writeTo s).2

/-- What a run of writes shows: after each, whether it was written, and the committed bytes. -/
def showAll {σ : Type} [Sink σ] (written : σ → Bytes) (entries : List Entry) (s : σ) :
    List (Bool × Bytes) :=
  (writeAll entries s).map (Prod.map id written)

/-- A run that starts with an empty sink. -/
def GrowableSink.run (limit : Option Nat) (entries : List Entry) : List (Bool × Bytes) :=
  showAll written entries (empty limit)

/-- A run that starts with nothing committed, whatever the buffer holds. -/
def FixedSink.run (buffer : Bytes) (entries : List Entry) : List (Bool × Bytes) :=
  showAll written entries (ofBuffer buffer)

/-- The encodings of the records that a run reports as written. -/
def accepted (entries : List Entry) (run : List (Bool × Bytes)) : Bytes :=
  (entries.zip run).flatMap fun (e, out) => if out.1 then e.encoding else []

theorem accepted_cons (e : Entry) (later : List Entry) (out : Bool × Bytes)
    (run : List (Bool × Bytes)) :
    accepted (e :: later) (out :: run) =
      (if out.1 then e.encoding else []) ++ accepted later run := rfl

namespace Log

/-- A log takes a record if it can be encoded and the log may have the length that it then has. -/
def append (room : Nat → Bool) (log : Bytes) (e : Entry) : Bool × Bytes :=
  if e.leaves.all Leaf.fits && room (log.length + e.type.size) then (true, log ++ e.encoding)
  else (false, log)

/-- A run on a log: after each record, whether it was taken, and the log. -/
def appendAll (room : Nat → Bool) : List Entry → Bytes → List (Bool × Bytes)
  | [], _ => []
  | e :: later, log => append room log e :: appendAll room later (append room log e).2

variable {room : Nat → Bool} {log : Bytes} {e : Entry} {entries : List Entry}

/-- A record goes into a log exactly if it can be encoded and there is room for all of it. -/
theorem append_fst_iff :
    (append room log e).1 = true ↔ e.Encodable ∧ room (log.length + e.type.size) := by
  rw [append, Entry.Encodable, ← Leaf.all_fits_iff, ← Bool.and_eq_true]
  cases e.leaves.all Leaf.fits && room (log.length + e.type.size) <;> simp

/-- A log takes the whole encoding or nothing. -/
theorem append_snd : (append room log e).2 =
    log ++ if (append room log e).1 then e.encoding else [] := by
  rw [append]
  split <;> simp

theorem append_eq_of_refused (h : (append room log e).1 = false) :
    append room log e = (false, log) := by
  refine Prod.ext h ?_
  rw [append_snd, h]
  exact List.append_nil log

/-- Each write has an outcome, also after one that has failed. -/
theorem length_appendAll : (appendAll room entries log).length = entries.length := by
  induction entries generalizing log with
  | nil => rfl
  | cons e later ih => simp [appendAll, ih]

/-- By induction on the run: what was taken before a record stands in the log that it meets. -/
theorem appendAll_getElem? {i : Nat} (hEntry : entries[i]? = some e) :
    ∃ done log', (appendAll room entries log)[i]? = some (done, log') ∧
      (done = true ↔ e.Encodable ∧
        room ((log ++ accepted (entries.take i) (appendAll room entries log)).length +
          e.type.size)) ∧
      log' = log ++ accepted (entries.take (i + 1)) (appendAll room entries log) := by
  induction entries generalizing log i with
  | nil => cases hEntry
  | cons first later ih =>
      cases i with
      | zero =>
          obtain rfl : first = e := by simpa using hEntry
          refine ⟨(append room log first).1, (append room log first).2, rfl, ?_, ?_⟩
          · simpa [accepted] using append_fst_iff
          · simp [appendAll, accepted, append_snd]
      | succ i =>
          have hLater := @ih (append room log first).2 i (List.getElem?_cons_succ ▸ hEntry)
          simpa only [appendAll, List.take_succ_cons, accepted_cons, List.getElem?_cons_succ,
            ← List.append_assoc, ← append_snd] using hLater

/-- A record that is not taken leaves no trace but its report. -/
theorem appendAll_eraseIdx {i : Nat} {log' : Bytes}
    (h : (appendAll room entries log)[i]? = some (false, log')) :
    appendAll room (entries.eraseIdx i) log = (appendAll room entries log).eraseIdx i := by
  induction entries generalizing log i with
  | nil => rfl
  | cons first later ih =>
      cases i with
      | zero =>
          have hFirst : append room log first = (false, log') := by simpa [appendAll] using h
          have hLog := append_eq_of_refused (congrArg Prod.fst hFirst)
          simp [appendAll, hLog]
      | succ i =>
          have hOut :
              (appendAll room later (append room log first).2)[i]? = some (false, log') := by
            simpa [appendAll] using h
          simp [appendAll, ih hOut]

/-- A tighter bound on the log does not matter where the log stays within it. -/
theorem append_bounded {bound : Nat} (h : (append room log e).2.length ≤ bound) :
    append (fun length => room length && decide (length ≤ bound)) log e = append room log e := by
  cases hTakes : e.leaves.all Leaf.fits && room (log.length + e.type.size) with
  | false => simp only [append, ← Bool.and_assoc, hTakes, Bool.false_and]
  | true =>
      have hBound : log.length + e.type.size ≤ bound := by
        simpa [append, hTakes, e.length_encoding] using h
      simp only [append, ← Bool.and_assoc, hTakes, Bool.true_and, decide_eq_true hBound]

/-- A bound on the lengths can be left out if no log of the run exceeds it. -/
theorem appendAll_bounded {bound : Nat}
    (h : ∀ out ∈ appendAll room entries log, out.2.length ≤ bound) :
    appendAll (fun length => room length && decide (length ≤ bound)) entries log =
      appendAll room entries log := by
  induction entries generalizing log with
  | nil => rfl
  | cons e later ih =>
      rw [appendAll, List.forall_mem_cons] at h
      rw [appendAll, appendAll, append_bounded h.1, ih h.2]

end Log

variable {σ : Type} [Sink σ] {room : Nat → Bool} {Holds : Bytes → σ → Prop}

/-- A write takes a sink that holds a log to one that holds what the log becomes. -/
theorem KeepsLog.writeTo (h : KeepsLog room Holds) {log : Bytes} {s : σ} (hHolds : Holds log s)
    (e : Entry) :
    (e.writeTo s).1 = (Log.append room log e).1 ∧
      Holds (Log.append room log e).2 (e.writeTo s).2 := by
  cases hRoom : room (log.length + e.type.size) with
  | false =>
      obtain ⟨error, hSpan⟩ := h.refuses hHolds hRoom
      simp only [Entry.writeTo, RecordType.writeTo, hSpan, Log.append, hRoom, Bool.and_false]
      exact ⟨rfl, hHolds⟩
  | true =>
      -- The region may hold what an earlier write left behind, but only its length matters.
      obtain ⟨region, s', hSpan, hLength, hStore⟩ := h.grants hHolds hRoom
      obtain ⟨bytes, hWrite, hBytes, hStart⟩ := e.write_region hLength
      obtain ⟨hStored, hCommitted⟩ := hStore bytes hBytes
      simp only [Entry.writeTo, RecordType.writeTo, hSpan, hWrite, Log.append, hRoom, Bool.and_true]
      cases hFits : e.leaves.all Leaf.fits with
      | false => exact ⟨rfl, hStored⟩
      | true =>
          rw [hStart hFits] at hCommitted
          exact ⟨rfl, hCommitted⟩

/-- By induction on the run: it shows what a run on the log shows. -/
theorem KeepsLog.showAll_eq (h : KeepsLog room Holds) {written : σ → Bytes}
    (hWritten : ∀ {log : Bytes} {s : σ}, Holds log s → written s = log) (entries : List Entry)
    {log : Bytes} {s : σ} (hHolds : Holds log s) :
    showAll written entries s = Log.appendAll room entries log := by
  induction entries generalizing log s with
  | nil => rfl
  | cons e later ih =>
      obtain ⟨hDone, hNext⟩ := h.writeTo hHolds e
      have hOut : Prod.map id written (e.writeTo s) = Log.append room log e :=
        Prod.ext hDone (hWritten hNext)
      have hLater := ih hNext
      rw [showAll] at hLater ⊢
      rw [writeAll, List.map_cons, hOut, hLater, Log.appendAll]

theorem FixedSink.run_eq (buffer : Bytes) (entries : List Entry) :
    run buffer entries = Log.appendAll (allows (some buffer.length)) entries [] :=
  (keepsLog buffer.length).showAll_eq Holds.written_eq entries (holds_ofBuffer buffer)

/-- A run on a growable sink is the run on a log with room for what the sink allows. -/
theorem GrowableSink.run_eq (limit : Option Nat) (entries : List Entry) :
    run limit entries = Log.appendAll (GrowableSink.room limit) entries [] :=
  (keepsLog limit).showAll_eq Holds.written_eq entries (holds_empty limit)

/-- A run shows a log of a capacity, unbounded if there is none. -/
structure ShowsLog (capacity : Option Nat) (run : List Entry → List (Bool × Bytes))
    (entries : List Entry) : Prop where
  length_eq : (run entries).length = entries.length
  /-- A record is written exactly if it can be encoded and there is room for it. The committed bytes
  then are the encodings of the records written so far, in their order. -/
  step : ∀ {i : Nat} {e : Entry}, entries[i]? = some e →
    ∃ done log, (run entries)[i]? = some (done, log) ∧
      (done = true ↔ e.Encodable ∧ ∀ bound ∈ capacity,
        (accepted (entries.take i) (run entries)).length + e.type.size ≤ bound) ∧
      log = accepted (entries.take (i + 1)) (run entries)
  /-- Without a record that is not written, all others show the same. -/
  erase : ∀ {i : Nat} {log : Bytes}, (run entries)[i]? = some (false, log) →
    run (entries.eraseIdx i) = (run entries).eraseIdx i

/-- A run on a log shows the log: the lemma for all sinks, since each is shown to run like one. -/
theorem Log.showsLog (capacity : Option Nat) (entries : List Entry) :
    ShowsLog capacity (fun entries => appendAll (allows capacity) entries []) entries where
  length_eq := length_appendAll
  step := by
    intro i e hEntry
    simpa only [List.nil_append, allows_iff] using
      @appendAll_getElem? (allows capacity) [] e entries i hEntry
  erase := appendAll_eraseIdx

/-- A run that is one of a log shows it, if it still is without a record that is not written. -/
theorem ShowsLog.of_eq {capacity : Option Nat} {run : List Entry → List (Bool × Bytes)}
    {entries : List Entry}
    (h : run entries = Log.appendAll (allows capacity) entries [])
    (hErase : ∀ {i : Nat} {log : Bytes}, (run entries)[i]? = some (false, log) →
      run (entries.eraseIdx i) = Log.appendAll (allows capacity) (entries.eraseIdx i) []) :
    ShowsLog capacity run entries := by
  have hLog := Log.showsLog capacity entries
  refine ⟨?_, ?_, ?_⟩
  · rw [h]
    exact hLog.length_eq
  · rw [h]
    exact hLog.step
  · intro i log hOut
    rw [hErase hOut, h]
    exact hLog.erase (h ▸ hOut)

/-- The memory is granted for all that is to be kept of the records. -/
def Granted (limit : Option Nat) (entries : List Entry) : Prop :=
  ∀ out ∈ Log.appendAll (allows limit) entries [], out.2.length ≤ largestGrant

/-- If all requests within the limit are granted only the limit counts. -/
theorem GrowableSink.run_eq_of_granted {limit : Option Nat} {entries : List Entry}
    (h : Granted limit entries) :
    run limit entries = Log.appendAll (allows limit) entries [] :=
  (run_eq limit entries).trans (Log.appendAll_bounded h)

/-- To leave out a write that has failed asks for no more memory. -/
theorem Granted.eraseIdx {limit : Option Nat} {entries : List Entry} (h : Granted limit entries)
    {i : Nat} {log : Bytes}
    (hOut : (Log.appendAll (allows limit) entries [])[i]? = some (false, log)) :
    Granted limit (entries.eraseIdx i) := by
  intro out hMember
  rw [Log.appendAll_eraseIdx hOut] at hMember
  exact h out (List.mem_of_mem_eraseIdx hMember)

namespace Sample

/-- A letter that cannot be encoded, because of a character that stands after its number. -/
def oddLetter : Members := [
  (.named "length", .scalar (.u16 0x403)), (.named "cached", .scalar (.u8 3)),
  (.named "stamp", .record [(.named "mark", .scalar (.char (Char.ofNat 0x1f600))),
    (.named "seen", .scalar (.bool true))]),
  (.named "spare", stamp.initial)]

def letterEntry : Entry := ⟨envelope, envelopeFormat, .record letter, derived_envelope, rfl⟩

def oddLetterEntry : Entry := ⟨envelope, envelopeFormat, .record oddLetter, derived_envelope, rfl⟩

def stampEntry : Entry where
  type := stamp
  format := stampFormat
  value := .record [(.named "mark", .scalar (.char 'A')), (.named "seen", .scalar (.bool false))]
  derived := derived_stamp
  admitted := rfl

def mail : List Entry := [letterEntry, oddLetterEntry, stampEntry, letterEntry, stampEntry]

end Sample

/-- A run of writes into a growable sink, with or without a limit, or into a fixed one shows a log:
nothing shows of a record that was not written, even if it was written in part. A growable sink with
a limit shows the same as a fixed one over as many bytes, whatever these are at first. -/
theorem sink_runs_show_log (entries : List Entry) :
    (∀ limit, Granted limit entries → ShowsLog limit (GrowableSink.run limit) entries) ∧
    (∀ buffer, ShowsLog (some buffer.length) (FixedSink.run buffer) entries) ∧
    ∀ buffer, Granted (some buffer.length) entries →
      GrowableSink.run (some buffer.length) entries = FixedSink.run buffer entries := by
  refine ⟨fun limit hGranted => ?_, fun buffer => ?_, fun buffer hGranted => ?_⟩
  · have hRun := GrowableSink.run_eq_of_granted hGranted
    refine .of_eq hRun fun hOut => ?_
    rw [hRun] at hOut
    exact GrowableSink.run_eq_of_granted (hGranted.eraseIdx hOut)
  · exact .of_eq (FixedSink.run_eq buffer entries) fun _ => FixedSink.run_eq buffer _
  · rw [GrowableSink.run_eq_of_granted hGranted, FixedSink.run_eq]

/-- A letter that cannot be encoded leaves two bytes behind, over which a stamp is written, and the
next letter does not fit. -/
theorem sink_runs_show_log_mail :
    Granted (some 11) Sample.mail ∧
    GrowableSink.run (some 11) Sample.mail =
      [(true, [1, 2, 0x26, 0x3a, 1]), (false, [1, 2, 0x26, 0x3a, 1]),
        (true, [1, 2, 0x26, 0x3a, 1, 0, 0x41, 0]), (false, [1, 2, 0x26, 0x3a, 1, 0, 0x41, 0]),
        (true, [1, 2, 0x26, 0x3a, 1, 0, 0x41, 0, 0, 0x41, 0])] := by
  have hGranted : Granted (some 11) Sample.mail := by
    rw [Granted]
    decide
  have hBuffer : (List.replicate 11 (7 : UInt8)).length = 11 := rfl
  have hSame := (sink_runs_show_log Sample.mail).2.2 (List.replicate 11 7) (hBuffer ▸ hGranted)
  rw [hBuffer] at hSame
  exact ⟨hGranted, hSame.trans rfl⟩

end WireRecord
