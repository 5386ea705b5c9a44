import WireRecord.Sink

/-!
What sinks have in common: each holds a log, the bytes committed so far, and hands out the region
after it if the log may grow to the length that is asked for. What is stored in the region, now or
before, has no part in the log until it is committed.
-/

namespace WireRecord

/-- Bytes replace all of what they are written over if they are as long. -/
theorem overlay_eq_new {new old : Bytes} (hLength : new.length = old.length) :
    overlay new old = new := by
  rw [overlay_eq_append (Nat.le_of_eq hLength), hLength, List.drop_length, List.append_nil]

/-- A limit allows the lengths up to it; without a limit every length is allowed. -/
def allows (limit : Option Nat) (length : Nat) : Bool := limit.all (length ≤ ·)

theorem allows_iff {limit : Option Nat} {length : Nat} :
    allows limit length ↔ ∀ bound ∈ limit, length ≤ bound := by
  cases limit <;> simp [allows]

/-- A kind of sink keeps a log that may grow to the lengths for which there is `room`. A region that
is handed out is at least as long as asked for, but it may be longer and hold anything. -/
structure KeepsLog {σ : Type} [Sink σ] (room : Nat → Bool) (Holds : Bytes → σ → Prop) : Prop where
  grants : ∀ {log : Bytes} {s : σ} {request : Nat}, Holds log s → room (log.length + request) →
    ∃ (region : Bytes) (s' : σ), Sink.getSpan s request = (.ok region, s') ∧
      request ≤ region.length ∧
      ∀ bytes : Bytes, bytes.length = region.length →
        Holds log (Sink.store s' bytes) ∧
          Holds (log ++ bytes.take request) (Sink.advance (Sink.store s' bytes) request)
  refuses : ∀ {log : Bytes} {s : σ} {request : Nat}, Holds log s →
    room (log.length + request) = false → ∃ e, Sink.getSpan s request = (.error e, s)

variable {log rest bytes : Bytes} {length request : Nat}

namespace FixedSink

/-- The sink that holds a log, with the bytes of its buffer after it. -/
def holding (log rest : Bytes) : FixedSink where
  buffer := log ++ rest
  committed := log.length

theorem written_holding : (holding log rest).written = log := List.take_left ..

theorem region_holding : (holding log rest).region = rest := List.drop_left ..

/-- To fill the region leaves the log alone. -/
theorem store_holding (hBytes : bytes.length = rest.length) :
    (holding log rest).store bytes = holding log bytes := by
  rw [store, region_holding, overlay_eq_new hBytes]
  simp [holding]

/-- To commit moves the front of the region to the end of the log. -/
theorem advance_holding (hRequest : request ≤ rest.length) :
    (holding log rest).advance request =
      holding (log ++ rest.take request) (rest.drop request) := by
  have hCommitted : log.length + request ≤ (log ++ rest).length := by
    rw [List.length_append]
    omega
  rw [advance, holding, Nat.min_eq_left hCommitted]
  simp [holding, Nat.min_eq_left hRequest]

/-- A request is granted with the whole region if that is long enough. -/
theorem getSpan_holding (hRequest : request ≤ rest.length) :
    (holding log rest).getSpan request = (.ok rest, holding log rest) := by
  simp [getSpan, holding, Nat.not_lt.mpr hRequest, region]

theorem getSpan_holding_eq_error (hRequest : rest.length < request) :
    (holding log rest).getSpan request =
      (.error (.capacityExceeded request rest.length), holding log rest) := by
  simp [getSpan, holding, hRequest]

/-- A sink that holds a log in a buffer of the given length. -/
inductive Holds (length : Nat) (log : Bytes) : FixedSink → Prop where
  | holding {rest : Bytes} (hLength : (log ++ rest).length = length) :
      Holds length log (holding log rest)

theorem Holds.written_eq {s : FixedSink} (h : Holds length log s) : s.written = log := by
  cases h with
  | holding hLength => exact written_holding

theorem holds_ofBuffer (buffer : Bytes) : Holds buffer.length [] (ofBuffer buffer) := by
  change Holds buffer.length [] (holding [] buffer)
  exact .holding rfl

/-- What is stored after a log is no part of it, and what is committed of it comes to its end. -/
theorem holds_store (hLength : (log ++ rest).length = length) (hBytes : bytes.length = rest.length)
    (hRequest : request ≤ rest.length) :
    Holds length log ((holding log rest).store bytes) ∧
      Holds length (log ++ bytes.take request)
        (((holding log rest).store bytes).advance request) := by
  have hStored : (log ++ bytes).length = length := by
    rw [← hLength, List.length_append, List.length_append, hBytes]
  rw [store_holding hBytes, advance_holding (hBytes ▸ hRequest)]
  refine ⟨.holding hStored, .holding ?_⟩
  rwa [List.append_assoc, List.take_append_drop]

theorem keepsLog (length : Nat) : KeepsLog (allows (some length)) (Holds length) where
  grants := by
    intro log s request h hRoom
    cases h with
    | @holding rest hLength =>
        have hBound : log.length + request ≤ length := allows_iff.mp hRoom length rfl
        have hRequest : request ≤ rest.length := by
          rw [List.length_append] at hLength
          omega
        exact ⟨rest, _, getSpan_holding hRequest, hRequest,
          fun bytes hBytes => holds_store hLength hBytes hRequest⟩
  refuses := by
    intro log s request h hRoom
    cases h with
    | @holding rest hLength =>
        have hBound : length < log.length + request := by simpa [allows] using hRoom
        have hRequest : rest.length < request := by
          rw [List.length_append] at hLength
          omega
        exact ⟨_, getSpan_holding_eq_error hRequest⟩

/-- The sink over the same buffer that may grow, up to a limit if it has one. -/
def growing (s : FixedSink) (limit : Option Nat) : GrowableSink where
  buffer := s.buffer
  committed := s.committed
  limit := limit

end FixedSink

namespace GrowableSink

variable {limit : Option Nat}

/-- Whether a log may have a length: the limit allows it, and the memory is granted. -/
def room (limit : Option Nat) (length : Nat) : Bool :=
  allows limit length && decide (length ≤ largestGrant)

/-- The region that is handed out: the rest of the buffer, and zeros up to the length asked for. -/
def extend (rest : Bytes) (request : Nat) : Bytes :=
  rest ++ List.replicate (request - rest.length) 0

/-- The region is made as long as the request, unless it is longer already. -/
theorem length_extend (rest : Bytes) (request : Nat) :
    (extend rest request).length = max rest.length request := by
  rw [extend, List.length_append, List.length_replicate]
  omega

/-- Memory that is granted is put behind the region, as zeros. -/
theorem grow_holding (hGranted : log.length + request ≤ largestGrant) :
    ((FixedSink.holding log rest).growing limit).grow (log.length + request) =
      .ok ((FixedSink.holding log (extend rest request)).growing limit) := by
  have hLarge : largestGrant < largestBuffer := by decide
  have hGrant : Allocator.bounded (log.length + request) = none := by
    rw [Allocator.bounded, if_neg (by omega), if_neg (Nat.not_lt.mpr hGranted)]
  rw [grow]
  by_cases hLong : request ≤ rest.length
  · simp [FixedSink.growing, FixedSink.holding, extend, hLong]
  · have hMissing : log.length + request - (log.length + rest.length) = request - rest.length := by
      omega
    simp [FixedSink.growing, FixedSink.holding, extend, hLong, hMissing, hGrant]

theorem grow_holding_eq_error (hBuffer : (log ++ rest).length ≤ largestGrant)
    (hRefused : largestGrant < log.length + request) :
    ∃ e, ((FixedSink.holding log rest).growing limit).grow (log.length + request) = .error e := by
  have hShort : ¬log.length + request ≤ (log ++ rest).length := by omega
  obtain ⟨cause, hDenied⟩ : ∃ cause, Allocator.bounded (log.length + request) = some cause := by
    rw [Allocator.bounded, if_pos hRefused]
    split <;> exact ⟨_, rfl⟩
  simp only [grow, FixedSink.growing, FixedSink.holding, hShort, hDenied, if_false]
  exact ⟨_, rfl⟩

/-- The limit is compared before the buffer grows. -/
theorem reserve_eq {s : GrowableSink} (hAddressed : s.committed + request < addressSpace) :
    s.reserve request =
      if allows s.limit (s.committed + request) then s.grow (s.committed + request)
      else .error (.capacityExceeded request (s.limit.getD 0 - s.committed)) := by
  simp only [reserve, if_neg (Nat.not_le.mpr hAddressed)]
  cases s.limit with
  | none => rfl
  | some bound =>
      rcases Nat.lt_or_ge bound (s.committed + request) with hBound | hBound
      · simp [allows, hBound, Nat.not_le.mpr hBound]
      · simp [allows, hBound, Nat.not_lt.mpr hBound]

theorem getSpan_holding (hRoom : room limit (log.length + request)) :
    ((FixedSink.holding log rest).growing limit).getSpan request =
      (.ok (extend rest request), (FixedSink.holding log (extend rest request)).growing limit) := by
  rw [room, Bool.and_eq_true, decide_eq_true_eq] at hRoom
  obtain ⟨hAllows, hGranted⟩ := hRoom
  have hAddressed : log.length + request < addressSpace :=
    Nat.lt_of_le_of_lt hGranted (by decide)
  have hReserve : ((FixedSink.holding log rest).growing limit).reserve request =
      .ok ((FixedSink.holding log (extend rest request)).growing limit) := by
    rw [← grow_holding hGranted]
    exact (reserve_eq hAddressed).trans (if_pos hAllows)
  rw [getSpan, hReserve]
  exact congrArg (fun region => (Except.ok region, _)) FixedSink.region_holding

theorem getSpan_holding_eq_error (hBuffer : (log ++ rest).length ≤ largestGrant)
    (hRoom : room limit (log.length + request) = false) :
    ∃ e, ((FixedSink.holding log rest).growing limit).getSpan request =
      (.error e, (FixedSink.holding log rest).growing limit) := by
  have hReserve :
      ∃ e, ((FixedSink.holding log rest).growing limit).reserve request = .error e := by
    rcases Nat.lt_or_ge (log.length + request) addressSpace with hAddressed | hOutside
    · cases hAllows : allows limit (log.length + request) with
      | false =>
          have hExceeds : ¬allows limit (log.length + request) := by simp [hAllows]
          exact ⟨_, (reserve_eq hAddressed).trans (if_neg hExceeds)⟩
      | true =>
          have hRefused : largestGrant < log.length + request := by
            simpa [room, hAllows] using hRoom
          obtain ⟨e, hGrow⟩ :
              ∃ e, ((FixedSink.holding log rest).growing limit).grow (log.length + request) =
                .error e :=
            grow_holding_eq_error hBuffer hRefused
          exact ⟨e, ((reserve_eq hAddressed).trans (if_pos hAllows)).trans hGrow⟩
    · exact ⟨_, if_pos hOutside⟩
  obtain ⟨e, hReserve⟩ := hReserve
  exact ⟨e, by rw [getSpan, hReserve]⟩

/-- A sink that holds a log. Its buffer has been granted, and may be longer than the log. -/
inductive Holds (limit : Option Nat) (log : Bytes) : GrowableSink → Prop where
  | growing {length : Nat} {s : FixedSink} (hGranted : length ≤ largestGrant)
      (hHolds : FixedSink.Holds length log s) : Holds limit log (s.growing limit)

theorem Holds.written_eq {s : GrowableSink} (h : Holds limit log s) : s.written = log := by
  cases h with
  | growing hGranted hHolds => exact hHolds.written_eq

theorem holds_empty (limit : Option Nat) : Holds limit [] (empty limit) :=
  .growing (Nat.zero_le _) (FixedSink.holds_ofBuffer [])

theorem keepsLog (limit : Option Nat) : KeepsLog (room limit) (Holds limit) where
  grants := by
    intro log s request h hRoom
    cases h with
    | growing hGranted hHolds =>
        cases hHolds with
        | @holding rest hLength =>
            have hRequest : request ≤ (extend rest request).length := by
              rw [length_extend]
              omega
            have hExtended : (log ++ extend rest request).length ≤ largestGrant := by
              rw [room, Bool.and_eq_true, decide_eq_true_eq] at hRoom
              rw [List.length_append] at hLength ⊢
              rw [length_extend]
              omega
            refine ⟨_, _, getSpan_holding hRoom, hRequest, fun bytes hBytes => ?_⟩
            have hLog : (log ++ extend rest request).length = _ := rfl
            obtain ⟨hStored, hCommitted⟩ := FixedSink.holds_store hLog hBytes hRequest
            exact ⟨.growing hExtended hStored, .growing hExtended hCommitted⟩
  refuses := by
    intro log s request h hRoom
    cases h with
    | growing hGranted hHolds =>
        cases hHolds with
        | holding hLength => exact getSpan_holding_eq_error (hLength ▸ hGranted) hRoom

end GrowableSink

end WireRecord
