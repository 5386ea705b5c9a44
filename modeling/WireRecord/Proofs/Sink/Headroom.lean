import WireRecord.Proofs.Sink.Lifetime

/-!
What sinks say to a request that they have no capacity for. A fixed sink names the bytes that are
left. A growable sink names those that are left of its limit or, if the request leads out of the
address space, those that are left of this, although the limit may allow fewer.
-/

namespace WireRecord

/-- A request is refused for capacity exactly if it is for more than `room` bytes. -/
def Sink.HasHeadroom {σ : Type} (sink : Sink σ) (s : σ) (room : Nat) : Prop :=
  ∀ request, (∃ requested bound,
    (sink.getSpan s request).1 = .error (.capacityExceeded requested bound)) ↔ room < request

namespace GrowableSink

variable {s : GrowableSink} {request requested bound : Nat} {allocator : Allocator}

/-- The longest that the buffer may become: the limit and the address space both bound it. -/
def capacity (s : GrowableSink) : Nat := min (s.limit.getD (addressSpace - 1)) (addressSpace - 1)

/-- The bound that is named to a request that exceeds the capacity. -/
def named (s : GrowableSink) (request : Nat) : Nat :=
  if s.committed + request < addressSpace then s.capacity - s.committed
  else addressSpace - 1 - s.committed

theorem capacity_lt (s : GrowableSink) : s.capacity < addressSpace := by
  have hPositive : 0 < addressSpace := by decide
  rw [capacity]
  omega

theorem capacity_le {most : Nat} (hLimit : most ∈ s.limit) : s.capacity ≤ most := by
  rw [capacity, Option.mem_def.mp hLimit]
  exact Nat.min_le_left ..

theorem reserve_of_le (hRoom : s.committed + request ≤ s.capacity) (allocator : Allocator) :
    s.reserve request allocator = s.grow (s.committed + request) allocator := by
  have hInside : ¬addressSpace ≤ s.committed + request :=
    Nat.not_le.mpr (Nat.lt_of_le_of_lt hRoom s.capacity_lt)
  simp only [reserve, if_neg hInside]
  split
  · rfl
  · next most hLimit =>
    rw [if_neg (Nat.not_lt.mpr (Nat.le_trans hRoom (capacity_le hLimit)))]

/-- Beyond it the request is refused for capacity, whatever the allocator would say. -/
theorem reserve_of_lt (hExceeds : s.capacity < s.committed + request) (allocator : Allocator) :
    s.reserve request allocator = .error (.capacityExceeded request (s.named request)) := by
  simp only [reserve, named]
  by_cases hOutside : addressSpace ≤ s.committed + request
  · rw [if_pos hOutside, if_neg (Nat.not_lt.mpr hOutside)]
  · rw [if_neg hOutside, if_pos (Nat.not_le.mp hOutside)]
    rw [capacity] at hExceeds ⊢
    split
    · next hLimit =>
      rw [hLimit, Option.getD_none] at hExceeds
      omega
    · next most hLimit =>
      rw [hLimit, Option.getD_some] at hExceeds
      have hBound : min most (addressSpace - 1) = most := by omega
      rw [hLimit, Option.getD_some, hBound, if_pos (hBound ▸ hExceeds)]

/-- Growing is refused for want of memory only. -/
theorem grow_ne_capacityExceeded (s : GrowableSink) (length requested bound : Nat)
    (allocator : Allocator) :
    s.grow length allocator ≠ .error (.capacityExceeded requested bound) := by
  rw [grow]
  split
  · simp
  · split <;> simp

/-- A request is refused for capacity exactly if it exceeds it, whatever memory is granted. -/
theorem capacityExceeded_iff :
    ((sink allocator).getSpan s request).1 = .error (.capacityExceeded requested bound) ↔
      s.capacity < s.committed + request ∧ requested = request ∧ bound = s.named request := by
  rw [sink_getSpan, getSpan]
  rcases Nat.lt_or_ge s.capacity (s.committed + request) with hExceeds | hRoom
  · rw [reserve_of_lt hExceeds]
    simp [hExceeds, eq_comm]
  · rw [reserve_of_le hRoom]
    refine iff_of_false ?_ fun h => Nat.not_lt.mpr hRoom h.1
    cases hGrow : s.grow (s.committed + request) allocator with
    | ok s' => simp
    | error e =>
        simp only [Except.error.injEq]
        rintro rfl
        exact s.grow_ne_capacityExceeded _ requested bound allocator hGrow

/-- No more is committed than there is, and there is no more than there may be. -/
structure Within (s : GrowableSink) : Prop where
  committed_le : s.committed ≤ s.buffer.length
  length_le : s.buffer.length ≤ s.capacity

/-- No request makes the buffer longer than the capacity. -/
theorem length_getSpan_le (s : GrowableSink) (request : Nat) (allocator : Allocator)
    (hLength : s.buffer.length ≤ s.capacity) :
    ((sink allocator).getSpan s request).2.buffer.length ≤ s.capacity := by
  rw [sink_getSpan, getSpan]
  rcases Nat.lt_or_ge s.capacity (s.committed + request) with hExceeds | hRoom
  · rw [reserve_of_lt hExceeds]
    exact hLength
  · rw [reserve_of_le hRoom]
    rcases s.grow_cases (s.committed + request) allocator with
      ⟨e, hError⟩ | ⟨count, hGrow, _, rfl | hExact⟩
    · rw [hError]
      exact hLength
    · rw [hGrow]
      simpa [extended] using hLength
    · rw [hGrow]
      exact Nat.le_trans (Nat.le_of_eq hExact) hRoom

/-- No action leads past the capacity. -/
theorem length_run_le (s : GrowableSink) (a : SinkAction) (hLength : s.buffer.length ≤ s.capacity) :
    (a.run (sink allocator) fixed s).1.buffer.length ≤ s.capacity := by
  cases a with
  | advance count => exact hLength
  | span request settings =>
      have hSpan := s.length_getSpan_le request allocator hLength
      rw [SinkAction.run]
      generalize (sink allocator).getSpan s request = out at hSpan ⊢
      rcases out with ⟨e | region, s'⟩
      · exact hSpan
      · exact Nat.le_trans (Nat.le_of_eq (s'.fixed.length_store _)) hSpan

theorem capacity_congr {s s' : GrowableSink} (hLimit : s.limit = s'.limit) :
    s.capacity = s'.capacity := by
  rw [capacity, capacity, hLimit]

/-- By induction on the history: every action keeps the limit and with it the capacity. -/
theorem within_after (limit : Option Nat) (history : List GrowableAction) :
    (after limit history).Within := by
  have hKeeps : Sound limit (settings limit history) (after limit history) ∧
      (after limit history).buffer.length ≤ (after limit history).capacity := by
    refine @runHistory_keeps _ _ GrowableAction.run
      (fun settings s => Sound limit settings s ∧ s.buffer.length ≤ s.capacity)
      (fun {settings s} h a => ?_) _ _ ⟨sound_empty limit, Nat.zero_le _⟩ history
    have hSound := h.1.run a
    refine ⟨hSound, ?_⟩
    rw [capacity_congr (hSound.limit_eq.trans h.1.limit_eq.symm)]
    cases a with
    | clear => exact h.2
    | act allocator a => exact s.length_run_le a h.2
  exact ⟨hKeeps.1.valid, hKeeps.2⟩

/-- The invariant of sinks within their capacity, at every member of every family. -/
theorem within_of_mem_sinks {limit : Option Nat} {steps : List FamilyAction}
    (hMember : s ∈ FamilyAction.sinks limit steps) : s.limit = limit ∧ s.Within := by
  rw [FamilyAction.sinks_eq] at hMember
  obtain ⟨history, _, rfl⟩ := List.mem_map.mp hMember
  exact ⟨(sound_after limit history).limit_eq, within_after limit history⟩

/-- The headroom of a growable sink is what is left up to its capacity. -/
theorem Within.hasHeadroom (h : s.Within) (allocator : Allocator) :
    (sink allocator).HasHeadroom s (s.capacity - s.committed) := by
  intro request
  have hCommitted : s.committed ≤ s.capacity := Nat.le_trans h.committed_le h.length_le
  simp only [capacityExceeded_iff]
  constructor
  · rintro ⟨_, _, hExceeds, _⟩
    omega
  · intro hMore
    exact ⟨request, s.named request, by omega, rfl, rfl⟩

/-- The bound that is named is what is left of the capacity, unless the request leads out of the
address space and the limit lies within it. -/
theorem named_eq_iff (hCommitted : s.committed ≤ s.capacity) :
    s.named request = s.capacity - s.committed ↔
      s.committed + request < addressSpace ∨ ∀ most ∈ s.limit, addressSpace ≤ most + 1 := by
  rw [named]
  by_cases hInside : s.committed + request < addressSpace
  · simp only [hInside, if_true, true_or]
  · have hLast : s.capacity = addressSpace - 1 ↔ ∀ most ∈ s.limit, addressSpace ≤ most + 1 := by
      rw [capacity]
      cases s.limit with
      | none => simp
      | some most =>
          simp only [Option.getD_some, Option.mem_some_iff, forall_eq']
          omega
    simp only [hInside, if_false, false_or, ← hLast]
    have := s.capacity_lt
    omega

end GrowableSink

/-- There is one headroom: it is the largest request that is not refused for capacity. -/
theorem Sink.HasHeadroom.unique {σ : Type} {sink : Sink σ} {s : σ} {room room' : Nat}
    (h : sink.HasHeadroom s room) (h' : sink.HasHeadroom s room') : room = room' := by
  have hSame : ∀ request, room < request ↔ room' < request :=
    fun request => (h request).symm.trans (h' request)
  have hLeft := hSame room
  have hRight := hSame room'
  omega

namespace FixedSink

/-- A sink over a buffer names what is left of the buffer. -/
theorem capacityExceeded_iff {s : FixedSink} {request requested bound : Nat} :
    (sink.getSpan s request).1 = .error (.capacityExceeded requested bound) ↔
      s.buffer.length - s.committed < request ∧ requested = request ∧
        bound = s.buffer.length - s.committed := by
  change (s.getSpan request).1 = _ ↔ _
  rw [getSpan]
  by_cases hExceeds : s.buffer.length - s.committed < request
  · simp [hExceeds, eq_comm]
  · simp [hExceeds]

theorem hasHeadroom (s : FixedSink) :
    sink.HasHeadroom s (s.buffer.length - s.committed) := by
  intro request
  simp [capacityExceeded_iff]

end FixedSink

/-- A sink that has no capacity for a request says so in an error that repeats the request. The
bound that a fixed sink names is its headroom: another request is refused for capacity exactly if it
is for more. So is the bound that a growable sink names, cloned or not, unless the request leads out
of the address space and the sink has a limit that lies within it. The headroom then is what is left
of the limit, and not the bound that is named. -/
theorem capacity_errors_state_headroom (limit : Option Nat) (steps : List FamilyAction)
    (buffer : Bytes) (history : List SinkAction) (request requested bound : Nat) :
    (∀ s ∈ FamilyAction.sinks limit steps,
      (∀ later, (GrowableSink.sink later).HasHeadroom s (s.capacity - s.committed)) ∧
      ∀ allocator : Allocator,
        ((GrowableSink.sink allocator).getSpan s request).1 =
            .error (.capacityExceeded requested bound) →
          requested = request ∧
            ((∀ later, (GrowableSink.sink later).HasHeadroom s bound) ↔
              s.committed + request < addressSpace ∨ ∀ most ∈ limit, addressSpace ≤ most + 1)) ∧
    ((FixedSink.sink.getSpan (FixedSink.after buffer history) request).1 =
        .error (.capacityExceeded requested bound) →
      requested = request ∧
        FixedSink.sink.HasHeadroom (FixedSink.after buffer history) bound) := by
  refine ⟨fun s hMember => ?_, fun hRefused => ?_⟩
  · obtain ⟨rfl, hWithin⟩ := GrowableSink.within_of_mem_sinks hMember
    have hHeadroom := hWithin.hasHeadroom
    refine ⟨hHeadroom, fun allocator hRefused => ?_⟩
    obtain ⟨_, rfl, rfl⟩ := GrowableSink.capacityExceeded_iff.mp hRefused
    refine ⟨rfl, ?_⟩
    rw [← GrowableSink.named_eq_iff (Nat.le_trans hWithin.committed_le hWithin.length_le)]
    constructor
    · intro hNamed
      exact (hNamed allocator).unique (hHeadroom allocator)
    · intro hNamed
      rw [hNamed]
      exact hHeadroom
  · obtain ⟨_, rfl, rfl⟩ := FixedSink.capacityExceeded_iff.mp hRefused
    exact ⟨rfl, FixedSink.hasHeadroom _⟩

namespace Sample

/-- Four bytes are committed. -/
def fourBytes : List GrowableAction := [.act .bounded (.span 4 []), .act .bounded (.advance 4)]

/-- A sink of ten bytes of which four are committed. -/
def chest : GrowableSink := GrowableSink.after (some 10) fourBytes

theorem chest_mem_sinks : chest ∈ FamilyAction.sinks (some 10) (fourBytes.map (.use 0)) := by
  rw [FamilyAction.sinks_eq]
  exact List.mem_singleton_self chest

end Sample

/-- Six bytes are left, and seven are refused with this bound. -/
theorem capacity_errors_state_headroom_chest :
    ((GrowableSink.sink .bounded).getSpan Sample.chest 7).1 = .error (.capacityExceeded 7 6) ∧
      (GrowableSink.sink .bounded).HasHeadroom Sample.chest 6 := by
  have hRefused :
      ((GrowableSink.sink .bounded).getSpan Sample.chest 7).1 = .error (.capacityExceeded 7 6) :=
    rfl
  obtain ⟨hGrowable, _⟩ := capacity_errors_state_headroom (some 10) _ [] [] 7 7 6
  obtain ⟨_, hErrors⟩ := hGrowable Sample.chest Sample.chest_mem_sinks
  obtain ⟨_, hNamed⟩ := hErrors .bounded hRefused
  exact ⟨hRefused, hNamed.mpr (.inl (by decide)) .bounded⟩

/-- A request that leads out of the address space is told of far more bytes than are left: the sink
then refuses seven, of which it was told that there is room for them. -/
theorem capacity_error_overstates_chest :
    Sample.chest ∈ FamilyAction.sinks (some 10) (Sample.fourBytes.map (.use 0)) ∧
      ((GrowableSink.sink .bounded).getSpan Sample.chest (addressSpace - 1)).1 =
        .error (.capacityExceeded (addressSpace - 1) (addressSpace - 5)) ∧
      7 ≤ addressSpace - 5 ∧
      ((GrowableSink.sink .bounded).getSpan Sample.chest 7).1 = .error (.capacityExceeded 7 6) ∧
      ¬(GrowableSink.sink .bounded).HasHeadroom Sample.chest (addressSpace - 5) := by
  have hRefused :
      ((GrowableSink.sink .bounded).getSpan Sample.chest 7).1 = .error (.capacityExceeded 7 6) :=
    rfl
  refine ⟨Sample.chest_mem_sinks, rfl, by decide, hRefused, fun hTold => ?_⟩
  have hMore : addressSpace - 5 < 7 := (hTold 7).mp ⟨7, 6, hRefused⟩
  exact absurd hMore (by decide)

end WireRecord
