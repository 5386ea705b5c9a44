import WireRecord.Proofs.Sink.Commitment

/-!
What clients do with sinks. They ask for regions, set bytes of these and commit bytes, in any order.
A sink is seen as a buffer of which the first bytes are committed. The committed bytes are never
changed, and a byte of the buffer is the one that was set last at its place, whether it was
committed since or not, or the one that was there at first.
-/

namespace WireRecord

/-- A byte to be set, with its offset in a region or its place in a buffer. -/
abbrev Setting := Nat × UInt8

/-- The bytes after some of them were set, in order. An offset past the end sets nothing. -/
def setBytes (settings : List Setting) (bytes : Bytes) : Bytes :=
  settings.foldl (fun bytes e => bytes.set e.1 e.2) bytes

@[simp] theorem length_setBytes (settings : List Setting) (bytes : Bytes) :
    (setBytes settings bytes).length = bytes.length := by
  induction settings generalizing bytes with
  | nil => rfl
  | cons e later ih => exact (ih _).trans List.length_set

/-- Bytes that are set after a start are set in the whole, so much further on. -/
theorem append_setBytes (start bytes : Bytes) (settings : List Setting) :
    start ++ setBytes settings bytes =
      setBytes (settings.map fun e => (start.length + e.1, e.2)) (start ++ bytes) := by
  induction settings generalizing bytes with
  | nil => rfl
  | cons e later ih =>
      have hSet : (start ++ bytes).set (start.length + e.1) e.2 = start ++ bytes.set e.1 e.2 := by
        rw [List.set_append_right _ _ (Nat.le_add_right ..), Nat.add_sub_cancel_left]
      change start ++ setBytes later (bytes.set e.1 e.2) =
        setBytes (later.map _) ((start ++ bytes).set (start.length + e.1) e.2)
      rw [hSet, ih]

/-- What a buffer shows of the bytes that were set in it, in order: at each place the byte that was
set there last, or if none was, the byte that was there at first, where zero stands for none. -/
structure Recalls (first : Bytes) (settings : List Setting) (buffer : Bytes) : Prop where
  length_le : first.length ≤ buffer.length
  inside : ∀ e ∈ settings, e.1 < buffer.length
  last : ∀ {before after : List Setting} {place : Nat} {byte : UInt8},
    settings = before ++ (place, byte) :: after → (∀ e ∈ after, e.1 ≠ place) →
      buffer[place]? = some byte
  untouched : ∀ {place : Nat}, place < buffer.length → (∀ e ∈ settings, e.1 ≠ place) →
    buffer[place]? = some (first.getD place 0)

namespace Recalls

variable {first buffer : Bytes} {settings : List Setting}

theorem start (first : Bytes) : Recalls first [] first where
  length_le := Nat.le_refl _
  inside := by simp
  last := by simp
  untouched := by
    intro place hPlace _
    simp [List.getD, hPlace]

/-- A byte that is set is recalled until it is set again. -/
theorem set (h : Recalls first settings buffer) {e : Setting} (hInside : e.1 < buffer.length) :
    Recalls first (settings ++ [e]) (buffer.set e.1 e.2) where
  length_le := by rw [List.length_set]; exact h.length_le
  inside := by
    intro e' hMember
    rw [List.length_set]
    rcases List.mem_append.mp hMember with hEarlier | hNew
    · exact h.inside e' hEarlier
    · rwa [List.mem_singleton.mp hNew]
  last := by
    intro before after place byte hSplit hAfter
    -- the last setting of the place is the new one, or stands before it
    rcases List.eq_nil_or_concat after with rfl | ⟨after', e', rfl⟩
    · obtain ⟨_, hNew⟩ := List.append_inj' hSplit rfl
      cases hNew
      simp [hInside]
    · have hConcat : settings ++ [e] = (before ++ (place, byte) :: after') ++ [e'] := by
        simpa using hSplit
      obtain ⟨hEarlier, hNew⟩ := List.append_inj' hConcat rfl
      cases hNew
      rw [List.getElem?_set_ne (hAfter e (by simp))]
      exact h.last hEarlier fun e' hMember => hAfter e' (by simp [hMember])
  untouched := by
    intro place hPlace hNone
    rw [List.length_set] at hPlace
    rw [List.getElem?_set_ne (hNone e (by simp))]
    exact h.untouched hPlace fun e' hMember => hNone e' (List.mem_append_left _ hMember)

/-- Only the bytes that are set inside the buffer count. -/
theorem setBytes (h : Recalls first settings buffer) (news : List Setting) :
    Recalls first (settings ++ news.filter fun e => e.1 < buffer.length)
      (setBytes news buffer) := by
  induction news generalizing settings buffer with
  | nil =>
      change Recalls first (settings ++ []) buffer
      rwa [List.append_nil]
  | cons e later ih =>
      change Recalls first _ (WireRecord.setBytes later (buffer.set e.1 e.2))
      by_cases hInside : e.1 < buffer.length
      · have hLater := ih (h.set hInside)
        rw [List.length_set, List.append_assoc] at hLater
        rw [List.filter_cons_of_pos (by simpa using hInside)]
        exact hLater
      · rw [List.set_eq_of_length_le (Nat.not_lt.mp hInside),
          List.filter_cons_of_neg (by simpa using hInside)]
        exact ih h

/-- The bytes that a buffer is extended by are as if they had been there at first. -/
theorem extend (h : Recalls first settings buffer) (count : Nat) :
    Recalls first settings (buffer ++ List.replicate count 0) where
  length_le := by
    rw [List.length_append]
    exact Nat.le_add_right_of_le h.length_le
  inside := by
    intro e hMember
    rw [List.length_append]
    exact Nat.lt_add_right _ (h.inside e hMember)
  last := by
    intro before after place byte hSplit hAfter
    have hInside : place < buffer.length := h.inside (place, byte) (by simp [hSplit])
    rw [List.getElem?_append_left hInside]
    exact h.last hSplit hAfter
  untouched := by
    intro place hPlace hNone
    rcases Nat.lt_or_ge place buffer.length with hInside | hOutside
    · rw [List.getElem?_append_left hInside]
      exact h.untouched hInside hNone
    · have hFirst : first[place]? = none :=
        List.getElem?_eq_none (Nat.le_trans h.length_le hOutside)
      rw [List.length_append, List.length_replicate] at hPlace
      rw [List.getElem?_append_right hOutside, List.getElem?_replicate, if_pos (by omega),
        List.getD, hFirst, Option.getD_none]

end Recalls

namespace FixedSink

/-- No more is committed than there is. -/
def Valid (s : FixedSink) : Prop := s.committed ≤ s.buffer.length

/-- The sink with zeros after its buffer. -/
def extend (s : FixedSink) (count : Nat) : FixedSink :=
  { s with buffer := s.buffer ++ List.replicate count 0 }

/-- Bytes to be set in the region, with their places in the buffer. -/
def placed (s : FixedSink) (settings : List Setting) : List Setting :=
  (settings.map fun e => (s.committed + e.1, e.2)).filter fun e => e.1 < s.buffer.length

variable {s : FixedSink}

theorem buffer_eq (s : FixedSink) : s.buffer = s.written ++ s.region :=
  (List.take_append_drop ..).symm

theorem buffer_store (s : FixedSink) (bytes : Bytes) :
    (s.store bytes).buffer = s.written ++ overlay bytes s.region := rfl

@[simp] theorem length_store (s : FixedSink) (bytes : Bytes) :
    (s.store bytes).buffer.length = s.buffer.length := by
  rw [buffer_store, List.length_append, length_overlay, ← List.length_append, ← buffer_eq]

/-- To commit adds the front of the region to what is committed. -/
theorem written_advance (s : FixedSink) (count : Nat) :
    (s.advance count).written = s.written ++ s.region.take count := by
  change s.buffer.take (min (s.committed + count) s.buffer.length) = _
  rw [← List.take_eq_take_min, List.take_add, written, region]

/-- A commitment of more than there is commits all there is. -/
theorem valid_advance (s : FixedSink) (count : Nat) : (s.advance count).Valid :=
  Nat.min_le_right ..

namespace Valid

theorem length_written (h : s.Valid) : s.written.length = s.committed := by
  rw [written, List.length_take, Nat.min_eq_left h]

theorem written_extend (h : s.Valid) (count : Nat) : (s.extend count).written = s.written :=
  List.take_append_of_le_length h

theorem written_store (h : s.Valid) (bytes : Bytes) : (s.store bytes).written = s.written := by
  rw [written, buffer_store]
  exact List.take_left' h.length_written

theorem extend (h : s.Valid) (count : Nat) : (s.extend count).Valid := by
  rw [Valid, FixedSink.extend, List.length_append]
  exact Nat.le_add_right_of_le h

theorem store (h : s.Valid) (bytes : Bytes) : (s.store bytes).Valid := by
  rw [Valid, length_store]
  exact h

/-- What is set in the region is set in the buffer. -/
theorem recalls_store (h : s.Valid) {first : Bytes} {settings : List Setting}
    (hRecalls : Recalls first settings s.buffer) (news : List Setting) :
    Recalls first (settings ++ s.placed news) (s.store (setBytes news s.region)).buffer := by
  rw [buffer_store, overlay_eq_new (length_setBytes ..), append_setBytes, ← buffer_eq,
    h.length_written]
  exact hRecalls.setBytes _

end Valid

end FixedSink

/-- A kind of sink shows as a buffer of which some is committed. A region that is asked for is all
that follows the committed bytes, after zeros have been added to the buffer, or it is refused and
nothing has changed. -/
structure Sink.ShownBy {σ : Type} (sink : Sink σ) (view : σ → FixedSink) : Prop where
  getSpan : ∀ (s : σ) (request : Nat),
    (∃ e, sink.getSpan s request = (.error e, s)) ∨
      ∃ s' count, sink.getSpan s request = (.ok (view s').region, s') ∧
        view s' = (view s).extend count ∧ request ≤ (view s').region.length
  store : ∀ (s : σ) (bytes : Bytes), view (sink.store s bytes) = (view s).store bytes
  advance : ∀ (s : σ) (count : Nat), view (sink.advance s count) = (view s).advance count

/-- What a client does: it asks for a region and sets bytes of it, if it gets one, or it commits. -/
inductive SinkAction where
  | span (request : Nat) (settings : List Setting)
  | advance (count : Nat)
  deriving DecidableEq

/-- Runs an action: the sink afterwards, and the bytes that were set in its buffer. -/
def SinkAction.run {σ : Type} (sink : Sink σ) (view : σ → FixedSink) (a : SinkAction) (s : σ) :
    σ × List Setting :=
  match a with
  | advance count => (sink.advance s count, [])
  | span request settings =>
    match sink.getSpan s request with
    | (.ok region, s') => (sink.store s' (setBytes settings region), (view s').placed settings)
    | (.error _, s') => (s', [])

namespace SinkAction

variable {σ : Type} {sink : Sink σ} {view : σ → FixedSink} {s s' : σ} {request : Nat}

theorem run_granted {region : Bytes} (hSpan : sink.getSpan s request = (.ok region, s'))
    (settings : List Setting) : (span request settings).run sink view s =
      (sink.store s' (setBytes settings region), (view s').placed settings) := by
  simp only [run, hSpan]

theorem run_refused {e : SinkError} (hSpan : sink.getSpan s request = (.error e, s'))
    (settings : List Setting) : (span request settings).run sink view s = (s', []) := by
  simp only [run, hSpan]

end SinkAction

/-- Runs actions in order: the sink afterwards, and all bytes that were set in its buffer. -/
def runHistory {α σ : Type} (run : α → σ → σ × List Setting) : List α → σ → σ × List Setting
  | [], s => (s, [])
  | a :: later, s =>
    let (s', settings) := run a s
    let (s'', more) := runHistory run later s'
    (s'', settings ++ more)

theorem runHistory_append {α σ : Type} (run : α → σ → σ × List Setting) (history further : List α)
    (s : σ) : (runHistory run (history ++ further) s).1 =
      (runHistory run further (runHistory run history s).1).1 := by
  induction history generalizing s with
  | nil => rfl
  | cons a later ih => exact ih (run a s).1

/-- What every action keeps holds after a history. -/
theorem runHistory_keeps {α σ : Type} {run : α → σ → σ × List Setting}
    {Inv : List Setting → σ → Prop}
    (hStep : ∀ {settings : List Setting} {s : σ}, Inv settings s →
      ∀ a, Inv (settings ++ (run a s).2) (run a s).1)
    {settings : List Setting} {s : σ} (h : Inv settings s) (history : List α) :
    Inv (settings ++ (runHistory run history s).2) (runHistory run history s).1 := by
  induction history generalizing settings s with
  | nil =>
      change Inv (settings ++ []) s
      rwa [List.append_nil]
  | cons a later ih =>
      have hLater := ih (hStep h a)
      rwa [List.append_assoc] at hLater

/-- What holds after bytes were set and commitments were made or taken back. -/
structure FixedSink.Keeps (s : FixedSink) (news : List Setting) (s' : FixedSink) : Prop where
  valid : s'.Valid
  recalls : ∀ {first : Bytes} {settings : List Setting}, Recalls first settings s.buffer →
    Recalls first (settings ++ news) s'.buffer

namespace FixedSink.Keeps

variable {s s' : FixedSink}

/-- An action that leaves the buffer alone sets nothing. -/
theorem of_buffer_eq (hValid : s'.Valid) (hBuffer : s'.buffer = s.buffer) : s.Keeps [] s' where
  valid := hValid
  recalls := by
    intro first settings hRecalls
    rwa [List.append_nil, hBuffer]

/-- An action that makes room and fills the region keeps all but what it sets there. -/
theorem fill (h : s.Valid) (count : Nat) (settings : List Setting) :
    s.Keeps ((s.extend count).placed settings)
      ((s.extend count).store (setBytes settings (s.extend count).region)) where
  valid := (h.extend count).store _
  recalls := fun hRecalls => (h.extend count).recalls_store (hRecalls.extend count) settings

end FixedSink.Keeps

/-- A history does not shorten what is committed if none of its actions does. -/
theorem written_runHistory {α σ : Type} {run : α → σ → σ × List Setting} {history : List α}
    (view : σ → FixedSink)
    (hStep : ∀ a ∈ history, ∀ {s : σ}, (view s).Valid →
      (view s).Keeps (run a s).2 (view (run a s).1) ∧
        (view s).written <+: (view (run a s).1).written)
    {s : σ} (hValid : (view s).Valid) :
    (view s).written <+: (view (runHistory run history s).1).written := by
  induction history generalizing s with
  | nil => exact List.prefix_rfl
  | cons a later ih =>
      obtain ⟨hKeeps, hPrefix⟩ := hStep a List.mem_cons_self hValid
      exact hPrefix.trans
        (ih (fun a' hMember => hStep a' (List.mem_cons_of_mem _ hMember)) hKeeps.valid)

namespace Sink.ShownBy

variable {σ : Type} {sink : Sink σ} {view : σ → FixedSink} {s : σ}

/-- An action keeps what is committed, and sets the bytes that it says it does. -/
theorem run (h : sink.ShownBy view) (a : SinkAction) (hValid : (view s).Valid) :
    (view s).Keeps (a.run sink view s).2 (view (a.run sink view s).1) ∧
      (view s).written <+: (view (a.run sink view s).1).written := by
  cases a with
  | advance count =>
      change (view s).Keeps [] (view (sink.advance s count)) ∧
        (view s).written <+: (view (sink.advance s count)).written
      rw [h.advance, FixedSink.written_advance]
      exact ⟨.of_buffer_eq (FixedSink.valid_advance _ count) rfl, List.prefix_append ..⟩
  | span request settings =>
      rcases h.getSpan s request with ⟨e, hRefused⟩ | ⟨s', count, hGranted, hView, _⟩
      · rw [SinkAction.run_refused hRefused]
        exact ⟨.of_buffer_eq hValid rfl, List.prefix_rfl⟩
      · rw [SinkAction.run_granted hGranted, h.store, hView]
        have hWritten := ((hValid.extend count).written_store
          (setBytes settings ((view s).extend count).region)).trans (hValid.written_extend count)
        exact ⟨.fill hValid count settings, hWritten ▸ List.prefix_rfl⟩

end Sink.ShownBy

/-- What holds of the next step of a sink, whatever it is. -/
structure Sink.Orderly {σ : Type} (sink : Sink σ) (view : σ → FixedSink) (s : σ) : Prop where
  /-- A region that is handed out is as long as asked for or longer, and follows the committed
  bytes. These stay, now and whatever is stored in the region. -/
  granted : ∀ {request : Nat} {region : Bytes} {s' : σ}, sink.getSpan s request = (.ok region, s') →
    request ≤ region.length ∧ (view s').written = (view s).written ∧
      (view s').buffer = (view s).written ++ region ∧
      ∀ bytes, (view (sink.store s' bytes)).written = (view s).written ∧
        (view (sink.store s' bytes)).buffer = (view s).written ++ overlay bytes region
  refused : ∀ {request : Nat} {e : SinkError} {s' : σ},
    sink.getSpan s request = (.error e, s') → s' = s
  /-- The first bytes after the committed ones are committed, as many as there are. -/
  commits : ∀ count,
    (view (sink.advance s count)).written = (view s).written ++ (view s).region.take count ∧
      (view (sink.advance s count)).buffer = (view s).buffer

/-- Any sink that is seen as one over a buffer keeps what is committed, grants regions that are long
enough, and refuses without a change. -/
theorem Sink.ShownBy.orderly {σ : Type} {sink : Sink σ} {view : σ → FixedSink} {s : σ}
    (h : sink.ShownBy view) (hValid : (view s).Valid) : sink.Orderly view s where
  granted := by
    intro request region s' hSpan
    rcases h.getSpan s request with ⟨e, hRefused⟩ | ⟨s'', count, hGranted, hView, hRequest⟩
    · rw [hRefused] at hSpan
      cases hSpan
    · rw [hGranted] at hSpan
      cases hSpan
      have hWritten : (view s').written = (view s).written := by
        rw [hView, hValid.written_extend]
      refine ⟨hRequest, hWritten, ?_, fun bytes => ?_⟩
      · rw [← hWritten, ← FixedSink.buffer_eq]
      · have hNext : (view s').Valid := hView ▸ hValid.extend count
        rw [h.store, hNext.written_store, FixedSink.buffer_store, hWritten]
        exact ⟨rfl, rfl⟩
  refused := by
    intro request e s' hSpan
    rcases h.getSpan s request with ⟨e', hRefused⟩ | ⟨s'', count, hGranted, _⟩
    · rw [hRefused] at hSpan
      cases hSpan
      rfl
    · rw [hGranted] at hSpan
      cases hSpan
  commits := fun count => ⟨by rw [h.advance, FixedSink.written_advance], by rw [h.advance]; rfl⟩

end WireRecord
