import WireRecord.Proofs.Sink.History

/-!
Which states sinks come to. Growable sinks, which can be cleared and cloned, and fixed ones keep
what is committed through every history of requests, settings and commitments, whether the memory
that they ask for is granted or not. A growable sink stays within its limit, and its bytes are zero
until they are set. A clone and its original share no later history.
-/

namespace WireRecord

/-- What is done with a growable sink. The allocator answers if it is asked for memory. -/
inductive GrowableAction where
  | act (allocator : Allocator) (a : SinkAction)
  | clear

namespace GrowableSink

/-- The buffer and how much of it is committed, without the limit. -/
def fixed (s : GrowableSink) : FixedSink := ⟨s.buffer, s.committed⟩

/-- The sink with zeros after its buffer. -/
def extended (s : GrowableSink) (count : Nat) : GrowableSink :=
  { s with buffer := s.buffer ++ List.replicate count 0 }

variable {s : GrowableSink} {request : Nat} {allocator : Allocator}

/-- The buffer grows to the length asked for, or stays if it is long enough, or the allocator
refuses. -/
theorem grow_cases (s : GrowableSink) (length : Nat) (allocator : Allocator) :
    (∃ e, s.grow length allocator = .error e) ∨
      ∃ count, s.grow length allocator = .ok (s.extended count) ∧
        length ≤ (s.extended count).buffer.length ∧
        (count = 0 ∨ (s.extended count).buffer.length = length) := by
  rw [grow]
  split
  · next hLong =>
    have hSame : s.extended 0 = s := by simp [extended]
    exact .inr ⟨0, by rw [hSame], by rwa [hSame], .inl rfl⟩
  · next hShort =>
    have hLength : (s.extended (length - s.buffer.length)).buffer.length = length := by
      simp only [extended, List.length_append, List.length_replicate]
      omega
    split
    · exact .inl ⟨_, rfl⟩
    · exact .inr ⟨length - s.buffer.length, rfl, Nat.le_of_eq hLength.symm, .inr hLength⟩

/-- Room is made by growing, to a length that the limit allows. -/
theorem reserve_cases (s : GrowableSink) (request : Nat) (allocator : Allocator) :
    (∃ e, s.reserve request allocator = .error e) ∨
      s.reserve request allocator = s.grow (s.committed + request) allocator ∧
        ∀ bound ∈ s.limit, s.committed + request ≤ bound := by
  simp only [reserve]
  split
  · exact .inl ⟨_, rfl⟩
  · cases hLimit : s.limit with
    | none => exact .inr ⟨rfl, by simp⟩
    | some limit =>
        by_cases hExceeds : limit < s.committed + request
        · exact .inl ⟨_, if_pos hExceeds⟩
        · refine .inr ⟨if_neg hExceeds, ?_⟩
          intro bound hBound
          cases hBound
          exact Nat.not_lt.mp hExceeds

theorem sink_getSpan (s : GrowableSink) (request : Nat) (allocator : Allocator) :
    (sink allocator).getSpan s request = s.getSpan request allocator := rfl

/-- A request is refused and nothing changes, or it is granted and the buffer grows within the
limit. -/
theorem getSpan_cases (s : GrowableSink) (request : Nat) (allocator : Allocator) :
    (∃ e, (sink allocator).getSpan s request = (.error e, s)) ∨
      ∃ count, (sink allocator).getSpan s request =
          (.ok (s.extended count).region, s.extended count) ∧
        request ≤ (s.extended count).region.length ∧
        ∀ bound ∈ s.limit, s.buffer.length ≤ bound → (s.extended count).buffer.length ≤ bound := by
  rw [sink_getSpan, getSpan]
  rcases s.reserve_cases request allocator with ⟨e, hError⟩ | ⟨hReserve, hAllowed⟩
  · exact .inl ⟨e, by rw [hError]⟩
  · rcases s.grow_cases (s.committed + request) allocator with
      ⟨e, hError⟩ | ⟨count, hGrow, hLong, hCount⟩
    · exact .inl ⟨e, by rw [hReserve, hError]⟩
    · refine .inr ⟨count, by rw [hReserve, hGrow], ?_, fun bound hBound hWithin => ?_⟩
      · rw [region, List.length_drop]
        change request ≤ (s.extended count).buffer.length - s.committed
        omega
      · rcases hCount with rfl | hLength
        · simpa [extended] using hWithin
        · exact hLength ▸ hAllowed bound hBound

/-- A growable sink is a sink over the buffer that it has at the moment. -/
theorem shownBy (allocator : Allocator) : (sink allocator).ShownBy fixed where
  getSpan := by
    intro s request
    rcases s.getSpan_cases request allocator with hRefused | ⟨count, hGranted, hRequest, _⟩
    · exact .inl hRefused
    · exact .inr ⟨s.extended count, count, hGranted, rfl, hRequest⟩
  store := fun _ _ => rfl
  advance := fun _ _ => rfl

/-- No action changes the limit or leads past it. -/
theorem within_run (s : GrowableSink) (allocator : Allocator) (a : SinkAction) :
    (a.run (sink allocator) fixed s).1.limit = s.limit ∧
      ∀ bound ∈ s.limit, s.buffer.length ≤ bound →
        (a.run (sink allocator) fixed s).1.buffer.length ≤ bound := by
  cases a with
  | advance count => exact ⟨rfl, fun _ _ hWithin => hWithin⟩
  | span request settings =>
      rcases s.getSpan_cases request allocator with ⟨e, hRefused⟩ | ⟨count, hGranted, _, hWithin⟩
      · rw [SinkAction.run_refused hRefused]
        exact ⟨rfl, fun _ _ hWithin => hWithin⟩
      · rw [SinkAction.run_granted hGranted]
        refine ⟨rfl, fun bound hBound hLength => ?_⟩
        have hStored := (s.extended count).fixed.length_store
          (setBytes settings (s.extended count).region)
        exact Nat.le_trans (Nat.le_of_eq hStored) (hWithin bound hBound hLength)

end GrowableSink

/-- Runs an action: the sink afterwards, and the bytes that were set in its buffer. -/
def GrowableAction.run : GrowableAction → GrowableSink → GrowableSink × List Setting
  | act allocator a, s => a.run (GrowableSink.sink allocator) GrowableSink.fixed s
  | clear, s => (s.clear, [])

namespace GrowableSink

/-- The sink with a limit that a history leads to. -/
def after (limit : Option Nat) (history : List GrowableAction) : GrowableSink :=
  (runHistory GrowableAction.run history (empty limit)).1

/-- The bytes that a history sets in the buffer, in order, with their places. -/
def settings (limit : Option Nat) (history : List GrowableAction) : List Setting :=
  (runHistory GrowableAction.run history (empty limit)).2

/-- What holds of a sink with a limit, if any, after bytes were set in it. -/
structure Sound (limit : Option Nat) (settings : List Setting) (s : GrowableSink) : Prop where
  valid : s.fixed.Valid
  recalls : Recalls [] settings s.buffer
  limit_eq : s.limit = limit
  length_le : ∀ bound ∈ limit, s.buffer.length ≤ bound

variable {limit : Option Nat}

theorem sound_empty (limit : Option Nat) : Sound limit [] (empty limit) where
  valid := Nat.le_refl _
  recalls := .start []
  limit_eq := rfl
  length_le := fun bound _ => Nat.zero_le bound

/-- The step lemma: every action, a clearing included, keeps the sink within its limit and the
record of what has been set right. -/
theorem Sound.run {settings : List Setting} {s : GrowableSink} (h : Sound limit settings s)
    (a : GrowableAction) : Sound limit (settings ++ (a.run s).2) (a.run s).1 := by
  have hKeeps : s.fixed.Keeps (a.run s).2 (a.run s).1.fixed := by
    cases a with
    | clear => exact .of_buffer_eq (Nat.zero_le _) rfl
    | act allocator a => exact ((shownBy allocator).run a h.valid).1
  have hWithin : (a.run s).1.limit = s.limit ∧
      ∀ bound ∈ s.limit, s.buffer.length ≤ bound → (a.run s).1.buffer.length ≤ bound := by
    cases a with
    | clear => exact ⟨rfl, fun _ _ hWithin => hWithin⟩
    | act allocator a => exact s.within_run allocator a
  obtain ⟨hValid, hRecalls, rfl, hLength⟩ := h
  exact ⟨hKeeps.valid, hKeeps.recalls hRecalls, hWithin.1,
    fun bound hBound => hWithin.2 bound hBound (hLength bound hBound)⟩

theorem sound_after (limit : Option Nat) (history : List GrowableAction) :
    Sound limit (settings limit history) (after limit history) :=
  runHistory_keeps Sound.run (sound_empty limit) history

theorem after_append (limit : Option Nat) (history further : List GrowableAction) :
    after limit (history ++ further) =
      (runHistory GrowableAction.run further (after limit history)).1 :=
  runHistory_append ..

/-- Only taking back commitments shortens what is committed. -/
theorem written_prefix {history further : List GrowableAction} (hClear : .clear ∉ further) :
    (after limit history).written <+: (after limit (history ++ further)).written := by
  rw [after_append]
  refine written_runHistory fixed (fun a hMember s hValid => ?_) (sound_after limit history).valid
  cases a with
  | clear => exact absurd hMember hClear
  | act allocator a => exact (shownBy allocator).run a hValid

end GrowableSink

namespace FixedSink

/-- A sink over a buffer hands out all that is left, or refuses. -/
theorem getSpan_cases (s : FixedSink) (request : Nat) :
    (∃ e, s.getSpan request = (.error e, s)) ∨
      s.getSpan request = (.ok s.region, s) ∧ request ≤ s.region.length := by
  rw [getSpan, region, List.length_drop]
  by_cases hShort : s.buffer.length - s.committed < request
  · exact .inl ⟨_, if_pos hShort⟩
  · exact .inr ⟨if_neg hShort, Nat.not_lt.mp hShort⟩

theorem shownBy : sink.ShownBy id where
  getSpan := by
    intro s request
    have hSame : s.extend 0 = s := by simp [extend]
    rcases s.getSpan_cases request with hRefused | ⟨hGranted, hRequest⟩
    · exact .inl hRefused
    · exact .inr ⟨s, 0, hGranted, hSame.symm, hRequest⟩
  store := fun _ _ => rfl
  advance := fun _ _ => rfl

theorem length_run (s : FixedSink) (a : SinkAction) :
    (a.run sink id s).1.buffer.length = s.buffer.length := by
  cases a with
  | advance count => rfl
  | span request settings =>
      rcases s.getSpan_cases request with ⟨e, hRefused⟩ | ⟨hGranted, _⟩
      · rw [SinkAction.run_refused hRefused]
      · rw [SinkAction.run_granted hGranted]
        exact s.length_store _

/-- The sink over a buffer that a history leads to. -/
def after (buffer : Bytes) (history : List SinkAction) : FixedSink :=
  (runHistory (SinkAction.run sink id) history (ofBuffer buffer)).1

/-- The bytes that a history sets in the buffer, in order, with their places. -/
def settings (buffer : Bytes) (history : List SinkAction) : List Setting :=
  (runHistory (SinkAction.run sink id) history (ofBuffer buffer)).2

/-- What holds of a sink over a buffer after bytes were set in it. -/
structure Sound (buffer : Bytes) (settings : List Setting) (s : FixedSink) : Prop where
  valid : s.Valid
  recalls : Recalls buffer settings s.buffer
  length_eq : s.buffer.length = buffer.length

variable {buffer : Bytes}

theorem sound_ofBuffer (buffer : Bytes) : Sound buffer [] (ofBuffer buffer) where
  valid := Nat.zero_le _
  recalls := .start buffer
  length_eq := rfl

theorem Sound.run {settings : List Setting} {s : FixedSink} (h : Sound buffer settings s)
    (a : SinkAction) :
    Sound buffer (settings ++ (a.run sink id s).2) (a.run sink id s).1 where
  valid := (shownBy.run a h.valid).1.valid
  recalls := (shownBy.run a h.valid).1.recalls h.recalls
  length_eq := (s.length_run a).trans h.length_eq

theorem sound_after (buffer : Bytes) (history : List SinkAction) :
    Sound buffer (settings buffer history) (after buffer history) :=
  runHistory_keeps Sound.run (sound_ofBuffer buffer) history

/-- What is committed once stays at the front of what is committed later. -/
theorem written_prefix (buffer : Bytes) (history further : List SinkAction) :
    (after buffer history).written <+: (after buffer (history ++ further)).written := by
  have hAfter : after buffer (history ++ further) =
      (runHistory (SinkAction.run sink id) further (after buffer history)).1 :=
    runHistory_append ..
  rw [hAfter]
  exact written_runHistory id (fun a _ _ hValid => shownBy.run a hValid)
    (sound_after buffer history).valid

end FixedSink

/-- The sink after an action. -/
def GrowableSink.act (s : GrowableSink) (a : GrowableAction) : GrowableSink := (a.run s).1

/-- The history after one more action. -/
def continued (history : List GrowableAction) (a : GrowableAction) : List GrowableAction :=
  history ++ [a]

/-- An action goes on from the history that has led to the sink. -/
theorem GrowableSink.act_after (limit : Option Nat) (history : List GrowableAction)
    (a : GrowableAction) : (after limit history).act a = after limit (continued history a) := by
  rw [continued, after_append]
  rfl

/-- What is done with a growable sink and its clones: one of them is used, or a clone of one joins
them. -/
inductive FamilyAction where
  | use (place : Nat) (a : GrowableAction)
  | clone (place : Nat)

namespace FamilyAction

/-- Runs a step on what is kept for every member, where `act` is what an action makes of it. -/
def run {α : Type} (act : α → GrowableAction → α) : FamilyAction → List α → List α
  | use place a, members => members.modify place fun m => act m a
  | clone place, members => members ++ members[place]?.toList

def runAll {α : Type} (act : α → GrowableAction → α) (steps : List FamilyAction)
    (members : List α) : List α :=
  steps.foldl (fun members step => step.run act members) members

/-- What is done with the member at a place, if anything. -/
def on? (place : Nat) : FamilyAction → Option GrowableAction
  | use place' a => if place' = place then some a else none
  | clone _ => none

section

variable {α β : Type} {act : α → GrowableAction → α} {act' : β → GrowableAction → β} {f : α → β}

/-- A step of a family does not ask what its members are. -/
theorem map_run (hAct : ∀ m a, act' (f m) a = f (act m a)) (step : FamilyAction)
    (members : List α) : step.run act' (members.map f) = (step.run act members).map f := by
  cases step with
  | use place a =>
      refine List.ext_getElem? fun k => ?_
      simp only [run, List.getElem?_modify, List.getElem?_map]
      cases members[k]? with
      | none => rfl
      | some m => by_cases hPlace : place = k <;> simp [hPlace, hAct]
  | clone place =>
      simp only [run, List.map_append, List.getElem?_map]
      cases members[place]? <;> rfl

theorem map_runAll (hAct : ∀ m a, act' (f m) a = f (act m a)) (steps : List FamilyAction)
    (members : List α) : runAll act' steps (members.map f) = (runAll act steps members).map f := by
  induction steps generalizing members with
  | nil => rfl
  | cons step later ih =>
      change runAll act' later (step.run act' (members.map f)) = _
      rw [map_run hAct, ih]
      rfl

end

/-- The sinks of a family that starts with an empty sink. -/
def sinks (limit : Option Nat) (steps : List FamilyAction) : List GrowableSink :=
  runAll GrowableSink.act steps [GrowableSink.empty limit]

/-- What was done with each member of a family, and with its original before it was cloned. -/
def histories (steps : List FamilyAction) : List (List GrowableAction) :=
  runAll continued steps [[]]

theorem sinks_eq (limit : Option Nat) (steps : List FamilyAction) :
    sinks limit steps = (histories steps).map (GrowableSink.after limit) :=
  map_runAll (GrowableSink.act_after limit) steps [[]]

variable {place : Nat} {history : List GrowableAction}

/-- A member of a family has the history of the steps that have been for it. -/
theorem getElem?_run {members : List (List GrowableAction)} (step : FamilyAction)
    (hMember : members[place]? = some history) :
    (step.run continued members)[place]? = some (history ++ (step.on? place).toList) := by
  cases step with
  | use place' a =>
      rw [run, List.getElem?_modify, hMember, on?]
      by_cases hPlace : place' = place <;> simp [hPlace, continued]
  | clone place' =>
      obtain ⟨hInside, _⟩ := List.getElem?_eq_some_iff.mp hMember
      rw [run, List.getElem?_append_left hInside, hMember]
      simp [on?]

/-- What is done with other members is no part of a member's history. -/
theorem getElem?_runAll {members : List (List GrowableAction)} (later : List FamilyAction)
    (hMember : members[place]? = some history) :
    (runAll continued later members)[place]? =
      some (history ++ later.filterMap (on? place)) := by
  induction later generalizing members history with
  | nil => simpa [runAll] using hMember
  | cons step later ih =>
      change (runAll continued later (step.run continued members))[place]? = _
      rw [ih (getElem?_run step hMember), List.append_assoc, List.filterMap_cons]
      cases step.on? place <;> rfl

/-- A clone starts with the history of its original. From then on each goes its own way. -/
theorem histories_clone {steps : List FamilyAction} (later : List FamilyAction)
    (hMember : (histories steps)[place]? = some history) :
    (histories (steps ++ clone place :: later))[place]? =
        some (history ++ later.filterMap (on? place)) ∧
      (histories (steps ++ clone place :: later))[(histories steps).length]? =
        some (history ++ later.filterMap (on? (histories steps).length)) := by
  have hCloned : (clone place).run continued (histories steps) = histories steps ++ [history] := by
    rw [run, hMember]
    rfl
  have hSplit : histories (steps ++ clone place :: later) =
      runAll continued later (histories steps ++ [history]) := by
    rw [← hCloned]
    exact List.foldl_append ..
  obtain ⟨hInside, _⟩ := List.getElem?_eq_some_iff.mp hMember
  rw [hSplit]
  refine ⟨getElem?_runAll later ?_, getElem?_runAll later ?_⟩
  · rw [List.getElem?_append_left hInside, hMember]
  · rw [List.getElem?_append_right (Nat.le_refl _), Nat.sub_self]
    rfl

end FamilyAction

/-- Whatever is done with a sink, it is sound and in order, and only taking back commitments
shortens what is committed. A sink that was cloned and its clone are each where their own histories
lead to, which are the same up to the cloning and share nothing from then on. -/
theorem sinks_keep_commitments :
    (∀ (limit : Option Nat) (history : List GrowableAction),
      GrowableSink.Sound limit (GrowableSink.settings limit history)
          (GrowableSink.after limit history) ∧
        (∀ allocator, (GrowableSink.sink allocator).Orderly GrowableSink.fixed
          (GrowableSink.after limit history)) ∧
        ∀ further : List GrowableAction, .clear ∉ further →
          (GrowableSink.after limit history).written <+:
            (GrowableSink.after limit (history ++ further)).written) ∧
      (∀ (buffer : Bytes) (history : List SinkAction),
        FixedSink.Sound buffer (FixedSink.settings buffer history)
            (FixedSink.after buffer history) ∧
          FixedSink.sink.Orderly id (FixedSink.after buffer history) ∧
          ∀ further : List SinkAction, (FixedSink.after buffer history).written <+:
            (FixedSink.after buffer (history ++ further)).written) ∧
      (∀ (limit : Option Nat) (steps : List FamilyAction),
        FamilyAction.sinks limit steps =
          (FamilyAction.histories steps).map (GrowableSink.after limit)) ∧
      ∀ (steps later : List FamilyAction) (place : Nat) (history : List GrowableAction),
        (FamilyAction.histories steps)[place]? = some history →
          (FamilyAction.histories (steps ++ .clone place :: later))[place]? =
              some (history ++ later.filterMap (FamilyAction.on? place)) ∧
            (FamilyAction.histories (steps ++ .clone place :: later))[
                (FamilyAction.histories steps).length]? =
              some (history ++ later.filterMap
                (FamilyAction.on? (FamilyAction.histories steps).length)) := by
  refine ⟨fun limit history => ?_, fun buffer history => ?_, FamilyAction.sinks_eq,
    fun steps later place history hMember => FamilyAction.histories_clone later hMember⟩
  · have hSound := GrowableSink.sound_after limit history
    exact ⟨hSound, fun allocator => (GrowableSink.shownBy allocator).orderly hSound.valid,
      fun further hClear => GrowableSink.written_prefix hClear⟩
  · have hSound := FixedSink.sound_after buffer history
    exact ⟨hSound, FixedSink.shownBy.orderly hSound.valid,
      FixedSink.written_prefix buffer history⟩

namespace Sample

/-- A sink of four bytes is filled, cleared and filled again with less. -/
def refill : List GrowableAction :=
  [.act .bounded (.span 4 [(0, 0xaa), (1, 0xbb)]), .act .bounded (.advance 4), .clear,
    .act .bounded (.span 1 [(0, 0xcc)]), .act .bounded (.advance 3)]

/-- The sink that is refilled is cloned before it is cleared, and the clone is not used. -/
def refillCloned : List FamilyAction :=
  (refill.take 2).map (.use 0) ++ .clone 0 :: (refill.drop 2).map (.use 0)

end Sample

open Sample in
/-- A sink that is cleared and filled again, and a clone of it that stays as it was. -/
theorem sinks_keep_commitments_refill :
    (GrowableSink.after (some 4) refill).written = [0xcc, 0xbb, 0] ∧
      (GrowableSink.after (some 4) refill).buffer.length ≤ 4 ∧
      (GrowableSink.after (some 4) (refill.take 4)).written <+:
        (GrowableSink.after (some 4) refill).written ∧
      (FamilyAction.sinks (some 4) refillCloned)[0]? = some (GrowableSink.after (some 4) refill) ∧
      (FamilyAction.sinks (some 4) refillCloned)[1]? =
        some (GrowableSink.after (some 4) (refill.take 2)) := by
  obtain ⟨hGrowable, -, hSinks, hClones⟩ := sinks_keep_commitments
  obtain ⟨hSound, -, -⟩ := hGrowable (some 4) refill
  obtain ⟨-, -, hPrefix⟩ := hGrowable (some 4) (refill.take 4)
  obtain ⟨hOriginal, hClone⟩ := hClones ((refill.take 2).map (.use 0))
    ((refill.drop 2).map (.use 0)) 0 (refill.take 2) rfl
  refine ⟨by decide, hSound.length_le 4 rfl, hPrefix (refill.drop 4) (by simp [refill]), ?_, ?_⟩
  · rw [hSinks, List.getElem?_map]
    exact congrArg _ hOriginal
  · rw [hSinks, List.getElem?_map]
    exact congrArg _ hClone

end WireRecord
