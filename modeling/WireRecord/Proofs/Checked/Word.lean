import Mathlib.Data.List.Induction
import WireRecord.Sink

/-!
Programs of which every step on machine words and lists is checked. Such a program comes to a
result or stops at the first step that has none, and that a loop takes too many rounds is a fault as
well. So a program that equals `pure` of some result meets no fault on its way to it, and it ends.
-/

namespace WireRecord

/-- Why a step has no result. -/
inductive Fault where
  /-- An index or a range does not lie within its list. -/
  | outside
  /-- A difference is below zero. -/
  | negative
  /-- A sum is more than a word can hold. -/
  | tooLarge
  /-- The two ends of a copy differ in length. -/
  | mismatch
  /-- A loop takes more rounds than it may. -/
  | endless
  deriving DecidableEq, Repr

/-- A result, or the fault that was met on the way to it. -/
abbrev Checked (α : Type) := Except Fault α

namespace Checked

variable {α σ ρ : Type} {a b start stop : Nat} {l : List α}

def add (a b : Nat) : Checked Nat :=
  if a + b < addressSpace then pure (a + b) else throw .tooLarge

def sub (a b : Nat) : Checked Nat :=
  if b ≤ a then pure (a - b) else throw .negative

/-- The elements with the index `start` and after it. -/
def drop (l : List α) (start : Nat) : Checked (List α) :=
  if start ≤ l.length then pure (l.drop start) else throw .outside

/-- The elements before the index `stop`. -/
def take (l : List α) (stop : Nat) : Checked (List α) :=
  if stop ≤ l.length then pure (l.take stop) else throw .outside

/-- The elements with the index `start` and after it, and before the index `stop`. -/
def window (l : List α) (start stop : Nat) : Checked (List α) :=
  if start ≤ stop ∧ stop ≤ l.length then pure ((l.drop start).take (stop - start))
  else throw .outside

/-- What stands in `target` after `source` was copied over it. -/
def copy (target source : List α) : Checked (List α) :=
  if target.length = source.length then pure source else throw .mismatch

theorem add_eq (h : a + b < addressSpace) : add a b = pure (a + b) := if_pos h

theorem sub_eq (h : b ≤ a) : sub a b = pure (a - b) := if_pos h

theorem drop_eq (h : start ≤ l.length) : drop l start = pure (l.drop start) := if_pos h

theorem take_eq (h : stop ≤ l.length) : take l stop = pure (l.take stop) := if_pos h

/-- A range taken by its ends is a window of so many elements. -/
theorem window_eq {count : Nat} (h : start + count ≤ l.length) :
    window l start (start + count) = pure ((l.drop start).take count) := by
  rw [window, if_pos ⟨Nat.le_add_right .., h⟩, Nat.add_sub_cancel_left]

theorem copy_eq {target source : List α} (h : target.length = source.length) :
    copy target source = pure source := if_pos h

/-- The sum, if a word can hold it. -/
def add? (a b : Nat) : Option Nat := if a + b < addressSpace then some (a + b) else none

/-- The sum, or the largest word if the sum is larger. -/
def saturate (a b : Nat) : Nat := min (a + b) (addressSpace - 1)

/-- Saturating is not seen below a bound that is a word. -/
theorem min_saturate {bound : Nat} (h : bound < addressSpace) :
    min (saturate a b) bound = min (a + b) bound := by
  rw [saturate]
  omega

/-- Numbers are added up without a fault if a word holds the sum of all. -/
theorem foldlM_add_eq {numbers : List Nat} (h : a + numbers.foldr (· + ·) 0 < addressSpace) :
    numbers.foldlM add a = pure (a + numbers.foldr (· + ·) 0) := by
  induction numbers generalizing a with
  | nil => rfl
  | cons n later ih =>
      rw [List.foldr_cons, ← Nat.add_assoc] at h ⊢
      rw [List.foldlM_cons, add_eq (by omega), pure_bind, ih h]

/-- Runs a loop, of which a round comes to the next state or to the result, for at most so many
rounds. -/
def loop (round : σ → Checked (σ ⊕ ρ)) : Nat → σ → Checked ρ
  | 0, _ => throw .endless
  | rounds + 1, s => do
    match ← round s with
    | .inl s' => loop round rounds s'
    | .inr result => return result

/-- A round that goes on is paid for with one of the rounds left. -/
theorem loop_more {round : σ → Checked (σ ⊕ ρ)} {s s' : σ} (hRound : round s = pure (.inl s'))
    (rounds : Nat) : loop round (rounds + 1) s = loop round rounds s' := by
  rw [loop, hRound, pure_bind]

/-- A round that ends gives the result, however many rounds are left. -/
theorem loop_done {round : σ → Checked (σ ⊕ ρ)} {s : σ} {result : ρ}
    (hRound : round s = pure (.inr result)) {rounds : Nat} (hRounds : 0 < rounds) :
    loop round rounds s = pure result := by
  obtain ⟨later, rfl⟩ := Nat.exists_eq_add_one.mpr hRounds
  rw [loop, hRound, pure_bind]

/-- A script runs without a fault if at the end of every script one more step does. -/
theorem foldlM_eq {step : σ → α → Checked σ} {next : σ → α → σ} {s : σ}
    (hStep : ∀ (script : List α) (a : α),
      step (script.foldl next s) a = pure (next (script.foldl next s) a)) (script : List α) :
    script.foldlM step s = pure (script.foldl next s) := by
  induction script using List.reverseRecOn with
  | nil => rfl
  | append_singleton script a ih =>
      simp only [List.foldlM_append, List.foldlM_cons, List.foldlM_nil, List.foldl_append,
        List.foldl_cons, List.foldl_nil, ih, pure_bind, hStep]

end Checked

end WireRecord
