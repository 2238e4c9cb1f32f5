import Mathlib

/-! # The debounced key

The machine of one key: a change of the raw bit passes when the counter is at rest, and
starts the counter.
-/

namespace QmkFirmware.Debounce

structure KeyState where
  cooked : Bool
  counter : Nat

/-- A call `elapsed` milliseconds after the last one; `time` is the debounce time. -/
def keyStep (time : Nat) (raw : Bool) (elapsed : Nat) (key : KeyState) : KeyState :=
  if key.counter - elapsed = 0 ∧ raw ≠ key.cooked then ⟨raw, time⟩
  else ⟨key.cooked, key.counter - elapsed⟩

theorem keyStep_settled (time : Nat) (raw : Bool) (elapsed : Nat) (key : KeyState) :
    (keyStep time raw elapsed key).cooked = raw ∨ (keyStep time raw elapsed key).counter ≠ 0 := by
  rw [keyStep]
  split
  · exact .inl rfl
  · next waits =>
    by_cases rest : key.counter - elapsed = 0
    · have same : raw = key.cooked := by simpa [rest] using waits
      exact .inl same.symm
    · exact .inr rest

theorem keyStep_changes {time : Nat} {raw : Bool} {elapsed : Nat} {key : KeyState}
    (changes : (keyStep time raw elapsed key).cooked ≠ key.cooked) :
    key.counter ≤ elapsed ∧ (keyStep time raw elapsed key).counter = time := by
  rw [keyStep] at changes ⊢
  split
  · next passes => exact ⟨by omega, rfl⟩
  · next waits =>
    rw [if_neg waits] at changes
    exact absurd rfl changes

theorem keyStep_idle {time : Nat} {raw : Bool} {elapsed : Nat} {key : KeyState}
    (idle : key.counter = 0) : (keyStep time raw elapsed key).cooked = raw := by
  rw [keyStep, idle]
  by_cases same : raw = key.cooked
  · simp [same]
  · simp [same]

def keyRun (time : Nat) (key : KeyState) (inputs : List (Bool × Nat)) : KeyState :=
  inputs.foldl (fun key input => keyStep time input.1 input.2 key) key

theorem keyRun_nil (time : Nat) (key : KeyState) : keyRun time key [] = key := rfl

theorem keyRun_cons (time : Nat) (key : KeyState) (input : Bool × Nat) (inputs : List (Bool × Nat)) :
    keyRun time key (input :: inputs) = keyRun time (keyStep time input.1 input.2 key) inputs := rfl

/-- The time that passes with the inputs. -/
def duration (inputs : List (Bool × Nat)) : Nat := (inputs.map Prod.snd).sum

/-- Nothing passes before the counter has run down. -/
theorem counter_le_duration {time : Nat} {raw : Bool} {elapsed : Nat} {key : KeyState}
    {inputs : List (Bool × Nat)}
    (changes : (keyStep time raw elapsed (keyRun time key inputs)).cooked ≠
      (keyRun time key inputs).cooked) : key.counter ≤ duration inputs + elapsed := by
  induction inputs generalizing key with
  | nil =>
    have passes := (keyStep_changes changes).1
    exact Nat.le_trans passes (Nat.le_add_left _ _)
  | cons input inputs ih =>
    have rest := ih changes
    simp only [duration, List.map_cons, List.sum_cons] at rest ⊢
    -- either the first input only counts down, or it passes because the counter has run down
    by_cases first : (keyStep time input.1 input.2 key).cooked = key.cooked
    · rw [keyStep] at rest first
      split at rest
      · next passes =>
        rw [if_pos passes] at first
        exact absurd first passes.2
      · dsimp only at rest
        omega
    · have passes := (keyStep_changes first).1
      omega

theorem keyRun_stays {time : Nat} {raw : Bool} {key : KeyState} {inputs : List (Bool × Nat)}
    (cooked : key.cooked = raw) (stable : ∀ input ∈ inputs, input.1 = raw) :
    (keyRun time key inputs).cooked = raw := by
  induction inputs generalizing key with
  | nil => exact cooked
  | cons input inputs ih =>
    rw [List.forall_mem_cons] at stable
    refine ih ?_ stable.2
    simp [keyStep, stable.1, cooked]

/-- A raw bit that is stable until the counter has run down passes. -/
theorem keyRun_passes {time : Nat} {raw : Bool} {key : KeyState} {inputs : List (Bool × Nat)}
    (settled : key.cooked = raw ∨ key.counter ≠ 0) (stable : ∀ input ∈ inputs, input.1 = raw)
    (enough : key.counter ≤ duration inputs) : (keyRun time key inputs).cooked = raw := by
  induction inputs generalizing key with
  | nil =>
    have rest : key.counter = 0 := Nat.le_zero.mp enough
    rw [keyRun_nil]
    simpa [rest] using settled
  | cons input inputs ih =>
    obtain ⟨first, stable⟩ := List.forall_mem_cons.mp stable
    have next := keyStep_settled time input.1 input.2 key
    rw [keyRun_cons]
    -- once the bit has passed it stays; until then the counter goes down
    by_cases cooked : (keyStep time input.1 input.2 key).cooked = raw
    · exact keyRun_stays cooked stable
    · refine ih (first ▸ next) stable ?_
      simp only [duration, List.map_cons, List.sum_cons] at enough ⊢
      rw [keyStep] at cooked ⊢
      split
      · next passes =>
        rw [if_pos passes] at cooked
        exact absurd first cooked
      · dsimp only
        omega

end QmkFirmware.Debounce
