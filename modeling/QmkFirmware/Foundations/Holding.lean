import Mathlib.Data.List.Basic

/-! # Keys that are held

A history of timed events, some of which press or release a key.  A key is held since a time when it was
pressed by then and was not released afterwards. -/

namespace QmkFirmware.Holding

/-- The time of an event, and the key that it presses (`true`) or releases. -/
class Timed (Event : Type) (Key : outParam Type) where
  time : Event → Nat
  change : Event → Option (Key × Bool)

open Timed

variable {Event Key : Type} [Timed Event Key] {history : List Event} {event : Event} {key : Key} {since : Nat}

def HeldSince (history : List Event) (key : Key) (since : Nat) : Prop :=
  ∃ before press after, history = before ++ press :: after ∧ change press = some (key, true) ∧ time press ≤ since ∧
    ∀ later ∈ after, change later ≠ some (key, false)

theorem HeldSince.press (pressed : change event = some (key, true)) :
    HeldSince (history ++ [event]) key (time event) :=
  ⟨history, event, [], rfl, pressed, Nat.le_refl _, List.forall_mem_nil _⟩

theorem HeldSince.keep (held : HeldSince history key since) (kept : change event ≠ some (key, false)) :
    HeldSince (history ++ [event]) key since := by
  obtain ⟨before, press, after, split, pressed, early, unreleased⟩ := held
  refine ⟨before, press, after ++ [event], ?_, pressed, early, ?_⟩
  · rw [split, List.append_assoc, List.cons_append]
  · intro later member
    rcases List.mem_append.mp member with member | last
    · exact unreleased later member
    · rw [List.mem_singleton.mp last]
      exact kept

/-- A key that is held has been held since any time after the history. -/
theorem HeldSince.until (held : HeldSince history key since) {now : Nat} (past : ∀ event ∈ history, time event ≤ now) :
    HeldSince history key now := by
  obtain ⟨before, press, after, split, pressed, -, unreleased⟩ := held
  refine ⟨before, press, after, split, pressed, past press ?_, unreleased⟩
  rw [split]
  exact List.mem_append_right _ List.mem_cons_self

end QmkFirmware.Holding
