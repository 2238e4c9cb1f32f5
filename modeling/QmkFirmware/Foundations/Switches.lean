import Mathlib.Data.List.Induction
import Mathlib.Logic.Function.Basic

/-! # Switches

A sequence of changes turns switches on and off.  Replaying it gives the switches that are on at its end; a sequence is
toggling if none of its changes repeats what is already so.
-/

namespace QmkFirmware.Switches

variable {κ : Type} [DecidableEq κ]

def turn (on : κ → Bool) (change : κ × Bool) : κ → Bool := Function.update on change.1 change.2

/-- The switches that are on after the changes; none is at first. -/
def replay (changes : List (κ × Bool)) : κ → Bool := changes.foldl turn fun _ => false

/-- Each change turns on a switch that is off, or off one that is on. -/
def Toggling (changes : List (κ × Bool)) : Prop :=
  ∀ before change after, changes = before ++ change :: after → replay before change.1 = !change.2

variable {changes : List (κ × Bool)} {change : κ × Bool} {key : κ}

@[simp] theorem replay_nil : replay ([] : List (κ × Bool)) key = false := rfl

theorem replay_concat : replay (changes ++ [change]) key = if key = change.1 then change.2 else replay changes key := by
  rw [replay, List.foldl_append]
  exact Function.update_apply _ _ _ _

theorem toggling_nil : Toggling ([] : List (κ × Bool)) := by
  intro before change after split
  exact absurd split (by simp)

theorem toggling_concat : Toggling (changes ++ [change]) ↔ Toggling changes ∧ replay changes change.1 = !change.2 := by
  constructor
  · intro toggling
    refine ⟨?_, toggling changes change [] rfl⟩
    intro before earlier after split
    apply toggling before earlier (after ++ [change])
    rw [split, List.append_assoc, List.cons_append]
  · rintro ⟨toggling, last⟩ before earlier after split
    rcases List.eq_nil_or_concat after with rfl | ⟨rest, final, rfl⟩
    · obtain ⟨rfl, same⟩ := List.append_inj' split rfl
      cases same
      exact last
    · rw [List.concat_eq_append, ← List.cons_append, ← List.append_assoc] at split
      obtain ⟨rfl, -⟩ := List.append_inj' split rfl
      exact toggling before earlier rest rfl

end QmkFirmware.Switches
