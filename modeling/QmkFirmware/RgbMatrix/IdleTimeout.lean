import QmkFirmware.Foundations.Runs
import QmkFirmware.RgbMatrix.Model

/-! # The idle timeout

The comparison that is to keep the idle time from an overflow is made in the width of the sum, so that it never
holds the sum back.  The idle time starts again from zero, and the backlight comes back without a key.
-/

namespace QmkFirmware.RgbMatrix

open QmkFirmware.Runs

namespace State

/-- The tasks of the matrix, with no key between them. -/
def afterTasks (s : State) (readings : List Reading) : State :=
  readings.foldl (fun s reading => (s.rgbMatrixTask reading).1) s

/-- The effect of a task that comes after others. -/
def effectAfter (s : State) (readings : List Reading) (reading : Reading) : UInt8 :=
  ((s.afterTasks readings).rgbMatrixTask reading).2

/-- There is no light for another reason than the timeout. -/
def Dark (s : State) : Prop := s.suspendState = true ∨ s.enable = false ∨ s.mode = 0

instance (s : State) : Decidable s.Dark := inferInstanceAs (Decidable (_ ∨ _ ∨ _))

/-- The sum of the idle time and the elapsed time starts again, and is within the timeout then. -/
def StartsAgain (s : State) (reading : Reading) : Prop :=
  2 ^ 32 ≤ s.anykeyTimer.toNat + (s.deltaTime reading).toNat ∧
  s.anykeyTimer.toNat + (s.deltaTime reading).toNat ≤ 2 ^ 32 + s.timeout.toNat

instance (s : State) (reading : Reading) : Decidable (s.StartsAgain reading) :=
  inferInstanceAs (Decidable (_ ∧ _))

variable (s : State) (reading : Reading) (readings : List Reading)

/-- No sum of 32 bits is held back. -/
theorem anykeyTimer_rgbTaskTimers : (s.rgbTaskTimers reading).anykeyTimer = s.anykeyTimer + s.deltaTime reading := by
  have always : s.anykeyTimer + s.deltaTime reading ≤ 0xFFFFFFFF := by
    rw [UInt32.le_iff_toNat_le]
    exact Nat.le_of_lt_succ (UInt32.toNat_lt _)
  exact if_pos always

theorem timeouted_task (off : s.timeouted) :
    (s.rgbMatrixTask reading).1.timeouted ↔ ¬s.StartsAgain reading := by
  have sum := anykeyTimer_rgbTaskTimers s reading
  have bound := s.anykeyTimer.toNat_lt
  have elapsed := (s.deltaTime reading).toNat_lt
  rw [timeouted, UInt32.lt_iff_toNat_lt] at off
  have same : (s.rgbMatrixTask reading).1.timeout = s.timeout := rfl
  have timer : (s.rgbMatrixTask reading).1.anykeyTimer = s.anykeyTimer + s.deltaTime reading := sum
  rw [timeouted, same, timer, UInt32.lt_iff_toNat_lt, UInt32.toNat_add, StartsAgain]
  -- without a carry the idle time only grows; with one it has lost 2 ^ 32 milliseconds
  by_cases carry : s.anykeyTimer.toNat + (s.deltaTime reading).toNat < 2 ^ 32
  · rw [Nat.mod_eq_of_lt carry]
    omega
  · rw [Nat.mod_eq_sub_mod (Nat.le_of_not_lt carry), Nat.mod_eq_of_lt (by omega)]
    omega

/-! ## What the tasks leave as it is -/

theorem dark_task : (s.rgbMatrixTask reading).1.Dark ↔ s.Dark := Iff.rfl

theorem dark_afterTasks : (s.afterTasks readings).Dark ↔ s.Dark := by
  exact foldl_invariant (fun state reading same => (dark_task state reading).trans same) (Iff.refl s.Dark) readings

/-- Unless it is dark anyway, there is no light exactly after the timeout. -/
theorem effect_eq_zero_iff : s.effect = 0 ↔ s.Dark ∨ s.timeouted := by
  rw [effect, Dark]
  by_cases asleep : s.suspendState = true
  · simp [asleep]
  · by_cases out : s.timeouted
    · simp [out]
    · by_cases disabled : s.enable = false
      · simp [disabled]
      · simp [asleep, out, disabled]

/-! ## Runs of tasks -/

theorem afterTasks_concat :
    s.afterTasks (readings ++ [reading]) = ((s.afterTasks readings).rgbMatrixTask reading).1 := List.foldl_append

theorem effectAfter_eq_zero_iff :
    s.effectAfter readings reading = 0 ↔ s.Dark ∨ (s.afterTasks (readings ++ [reading])).timeouted := by
  rw [afterTasks_concat, ← dark_afterTasks s readings, ← dark_task _ reading]
  exact effect_eq_zero_iff _

/-- From a state in which the time is over, the backlight stays off in all tasks until the next key, however many
they are, exactly if it is off for another reason or the idle time never starts again within the timeout. -/
theorem staysOff_iff (off : s.timeouted) :
    EveryStep (fun earlier reading => s.effectAfter earlier reading = 0) readings ↔
      s.Dark ∨ EveryStep (fun earlier reading => ¬(s.afterTasks earlier).StartsAgain reading) readings := by
  by_cases dark : s.Dark
  · apply iff_of_true _ (.inl dark)
    intro index bound
    exact (effectAfter_eq_zero_iff s _ _).mpr (.inl dark)
  · let out (earlier : List Reading) := (s.afterTasks earlier).timeouted
    have unlit : ∀ earlier reading, out earlier → (out (earlier ++ [reading]) ↔ s.effectAfter earlier reading = 0) := by
      intro earlier reading _
      rw [effectAfter_eq_zero_iff, or_iff_right dark]
    have counted : ∀ earlier reading, out earlier →
        (out (earlier ++ [reading]) ↔ ¬(s.afterTasks earlier).StartsAgain reading) := by
      intro earlier reading before
      simp only [out, afterTasks_concat]
      exact timeouted_task _ reading before
    rw [or_iff_right dark, ← forall_prefix_iff_everyStep out off unlit, ← forall_prefix_iff_everyStep out off counted]

/-- A backlight that is on, with a timeout of a minute. -/
def idling : State where
  suspendState := false
  enable := true
  mode := 1
  anykeyTimer := 0
  timeout := 60000
  timerBuffer := 0
  lastHitBuffer := ⟨0, fun _ => 0, fun _ => 0, fun _ => 0, fun _ => 0⟩

/-- The clock after a number of milliseconds. -/
def clock (time : UInt32) : Reading := ⟨time, time⟩

theorem minutes_staysOff :
    (idling.afterTasks [clock 70000]).timeouted ∧
    EveryStep (fun earlier reading => (idling.afterTasks [clock 70000]).effectAfter earlier reading = 0)
      [clock 140000, clock 4000000000] := by
  have off : (idling.afterTasks [clock 70000]).timeouted := by decide +kernel
  exact ⟨off, (staysOff_iff _ [clock 140000, clock 4000000000] off).mpr (.inr (by decide +kernel))⟩

/-- After 2 ^ 32 milliseconds with no key the backlight is on again. -/
theorem overflow_lights :
    (idling.rgbMatrixTask (clock 0x80000000)).1.timeouted ∧
    (idling.rgbMatrixTask (clock 0x80000000)).2 = 0 ∧
    idling.effectAfter [clock 0x80000000] (clock 0) = 1 ∧
    ¬EveryStep (fun earlier reading => (idling.afterTasks [clock 0x80000000]).effectAfter earlier reading = 0) [clock 0] := by
  decide +kernel

end State

end QmkFirmware.RgbMatrix
