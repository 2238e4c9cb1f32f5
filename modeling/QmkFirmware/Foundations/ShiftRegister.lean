import Mathlib.Data.Nat.Basic

/-! # Shift registers with an output latch

A chain of registers like the 74HC595: a rising edge of the shift clock moves every bit one stage on and takes
the data line into stage 0, a rising edge of the latch clock copies all stages to the outputs.  The chain has no
end in the model; what is wired to its first outputs does not depend on it. -/

namespace QmkFirmware.ShiftRegister

structure Chain where
  data : Bool
  shiftClock : Bool
  latchClock : Bool
  stages : Nat → Bool
  outputs : Nat → Bool

/-- The stages after a bit has come in. -/
def pushed (bit : Bool) (stages : Nat → Bool) : Nat → Bool :=
  fun k => if k = 0 then bit else stages (k - 1)

namespace Chain

def writeData (c : Chain) (level : Bool) : Chain := { c with data := level }

def writeShiftClock (c : Chain) (level : Bool) : Chain :=
  { c with
    shiftClock := level
    stages := if level && !c.shiftClock then pushed c.data c.stages else c.stages }

def writeLatchClock (c : Chain) (level : Bool) : Chain :=
  { c with
    latchClock := level
    outputs := if level && !c.latchClock then c.stages else c.outputs }

/-- One bit goes in. -/
def shiftIn (bit : Bool) (c : Chain) : Chain :=
  ((c.writeData bit).writeShiftClock true).writeShiftClock false

def pulseLatch (c : Chain) : Chain := (c.writeLatchClock true).writeLatchClock false

/-- Both clocks are low, and the first `n` stages and outputs are those of a pattern. -/
structure Shows (n : Nat) (pattern : Nat → Bool) (c : Chain) : Prop where
  shiftClock : c.shiftClock = false
  latchClock : c.latchClock = false
  stages : ∀ k < n, c.stages k = pattern k
  outputs : ∀ k < n, c.outputs k = pattern k

variable {n : Nat} {pattern : Nat → Bool} {c : Chain}

theorem Shows.congr (shows : c.Shows n pattern) {m : Nat} {other : Nat → Bool} (fewer : m ≤ n)
    (same : ∀ k < m, pattern k = other k) : c.Shows m other where
  shiftClock := shows.shiftClock
  latchClock := shows.latchClock
  stages k below := (shows.stages k (Nat.lt_of_lt_of_le below fewer)).trans (same k below)
  outputs k below := (shows.outputs k (Nat.lt_of_lt_of_le below fewer)).trans (same k below)

theorem shows_zero (bit : Bool) (pattern : Nat → Bool) (c : Chain) :
    (pulseLatch (shiftIn bit c)).Shows 0 pattern where
  shiftClock := rfl
  latchClock := rfl
  stages k below := absurd below (Nat.not_lt_zero k)
  outputs k below := absurd below (Nat.not_lt_zero k)

theorem shiftIn_stages (low : c.shiftClock = false) (bit : Bool) : (shiftIn bit c).stages = pushed bit c.stages := by
  simp [shiftIn, writeShiftClock, writeData, low]

theorem pulseLatch_outputs (low : c.latchClock = false) : (pulseLatch c).outputs = c.stages := by
  simp [pulseLatch, writeLatchClock, low]

/-- A bit that is shifted in and latched pushes the pattern on. -/
theorem Shows.push (shows : c.Shows n pattern) (bit : Bool) :
    (pulseLatch (shiftIn bit c)).Shows (n + 1) (pushed bit pattern) := by
  have moved : ∀ k < n + 1, (shiftIn bit c).stages k = pushed bit pattern k := by
    intro k below
    rw [shiftIn_stages shows.shiftClock, pushed, pushed]
    by_cases first : k = 0
    · rw [if_pos first, if_pos first]
    · rw [if_neg first, if_neg first]
      exact shows.stages (k - 1) (by omega)
  refine ⟨rfl, rfl, moved, ?_⟩
  intro k below
  rw [pulseLatch_outputs (c := shiftIn bit c) shows.latchClock]
  exact moved k below

end Chain

/-! ## A walking zero -/

def allOnes : Nat → Bool := fun _ => true

/-- Only stage `z` is zero. -/
def zeroAt (z : Nat) : Nat → Bool := fun k => decide (k ≠ z)

@[simp] theorem pushed_allOnes : pushed true allOnes = allOnes := by
  funext k
  simp [pushed, allOnes]

@[simp] theorem pushed_false_allOnes : pushed false allOnes = zeroAt 0 := by
  funext k
  by_cases first : k = 0 <;> simp [pushed, allOnes, zeroAt, first]

@[simp] theorem pushed_zeroAt (z : Nat) : pushed true (zeroAt z) = zeroAt (z + 1) := by
  funext k
  by_cases first : k = 0
  · simp [pushed, zeroAt, first]
  · have step : k - 1 = z ↔ k = z + 1 := by omega
    simp [pushed, zeroAt, first, step]

theorem zeroAt_of_lt {k z : Nat} (below : k < z) : zeroAt z k = true := by
  simp [zeroAt]
  omega

end QmkFirmware.ShiftRegister
