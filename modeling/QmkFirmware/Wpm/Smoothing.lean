import QmkFirmware.Foundations.Runs
import QmkFirmware.Wpm.Model

/-! # Smoothing

The reported speed is on its way from the previous speed to the next one.  The smoothing begins again with a latency
that is already above the limit, so that the report goes past the next speed unless the speeds are close.
-/

namespace QmkFirmware.Wpm

open QmkFirmware.Runs

/-! ## Interpolation -/

/-- The part of a difference that the latency allows, rounded towards zero, is nothing at least and all of it at most. -/
theorem part_nonneg {product difference : Int} (up : 0 ≤ difference) (least : -100 < product)
    (most : product < 100 * difference + 100) :
    0 ≤ product.tdiv latencyLimit ∧ product.tdiv latencyLimit ≤ difference := by
  rw [latencyLimit]
  by_cases positive : 0 ≤ product
  · rw [Int.tdiv_eq_ediv_of_nonneg positive]
    omega
  · -- less than a hundredth on the wrong side is rounded to nothing
    have small : (-product).tdiv 100 = 0 := by
      rw [Int.tdiv_eq_ediv_of_nonneg (by omega)]
      omega
    rw [Int.neg_tdiv] at small
    omega

/-- The product is on the side of the difference, and not far beyond it. -/
theorem product_bounds {latency difference : Int} (least : -100 < latency * difference.natAbs)
    (most : (latency - 100) * difference.natAbs < 100) :
    (0 ≤ difference ∧ -100 < latency * difference ∧ latency * difference < 100 * difference + 100) ∨
    (difference < 0 ∧ -100 < -(latency * difference) ∧ -(latency * difference) < 100 * -difference + 100) := by
  rw [Int.sub_mul] at most
  by_cases up : 0 ≤ difference
  · rw [Int.natAbs_of_nonneg up] at least most
    exact .inl ⟨up, least, by omega⟩
  · rw [Int.ofNat_natAbs_of_nonpos (by omega), Int.mul_neg] at least most
    exact .inr ⟨Int.not_le.mp up, least, by omega⟩

theorem part_between {latency difference : Int} (least : -100 < latency * difference.natAbs)
    (most : (latency - 100) * difference.natAbs < 100) :
    min 0 difference ≤ (latency * difference).tdiv latencyLimit ∧
    (latency * difference).tdiv latencyLimit ≤ max 0 difference := by
  cases product_bounds least most with
  | inl rising =>
    have part := part_nonneg rising.1 rising.2.1 rising.2.2
    omega
  | inr falling =>
    have part := part_nonneg (by omega) falling.2.1 falling.2.2
    rw [Int.neg_tdiv] at part
    omega

theorem toInt32_eq {value : Int} (least : -2 ^ 31 ≤ value) (most : value < 2 ^ 31) : toInt32 value = value :=
  Int.bmod_eq_of_le least most

/-! ## One decay -/

namespace State

variable (config : Config) (s : State) (readings : Readings)

theorem wpmNow_bounds : 0 ≤ s.wpmNow config readings ∧ s.wpmNow config readings ≤ 240 := by
  rw [wpmNow]
  generalize s.rawWpm config readings = raw
  split_ifs <;> omega

/-- The difference that is interpolated: the one to the measured speed when the smoothing begins again. -/
def difference : Int :=
  if latencyLimit < s.latency readings then s.wpmNow config readings - s.currentWpm.toNat
  else s.nextWpm.toNat - s.prevWpm.toNat

/-- The interpolation does not go past the next speed: the latency is within the limit, or it is so little above it
that the excess is lost in the division. -/
def Settles : Prop :=
  -100 < s.latency readings * (s.difference config readings).natAbs ∧
  (s.latency readings - 100) * (s.difference config readings).natAbs < 100

instance : Decidable (s.Settles config readings) := inferInstanceAs (Decidable (_ ∧ _))

/-- The reported speed is between the previous one and the next one, and is 240 at most. -/
structure InRange : Prop where
  least : min s.prevWpm.toNat s.nextWpm.toNat ≤ s.currentWpm.toNat
  most : s.currentWpm.toNat ≤ max s.prevWpm.toNat s.nextWpm.toNat
  limit : s.currentWpm.toNat ≤ 240

instance : Decidable s.InRange :=
  decidable_of_iff (min s.prevWpm.toNat s.nextWpm.toNat ≤ s.currentWpm.toNat ∧
      s.currentWpm.toNat ≤ max s.prevWpm.toNat s.nextWpm.toNat ∧ s.currentWpm.toNat ≤ 240)
    ⟨fun all => ⟨all.1, all.2.1, all.2.2⟩, fun range => ⟨range.least, range.most, range.limit⟩⟩

/-- The speeds of the interpolation are in range. -/
structure Limited : Prop where
  prev : s.prevWpm.toNat ≤ 240
  next : s.nextWpm.toNat ≤ 240

variable {config s readings}

theorem toNat_ofInt {value : Int} (least : 0 ≤ value) (most : value < 256) : ((UInt8.ofInt value).toNat : Int) = value := by
  have byte : (value % 2 ^ 8).toNat = value.toNat := by
    congr 1
    omega
  rw [UInt8.ofInt, byte, UInt8.toNat_ofNat_of_lt' (by simp [UInt8.size]; omega), Int.toNat_of_nonneg least]

theorem report_inRange (limited : s.Limited) {latency : Int}
    (least : -100 < latency * ((s.nextWpm.toNat : Int) - s.prevWpm.toNat).natAbs)
    (most : (latency - 100) * ((s.nextWpm.toNat : Int) - s.prevWpm.toNat).natAbs < 100) :
    (s.report latency).InRange := by
  have between := part_between least most
  have bounds := product_bounds least most
  have next := limited.next
  have prev := limited.prev
  have product : toInt32 (latency * ((s.nextWpm.toNat : Int) - s.prevWpm.toNat)) =
      latency * ((s.nextWpm.toNat : Int) - s.prevWpm.toNat) := toInt32_eq (by omega) (by omega)
  have current := @toNat_ofInt (s.prevWpm.toNat +
    (latency * ((s.nextWpm.toNat : Int) - s.prevWpm.toNat)).tdiv latencyLimit) (by omega) (by omega)
  rw [report, product]
  constructor
  · simp only
    omega
  · simp only
    omega
  · simp only
    omega

/-- A new period and the launch control leave the speeds and the smoothing as they are. -/
structure SameSpeeds (s other : State) : Prop where
  current : other.currentWpm = s.currentWpm
  prev : other.prevWpm = s.prevWpm
  next : other.nextWpm = s.nextWpm
  smoothingTimer : other.smoothingTimer = s.smoothingTimer

theorem SameSpeeds.refl (s : State) : s.SameSpeeds s := ⟨rfl, rfl, rfl, rfl⟩

theorem SameSpeeds.trans {other last : State} (first : s.SameSpeeds other) (second : other.SameSpeeds last) :
    s.SameSpeeds last where
  current := second.current.trans first.current
  prev := second.prev.trans first.prev
  next := second.next.trans first.next
  smoothingTimer := second.smoothingTimer.trans first.smoothingTimer

theorem SameSpeeds.ite {condition : Prop} [Decidable condition] {first second : State} (yes : s.SameSpeeds first)
    (no : s.SameSpeeds second) : s.SameSpeeds (if condition then first else second) := by
  split
  · exact yes
  · exact no

theorem addPresses_sameSpeeds (s : State) (change : Int) : s.SameSpeeds (s.addPresses change) := ⟨rfl, rfl, rfl, rfl⟩

theorem update_sameSpeeds (mods : UInt8) (keycode : UInt16) : s.SameSpeeds (s.updateWpm config mods keycode) := by
  have counted : s.SameSpeeds (if wpmKeycode keycode = true ∧ s.periodPresses s.currentPeriod < 32767 then
      s.addPresses 1 else s) := .ite (addPresses_sameSpeeds s 1) (.refl s)
  exact .ite (counted.trans (addPresses_sameSpeeds _ (-1))) counted

theorem nextPeriod_sameSpeeds : s.SameSpeeds (s.nextPeriod config readings) := .ite ⟨rfl, rfl, rfl, rfl⟩ (.refl s)

theorem launch_sameSpeeds (presses : Int) : s.SameSpeeds (s.launch config presses) :=
  .ite ⟨rfl, rfl, rfl, rfl⟩ (.refl s)

theorem SameSpeeds.limited {other : State} (same : s.SameSpeeds other) (limited : s.Limited) : other.Limited := by
  obtain ⟨prev, next⟩ := limited
  constructor
  · rwa [same.prev]
  · rwa [same.next]

theorem SameSpeeds.latency_eq {other : State} (same : s.SameSpeeds other) : other.latency readings = s.latency readings := by
  rw [latency, same.smoothingTimer]
  rfl

theorem restart_limited (limited : s.Limited) (current : s.currentWpm.toNat ≤ 240) {wpmNow : Int}
    (bounds : 0 ≤ wpmNow ∧ wpmNow ≤ 240) : (s.restart readings wpmNow).Limited := by
  have now := toNat_ofInt bounds.1 (by omega)
  rw [restart]
  split
  · constructor
    · exact current
    · simp only
      omega
  · exact limited

/-- What is interpolated after the restart is the difference that the state before the decay says. -/
theorem restart_difference (config : Config) (readings : Readings) {other : State} (same : s.SameSpeeds other) :
    ((other.restart readings (s.wpmNow config readings)).nextWpm.toNat : Int) -
      (other.restart readings (s.wpmNow config readings)).prevWpm.toNat = s.difference config readings := by
  have bounds := wpmNow_bounds config s readings
  have now := toNat_ofInt bounds.1 (by omega)
  rw [restart, difference, same.latency_eq]
  by_cases again : latencyLimit < s.latency readings
  · rw [if_pos again, if_pos again, now, same.current]
  · rw [if_neg again, if_neg again, same.next, same.prev]

theorem Limited.report (limited : s.Limited) (latency : Int) : (s.report latency).Limited :=
  ⟨limited.prev, limited.next⟩

theorem decay_inRange (limited : s.Limited) (current : s.currentWpm.toNat ≤ 240) (settles : s.Settles config readings) :
    (s.decayWpm config readings).InRange ∧ (s.decayWpm config readings).Limited := by
  have same : s.SameSpeeds ((s.nextPeriod config readings).launch config s.presses) :=
    nextPeriod_sameSpeeds.trans (launch_sameSpeeds s.presses)
  rw [decayWpm]
  -- only the speeds and the timer of the smoothing matter from here on
  generalize (s.nextPeriod config readings).launch config s.presses = measured at same
  have restarted : (measured.restart readings (s.wpmNow config readings)).Limited :=
    restart_limited (same.limited limited) (same.current ▸ current) (wpmNow_bounds config s readings)
  have difference := restart_difference config readings same
  rw [same.latency_eq]
  constructor
  · apply report_inRange restarted
    · rw [difference]
      exact settles.1
    · rw [difference]
      exact settles.2
  · exact restarted.report _

/-! ## Runs -/

/-- Every decay settles; key presses are free. -/
def Regular (config : Config) (s : State) : Op → Prop
  | .update _ _ => True
  | .decay readings => s.Settles config readings

instance (config : Config) (s : State) (op : Op) : Decidable (s.Regular config op) :=
  match op with
  | .update _ _ => inferInstanceAs (Decidable True)
  | .decay readings => inferInstanceAs (Decidable (s.Settles config readings))

theorem SameSpeeds.inRange {other : State} (same : s.SameSpeeds other) (range : s.InRange) : other.InRange := by
  obtain ⟨least, most, limit⟩ := range
  constructor
  · rwa [same.current, same.prev, same.next]
  · rwa [same.current, same.prev, same.next]
  · rwa [same.current]

/-- In a run in which every decay settles, the reported speed is always in range. -/
theorem inRange_of_settles (config : Config) (ops : List Op)
    (regular : EveryStep (fun earlier op => (run config earlier).Regular config op) ops) (n : Nat) :
    (run config (ops.take n)).InRange := by
  have start : initial.InRange ∧ initial.Limited := ⟨⟨by decide, by decide, by decide⟩, by decide, by decide⟩
  have both : (run config (ops.take n)).InRange ∧ (run config (ops.take n)).Limited := by
    apply foldl_everyStep (fun earlier op => (run config earlier).Regular config op)
      (fun _ (s : State) => s.InRange ∧ s.Limited) start _ _ (regular.take n)
    intro earlier op regular before
    cases op with
    | update mods keycode =>
      have same : (run config earlier).SameSpeeds (updateWpm config (run config earlier) mods keycode) := update_sameSpeeds mods keycode
      exact ⟨same.inRange before.1, same.limited before.2⟩
    | decay readings => exact decay_inRange before.2 before.1.limit regular
  exact both.1

/-- The default periods, without the options. -/
def fiveSeconds : Config where
  maxPeriods := 25
  maxPeriods_bounds := by decide
  sampleSeconds := 5
  estimatedWordSize := 5
  countRegression := false
  launchControl := false

def decayAt (now : UInt32) : Op := .decay ⟨now, now, now, now⟩

def pressA : Op := .update 0 0x04

theorem typing_inRange :
    (run fiveSeconds ([pressA, pressA, decayAt 60, decayAt 101, pressA, decayAt 150].take 6)).InRange :=
  inRange_of_settles fiveSeconds _ (by decide +kernel) 6

/-- One millisecond above the limit, seven presses are reported as 242 words per minute. -/
theorem burst_not_inRange :
    (run fiveSeconds (List.replicate 7 pressA ++ [decayAt 101])).currentWpm = 242 ∧
    (run fiveSeconds (List.replicate 7 pressA ++ [decayAt 101])).nextWpm = 240 ∧
    ¬(run fiveSeconds (List.replicate 7 pressA ++ [decayAt 101])).InRange := by
  decide +kernel

end State

end QmkFirmware.Wpm
