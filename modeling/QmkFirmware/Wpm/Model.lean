import Mathlib.Logic.Function.Basic
import Mathlib.Tactic

/-! # Words per minute

`quantum/wpm.c` with smoothing.  Key presses are counted in a ring of periods; the speed that is reported follows the
one that is measured from the ring.
-/

namespace QmkFirmware.Wpm

structure Config where
  /-- `MAX_PERIODS`; the periods are counted in bytes, and there are two of them at the start. -/
  maxPeriods : Nat
  maxPeriods_bounds : 2 ≤ maxPeriods ∧ maxPeriods ≤ 256
  sampleSeconds : Nat
  estimatedWordSize : Nat
  /-- `WPM_ALLOW_COUNT_REGRESSION`. -/
  countRegression : Bool
  /-- `WPM_LAUNCH_CONTROL`. -/
  launchControl : Bool

def Config.periodDuration (config : Config) : Nat := 1000 * config.sampleSeconds / config.maxPeriods

/-- The presses of the periods are at the indexes below their number; each count has 16 bits with a sign. -/
structure State where
  currentWpm : UInt8
  wpmTimer : UInt32
  periodPresses : Nat → Int
  currentPeriod : Nat
  periods : Nat
  smoothingTimer : UInt32
  prevWpm : UInt8
  nextWpm : UInt8

def State.initial : State where
  currentWpm := 0
  wpmTimer := 0
  periodPresses _ := 0
  currentPeriod := 0
  periods := 1
  smoothingTimer := 0
  prevWpm := 0
  nextWpm := 0

/-! ## Keys -/

def qkMods : UInt16 := 0x0100

def qkModsMax : UInt16 := 0x1FFF

def qkModTap : UInt16 := 0x2000

def qkModTapMax : UInt16 := 0x3FFF

def qkLayerTap : UInt16 := 0x4000

def qkLayerTapMax : UInt16 := 0x4FFF

/-- The basic keycode below a modifier or a tap; other quantum keycodes count as none. -/
def basicKeycode (keycode : UInt16) : UInt16 :=
  if (qkModTap ≤ keycode ∧ keycode ≤ qkModTapMax) ∨ (qkLayerTap ≤ keycode ∧ keycode ≤ qkLayerTapMax) ∨
      (qkMods ≤ keycode ∧ keycode ≤ qkModsMax) then keycode &&& 0xFF
  else if 0xFF < keycode then 0
  else keycode

/-- `wpm_keycode_user`: letters, digits and what is from tab to slash. -/
def wpmKeycode (keycode : UInt16) : Bool :=
  let keycode := basicKeycode keycode
  (0x04 ≤ keycode ∧ keycode ≤ 0x27) ∨ (0x2B ≤ keycode ∧ keycode ≤ 0x38)

/-- The number of characters that a deletion takes back; `mods` are those that are held or one-shot. -/
def wpmRegressCount (config : Config) (mods : UInt8) (keycode : UInt16) : Nat :=
  let weakModded := (0x0100 ≤ keycode ∧ keycode < 0x0200) ∨ (0x1100 ≤ keycode ∧ keycode < 0x1200)
  let keycode := basicKeycode keycode
  if keycode = 0x4C ∨ keycode = 0x2A then
    if mods &&& 0x11 ≠ 0 ∨ weakModded then config.estimatedWordSize else 1
  else 0

namespace State

def addPresses (s : State) (change : Int) : State :=
  { s with
    periodPresses := Function.update s.periodPresses s.currentPeriod (s.periodPresses s.currentPeriod + change) }

/-- A deletion takes back one press, whatever its count is. -/
def updateWpm (config : Config) (s : State) (mods : UInt8) (keycode : UInt16) : State :=
  let s := if wpmKeycode keycode = true ∧ s.periodPresses s.currentPeriod < 32767 then s.addPresses 1 else s
  if config.countRegression = true ∧ wpmRegressCount config mods keycode ≠ 0 ∧ -32768 < s.periodPresses s.currentPeriod then
    s.addPresses (-1)
  else s

end State

/-! ## The decay -/

/-- What the clock shows where `decay_wpm` reads it. -/
structure Readings where
  elapsed : UInt32
  wpmTimer : UInt32
  latency : UInt32
  smoothingTimer : UInt32

def toInt32 (value : Int) : Int := value.bmod (2 ^ 32)

/-- A difference of the clock that is stored with a sign. -/
def timerElapsed32 (now last : UInt32) : Int := toInt32 (now - last).toNat

def latencyLimit : Int := 100

namespace State

def presses (s : State) : Int := max 0 ((List.range (s.periods + 1)).map s.periodPresses).sum

def elapsed (s : State) (readings : Readings) : Int := timerElapsed32 readings.elapsed s.wpmTimer

/-- The quotient of 32 bits without a sign, which is zero where the divisor is. -/
def rawWpm (config : Config) (s : State) (readings : Readings) : Int :=
  let duration := UInt32.ofInt (s.periods * config.periodDuration + s.elapsed readings)
  toInt32 (UInt32.ofInt (60000 * s.presses) / (duration * UInt32.ofNat config.estimatedWordSize)).toNat

/-- The measured speed, within its limits; there is none for a single press. -/
def wpmNow (config : Config) (s : State) (readings : Readings) : Int :=
  let wpmNow := s.rawWpm config readings
  let wpmNow := if wpmNow < 0 then 0 else wpmNow
  let wpmNow := if 240 < wpmNow then 240 else wpmNow
  if s.presses < 2 then 0 else wpmNow

/-- A new period begins. -/
def nextPeriod (config : Config) (s : State) (readings : Readings) : State :=
  if config.periodDuration < s.elapsed readings then
    let currentPeriod := (s.currentPeriod + 1) % config.maxPeriods
    { s with
      currentPeriod := currentPeriod
      periodPresses := Function.update s.periodPresses currentPeriod 0
      periods := if s.periods < config.maxPeriods - 1 then s.periods + 1 else config.maxPeriods - 1
      wpmTimer := readings.wpmTimer }
  else s

/-- With launch control the measurement begins again when there has been no press; the presses are the ones before the
new period. -/
def launch (config : Config) (presses : Int) (s : State) : State :=
  if config.launchControl = true ∧ presses = 0 then
    { s with currentPeriod := 0, periods := 0, periodPresses := Function.update s.periodPresses 0 0 }
  else s

def latency (s : State) (readings : Readings) : Int := timerElapsed32 readings.latency s.smoothingTimer

/-- The smoothing begins again from the reported speed. -/
def restart (s : State) (readings : Readings) (wpmNow : Int) : State :=
  if latencyLimit < s.latency readings then
    { s with smoothingTimer := readings.smoothingTimer, prevWpm := s.currentWpm, nextWpm := UInt8.ofInt wpmNow }
  else s

/-- The reported speed has eight bits; the latency is the one before the smoothing has begun again. -/
def report (latency : Int) (s : State) : State :=
  { s with
    currentWpm := UInt8.ofInt (s.prevWpm.toNat +
      (toInt32 (latency * ((s.nextWpm.toNat : Int) - (s.prevWpm.toNat : Int)))).tdiv latencyLimit) }

def decayWpm (config : Config) (s : State) (readings : Readings) : State :=
  let wpmNow := s.wpmNow config readings
  let presses := s.presses
  let s := (s.nextPeriod config readings).launch config presses
  (s.restart readings wpmNow).report (s.latency readings)

end State

/-! ## Runs -/

inductive Op where
  | update (mods : UInt8) (keycode : UInt16)
  | decay (readings : Readings)

def State.step (config : Config) (s : State) : Op → State
  | .update mods keycode => s.updateWpm config mods keycode
  | .decay readings => s.decayWpm config readings

def State.run (config : Config) (ops : List Op) : State := ops.foldl (step config) initial

end QmkFirmware.Wpm
