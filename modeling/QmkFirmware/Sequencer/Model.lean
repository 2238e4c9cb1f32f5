import QmkFirmware.Foundations.Occupancy
import Mathlib.Tactic

/-! # The step sequencer

`quantum/sequencer/sequencer.c` with MIDI.  A step starts its notes track by track, stops them in the opposite order,
and waits for the next step.
-/

namespace QmkFirmware.Sequencer

inductive Phase where
  | attack
  | release
  | pause
deriving DecidableEq

/-- `sequencer_resolution_t`; a ternary resolution follows its binary one. -/
inductive Resolution where
  | sq2
  | sq2T
  | sq4
  | sq4T
  | sq8
  | sq8T
  | sq16
  | sq16T
  | sq32
deriving DecidableEq

def Resolution.all : List Resolution := [.sq2, .sq2T, .sq4, .sq4T, .sq8, .sq8T, .sq16, .sq16T, .sq32]

def Resolution.number : Resolution → Nat
  | .sq2 => 0
  | .sq2T => 1
  | .sq4 => 2
  | .sq4T => 3
  | .sq8 => 4
  | .sq8T => 5
  | .sq16 => 6
  | .sq16T => 7
  | .sq32 => 8

structure Config where
  /-- `SEQUENCER_STEPS`; the loops over the steps end, as their counter is a byte. -/
  steps : Nat
  steps_bounds : 0 < steps ∧ steps < 256
  /-- `SEQUENCER_TRACKS`; a step has one bit for each of them. -/
  tracks : Nat
  tracks_bounds : 0 < tracks ∧ tracks ≤ 8
  trackThrottle : Nat
  phaseReleaseTimeout : Nat

/-- The configuration and the internal state; the arrays are at the indexes below the numbers of steps and tracks. -/
structure State where
  enabled : Bool
  steps : Nat → UInt8
  trackNotes : Nat → UInt16
  tempo : UInt8
  resolution : Resolution
  activeTracks : UInt8
  currentTrack : Nat
  currentStep : Nat
  timer : UInt16
  phase : Phase
  octave : Nat
  transpose : Int

/-- A note that a track has started or stopped. -/
abbrev Event := Occupancy.Event Nat UInt8

/-! ## Durations -/

def getBeatDuration (tempo : UInt8) : Nat := if tempo = 0 then 60000 / 60 else 60000 / tempo.toNat

def getStepDuration (tempo : UInt8) (resolution : Resolution) : Nat :=
  let binarySteps := 2 * 2 ^ (resolution.number / 2)
  let binaryStepDuration := getBeatDuration tempo * 4 / binarySteps % 2 ^ 16
  if resolution.number % 2 = 0 then binaryStepDuration else 2 * binaryStepDuration / 3

/-- `midi_compute_note`, with the octave and the transposition of `midi_config`. -/
def midiComputeNote (octave : Nat) (transpose : Int) (keycode : UInt16) : UInt8 :=
  UInt8.ofInt (12 * octave + (keycode.toNat - 0x7103) + transpose)

/-- A byte with the bit of a track; from the eighth track on there is none. -/
def trackBit (track : UInt8) : UInt8 := UInt8.ofNat (2 ^ track.toNat)

namespace State

/-! ## Switching -/

def on (s : State) (now : UInt16) : State :=
  { s with enabled := true, currentTrack := 0, currentStep := 0, timer := now, phase := .attack }

def off (s : State) : State := { s with enabled := false, currentStep := 0 }

def toggle (s : State) (now : UInt16) : State := if s.enabled then s.off else s.on now

/-! ## Tracks and steps -/

def setTrackNotes (config : Config) (s : State) (trackNotes : Nat → UInt16) : State :=
  { s with trackNotes := fun i => if i < config.tracks then trackNotes i else s.trackNotes i }

def isTrackActive (s : State) (track : UInt8) : Bool := s.activeTracks.toNat.testBit track.toNat

def setTrackActivation (s : State) (track : UInt8) (value : Bool) : State :=
  { s with activeTracks := if value then s.activeTracks ||| trackBit track else s.activeTracks &&& ~~~trackBit track }

def toggleTrackActivation (s : State) (track : UInt8) : State :=
  s.setTrackActivation track !s.isTrackActive track

def toggleSingleActiveTrack (s : State) (track : UInt8) : State :=
  { s with activeTracks := if s.isTrackActive track then 0 else trackBit track }

def isStepOn (config : Config) (s : State) (step : UInt8) : Bool :=
  step.toNat < config.steps ∧ 0 < s.steps step.toNat &&& s.activeTracks

def isStepOnForTrack (config : Config) (s : State) (step track : Nat) : Bool :=
  decide (step < config.steps) && (s.steps step).toNat.testBit track

/-- A step with the active tracks on or off. -/
def switched (s : State) (value : Bool) (step : Nat) : UInt8 :=
  if value then s.steps step ||| s.activeTracks else s.steps step &&& ~~~s.activeTracks

def setStep (config : Config) (s : State) (step : UInt8) (value : Bool) : State :=
  if step.toNat < config.steps then
    { s with steps := Function.update s.steps step.toNat (s.switched value step.toNat) }
  else s

def toggleStep (config : Config) (s : State) (step : UInt8) : State :=
  s.setStep config step !s.isStepOn config step

def setAllSteps (config : Config) (s : State) (value : Bool) : State :=
  { s with steps := fun i => if i < config.steps then s.switched value i else s.steps i }

/-! ## Tempo and resolution -/

def setTempo (s : State) (tempo : UInt8) : State := if 0 < tempo then { s with tempo := tempo } else s

def increaseTempo (s : State) : State := if s.tempo < 255 then s.setTempo (s.tempo + 1) else s

def decreaseTempo (s : State) : State := s.setTempo (s.tempo - 1)

/-- A number that is no resolution is refused. -/
def setResolution (s : State) (number : Int) : State :=
  if 0 ≤ number then { s with resolution := Resolution.all.getD number.toNat s.resolution } else s

def increaseResolution (s : State) : State := s.setResolution (s.resolution.number + 1)

def decreaseResolution (s : State) : State := s.setResolution (s.resolution.number - 1)

end State

/-! ## The task -/

/-- What the clock shows where a task reads it. -/
structure Readings where
  pause : UInt16
  release : UInt16
  attackStart : UInt16
  attack : UInt16

namespace State

/-- `timer_elapsed`. -/
def elapsed (s : State) (now : UInt16) : Nat := (now - s.timer).toNat

/-- The note of the current step on the current track, if the step is on for it. -/
def currentNote (config : Config) (s : State) : Option UInt8 :=
  if s.isStepOnForTrack config s.currentStep s.currentTrack then
    some (midiComputeNote s.octave s.transpose (s.trackNotes s.currentTrack))
  else none

def attackTimer (s : State) (readings : Readings) : State :=
  if s.currentTrack = 0 then { s with timer := readings.attackStart } else s

/-- The next track, and after the last one the release. -/
def attackNext (config : Config) (s : State) : State :=
  if s.currentTrack < config.tracks - 1 then { s with currentTrack := s.currentTrack + 1 }
  else { s with phase := .release }

def phaseAttack (config : Config) (s : State) (readings : Readings) : State × List Event :=
  let s := s.attackTimer readings
  if s.elapsed readings.attack < s.currentTrack * config.trackThrottle then (s, [])
  else (s.attackNext config, ((s.currentNote config).map (.start s.currentTrack)).toList)

/-- It is not yet time for the current track to be released. -/
def Waits (config : Config) (s : State) (readings : Readings) : Prop :=
  s.elapsed readings.release < config.phaseReleaseTimeout + s.currentTrack * config.trackThrottle

instance (config : Config) (s : State) (readings : Readings) : Decidable (s.Waits config readings) :=
  inferInstanceAs (Decidable (_ < _))

def releaseNext (s : State) : State :=
  if 0 < s.currentTrack then { s with currentTrack := s.currentTrack - 1 } else { s with phase := .pause }

def phaseRelease (config : Config) (s : State) (readings : Readings) : State × List Event :=
  if s.Waits config readings then (s, [])
  else (s.releaseNext, ((s.currentNote config).map (.stop s.currentTrack)).toList)

def phasePause (config : Config) (s : State) (readings : Readings) : State :=
  if s.elapsed readings.pause < getStepDuration s.tempo s.resolution then s
  else { s with currentStep := (s.currentStep + 1) % config.steps, phase := .attack }

/-- A step that begins is attacked at once. -/
def task (config : Config) (s : State) (readings : Readings) : State × List Event :=
  if s.enabled then
    let s := if s.phase = .pause then s.phasePause config readings else s
    let (s, stopped) := if s.phase = .release then s.phaseRelease config readings else (s, [])
    let (s, started) := if s.phase = .attack then s.phaseAttack config readings else (s, [])
    (s, stopped ++ started)
  else (s, [])

end State

/-! ## Runs -/

inductive Op where
  | task (readings : Readings)
  | on (now : UInt16)
  | off
  | toggle (now : UInt16)
  | setTrackNotes (trackNotes : Nat → UInt16)
  | setTrackActivation (track : UInt8) (value : Bool)
  | toggleTrackActivation (track : UInt8)
  | toggleSingleActiveTrack (track : UInt8)
  | setStep (step : UInt8) (value : Bool)
  | toggleStep (step : UInt8)
  | setAllSteps (value : Bool)
  | setTempo (tempo : UInt8)
  | increaseTempo
  | decreaseTempo
  | setResolution (number : Int)
  | increaseResolution
  | decreaseResolution
  /-- The octave or the transposition is changed by a key. -/
  | midi (octave : Nat) (transpose : Int)

def State.step (config : Config) (s : State) : Op → State × List Event
  | .task readings => s.task config readings
  | .on now => (s.on now, [])
  | .off => (s.off, [])
  | .toggle now => (s.toggle now, [])
  | .setTrackNotes trackNotes => (s.setTrackNotes config trackNotes, [])
  | .setTrackActivation track value => (s.setTrackActivation track value, [])
  | .toggleTrackActivation track => (s.toggleTrackActivation track, [])
  | .toggleSingleActiveTrack track => (s.toggleSingleActiveTrack track, [])
  | .setStep step value => (s.setStep config step value, [])
  | .toggleStep step => (s.toggleStep config step, [])
  | .setAllSteps value => (s.setAllSteps config value, [])
  | .setTempo tempo => (s.setTempo tempo, [])
  | .increaseTempo => (s.increaseTempo, [])
  | .decreaseTempo => (s.decreaseTempo, [])
  | .setResolution number => (s.setResolution number, [])
  | .increaseResolution => (s.increaseResolution, [])
  | .decreaseResolution => (s.decreaseResolution, [])
  | .midi octave transpose => ({ s with octave := octave, transpose := transpose }, [])

end QmkFirmware.Sequencer
