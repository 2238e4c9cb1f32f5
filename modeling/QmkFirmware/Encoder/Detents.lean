import Mathlib.Tactic.Common
import QmkFirmware.Foundations.Runs

/-! # Encoder detents

A shallow embedding of `quantum/encoder.c` without `ENCODER_DEFAULT_POS` and for one side: the
interrupt routine counts quadrature steps, the poll emits events for them.  The poll runs
statement by statement, and the interrupt may come in front of each; `encoder_exec_mapping` alone
takes two key delays.  What the events do is behind it; the two directions stand for
`ENCODER_CLOCKWISE` and `ENCODER_COUNTER_CLOCKWISE`.  The events emitted account for every step
as long as the steps fit into the counter, no poll finds two detents in it, and no interrupt
changes what the poll has looked at.
-/

namespace QmkFirmware.Encoder

open QmkFirmware.Runs

/-! ## The model -/

inductive Direction where
  | clockwise
  | counterClockwise
deriving DecidableEq

/-- The number of encoders and their resolutions.  A resolution of zero would divide by zero. -/
structure Config where
  thisCount : Nat
  resolution : Nat → BitVec 8
  positive : ∀ i, resolution i ≠ 0

def encoderLut : List Int := [0, -1, 1, 0, 1, 0, 0, -1, -1, 0, 0, 1, 0, 1, -1, 0]

def lookUp (state : BitVec 8) : Int := encoderLut.getD (state &&& 0xF).toNat 0

/-- The statement of `encoder_read`, or of the `encoder_update` it calls, that comes next for an
encoder, with the local variables that are still needed. -/
inductive Statement where
  | readPins
  | compare (newStatus : BitVec 2)
  | shift (newStatus : BitVec 2)
  | merge (newStatus : BitVec 2)
  | call
  | count (state : BitVec 8)
  | counterClockwise
  | clockwise
  | reduce
  | clear
deriving DecidableEq

/-- A poll that is under way: the encoder it has come to, and whether there was an event. -/
structure Poll where
  i : Nat
  changed : Bool
  next : Statement

/-- The static arrays, the poll, its last result, the events emitted so far, and the pins read so far. -/
structure State where
  encoderState : Nat → BitVec 8
  encoderPulses : Nat → BitVec 8
  encoderInterruptUpdate : Nat → Bool
  encoderValue : Nat → BitVec 8
  poll : Option Poll
  result : Bool
  events : List (Nat × Direction)
  samples : List (Nat × BitVec 2)

def shiftIn (state : BitVec 8) (pins : BitVec 2) : BitVec 8 := state <<< 2 ||| pins.setWidth 8

/-- `encoder_pulses[i] += encoder_LUT[state & 0xF]` on an `int8_t`. -/
def addPulses (pulses state : BitVec 8) : BitVec 8 := BitVec.ofInt 8 (pulses.toInt + lookUp state)

section Machine

variable (config : Config)

/-- The event of `encoder_update`. -/
def State.emit (s : State) (i : Nat) (direction : Direction) : State :=
  { s with
    encoderValue := Function.update s.encoderValue i
      (match direction with
      | .counterClockwise => s.encoderValue i + 1
      | .clockwise => s.encoderValue i - 1)
    events := s.events ++ [(i, direction)] }

/-- The statement `next` of a poll that has come to encoder `i`. -/
def pollStatement (pins : Nat → BitVec 2) (i : Nat) (changed : Bool) (next : Statement) (s : State) : State :=
  let resolution : Int := (config.resolution i).toNat
  let goto (next : Statement) (s : State) : State := { s with poll := some ⟨i, changed, next⟩ }
  let nextEncoder : Option Poll := some ⟨i + 1, changed, .readPins⟩
  match next with
  | .readPins =>
    if i < config.thisCount then goto (.compare (pins i)) { s with samples := s.samples ++ [(i, pins i)] }
    else { s with poll := none, result := changed }
  | .compare newStatus =>
    if s.encoderState i &&& 0x3 ≠ newStatus.setWidth 8 ∨ s.encoderInterruptUpdate i = true then
      goto (.shift newStatus) s
    else { s with poll := nextEncoder }
  | .shift newStatus =>
    goto (.merge newStatus) { s with encoderState := Function.update s.encoderState i (s.encoderState i <<< 2) }
  | .merge newStatus =>
    goto .call
      { s with encoderState := Function.update s.encoderState i (s.encoderState i ||| newStatus.setWidth 8) }
  | .call => goto (.count (s.encoderState i)) s
  | .count state =>
    goto .counterClockwise
      { s with encoderPulses := Function.update s.encoderPulses i (addPulses (s.encoderPulses i) state) }
  | .counterClockwise =>
    if (s.encoderPulses i).toInt ≥ resolution then
      { s.emit i .counterClockwise with poll := some ⟨i, true, .clockwise⟩ }
    else goto .clockwise s
  | .clockwise =>
    if (s.encoderPulses i).toInt ≤ -resolution then
      { s.emit i .clockwise with poll := some ⟨i, true, .reduce⟩ }
    else goto .reduce s
  | .reduce =>
    goto .clear
      { s with
        encoderPulses := Function.update s.encoderPulses i
          (BitVec.ofInt 8 ((s.encoderPulses i).toInt.tmod resolution)) }
  | .clear =>
    { s with
      encoderInterruptUpdate := Function.update s.encoderInterruptUpdate i false
      poll := nextEncoder }

/-- A poll begins, or goes on. -/
def encoderRead (pins : Nat → BitVec 2) (s : State) : State :=
  match s.poll with
  | none => { s with poll := some ⟨0, false, .readPins⟩ }
  | some poll => pollStatement config pins poll.i poll.changed poll.next s

def encoderInerruptRead (i : Nat) (pins : BitVec 2) (s : State) : State :=
  let state := shiftIn (s.encoderState i) pins
  { s with
    encoderState := Function.update s.encoderState i state
    encoderPulses := Function.update s.encoderPulses i (addPulses (s.encoderPulses i) state)
    encoderInterruptUpdate := Function.update s.encoderInterruptUpdate i true
    samples := s.samples ++ [(i, pins)] }

/-- An interrupt of one encoder or the next statement of the poll, with the pins it would read. -/
inductive Input where
  | interrupt (i : Nat) (pins : BitVec 2)
  | poll (pins : Nat → BitVec 2)

def step (s : State) : Input → State
  | .interrupt i pins => encoderInerruptRead i pins s
  | .poll pins => encoderRead config pins s

/-- The state that `encoder_init` leaves. -/
def start (pins : Nat → BitVec 2) : State where
  encoderState i := (pins i).setWidth 8
  encoderPulses _ := 0
  encoderInterruptUpdate _ := false
  encoderValue _ := 0
  poll := none
  result := false
  events := []
  samples := []

def run (first : Nat → BitVec 2) (inputs : List Input) : State := inputs.foldl (step config) (start first)

end Machine

/-! ## Quadrature -/

/-- The pins after the present ones when the encoder turns counter-clockwise. -/
def following (pins : BitVec 2) : BitVec 2 :=
  match pins.toNat with
  | 0 => 2
  | 2 => 3
  | 3 => 1
  | _ => 0

def quadratureStep (old new : BitVec 2) : Int :=
  if following old = new then 1 else if following new = old then -1 else 0

/-- The steps between samples, the first of which is given. -/
def travelled : BitVec 2 → List (BitVec 2) → Int
  | _, [] => 0
  | old, new :: rest => quadratureStep old new + travelled new rest

/-- The pins of encoder `i` that have been read. -/
def samplesOf (samples : List (Nat × BitVec 2)) (i : Nat) : List (BitVec 2) :=
  samples.filterMap fun sample => if sample.1 = i then some sample.2 else none

def net (events : List (Nat × Direction)) (i : Nat) : Int :=
  (events.count (i, .counterClockwise) : Int) - events.count (i, .clockwise)

/-- The statement for encoder `i` that comes next: `readPins` as long as the poll is elsewhere. -/
def State.next (s : State) (i : Nat) : Statement :=
  match s.poll with
  | some poll => if poll.i = i then poll.next else .readPins
  | none => .readPins

/-- The events account for all steps of encoder `i` but those that are still in its counter. -/
def Accounted (config : Config) (first : Nat → BitVec 2) (s : State) (i : Nat) : Prop :=
  (config.resolution i).toNat * net s.events i + (s.encoderPulses i).toInt =
    travelled (first i) (samplesOf s.samples i)

theorem travelled_concat (old new : BitVec 2) (samples : List (BitVec 2)) :
    travelled old (samples ++ [new]) =
      travelled old samples + quadratureStep (samples.getLast?.getD old) new := by
  induction samples generalizing old with
  | nil => simp [travelled]
  | cons sample samples ih =>
    rw [List.cons_append, travelled, travelled, ih, List.getLast?_cons, Option.getD_some]
    omega

/-! ## One encoder by itself -/

/-- The value an `int8_t` takes. -/
def narrow (value : Int) : Int := (BitVec.ofInt 8 value).toInt

structure Counter where
  state : BitVec 8
  pulses : Int
  pending : Bool
  net : Int
  samples : List (BitVec 2)
  next : Statement

namespace Counter

variable (resolution : Nat)

/-- The pins in the state, which are the last that were shifted in. -/
def pins (counter : Counter) : BitVec 2 := counter.state.setWidth 2

def interrupt (pins : BitVec 2) (counter : Counter) : Counter :=
  { counter with
    state := shiftIn counter.state pins
    pulses := narrow (counter.pulses + quadratureStep counter.pins pins)
    pending := true
    samples := counter.samples ++ [pins] }

def sample (pins : BitVec 2) (counter : Counter) : Counter :=
  { counter with samples := counter.samples ++ [pins], next := .compare pins }

/-- The next statement, once the pins have been read. -/
def execute (counter : Counter) : Counter :=
  match counter.next with
  | .readPins => counter
  | .compare newStatus =>
    if counter.pins ≠ newStatus ∨ counter.pending = true then { counter with next := .shift newStatus }
    else { counter with next := .readPins }
  | .shift newStatus => { counter with state := counter.state <<< 2, next := .merge newStatus }
  | .merge newStatus => { counter with state := counter.state ||| newStatus.setWidth 8, next := .call }
  | .call => { counter with next := .count counter.state }
  | .count state => { counter with pulses := narrow (counter.pulses + lookUp state), next := .counterClockwise }
  | .counterClockwise =>
    { counter with net := counter.net + (if counter.pulses ≥ resolution then 1 else 0), next := .clockwise }
  | .clockwise =>
    { counter with net := counter.net - (if counter.pulses ≤ -resolution then 1 else 0), next := .reduce }
  | .reduce => { counter with pulses := counter.pulses.tmod resolution, next := .clear }
  | .clear => { counter with pending := false, next := .readPins }

end Counter

/-- What the state says about encoder `i`. -/
def view (i : Nat) (s : State) : Counter where
  state := s.encoderState i
  pulses := (s.encoderPulses i).toInt
  pending := s.encoderInterruptUpdate i
  net := net s.events i
  samples := samplesOf s.samples i
  next := s.next i

theorem lookUp_shiftIn (state : BitVec 8) (pins : BitVec 2) :
    lookUp (shiftIn state pins) = quadratureStep (state.setWidth 2) pins := by
  revert state pins
  decide +kernel

theorem shiftIn_pins (state : BitVec 8) (pins : BitVec 2) : (shiftIn state pins).setWidth 2 = pins := by
  revert state pins
  decide +kernel

theorem masked_ne_iff (state : BitVec 8) (pins : BitVec 2) :
    state &&& 0x3 ≠ pins.setWidth 8 ↔ state.setWidth 2 ≠ pins := by
  revert state pins
  decide +kernel

theorem narrow_eq_iff (value : Int) : narrow value = value ↔ -128 ≤ value ∧ value ≤ 127 := by
  simp only [narrow, BitVec.toInt_ofInt]
  rw [Int.bmod_def]
  grind

theorem addPulses_toInt (pulses state : BitVec 8) (pins : BitVec 2) :
    (addPulses pulses (shiftIn state pins)).toInt
      = narrow (pulses.toInt + quadratureStep (state.setWidth 2) pins) := by
  rw [addPulses, lookUp_shiftIn, narrow]

theorem narrow_tmod (pulses : BitVec 8) (resolution : Nat) :
    narrow (pulses.toInt.tmod resolution) = pulses.toInt.tmod resolution := by
  have low : -128 ≤ pulses.toInt := BitVec.le_toInt pulses
  have high : pulses.toInt < 128 := BitVec.toInt_lt
  have size : (pulses.toInt.tmod resolution).natAbs ≤ pulses.toInt.natAbs := by
    rw [Int.natAbs_tmod]
    exact Nat.mod_le _ _
  rw [narrow_eq_iff]
  rcases Int.le_total 0 pulses.toInt with positive | negative
  · omega
  · have := Int.tmod_nonneg (resolution : Int) (Int.neg_nonneg_of_nonpos negative)
    rw [Int.neg_tmod] at this
    omega

theorem net_append (events more : List (Nat × Direction)) (i : Nat) :
    net (events ++ more) i = net events i + net more i := by
  simp only [net, List.count_append]
  omega

theorem samplesOf_append (samples : List (Nat × BitVec 2)) (i j : Nat) (pins : BitVec 2) :
    samplesOf (samples ++ [(j, pins)]) i = samplesOf samples i ++ if j = i then [pins] else [] := by
  rw [samplesOf, List.filterMap_append]
  by_cases here : j = i <;> simp [samplesOf, here]

theorem net_concat (events : List (Nat × Direction)) (i j : Nat) (direction : Direction) :
    net (events ++ [(j, direction)]) i = net events i +
      if j = i then (match direction with | .counterClockwise => 1 | .clockwise => -1) else 0 := by
  rw [net_append]
  congr 1
  by_cases here : j = i
  · cases direction <;> simp [net, here]
  · cases direction <;> simp [net, here]

section Views

variable (config : Config)

theorem view_interrupt (i : Nat) (pins : BitVec 2) (s : State) :
    view i (encoderInerruptRead i pins s) = (view i s).interrupt pins := by
  simp [view, encoderInerruptRead, Counter.interrupt, Counter.pins, addPulses_toInt, samplesOf_append, State.next]

theorem view_interrupt_other {i j : Nat} (other : j ≠ i) (pins : BitVec 2) (s : State) :
    view j (encoderInerruptRead i pins s) = view j s := by
  simp [view, encoderInerruptRead, Function.update_of_ne other, samplesOf_append, other.symm, State.next]

theorem view_readPins {s : State} {i : Nat} {changed : Bool} (here : s.poll = some ⟨i, changed, .readPins⟩)
    (pins : Nat → BitVec 2) :
    view i (pollStatement config pins i changed .readPins s)
      = if i < config.thisCount then (view i s).sample (pins i) else view i s := by
  by_cases served : i < config.thisCount
  · simp [pollStatement, view, Counter.sample, served, samplesOf_append, State.next]
  · simp [pollStatement, view, served, State.next, here]

theorem view_execute {s : State} {i : Nat} {changed : Bool} {next : Statement} (here : s.poll = some ⟨i, changed, next⟩)
    (begun : next ≠ .readPins) (pins : Nat → BitVec 2) :
    view i (pollStatement config pins i changed next s) = (view i s).execute (config.resolution i).toNat := by
  have now : (view i s).next = next := by simp [view, State.next, here]
  rw [Counter.execute, now]
  cases next with
  | readPins => exact absurd rfl begun
  | compare newStatus =>
    have due : s.encoderState i &&& 0x3 ≠ newStatus.setWidth 8 ∨ s.encoderInterruptUpdate i = true ↔
        (view i s).pins ≠ newStatus ∨ (view i s).pending = true := or_congr_left (masked_ne_iff _ _)
    simp only [pollStatement, due]
    split <;> simp [view, State.next]
  | shift newStatus => simp [pollStatement, view, State.next]
  | merge newStatus => simp [pollStatement, view, State.next]
  | call => simp [pollStatement, view, State.next]
  | count state => simp [pollStatement, view, State.next, addPulses, narrow]
  | counterClockwise =>
    simp only [pollStatement]
    split
    next enough =>
      rw [if_pos (show (view i s).pulses ≥ (config.resolution i).toNat from enough)]
      simp only [view, State.next, State.emit, net_concat, if_pos]
    next few =>
      rw [if_neg (show ¬ (view i s).pulses ≥ (config.resolution i).toNat from few)]
      simp [view, State.next]
  | clockwise =>
    simp only [pollStatement]
    split
    next enough =>
      rw [if_pos (show (view i s).pulses ≤ -(config.resolution i).toNat from enough)]
      simp only [view, State.next, State.emit, net_concat, if_pos]
      rfl
    next few =>
      rw [if_neg (show ¬ (view i s).pulses ≤ -(config.resolution i).toNat from few)]
      simp [view, State.next]
  | reduce =>
    simp only [pollStatement, view, State.next, Function.update_self, ↓reduceIte]
    rw [← narrow, narrow_tmod]
  | clear => simp [pollStatement, view, State.next]

theorem view_pollStatement_other {s : State} {i j : Nat} (other : j ≠ i) {changed : Bool} {next : Statement}
    (here : s.poll = some ⟨i, changed, next⟩) (pins : Nat → BitVec 2) :
    view j (pollStatement config pins i changed next s) = view j s := by
  cases next <;> simp only [pollStatement] <;> (try split_ifs) <;>
    simp [view, State.next, here, Function.update_of_ne other, samplesOf_append, net_concat, State.emit, other.symm]

end Views

/-! ## What a step does to one encoder -/

theorem quadratureStep_self (pins : BitVec 2) : quadratureStep pins pins = 0 := by
  revert pins
  decide

theorem natAbs_tmod_lt (pulses : Int) {resolution : Nat} (positive : 0 < resolution) :
    (pulses.tmod resolution).natAbs < resolution := by
  rw [Int.natAbs_tmod]
  exact Nat.mod_lt _ positive

theorem tdiv_eq_zero_iff (pulses : Int) {resolution : Nat} (positive : 0 < resolution) :
    pulses.tdiv resolution = 0 ↔ pulses.natAbs < resolution := by
  rw [← Int.natAbs_eq_zero, Int.natAbs_tdiv, Int.natAbs_natCast]
  show pulses.natAbs / resolution = 0 ↔ _
  rw [Nat.div_eq_zero_iff]
  omega

theorem natAbs_tdiv_lt_two_iff (pulses : Int) {resolution : Nat} (positive : 0 < resolution) :
    (pulses.tdiv resolution).natAbs < 2 ↔ pulses.natAbs < 2 * resolution := by
  rw [Int.natAbs_tdiv, Int.natAbs_natCast]
  exact Nat.div_lt_iff_lt_mul positive

/-- The events that `encoder_update` makes of the pulses, if they are not enough for two. -/
theorem tdiv_of_few {pulses : Int} {resolution : Nat} (positive : 0 < resolution)
    (few : pulses.natAbs < 2 * resolution) :
    pulses.tdiv resolution = (if pulses ≥ resolution then 1 else 0) - if pulses ≤ -resolution then 1 else 0 := by
  have parts := Int.mul_tdiv_add_tmod pulses resolution
  have small := natAbs_tmod_lt pulses positive
  have size := (natAbs_tdiv_lt_two_iff pulses positive).mpr few
  obtain none | forward | backward :
      pulses.tdiv resolution = 0 ∨ pulses.tdiv resolution = 1 ∨ pulses.tdiv resolution = -1 := by omega
  · rw [none] at parts ⊢
    split_ifs <;> omega
  · rw [forward] at parts ⊢
    have sign : 0 ≤ pulses.tmod resolution := Int.tmod_nonneg _ (by omega)
    split_ifs <;> omega
  · rw [backward] at parts ⊢
    have sign := Int.tmod_nonneg (resolution : Int) (a := -pulses) (by omega)
    rw [Int.neg_tmod] at sign
    split_ifs <;> omega

/-- The event of the first test is the positive part of the quotient. -/
theorem event_of_first_test {pulses : Int} {resolution : Nat} (positive : 0 < resolution)
    (few : pulses.natAbs < 2 * resolution) :
    (if pulses ≥ resolution then 1 else 0) = max 0 (pulses.tdiv resolution) := by
  rw [tdiv_of_few positive few]
  split_ifs <;> omega

/-- The event of the second test is the negative part. -/
theorem event_of_second_test {pulses : Int} {resolution : Nat} (positive : 0 < resolution)
    (few : pulses.natAbs < 2 * resolution) :
    (if pulses ≤ -resolution then 1 else 0) = max 0 (pulses.tdiv resolution) - pulses.tdiv resolution := by
  rw [tdiv_of_few positive few]
  split_ifs <;> omega

namespace Counter

/-- What `encoder_pulses` becomes with one more transition. -/
def count (pins : BitVec 2) (counter : Counter) : Int := counter.pulses + quadratureStep counter.pins pins

def total (resolution : Nat) (counter : Counter) : Int := resolution * counter.net + counter.pulses

/-- The last pins that were read. -/
def last (first : BitVec 2) (counter : Counter) : BitVec 2 := counter.samples.getLast?.getD first

/-- Only an interrupt lets the counter grow, and the next poll hears of it. -/
def Reduced (resolution : Nat) (counter : Counter) : Prop :=
  counter.pending = false → counter.pulses.natAbs < resolution

/-- What the steps travelled have become, in front of each statement. -/
def Sound (resolution : Nat) (first : BitVec 2) (counter : Counter) : Prop :=
  let total := counter.total resolution
  let travelled := travelled first counter.samples
  let owed := counter.pulses.tdiv resolution
  match counter.next with
  | .readPins => counter.pins = counter.last first ∧ total = travelled ∧ counter.Reduced resolution
  | .compare newStatus | .shift newStatus =>
    counter.last first = newStatus ∧ total + quadratureStep counter.pins newStatus = travelled ∧
      counter.Reduced resolution
  | .merge newStatus =>
    counter.last first = newStatus ∧
      ∃ old : BitVec 8, counter.state = old <<< 2 ∧ total + quadratureStep (old.setWidth 2) newStatus = travelled
  | .call => counter.pins = counter.last first ∧ total + lookUp counter.state = travelled
  | .count state => counter.pins = counter.last first ∧ total + lookUp state = travelled
  | .counterClockwise => counter.pins = counter.last first ∧ total = travelled
  -- the events that have been sent are still in the pulses
  | .clockwise =>
    counter.pins = counter.last first ∧ owed.natAbs < 2 ∧ total = travelled + resolution * max 0 owed
  | .reduce => counter.pins = counter.last first ∧ total = travelled + resolution * owed
  | .clear => counter.pins = counter.last first ∧ total = travelled ∧ owed = 0

/-- An interrupt in front of a statement leaves what the poll has looked at: the sample that it is about to shift
in, or the quotient that its events stand for. -/
def Undisturbed (resolution : Nat) (pins : BitVec 2) (counter : Counter) : Statement → Prop
  | .readPins | .count _ | .counterClockwise => True
  | .compare newStatus | .shift newStatus => pins = newStatus
  | .merge _ | .call => False
  | .clockwise | .reduce | .clear => (counter.count pins).tdiv resolution = counter.pulses.tdiv resolution

def Harmless (resolution : Nat) (pins : BitVec 2) (counter : Counter) : Prop :=
  (-128 ≤ counter.count pins ∧ counter.count pins ≤ 127) ∧ counter.Undisturbed resolution pins counter.next

/-- The pulses fit into the counter, and when they are looked at they are not enough for two events. -/
def TimelyAt (resolution : Nat) (counter : Counter) : Statement → Prop
  | .count state => -128 ≤ counter.pulses + lookUp state ∧ counter.pulses + lookUp state ≤ 127
  | .counterClockwise => counter.pulses.natAbs < 2 * resolution
  | .readPins | .compare _ | .shift _ | .merge _ | .call | .clockwise | .reduce | .clear => True

def Timely (resolution : Nat) (counter : Counter) : Prop := counter.TimelyAt resolution counter.next

variable {resolution : Nat} {first : BitVec 2} {counter : Counter}

theorem Sound.interrupt {pins : BitVec 2} (sound : counter.Sound resolution first)
    (harmless : counter.Harmless resolution pins) : (counter.interrupt pins).Sound resolution first := by
  obtain ⟨fits, harmless⟩ := harmless
  have fits' : narrow (counter.pulses + quadratureStep counter.pins pins) = counter.count pins :=
    (narrow_eq_iff _).mpr fits
  have longer : travelled first (counter.interrupt pins).samples =
      travelled first counter.samples + quadratureStep (counter.last first) pins := travelled_concat _ _ _
  have shifted : (counter.interrupt pins).pins = pins := shiftIn_pins _ _
  have newest : (counter.interrupt pins).last first = pins := by simp [last, Counter.interrupt]
  have more : (counter.interrupt pins).total resolution =
      counter.total resolution + quadratureStep counter.pins pins := by
    simp only [total, Counter.interrupt, fits', count]
    omega
  have pulses : (counter.interrupt pins).pulses = counter.count pins := fits'
  have same : (counter.interrupt pins).next = counter.next := rfl
  have reduced : (counter.interrupt pins).Reduced resolution := fun pending => Bool.noConfusion pending
  unfold Sound at sound ⊢
  simp only [same, longer, shifted, newest, more, pulses, true_and]
  -- the step is in the total at once; what is left is that the poll still finds what it has looked at
  cases next : counter.next <;> rw [next] at sound harmless
  case readPins =>
    obtain ⟨current, account, -⟩ := sound
    rw [← current, account]
    exact ⟨rfl, reduced⟩
  case compare newStatus =>
    obtain ⟨latest, account, -⟩ := sound
    obtain rfl : pins = newStatus := harmless
    rw [latest, account]
    exact ⟨rfl, by rw [quadratureStep_self], reduced⟩
  case shift newStatus =>
    obtain ⟨latest, account, -⟩ := sound
    obtain rfl : pins = newStatus := harmless
    rw [latest, account]
    exact ⟨rfl, by rw [quadratureStep_self], reduced⟩
  case merge => exact harmless.elim
  case call => exact harmless.elim
  case count state =>
    obtain ⟨current, account⟩ := sound
    rw [← current]
    omega
  case counterClockwise =>
    obtain ⟨current, account⟩ := sound
    rw [← current, account]
  case clockwise =>
    obtain ⟨current, one, account⟩ := sound
    rw [← current, harmless, account]
    exact ⟨one, by omega⟩
  case reduce =>
    obtain ⟨current, account⟩ := sound
    rw [← current, harmless, account]
    omega
  case clear =>
    obtain ⟨current, account, none⟩ := sound
    rw [← current, harmless, account]
    exact ⟨rfl, none⟩

theorem Sound.sample (sound : counter.Sound resolution first) (waiting : counter.next = .readPins)
    (pins : BitVec 2) : (counter.sample pins).Sound resolution first := by
  unfold Sound at sound
  rw [waiting] at sound
  obtain ⟨current, account, reduced⟩ := sound
  have longer : travelled first (counter.sample pins).samples =
      travelled first counter.samples + quadratureStep (counter.last first) pins := travelled_concat _ _ _
  refine ⟨by simp [last, Counter.sample], ?_, reduced⟩
  rw [longer, ← current, ← account]
  rfl

theorem Sound.execute (positive : 0 < resolution) (sound : counter.Sound resolution first)
    (timely : counter.Timely resolution) : (counter.execute resolution).Sound resolution first := by
  unfold Sound at sound
  unfold Timely at timely
  rw [Counter.execute]
  cases next : counter.next <;> rw [next] at sound timely
  case readPins =>
    unfold Sound
    rw [next]
    exact sound
  case compare newStatus =>
    obtain ⟨latest, account, reduced⟩ := sound
    dsimp only
    split
    next due => exact ⟨latest, account, reduced⟩
    next idle =>
      simp only [not_or, ne_eq, not_not, Bool.not_eq_true] at idle
      rw [idle.1, quadratureStep_self] at account
      exact ⟨idle.1.trans latest.symm, by simpa [total] using account, reduced⟩
  case shift newStatus =>
    obtain ⟨latest, account, -⟩ := sound
    exact ⟨latest, counter.state, rfl, account⟩
  case merge newStatus =>
    obtain ⟨latest, old, shifted, account⟩ := sound
    have merged : counter.state ||| newStatus.setWidth 8 = shiftIn old newStatus := by rw [shifted, shiftIn]
    refine ⟨?_, ?_⟩
    · show (counter.state ||| newStatus.setWidth 8).setWidth 2 = counter.last first
      rw [merged, shiftIn_pins, latest]
    · show counter.total resolution + lookUp (counter.state ||| newStatus.setWidth 8) = travelled first counter.samples
      rw [merged, lookUp_shiftIn, account]
  case call => exact sound
  case count state =>
    obtain ⟨current, account⟩ := sound
    refine ⟨current, ?_⟩
    show resolution * counter.net + narrow (counter.pulses + lookUp state) = travelled first counter.samples
    rw [(narrow_eq_iff _).mpr timely, ← account, total]
    omega
  case counterClockwise =>
    obtain ⟨current, account⟩ := sound
    refine ⟨current, ?_, ?_⟩
    · exact (natAbs_tdiv_lt_two_iff _ positive).mpr timely
    · -- the pulses stay as they are until the end of the round, so the event is counted twice
      show (resolution * (counter.net + if counter.pulses ≥ resolution then 1 else 0) + counter.pulses : Int) =
        travelled first counter.samples + resolution * max 0 (counter.pulses.tdiv resolution)
      rw [event_of_first_test positive timely, ← account, total, Int.mul_add]
      omega
  case clockwise =>
    obtain ⟨current, one, account⟩ := sound
    refine ⟨current, ?_⟩
    show (resolution * (counter.net - if counter.pulses ≤ -resolution then 1 else 0) + counter.pulses : Int) =
      travelled first counter.samples + resolution * counter.pulses.tdiv resolution
    rw [event_of_second_test positive ((natAbs_tdiv_lt_two_iff _ positive).mp one), Int.mul_sub, Int.mul_sub]
    rw [total] at account
    omega
  case reduce =>
    obtain ⟨current, account⟩ := sound
    refine ⟨current, ?_, ?_⟩
    -- what the remainder gives up is what the events of the round stand for
    · show (resolution * counter.net + counter.pulses.tmod resolution : Int) = travelled first counter.samples
      have parts := Int.mul_tdiv_add_tmod counter.pulses resolution
      rw [total] at account
      omega
    · show (counter.pulses.tmod resolution).tdiv resolution = 0
      rw [tdiv_eq_zero_iff _ positive]
      exact natAbs_tmod_lt _ positive
  case clear =>
    obtain ⟨current, account, none⟩ := sound
    exact ⟨current, account, fun _ => (tdiv_eq_zero_iff _ positive).mp none⟩

/-- A round ends with nothing pending. -/
theorem execute_ends (begun : counter.next ≠ .readPins) (ended : (counter.execute resolution).next = .readPins) :
    (counter.execute resolution).pending = false := by
  rw [Counter.execute] at ended ⊢
  cases next : counter.next <;> rw [next] at ended <;> try exact Statement.noConfusion ended
  case readPins => exact absurd next begun
  case compare newStatus =>
    dsimp only at ended ⊢
    split at ended
    next => exact Statement.noConfusion ended
    next idle =>
      rw [if_neg idle]
      exact Bool.eq_false_iff.mpr fun pending => idle (.inr pending)

end Counter

/-! ## Runs -/

section Accounting

variable (config : Config) (first : Nat → BitVec 2)

theorem resolution_positive (i : Nat) : 0 < (config.resolution i).toNat := by
  have := config.positive i
  rw [Nat.pos_iff_ne_zero]
  intro zero
  exact this (BitVec.eq_of_toNat_eq zero)

/-- The poll is between reading the pins of encoder `i` and being done with it. -/
def InRound (s : State) (i : Nat) : Prop := s.next i ≠ .readPins

/-- At the end of an encoder's round less than one event's worth of pulses is left. -/
def Settled (inputs : List Input) : Prop :=
  ∀ earlier pins i, inputs = earlier ++ [.poll pins] → InRound (run config first earlier) i →
    ¬ InRound (run config first inputs) i →
      ((run config first inputs).encoderPulses i).toInt.natAbs < (config.resolution i).toNat

/-- An interrupt is harmless to its encoder, and the statement of the poll timely for the encoder it has come to. -/
def Fits (s : State) : Input → Prop
  | .interrupt i pins => (view i s).Harmless (config.resolution i).toNat pins
  | .poll _ =>
    match s.poll with
    | some poll => (view poll.i s).Timely (config.resolution poll.i).toNat
    | none => True

def Sound (s : State) : Prop := ∀ i, (view i s).Sound (config.resolution i).toNat (first i)

theorem start_sound : Sound config first (start first) := by
  intro i
  refine ⟨?_, ?_, fun _ => resolution_positive config i⟩
  · simp [Counter.pins, Counter.last, view, start, samplesOf]
  · simp [Counter.total, view, start, net, samplesOf, travelled]

theorem Sound.step {s : State} (sound : Sound config first s) {input : Input} (fits : Fits config s input) :
    Sound config first (step config s input) := by
  intro i
  cases input with
  | interrupt j pins =>
    by_cases here : i = j
    · subst here
      exact view_interrupt i pins s ▸ (sound i).interrupt fits
    · exact view_interrupt_other here pins s ▸ sound i
  | poll pins =>
    show (view i (encoderRead config pins s)).Sound _ _
    rw [encoderRead]
    rw [Fits] at fits
    cases polling : s.poll with
    | none =>
      have same : view i { s with poll := some ⟨0, false, .readPins⟩ } = view i s := by
        simp [view, State.next, polling]
      exact same ▸ sound i
    | some poll =>
      rw [polling] at fits
      obtain ⟨j, changed, next⟩ := poll
      by_cases here : i = j
      · subst here
        by_cases waiting : next = .readPins
        · subst waiting
          have now : (view i s).next = .readPins := by simp [view, State.next, polling]
          simp only [view_readPins config polling pins]
          split
          · exact (sound i).sample now _
          · exact sound i
        · simp only [view_execute config polling waiting pins]
          exact (sound i).execute (resolution_positive config i) fits
      · simp only [view_pollStatement_other config here polling pins]
        exact sound i

theorem Sound.account {s : State} (sound : Sound config first s) {i : Nat} (outside : ¬ InRound s i) :
    Accounted config first s i := by
  have here := sound i
  unfold Counter.Sound at here
  rw [show (view i s).next = .readPins from not_not.mp outside] at here
  exact here.2.1

theorem InRound.poll {s : State} {i : Nat} (inside : InRound s i) :
    ∃ changed next, s.poll = some ⟨i, changed, next⟩ ∧ next ≠ .readPins := by
  unfold InRound State.next at inside
  cases polling : s.poll with
  | none => simp [polling] at inside
  | some poll =>
    obtain ⟨j, changed, next⟩ := poll
    simp only [polling, ne_eq, ite_eq_right_iff, Classical.not_imp] at inside
    obtain ⟨rfl, begun⟩ := inside
    exact ⟨changed, next, rfl, begun⟩

theorem run_append (inputs : List Input) (input : Input) :
    run config first (inputs ++ [input]) = step config (run config first inputs) input := by
  rw [run, run, List.foldl_append]
  rfl

theorem Sound.settled {inputs : List Input} (sound : Sound config first (run config first inputs)) :
    Settled config first inputs := by
  rintro earlier pins i rfl inside outside
  obtain ⟨changed, next, polling, begun⟩ := inside.poll
  have executed : view i (run config first (earlier ++ [.poll pins])) =
      (view i (run config first earlier)).execute (config.resolution i).toNat := by
    rw [run_append]
    show view i (encoderRead config pins _) = _
    rw [encoderRead, polling]
    exact view_execute config polling begun pins
  have waiting : (view i (run config first (earlier ++ [.poll pins]))).next = .readPins := not_not.mp outside
  have here := sound i
  unfold Counter.Sound at here
  rw [waiting] at here
  refine here.2.2 ?_
  rw [executed] at waiting ⊢
  exact Counter.execute_ends inside waiting

theorem sound_of_fits {inputs : List Input}
    (fits : EveryStep (fun earlier => Fits config (run config first earlier)) inputs) :
    Sound config first (run config first inputs) :=
  foldl_everyStep (fun earlier => Fits config (run config first earlier))
    (fun _ s => Sound config first s) (start_sound config first)
    (fun _ _ fits sound => sound.step config first fits) inputs fits

/-- Outside of an encoder's round the events account for every step, and a round leaves less than a detent, in
every run in which the steps fit into the counter, no poll finds two detents in it and no interrupt changes what
the poll has looked at. -/
theorem detents_accounted {inputs : List Input}
    (fits : EveryStep (fun earlier => Fits config (run config first earlier)) inputs) (n : Nat) :
    (∀ i, ¬ InRound (run config first (inputs.take n)) i →
        Accounted config first (run config first (inputs.take n)) i) ∧
      Settled config first (inputs.take n) := by
  have sound := sound_of_fits config first (fits.take n)
  exact ⟨fun i outside => sound.account config first outside, sound.settled config first⟩

end Accounting

/-! ## Runs on one encoder -/

instance (resolution : Nat) (pins : BitVec 2) (counter : Counter) :
    (next : Statement) → Decidable (counter.Undisturbed resolution pins next)
  | .readPins | .count _ | .counterClockwise => .isTrue trivial
  | .compare newStatus | .shift newStatus => inferInstanceAs (Decidable (pins = newStatus))
  | .merge _ | .call => .isFalse id
  | .clockwise | .reduce | .clear => inferInstanceAs (Decidable (_ = _))

instance (resolution : Nat) (counter : Counter) : (next : Statement) → Decidable (counter.TimelyAt resolution next)
  | .count _ => inferInstanceAs (Decidable (_ ∧ _))
  | .counterClockwise => inferInstanceAs (Decidable (_ < _))
  | .readPins | .compare _ | .shift _ | .merge _ | .call | .clockwise | .reduce | .clear => .isTrue trivial

def decidableTimely (config : Config) (s : State) : (poll : Option Poll) →
    Decidable (match poll with
      | some poll => (view poll.i s).Timely (config.resolution poll.i).toNat
      | none => True)
  | some poll =>
    inferInstanceAs (Decidable ((view poll.i s).TimelyAt (config.resolution poll.i).toNat (view poll.i s).next))
  | none => .isTrue trivial

instance (config : Config) (s : State) : (input : Input) → Decidable (Fits config s input)
  | .interrupt _ _ => inferInstanceAs (Decidable (_ ∧ Counter.Undisturbed _ _ _ _))
  | .poll _ => decidableTimely config s s.poll

def oneEncoder : Config where
  thisCount := 1
  resolution _ := 4
  positive _ := by decide

/-- One detent. -/
def turnOnce : List Input := [2, 3, 1, 0].map (.interrupt 0)

/-- Statements of a poll. -/
def pollFor (count : Nat) (pins : BitVec 2) : List Input := List.replicate count (.poll fun _ => pins)

/-- The next detent begins before the poll has cleared the flag of the interrupt. -/
def lateStep : List Input := turnOnce ++ pollFor 10 0 ++ [.interrupt 0 2] ++ pollFor 2 2

theorem lateStep_accounted :
    EveryStep (fun earlier => Fits oneEncoder (run oneEncoder (fun _ => 0) earlier)) lateStep ∧
      ((∀ i, ¬ InRound (run oneEncoder (fun _ => 0) (lateStep.take 17)) i →
          Accounted oneEncoder (fun _ => 0) (run oneEncoder (fun _ => 0) (lateStep.take 17)) i) ∧
        Settled oneEncoder (fun _ => 0) (lateStep.take 17)) := by
  have fits : EveryStep (fun earlier => Fits oneEncoder (run oneEncoder (fun _ => 0) earlier)) lateStep := by
    decide +kernel
  exact ⟨fits, detents_accounted oneEncoder (fun _ => 0) fits 17⟩

/-- Two detents between two polls. -/
def quickTurn : List Input := turnOnce ++ turnOnce ++ pollFor 12 0

/-- The poll emits one event for the two detents and drops the other. -/
theorem quickTurn_loses_detent :
    ¬ InRound (run oneEncoder (fun _ => 0) quickTurn) 0 ∧
      ¬ Accounted oneEncoder (fun _ => 0) (run oneEncoder (fun _ => 0) quickTurn) 0 := by
  unfold InRound Accounted
  decide

end QmkFirmware.Encoder
