import QmkFirmware.Foundations.Holding
import QmkFirmware.Foundations.Runs
import Mathlib.Tactic

/-! # The factory reset

A shallow embedding of the key combinations of `keyboards/keychron/common/factory_test.c`.  The bits of
`factory_reset_state` are the keys that are down, the timer runs from the moment that a combination is
complete, and the release of any key of a combination stops it.  What a reset does to the rest of the
keyboard is not part of the model. -/

namespace QmkFirmware.FactoryTest

open Holding

abbrev Keycode : Type := BitVec 16

def kcJ : Keycode := 0x000D
def kcZ : Keycode := 0x001D
def qkBacklightOn : Keycode := 0x7800
def rgbModeTwinkle : Keycode := 0x7834

def backlightTestOff : BitVec 8 := 0
def backlightTestWhite : BitVec 8 := 1
def backlightTestMax : BitVec 8 := 5

/-! ## The model -/

/-- The bits of `factory_reset_state`, in their order. -/
inductive Key where
  | fn
  | j
  | z
  | blKey1
  | blKey2
deriving DecidableEq

def Key.index : Key → Nat
  | .fn => 0
  | .j => 1
  | .z => 2
  | .blKey1 => 3
  | .blKey2 => 4

def Key.bit (key : Key) : BitVec 8 := 0x01 <<< key.index

def keyPressFactoryReset : BitVec 8 := Key.fn.bit ||| Key.j.bit ||| Key.z.bit

def keyPressBacklightTest : BitVec 8 := Key.fn.bit ||| Key.blKey1.bit ||| Key.blKey2.bit

/-- The key codes `FN_KEY_1` to `FN_KEY_3`, `FN_Z_KEY`, `BL_CYCLE_KEY` and `FN_BL_CYCLE_KEY`, `BL_TRIG_KEY`
and `FN_BL_TRIG_KEY`, as far as a keyboard defines them. -/
structure Config where
  fnKeys : List Keycode
  fnZKey : Option Keycode
  blCycleKeys : List Keycode
  blTrigKeys : List Keycode

/-- The labels of the `switch`. -/
def Config.label (config : Config) (keycode : Keycode) : Option Key :=
  if keycode ∈ config.fnKeys then some .fn
  else if keycode = kcJ then some .j
  else if keycode = kcZ ∨ config.fnZKey = some keycode then some .z
  else if keycode ∈ config.blCycleKeys then some .blKey1
  else if keycode ∈ config.blTrigKeys then some .blKey2
  else none

structure State where
  factoryResetTimer : BitVec 32
  factoryResetState : BitVec 8
  backlightTestMode : BitVec 8
  factoryResetIndTimer : BitVec 32
  factoryResetIndState : BitVec 8
  keysReleased : Bool

def start : State := ⟨0, 0, backlightTestOff, 0, 0, true⟩

/-- `timer_read32` at a time in milliseconds. -/
def timerRead32 (now : Nat) : BitVec 32 := BitVec.ofNat 32 now

def timerElapsed32 (last : BitVec 32) (now : Nat) : BitVec 32 := timerRead32 now - last

def factoryTimerStart (now : Nat) (s : State) : State := { s with factoryResetTimer := timerRead32 now }

def press (key : Key) (s : State) : State := { s with factoryResetState := s.factoryResetState ||| key.bit }

def release (key : Key) (s : State) : State :=
  { s with
    factoryResetState := s.factoryResetState &&& ~~~key.bit
    factoryResetTimer := 0 }

/-- A key is pressed, and the timer starts when that makes the combination complete. -/
def pressOf (combination : BitVec 8) (key : Key) (now : Nat) (s : State) : State :=
  let s := press key s
  if s.factoryResetState = combination then factoryTimerStart now s else s

section Machine

variable (config : Config)

/-- Whether the key goes on, and the state. -/
def processRecordFactoryTest (keycode : Keycode) (pressed : Bool) (now : Nat) (s : State) : Bool × State :=
  match config.label keycode with
  | none => (true, s)
  | some .fn => (true, if pressed then press .fn s else release .fn s)
  | some .j =>
    if pressed then
      let s := pressOf 0x07 .j now s
      (decide (s.factoryResetState &&& Key.fn.bit = 0), s)
    else (true, release .j s)
  | some .z =>
    if pressed then
      let s := pressOf 0x07 .z now s
      (!(decide (s.factoryResetState &&& Key.fn.bit ≠ 0) && decide (keycode = kcZ)), s)
    else
      let s := release .z s
      if !s.keysReleased && decide (qkBacklightOn ≤ keycode) && decide (keycode ≤ rgbModeTwinkle) then
        (false, { s with keysReleased := true })
      else (true, s)
  | some .blKey1 =>
    if pressed then
      if s.backlightTestMode ≠ 0 then
        let mode := s.backlightTestMode + 1
        (true, { s with backlightTestMode := if mode ≥ backlightTestMax then backlightTestWhite else mode })
      else (true, pressOf 0x19 .blKey1 now s)
    else (true, release .blKey1 s)
  | some .blKey2 =>
    if pressed then
      if s.backlightTestMode ≠ 0 then (true, { s with backlightTestMode := backlightTestOff })
      else (true, pressOf 0x19 .blKey2 now s)
    else (true, release .blKey2 s)

/-- Whether `eeconfig_init` runs, and the state. -/
def factoryTimerCheck (now : Nat) (s : State) : Bool × State :=
  if timerElapsed32 s.factoryResetTimer now > 3000 then
    let s := { s with factoryResetTimer := 0 }
    if s.factoryResetState = keyPressFactoryReset then
      (true, { s with
        factoryResetIndTimer := timerRead32 now
        factoryResetIndState := s.factoryResetIndState + 1
        keysReleased := false
        factoryResetState := 0 })
    else if s.factoryResetState = keyPressBacklightTest then
      (false, { s with backlightTestMode := backlightTestWhite, factoryResetState := 0 })
    else (false, { s with factoryResetState := 0 })
  else (false, s)

def factoryResetIndTimerCheck (now : Nat) (s : State) : State :=
  if s.factoryResetIndTimer ≠ 0 ∧ timerElapsed32 s.factoryResetIndTimer now > 250 then
    if s.factoryResetIndState > 6 then { s with factoryResetIndTimer := 0, factoryResetIndState := 0 }
    else
      { s with
        factoryResetIndState := s.factoryResetIndState + 1
        factoryResetIndTimer := timerRead32 now }
  else s

def factoryTestTask (now : Nat) (s : State) : Bool × State :=
  let (resets, s) := if s.factoryResetTimer ≠ 0 then factoryTimerCheck now s else (false, s)
  (resets, if s.factoryResetIndTimer ≠ 0 then factoryResetIndTimerCheck now s else s)

/-- `FACTORY_TEST_CMD_BACKLIGHT` with its checksum right. -/
def factoryTestBacklight (mode : BitVec 8) (s : State) : State :=
  { s with backlightTestMode := mode, factoryResetTimer := 0 }

/-- What `factory_test_indicator` does besides setting colours. -/
def factoryTestIndicator (s : State) : State :=
  if s.factoryResetIndState ≠ 0 then { s with backlightTestMode := backlightTestOff } else s

inductive Action where
  | key (keycode : Keycode) (pressed : Bool)
  | task
  | backlight (mode : BitVec 8)
  | indicator

structure Event where
  time : Nat
  action : Action

instance : Timed Event Keycode where
  time event := event.time
  change event :=
    match event.action with
    | .key keycode pressed => some (keycode, pressed)
    | _ => none

/-- Whether the event resets the keyboard, and the state. -/
def step (s : State) (event : Event) : Bool × State :=
  match event.action with
  | .key keycode pressed => (false, (processRecordFactoryTest config keycode pressed event.time s).2)
  | .task => factoryTestTask event.time s
  | .backlight mode => (false, factoryTestBacklight mode s)
  | .indicator => (false, factoryTestIndicator s)

def run (events : List Event) : State := events.foldl (fun s event => (step config s event).2) start

/-- For more than three seconds an FN key, J and Z have been held. -/
def ChordHeld (history : List Event) (now : Nat) : Prop :=
  ∃ since, since + 3000 < now ∧
    ∀ key ∈ [Key.fn, Key.j, Key.z], ∃ keycode, config.label keycode = some key ∧ HeldSince history keycode since

/-! ## Bits -/

def Down (s : State) (key : Key) : Prop := s.factoryResetState.getLsbD key.index = true

theorem press_down (s : State) (key other : Key) : Down (press key s) other ↔ Down s other ∨ other = key := by
  rw [Down, Down, press, BitVec.getLsbD_or]
  cases key <;> cases other <;> simp [Key.bit, Key.index]

theorem release_down (s : State) (key other : Key) : Down (release key s) other ↔ Down s other ∧ other ≠ key := by
  rw [Down, Down, release]
  cases key <;> cases other <;> simp [Key.bit, Key.index]

theorem down_of_reset {s : State} (complete : s.factoryResetState = 0x07) (key : Key) :
    Down s key ↔ key ∈ [Key.fn, Key.j, Key.z] := by
  rw [Down, complete]
  cases key <;> decide

theorem down_of_backlightTest {s : State} (complete : s.factoryResetState = 0x19) (key : Key) :
    Down s key ↔ key ∈ [Key.fn, Key.blKey1, Key.blKey2] := by
  rw [Down, complete]
  cases key <;> decide

/-! ## What the bits and the timer stand for -/

/-- The timer was started by one of the two combinations, whose keys have been held since. -/
structure Started (history : List Event) (s : State) (since : Nat) (combination : List Key) : Prop where
  timer : s.factoryResetTimer = timerRead32 since
  begun : ∃ event ∈ history, event.time = since
  one : combination = [.fn, .j, .z] ∨ combination = [.fn, .blKey1, .blKey2]
  held : ∀ key ∈ combination, Down s key ∧ ∃ keycode, config.label keycode = some key ∧ HeldSince history keycode since

structure Inv (history : List Event) (s : State) : Prop where
  down : ∀ key, Down s key → ∃ keycode, config.label keycode = some key ∧ ∃ since, HeldSince history keycode since
  running : s.factoryResetTimer ≠ 0 → ∃ since combination, Started config history s since combination

/-- The bits and the timer are as in another state. -/
structure Same (s after : State) : Prop where
  bits : after.factoryResetState = s.factoryResetState
  timer : after.factoryResetTimer = s.factoryResetTimer

variable {config} {history : List Event} {event : Event} {s after : State} {keycode : Keycode} {key : Key}

theorem Same.down_iff (same : Same s after) (key : Key) : Down after key ↔ Down s key := by
  rw [Down, Down, same.bits]

theorem Inv.same (inv : Inv config history s) (same : Same s after) : Inv config history after := by
  refine ⟨fun key down => inv.down key ((same.down_iff key).mp down), fun running => ?_⟩
  rw [same.timer] at running
  obtain ⟨since, combination, started⟩ := inv.running running
  refine ⟨since, combination, same.timer.trans started.timer, started.begun, started.one, fun key member => ?_⟩
  obtain ⟨down, held⟩ := started.held key member
  exact ⟨(same.down_iff key).mpr down, held⟩

theorem Inv.stop (inv : Inv config history s) (bits : ∀ key, Down after key → Down s key)
    (stopped : after.factoryResetTimer = 0) : Inv config history after :=
  ⟨fun key down => inv.down key (bits key down), fun running => absurd stopped running⟩

/-- An event that releases no key of a combination keeps what is held. -/
theorem Inv.keep (inv : Inv config history s)
    (kept : ∀ keycode, Timed.change event = some (keycode, false) → config.label keycode = none) :
    Inv config (history ++ [event]) s := by
  have keeps : ∀ {keycode key since}, config.label keycode = some key → HeldSince history keycode since →
      HeldSince (history ++ [event]) keycode since := by
    intro keycode key since label held
    refine held.keep fun released => ?_
    rw [kept keycode released] at label
    cases label
  constructor
  · intro key down
    obtain ⟨keycode, label, since, held⟩ := inv.down key down
    exact ⟨keycode, label, since, keeps label held⟩
  · intro running
    obtain ⟨since, combination, started⟩ := inv.running running
    obtain ⟨first, member, time⟩ := started.begun
    refine ⟨since, combination, started.timer, ⟨first, List.mem_append_left _ member, time⟩, started.one, ?_⟩
    intro key member
    obtain ⟨down, keycode, label, held⟩ := started.held key member
    exact ⟨down, keycode, label, keeps label held⟩

theorem Inv.press (inv : Inv config history s) (label : config.label keycode = some key)
    (pressed : Timed.change event = some (keycode, true)) :
    Inv config (history ++ [event]) (press key s) := by
  have kept : Inv config (history ++ [event]) s := inv.keep fun keycode released => by
    rw [pressed] at released
    cases released
  constructor
  · intro other down
    rcases (press_down s key other).mp down with before | rfl
    · exact kept.down other before
    · exact ⟨keycode, label, _, HeldSince.press pressed⟩
  · intro running
    obtain ⟨since, combination, started⟩ := kept.running running
    refine ⟨since, combination, started.timer, started.begun, started.one, fun other member => ?_⟩
    obtain ⟨down, held⟩ := started.held other member
    exact ⟨(press_down s key other).mpr (.inl down), held⟩

theorem Inv.start {now : Nat} (inv : Inv config history s) (past : ∀ event ∈ history, event.time ≤ now)
    (last : ∃ event ∈ history, event.time = now) (complete : s.factoryResetState = 0x07 ∨ s.factoryResetState = 0x19) :
    Inv config history (factoryTimerStart now s) := by
  have held : ∀ key, Down s key → Down s key ∧ ∃ keycode, config.label keycode = some key ∧
      HeldSince history keycode now := by
    intro key down
    obtain ⟨keycode, label, since, held⟩ := inv.down key down
    exact ⟨down, keycode, label, held.until past⟩
  refine ⟨inv.down, fun _ => ?_⟩
  rcases complete with complete | complete
  · exact ⟨now, [.fn, .j, .z], rfl, last, .inl rfl, fun key member => held key ((down_of_reset complete key).mpr member)⟩
  · exact ⟨now, [.fn, .blKey1, .blKey2], rfl, last, .inr rfl,
      fun key member => held key ((down_of_backlightTest complete key).mpr member)⟩

/-- The release of a key of a combination takes the bit of the key and stops the timer. -/
theorem Inv.release (inv : Inv config history s) (label : config.label keycode = some key)
    (released : Timed.change event = some (keycode, false)) :
    Inv config (history ++ [event]) (release key s) := by
  refine ⟨fun other down => ?_, fun running => absurd rfl running⟩
  obtain ⟨before, different⟩ := (release_down s key other).mp down
  obtain ⟨held, label', since, down⟩ := inv.down other before
  refine ⟨held, label', since, down.keep fun same => ?_⟩
  rw [released] at same
  cases same
  rw [label] at label'
  exact different (Option.some.inj label').symm

/-! ## One event -/

theorem change_iff {pressed : Bool} :
    Timed.change event = some (keycode, pressed) ↔ event.action = .key keycode pressed := by
  cases event with
  | mk time action => cases action <;> simp [Timed.change]

theorem Inv.pressOf {combination : BitVec 8} (inv : Inv config history s) (label : config.label keycode = some key)
    (pressed : Timed.change event = some (keycode, true)) (past : ∀ earlier ∈ history, earlier.time ≤ event.time)
    (complete : combination = 0x07 ∨ combination = 0x19) :
    Inv config (history ++ [event]) (pressOf combination key event.time s) := by
  have down := inv.press label pressed
  rw [FactoryTest.pressOf]
  split
  · next same =>
    refine down.start ?_ ⟨event, by simp, rfl⟩ (complete.imp same.trans same.trans)
    intro earlier member
    rcases List.mem_append.mp member with before | last
    · exact past earlier before
    · rw [List.mem_singleton.mp last]
  · exact down

theorem Inv.keyEvent {pressed : Bool} (inv : Inv config history s) (past : ∀ earlier ∈ history, earlier.time ≤ event.time)
    (action : event.action = .key keycode pressed) :
    Inv config (history ++ [event]) (processRecordFactoryTest config keycode pressed event.time s).2 := by
  have change : Timed.change event = some (keycode, pressed) := change_iff.mpr action
  have keep : config.label keycode = none ∨ pressed = true → Inv config (history ++ [event]) s := by
    intro harmless
    refine inv.keep fun other released => ?_
    rw [change] at released
    cases released
    rcases harmless with label | pressed
    · exact label
    · cases pressed
  unfold processRecordFactoryTest
  cases label : config.label keycode with
  | none => exact keep (.inl label)
  | some key =>
    cases pressed with
    | false =>
      have released := inv.release label change
      cases key with
      | fn => exact released
      | j => exact released
      | z =>
        simp only [Bool.false_eq_true, if_false]
        split
        · exact released.same ⟨rfl, rfl⟩
        · exact released
      | blKey1 => exact released
      | blKey2 => exact released
    | true =>
      cases key with
      | fn => exact inv.press label change
      | j => exact inv.pressOf label change past (.inl rfl)
      | z => exact inv.pressOf label change past (.inl rfl)
      | blKey1 =>
        simp only [if_true]
        split
        · exact (keep (.inr rfl)).same ⟨rfl, rfl⟩
        · exact inv.pressOf label change past (.inr rfl)
      | blKey2 =>
        simp only [if_true]
        split
        · exact (keep (.inr rfl)).same ⟨rfl, rfl⟩
        · exact inv.pressOf label change past (.inr rfl)

theorem Inv.check {now : Nat} (inv : Inv config history s) : Inv config history (factoryTimerCheck now s).2 := by
  unfold factoryTimerCheck
  split
  · dsimp only
    have cleared : ∀ after : State, after.factoryResetState = 0 → after.factoryResetTimer = 0 →
        Inv config history after := by
      intro after bits timer
      refine inv.stop (fun key down => ?_) timer
      rw [Down, bits] at down
      simp at down
    split
    · exact cleared _ rfl rfl
    · split
      · exact cleared _ rfl rfl
      · exact cleared _ rfl rfl
  · exact inv

theorem indTimerCheck_same (now : Nat) (s : State) : Same s (factoryResetIndTimerCheck now s) := by
  unfold factoryResetIndTimerCheck
  split
  · split
    · exact ⟨rfl, rfl⟩
    · exact ⟨rfl, rfl⟩
  · exact ⟨rfl, rfl⟩

theorem Inv.task {now : Nat} (inv : Inv config history s) : Inv config history (factoryTestTask now s).2 := by
  unfold factoryTestTask
  by_cases running : s.factoryResetTimer ≠ 0
  · simp only [if_pos running]
    split
    · exact inv.check.same (indTimerCheck_same _ _)
    · exact inv.check
  · simp only [if_neg running]
    split
    · exact inv.same (indTimerCheck_same _ _)
    · exact inv

theorem Inv.step (inv : Inv config history s) (past : ∀ earlier ∈ history, earlier.time ≤ event.time) :
    Inv config (history ++ [event]) (step config s event).2 := by
  have keep : (∀ keycode pressed, event.action ≠ .key keycode pressed) → Inv config (history ++ [event]) s := by
    intro other
    exact inv.keep fun keycode released => absurd (change_iff.mp released) (other keycode false)
  unfold FactoryTest.step
  cases action : event.action with
  | key keycode pressed => exact inv.keyEvent past action
  | task => exact (keep fun _ _ => by simp [action]).task
  | backlight mode => exact (keep fun _ _ => by simp [action]).stop (fun _ down => down) rfl
  | indicator =>
    dsimp only
    rw [factoryTestIndicator]
    split
    · exact (keep fun _ _ => by simp [action]).same ⟨rfl, rfl⟩
    · exact keep fun _ _ => by simp [action]

/-! ## Whole runs -/

theorem inv_start : Inv config [] start :=
  ⟨fun key down => by simp [Down, start] at down, fun running => absurd rfl running⟩

/-- The difference of two readings is not more than the time between them. -/
theorem elapsed_le {since now : Nat} (past : since ≤ now) :
    (timerElapsed32 (timerRead32 since) now).toNat ≤ now - since := by
  rw [timerElapsed32, timerRead32, timerRead32, BitVec.toNat_sub, BitVec.toNat_ofNat, BitVec.toNat_ofNat]
  omega

theorem resets_held {now : Nat} (inv : Inv config history s) (past : ∀ earlier ∈ history, earlier.time ≤ now)
    (resets : (factoryTestTask now s).1 = true) : ChordHeld config history now := by
  unfold factoryTestTask at resets
  by_cases running : s.factoryResetTimer ≠ 0
  · obtain ⟨since, combination, started⟩ := inv.running running
    obtain ⟨first, member, begun⟩ := started.begun
    simp only [if_pos running] at resets
    unfold factoryTimerCheck at resets
    split at resets
    · next expired =>
      dsimp only at resets
      split at resets
      · next complete =>
        have chord : combination = [.fn, .j, .z] := by
          refine started.one.resolve_right fun other => ?_
          subst other
          have down := (started.held .blKey1 (by simp)).1
          exact absurd ((down_of_reset complete .blKey1).mp down) (by decide)
        subst chord
        rw [started.timer] at expired
        have long : 3000 < (timerElapsed32 (timerRead32 since) now).toNat := expired
        have bound := elapsed_le (begun ▸ past first member : since ≤ now)
        exact ⟨since, by omega, fun key member => (started.held key member).2⟩
      · split at resets <;> cases resets
    · cases resets
  · simp only [if_neg running] at resets
    cases resets

theorem inv_run (events : List Event) (monotone : events.Pairwise fun earlier later => earlier.time ≤ later.time) :
    Inv config events (run config events) := by
  induction events using List.reverseRecOn with
  | nil => exact inv_start
  | append_singleton events event ih =>
    obtain ⟨before, -, past⟩ := List.pairwise_append.mp monotone
    rw [run, List.foldl_append]
    exact (ih before).step fun earlier member => past earlier member event List.mem_cons_self

/-- A run resets the keyboard only when the three keys have been held for more than three seconds. -/
theorem reset_needs_chord (config : Config) (events : List Event)
    (monotone : events.Pairwise fun earlier later => earlier.time ≤ later.time) {before after : List Event}
    {event : Event} (split : events = before ++ event :: after)
    (resets : (FactoryTest.step config (run config before) event).1 = true) :
    ChordHeld config before event.time := by
  rw [split] at monotone
  obtain ⟨earlier, -, past⟩ := List.pairwise_append.mp monotone
  have inv := @inv_run config before earlier
  unfold FactoryTest.step at resets
  cases action : event.action with
  | task =>
    rw [action] at resets
    exact resets_held inv (fun first member => past first member event List.mem_cons_self) resets
  | key keycode pressed =>
    rw [action] at resets
    cases resets
  | backlight mode =>
    rw [action] at resets
    cases resets
  | indicator =>
    rw [action] at resets
    cases resets

/-- The keys of the Q3 Max: `MO(1)` and `MO(3)`. -/
def q3Max : Config := ⟨[0x5221, 0x5223], none, [0x004F], [0x004A]⟩

def resetEvents : List Event :=
  [⟨1, .key 0x5221 true⟩, ⟨2, .key kcJ true⟩, ⟨900, .key 0x0004 true⟩, ⟨1000, .key kcZ true⟩, ⟨4000, .task⟩, ⟨4001, .task⟩]

theorem resetEvents_reset : ChordHeld q3Max (resetEvents.take 5) 4001 :=
  have resets : (FactoryTest.step q3Max (run q3Max (resetEvents.take 5)) ⟨4001, .task⟩).1 = true := by decide
  reset_needs_chord q3Max resetEvents (by decide) rfl resets

end Machine

end QmkFirmware.FactoryTest
