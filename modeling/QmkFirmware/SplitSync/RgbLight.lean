import Mathlib.Data.List.Induction
import QmkFirmware.Foundations.Runs

/-! # Split RGB light

A shallow embedding of the part of `quantum/rgblight/rgblight.c` that changes the configuration and
synchronises it (`RGBLIGHT_SPLIT`, with `RGBLIGHT_LAYERS` and `RGBLIGHT_USE_TIMER`), and of its
handlers in `quantum/split_common/transactions.c`.  What is shown on the LEDs and what is written to
the EEPROM is left out.  Every transaction succeeds.
-/

namespace QmkFirmware.SplitSync.RgbLight

open QmkFirmware.Runs

/-! ## The model -/

/-- The effects of which `rgblight_sethsv_eeprom_helper` ignores a part of the colour. -/
inductive Effect where
  | breathing
  | rainbowMood
  | rainbowSwirl
  | other
deriving DecidableEq

/-- `RGBLIGHT_MODES`, `RGBLIGHT_LIMIT_VAL`, `FORCED_SYNC_THROTTLE_MS`, `is_static_effect`, and the
effect of a mode by `mode_base_table`.  A mode is stored in six bits. -/
structure Config where
  modes : BitVec 8
  limitVal : BitVec 8
  throttle : BitVec 32
  isStaticEffect : BitVec 8 → Bool
  effect : BitVec 8 → Effect
  some : 1 ≤ modes
  stored : modes < 64

/-- `rgblight_config` and `rgblight_status` of a half, which together are a `rgblight_syncinfo_t`. -/
structure Side where
  enable : Bool
  mode : BitVec 8
  hue : BitVec 8
  sat : BitVec 8
  val : BitVec 8
  timerEnabled : Bool
  changeFlags : BitVec 8
  enabledLayerMask : BitVec 32
deriving DecidableEq

def changeMode : BitVec 8 := 1 <<< 0
def changeHsvs : BitVec 8 := 1 <<< 1
def changeTimer : BitVec 8 := 1 <<< 2
def animationTick : BitVec 8 := 1 <<< 3
def changeLayers : BitVec 8 := 1 <<< 4

/-- `RGBLIGHT_MODE_STATIC_LIGHT`. -/
def modeStaticLight : BitVec 8 := 1

section Machine

variable (config : Config)

def Side.setChange (flag : BitVec 8) (side : Side) : Side := { side with changeFlags := side.changeFlags ||| flag }

def clampMode (mode : BitVec 8) : BitVec 8 :=
  if mode < modeStaticLight then modeStaticLight else if mode > config.modes then config.modes else mode

def rgblightCheckConfig (side : Side) : Side :=
  { side with
    mode := clampMode config side.mode
    val := if side.val > config.limitVal then config.limitVal else side.val }

/-- `eeconfig_update_rgblight`, which also checks what it is about to store. -/
def eeconfigUpdateRgblight (writeToEeprom : Bool) (side : Side) : Side :=
  if writeToEeprom then rgblightCheckConfig config side else side

def rgblightTimerEnable (side : Side) : Side :=
  { side with timerEnabled := side.timerEnabled || !config.isStaticEffect side.mode }.setChange changeTimer

def rgblightTimerDisable (side : Side) : Side := { side with timerEnabled := false }.setChange changeTimer

def rgblightTimerToggle (side : Side) : Side :=
  if side.timerEnabled then rgblightTimerDisable side else rgblightTimerEnable config side

/-- The effect that decides what a colour means. -/
def effectOf (mode : BitVec 8) : Effect := if mode = modeStaticLight then .other else config.effect mode

def rgblightSethsvEepromHelper (hue sat val : BitVec 8) (writeToEeprom : Bool) (side : Side) : Side :=
  if side.enable then
    let side := if side.hue ≠ hue ∨ side.sat ≠ sat ∨ side.val ≠ val then side.setChange changeHsvs else side
    let effect := effectOf config side.mode
    let val := if effect = .breathing then side.val else val
    let hue := if effect = .rainbowMood ∨ effect = .rainbowSwirl then side.hue else hue
    eeconfigUpdateRgblight config writeToEeprom { side with hue := hue, sat := sat, val := val }
  else side

def rgblightModeEepromHelper (mode : BitVec 8) (writeToEeprom : Bool) (side : Side) : Side :=
  if side.enable then
    let side := { side with mode := clampMode config mode }.setChange changeMode
    let side := eeconfigUpdateRgblight config writeToEeprom side
    let side := if config.isStaticEffect side.mode then rgblightTimerDisable side else rgblightTimerEnable config side
    rgblightSethsvEepromHelper config side.hue side.sat side.val false side
  else side

/-- `rgblight_enable` and `rgblight_enable_noeeprom`. -/
def rgblightEnable (writeToEeprom : Bool) (side : Side) : Side :=
  rgblightModeEepromHelper config side.mode writeToEeprom { side with enable := true }

/-- `rgblight_disable` and `rgblight_disable_noeeprom`. -/
def rgblightDisable (writeToEeprom : Bool) (side : Side) : Side :=
  (rgblightTimerDisable (eeconfigUpdateRgblight config writeToEeprom { side with enable := false })).setChange
    changeMode

/-- A status and a configuration before `rgblight_init`. -/
def Side.zero : Side := ⟨false, 0, 0, 0, 0, false, 0, 0⟩

/-- `rgblight_init`, where `stored` is the configuration it reads last. -/
def rgblightInit (stored : Side) : Side :=
  let side := { Side.zero with
    enable := stored.enable, mode := stored.mode, hue := stored.hue, sat := stored.sat, val := stored.val }
  let side := rgblightCheckConfig config (side.setChange (changeMode ||| changeHsvs))
  let side := { side with timerEnabled := false }.setChange changeTimer
  if side.enable then rgblightModeEepromHelper config side.mode false side else side

def rgblightSetLayerState (layer : BitVec 8) (enabled : Bool) (side : Side) : Side :=
  let mask := (1 : BitVec 32) <<< layer.toNat
  { side with
    enabledLayerMask := if enabled then side.enabledLayerMask ||| mask else side.enabledLayerMask &&& ~~~mask
  }.setChange changeLayers

/-- `rgblight_update_sync` without EEPROM.  A restart of the animation changes nothing else. -/
def rgblightUpdateSync (syncinfo side : Side) : Side :=
  let side :=
    if syncinfo.changeFlags &&& changeLayers ≠ 0 then { side with enabledLayerMask := syncinfo.enabledLayerMask }
    else side
  let side :=
    if syncinfo.changeFlags &&& changeMode ≠ 0 then
      if syncinfo.enable then rgblightModeEepromHelper config syncinfo.mode false { side with enable := true }
      else rgblightDisable config false side
    else side
  let side :=
    if syncinfo.changeFlags &&& changeHsvs ≠ 0 then
      rgblightSethsvEepromHelper config syncinfo.hue syncinfo.sat syncinfo.val false side
    else side
  if syncinfo.changeFlags &&& changeTimer ≠ 0 then
    if syncinfo.timerEnabled then rgblightTimerEnable config side else rgblightTimerDisable side
  else side

inductive Change where
  | enable (writeToEeprom : Bool)
  | disable (writeToEeprom : Bool)
  | mode (mode : BitVec 8) (writeToEeprom : Bool)
  | sethsv (hue sat val : BitVec 8) (writeToEeprom : Bool)
  | setLayerState (layer : BitVec 8) (enabled : Bool)
  | timerEnable
  | timerDisable
  | timerToggle
  | animationTick

def Change.make : Change → Side → Side
  | .enable writeToEeprom => rgblightEnable config writeToEeprom
  | .disable writeToEeprom => rgblightDisable config writeToEeprom
  | .mode newMode writeToEeprom => rgblightModeEepromHelper config newMode writeToEeprom
  | .sethsv hue sat val writeToEeprom => rgblightSethsvEepromHelper config hue sat val writeToEeprom
  | .setLayerState layer enabled => rgblightSetLayerState layer enabled
  | .timerEnable => rgblightTimerEnable config
  | .timerDisable => rgblightTimerDisable
  | .timerToggle => rgblightTimerToggle config
  | .animationTick => Side.setChange RgbLight.animationTick

structure State where
  master : Side
  lastUpdate : BitVec 32
  /-- The slave's copy of `split_shmem->rgblight_sync`. -/
  rgblightSync : Side
  slave : Side

/-- `now` is read before the transaction and `stamp` after it. -/
def rgblightHandlersMaster (now stamp : BitVec 32) (s : State) : State :=
  let s :=
    if config.throttle ≤ now - s.lastUpdate ∨ s.master.changeFlags ≠ 0 then
      { s with rgblightSync := s.master, lastUpdate := stamp }
    else s
  { s with master := { s.master with changeFlags := 0 } }

def rgblightHandlersSlave (s : State) : State :=
  let rgblightSync := s.rgblightSync
  let s := { s with rgblightSync := { s.rgblightSync with changeFlags := 0 } }
  if rgblightSync.changeFlags ≠ 0 then { s with slave := rgblightUpdateSync config rgblightSync s.slave } else s

inductive Input where
  | change (change : Change)
  | sync (now stamp : BitVec 32)
  | consume

def step (s : State) : Input → State
  | .change change => { s with master := change.make config s.master }
  | .sync now stamp => rgblightHandlersMaster config now stamp s
  | .consume => rgblightHandlersSlave config s

/-- Both halves have read their EEPROM. -/
def boot (stored slaveStored : Side) : State :=
  ⟨rgblightInit config stored, 0, Side.zero, rgblightInit config slaveStored⟩

def run (start : State) (inputs : List Input) : State := inputs.foldl (step config) start

end Machine

/-! ## Agreement -/

/-- What one change flag stands for. -/
inductive Part where
  | mode
  | hsvs
  | layers
deriving DecidableEq

def Part.flag : Part → BitVec 8
  | mode => changeMode
  | hsvs => changeHsvs
  | layers => changeLayers

def flagged (part : Part) (side : Side) : Prop := side.changeFlags &&& part.flag ≠ 0

instance (part : Part) (side : Side) : Decidable (flagged part side) := inferInstanceAs (Decidable (_ ≠ _))

/-- The two halves agree on the part. -/
def Agree (part : Part) (one other : Side) : Prop :=
  match part with
  | .mode => one.enable = other.enable ∧ one.mode = other.mode
  | .hsvs => one.hue = other.hue ∧ one.sat = other.sat ∧ one.val = other.val
  | .layers => one.enabledLayerMask = other.enabledLayerMask

instance (part : Part) (one other : Side) : Decidable (Agree part one other) := by
  cases part <;> unfold Agree <;> infer_instance

/-! ## What can go wrong -/

section Conditions

variable (config : Config)

/-- The change writes a colour that exceeds the limit to the EEPROM, which corrects it without a flag. -/
def Corrects (change : Change) (side : Side) : Prop :=
  config.limitVal < side.val ∧ ¬ flagged .hsvs side ∧
    match change with
    | .enable writeToEeprom | .disable writeToEeprom => writeToEeprom = true
    | .mode _ writeToEeprom => side.enable = true ∧ writeToEeprom = true
    | .sethsv hue sat val writeToEeprom =>
      side.enable = true ∧ writeToEeprom = true ∧ side.hue = hue ∧ side.sat = sat ∧ side.val = val
    | _ => False

/-- The slave's copy holds a change that the slave has not seen and that this sending does not carry. -/
def Overwrites (s : State) (part : Part) : Prop :=
  flagged part s.rgblightSync ∧ ¬ flagged part s.master ∧ ¬ Agree part s.master s.slave

/-- The mode of the slave after the mode part of an update. -/
def modeAfter (syncinfo side : Side) : BitVec 8 :=
  if flagged .mode syncinfo ∧ syncinfo.enable = true then clampMode config syncinfo.mode else side.mode

def enableAfter (syncinfo side : Side) : Bool := if flagged .mode syncinfo then syncinfo.enable else side.enable

/-- The colour the slave has after it was told a colour. -/
def Takes (syncinfo side : Side) : Prop :=
  if enableAfter syncinfo side then
    let effect := effectOf config (modeAfter config syncinfo side)
    (effect = .breathing → side.val = syncinfo.val) ∧
      (effect = .rainbowMood ∨ effect = .rainbowSwirl → side.hue = syncinfo.hue)
  else Agree .hsvs syncinfo side

/-- The update switches the light off with a mode that the slave does not have, or carries a colour
that the slave does not take. -/
def Refuses (syncinfo side : Side) : Prop :=
  flagged .mode syncinfo ∧ syncinfo.enable = false ∧ syncinfo.mode ≠ side.mode ∨
    flagged .hsvs syncinfo ∧ ¬ Takes config syncinfo side

def Heeded (s : State) : Input → Prop
  | .change change => ¬ Corrects config change s.master
  | .sync now _ => config.throttle ≤ now - s.lastUpdate ∨ s.master.changeFlags ≠ 0 → ∀ part, ¬ Overwrites s part
  | .consume => ¬ Refuses config s.rgblightSync s.slave

instance (change : Change) (side : Side) : Decidable (Corrects config change side) := by
  cases change <;> unfold Corrects <;> infer_instance

instance (s : State) (part : Part) : Decidable (Overwrites s part) := inferInstanceAs (Decidable (_ ∧ _ ∧ _))

instance (syncinfo side : Side) : Decidable (Takes config syncinfo side) := by unfold Takes; infer_instance

instance (syncinfo side : Side) : Decidable (Refuses config syncinfo side) := inferInstanceAs (Decidable (_ ∨ _))

instance {holds : Part → Prop} [DecidablePred holds] : Decidable (∀ part, holds part) :=
  decidable_of_iff (holds .mode ∧ holds .hsvs ∧ holds .layers)
    ⟨fun ⟨mode, hsvs, layers⟩ part => by cases part <;> assumption, fun all => ⟨all _, all _, all _⟩⟩

instance (s : State) (input : Input) : Decidable (Heeded config s input) := by
  cases input <;> unfold Heeded <;> infer_instance

end Conditions

/-! ## The invariant -/

def InRange (config : Config) (mode : BitVec 8) : Prop := 1 ≤ mode ∧ mode ≤ config.modes

/-- What the halves disagree on is flagged on the way to the slave. -/
structure Sound (config : Config) (s : State) : Prop where
  range : InRange config s.master.mode
  sentRange : flagged .mode s.rgblightSync → InRange config s.rgblightSync.mode
  known : ∀ part, ¬ flagged part s.master → ¬ flagged part s.rgblightSync → Agree part s.master s.slave
  sent : ∀ part, ¬ flagged part s.master → flagged part s.rgblightSync → Agree part s.master s.rgblightSync

section Flags

variable {config : Config} {side : Side}

theorem clampMode_of_inRange {mode : BitVec 8} (range : InRange config mode) : clampMode config mode = mode := by
  unfold clampMode modeStaticLight
  rw [if_neg (BitVec.not_lt.mpr range.1), if_neg (BitVec.not_lt.mpr range.2)]

theorem clampMode_inRange (mode : BitVec 8) : InRange config (clampMode config mode) := by
  unfold clampMode modeStaticLight
  split_ifs with low high
  · exact ⟨BitVec.le_refl _, config.some⟩
  · exact ⟨config.some, BitVec.le_refl _⟩
  · exact ⟨BitVec.not_lt.mp low, BitVec.not_lt.mp high⟩

theorem flag_or_ne (flags flag : BitVec 8) (part : Part) (h : flags &&& part.flag ≠ 0) :
    (flags ||| flag) &&& part.flag ≠ 0 := by
  rw [BitVec.and_or_distrib_right]
  intro none
  exact h (BitVec.or_eq_zero_iff.mp none).1

theorem flag_ne (part : Part) : part.flag &&& part.flag ≠ 0 := by
  cases part <;> decide

theorem flagged_setChange_self (part : Part) (side : Side) : flagged part (side.setChange part.flag) := by
  show (side.changeFlags ||| part.flag) &&& part.flag ≠ 0
  rw [BitVec.or_comm]
  exact flag_or_ne _ _ part (flag_ne part)

theorem flagged_setChange {part : Part} (flag : BitVec 8) (h : flagged part side) :
    flagged part (side.setChange flag) := flag_or_ne side.changeFlags flag part h

end Flags

/-- What has changed is flagged, and no flag is taken back. -/
structure Tracked (config : Config) (before after : Side) : Prop where
  range : InRange config before.mode → InRange config after.mode
  keeps : ∀ part, flagged part before → flagged part after
  same : ∀ part, ¬ flagged part after → Agree part before after

section Changes

variable {config : Config} {side : Side}

theorem agree_of_eq {one other : Side} (enable : one.enable = other.enable) (mode : one.mode = other.mode)
    (hue : one.hue = other.hue) (sat : one.sat = other.sat) (val : one.val = other.val)
    (mask : one.enabledLayerMask = other.enabledLayerMask) (part : Part) : Agree part one other := by
  cases part with
  | mode => exact ⟨enable, mode⟩
  | hsvs => exact ⟨hue, sat, val⟩
  | layers => exact mask

theorem Agree.symm {part : Part} {one other : Side} (agree : Agree part one other) : Agree part other one := by
  cases part with
  | mode => exact ⟨agree.1.symm, agree.2.symm⟩
  | hsvs => exact ⟨agree.1.symm, agree.2.1.symm, agree.2.2.symm⟩
  | layers => exact Eq.symm agree

theorem Agree.trans {part : Part} {one other third : Side} (first : Agree part one other)
    (second : Agree part other third) : Agree part one third := by
  cases part with
  | mode => exact ⟨first.1.trans second.1, first.2.trans second.2⟩
  | hsvs => exact ⟨first.1.trans second.1, first.2.1.trans second.2.1, first.2.2.trans second.2.2⟩
  | layers => exact Eq.trans first second

theorem Tracked.trans {one other third : Side} (first : Tracked config one other)
    (second : Tracked config other third) : Tracked config one third := by
  refine ⟨fun range => second.range (first.range range), fun part h => second.keeps part (first.keeps part h), ?_⟩
  intro part h
  have earlier : ¬ flagged part other := fun flag => h (second.keeps part flag)
  exact (first.same part earlier).trans (second.same part h)

/-- A change of other fields. -/
theorem tracked_of_agree {after : Side} (flags : after.changeFlags = side.changeFlags)
    (agree : ∀ part, Agree part side after) : Tracked config side after := by
  refine ⟨?_, ?_, fun part _ => agree part⟩
  · intro range
    rwa [← (agree .mode).2]
  · intro part h
    rwa [flagged, flags]

theorem tracked_setChange (flag : BitVec 8) : Tracked config side (side.setChange flag) :=
  ⟨id, fun _ h => flagged_setChange flag h, fun part _ => agree_of_eq rfl rfl rfl rfl rfl rfl part⟩

theorem tracked_timer (timerEnabled : Bool) : Tracked config side { side with timerEnabled := timerEnabled } :=
  tracked_of_agree rfl (agree_of_eq rfl rfl rfl rfl rfl rfl)

theorem tracked_timerDisable : Tracked config side (rgblightTimerDisable side) :=
  (tracked_timer false).trans (tracked_setChange changeTimer)

theorem tracked_timerEnable : Tracked config side (rgblightTimerEnable config side) :=
  (tracked_timer _).trans (tracked_setChange changeTimer)

/-- A change of one part that is flagged. -/
theorem tracked_flagged {after : Side} (part : Part) (range : InRange config side.mode → InRange config after.mode)
    (flags : after.changeFlags = side.changeFlags ||| part.flag)
    (others : ∀ other, other ≠ part → Agree other side after) : Tracked config side after := by
  have flag : flagged part after := by
    rw [flagged, flags]
    exact flagged_setChange_self part side
  refine ⟨range, ?_, ?_⟩
  · intro other h
    rw [flagged, flags]
    exact flag_or_ne _ _ _ h
  · intro other h
    by_cases here : other = part
    · subst here
      exact absurd flag h
    · exact others other here

theorem update_mode (writeToEeprom : Bool) {colour : Side} (range : InRange config colour.mode) :
    (eeconfigUpdateRgblight config writeToEeprom colour).mode = colour.mode := by
  cases writeToEeprom with
  | true => exact clampMode_of_inRange range
  | false => rfl

theorem update_flags (writeToEeprom : Bool) (colour : Side) :
    (eeconfigUpdateRgblight config writeToEeprom colour).changeFlags = colour.changeFlags := by
  cases writeToEeprom <;> rfl

theorem update_enable (writeToEeprom : Bool) (colour : Side) :
    (eeconfigUpdateRgblight config writeToEeprom colour).enable = colour.enable := by
  cases writeToEeprom <;> rfl

theorem update_layers (writeToEeprom : Bool) (colour : Side) :
    (eeconfigUpdateRgblight config writeToEeprom colour).enabledLayerMask = colour.enabledLayerMask := by
  cases writeToEeprom <;> rfl

/-- Writing to the EEPROM changes the colour only, and only one beyond the limit. -/
theorem tracked_update {writeToEeprom : Bool} (range : InRange config side.mode)
    (within : writeToEeprom = true → config.limitVal < side.val → flagged .hsvs side) :
    Tracked config side (eeconfigUpdateRgblight config writeToEeprom side) := by
  refine ⟨?_, ?_, ?_⟩
  · intro _
    rwa [update_mode writeToEeprom range]
  · intro part h
    rwa [flagged, update_flags]
  · intro part quiet
    rw [flagged, update_flags] at quiet
    cases part with
    | mode => exact ⟨(update_enable writeToEeprom side).symm, (update_mode writeToEeprom range).symm⟩
    | hsvs =>
      unfold eeconfigUpdateRgblight rgblightCheckConfig
      split_ifs with writes high
      · exact absurd (within writes high) quiet
      · exact ⟨rfl, rfl, rfl⟩
      · exact ⟨rfl, rfl, rfl⟩
    | layers => exact (update_layers writeToEeprom side).symm

/-- Telling a half its own colour leaves what the EEPROM does. -/
theorem sethsv_own (writeToEeprom : Bool) (on : side.enable = true) :
    rgblightSethsvEepromHelper config side.hue side.sat side.val writeToEeprom side
      = eeconfigUpdateRgblight config writeToEeprom side := by
  unfold rgblightSethsvEepromHelper
  rw [if_pos on]
  simp only [ne_eq, not_true_eq_false, or_self, if_false, ite_self]

/-- After the mode itself the mode helper changes the timer, and the colour as the EEPROM does. -/
theorem tracked_modeTail {newMode : BitVec 8} {writeToEeprom : Bool} (on : side.enable = true)
    (within : writeToEeprom = true → config.limitVal < side.val → flagged .hsvs side) :
    Tracked config (Side.setChange changeMode { side with mode := clampMode config newMode })
      (rgblightModeEepromHelper config newMode writeToEeprom side) := by
  have range : InRange config (clampMode config newMode) := clampMode_inRange newMode
  have lit : (eeconfigUpdateRgblight config writeToEeprom
      (Side.setChange changeMode { side with mode := clampMode config newMode })).enable = true :=
    (update_enable writeToEeprom _).trans on
  have written : Tracked config (Side.setChange changeMode { side with mode := clampMode config newMode })
      (eeconfigUpdateRgblight config writeToEeprom
        (Side.setChange changeMode { side with mode := clampMode config newMode })) :=
    tracked_update range fun writes high => flag_or_ne _ _ .hsvs (within writes high)
  unfold rgblightModeEepromHelper
  rw [if_pos on]
  dsimp only
  split_ifs
  · rw [sethsv_own]
    · exact written.trans tracked_timerDisable
    · exact lit
  · rw [sethsv_own]
    · exact written.trans tracked_timerEnable
    · exact lit

theorem tracked_mode {newMode : BitVec 8} {writeToEeprom : Bool}
    (right : ¬ Corrects config (.mode newMode writeToEeprom) side) :
    Tracked config side (rgblightModeEepromHelper config newMode writeToEeprom side) := by
  by_cases on : side.enable = true
  · have within (writes : writeToEeprom = true) (high : config.limitVal < side.val) : flagged .hsvs side :=
      not_not.mp fun quiet => right ⟨high, quiet, on, writes⟩
    refine (tracked_flagged .mode (fun _ => clampMode_inRange newMode) rfl ?_).trans (tracked_modeTail on within)
    intro other different
    cases other with
    | mode => exact absurd rfl different
    | hsvs => exact ⟨rfl, rfl, rfl⟩
    | layers => exact rfl
  · rw [rgblightModeEepromHelper, if_neg on]
    exact tracked_of_agree rfl (agree_of_eq rfl rfl rfl rfl rfl rfl)

theorem tracked_enable {writeToEeprom : Bool} (right : ¬ Corrects config (.enable writeToEeprom) side) :
    Tracked config side (rgblightEnable config writeToEeprom side) := by
  have within (writes : writeToEeprom = true) (high : config.limitVal < side.val) : flagged .hsvs side :=
    not_not.mp fun quiet => right ⟨high, quiet, writes⟩
  have on : ({ side with enable := true } : Side).enable = true := rfl
  have tail : Tracked config _ (rgblightEnable config writeToEeprom side) := tracked_modeTail on within
  refine (tracked_flagged .mode (fun _ => clampMode_inRange side.mode) rfl ?_).trans tail
  intro other different
  cases other with
  | mode => exact absurd rfl different
  | hsvs => exact ⟨rfl, rfl, rfl⟩
  | layers => exact rfl

theorem tracked_disable {writeToEeprom : Bool} (range : InRange config side.mode)
    (right : ¬ Corrects config (.disable writeToEeprom) side) :
    Tracked config side (rgblightDisable config writeToEeprom side) := by
  have within (writes : writeToEeprom = true) (high : config.limitVal < side.val) : flagged .hsvs side :=
    not_not.mp fun quiet => right ⟨high, quiet, writes⟩
  -- The mode is flagged last, so its own part is looked at apart from the others.
  have update : Tracked config { side with enable := false }
      (eeconfigUpdateRgblight config writeToEeprom { side with enable := false }) := tracked_update range within
  have written : Tracked config { side with enable := false } (rgblightDisable config writeToEeprom side) :=
    (update.trans tracked_timerDisable).trans (tracked_setChange changeMode)
  refine ⟨written.range, written.keeps, ?_⟩
  intro part quiet
  cases part with
  | mode => exact absurd (flagged_setChange_self .mode _) quiet
  | hsvs => exact written.same .hsvs quiet
  | layers => exact written.same .layers quiet

theorem tracked_sethsv {hue sat val : BitVec 8} {writeToEeprom : Bool} (range : InRange config side.mode)
    (right : ¬ Corrects config (.sethsv hue sat val writeToEeprom) side) :
    Tracked config side (rgblightSethsvEepromHelper config hue sat val writeToEeprom side) := by
  by_cases on : side.enable = true
  · by_cases differs : side.hue ≠ hue ∨ side.sat ≠ sat ∨ side.val ≠ val
    · unfold rgblightSethsvEepromHelper
      rw [if_pos on, if_pos differs]
      refine tracked_flagged .hsvs (fun _ => ?_) (update_flags writeToEeprom _) ?_
      · rw [update_mode]
        · exact range
        · exact range
      · intro other different
        cases other with
        | mode =>
          constructor
          · rw [update_enable]
            rfl
          · rw [update_mode]
            · rfl
            · exact range
        | hsvs => exact absurd rfl different
        | layers =>
          unfold Agree
          rw [update_layers]
          rfl
    · simp only [ne_eq, not_or, not_not] at differs
      obtain ⟨rfl, rfl, rfl⟩ := differs
      rw [sethsv_own writeToEeprom on]
      refine tracked_update range fun writes high => not_not.mp fun quiet => ?_
      exact right ⟨high, quiet, on, writes, rfl, rfl, rfl⟩
  · rw [rgblightSethsvEepromHelper, if_neg on]
    exact tracked_of_agree rfl (agree_of_eq rfl rfl rfl rfl rfl rfl)

theorem tracked_layers (layer : BitVec 8) (enabled : Bool) :
    Tracked config side (rgblightSetLayerState layer enabled side) := by
  refine tracked_flagged .layers id rfl ?_
  intro other different
  cases other with
  | mode => exact ⟨rfl, rfl⟩
  | hsvs => exact ⟨rfl, rfl, rfl⟩
  | layers => exact absurd rfl different

theorem tracked_make {change : Change} (range : InRange config side.mode) (right : ¬ Corrects config change side) :
    Tracked config side (change.make config side) := by
  cases change with
  | enable writeToEeprom => exact tracked_enable right
  | disable writeToEeprom => exact tracked_disable range right
  | mode newMode writeToEeprom => exact tracked_mode right
  | sethsv hue sat val writeToEeprom => exact tracked_sethsv range right
  | setLayerState layer enabled => exact tracked_layers layer enabled
  | timerEnable => exact tracked_timerEnable
  | timerDisable => exact tracked_timerDisable
  | timerToggle =>
    show Tracked config side (rgblightTimerToggle config side)
    unfold rgblightTimerToggle
    split_ifs
    · exact tracked_timerDisable
    · exact tracked_timerEnable
  | animationTick => exact tracked_setChange RgbLight.animationTick

end Changes

/-! ## What the slave takes over -/

section Updates

variable {config : Config} {syncinfo side : Side}

theorem modeHelper_fields {newMode : BitVec 8} (on : side.enable = true) :
    let after := rgblightModeEepromHelper config newMode false side
    (after.enable = true ∧ after.mode = clampMode config newMode) ∧
      Agree .hsvs side after ∧ Agree .layers side after := by
  have range : InRange config (clampMode config newMode) := clampMode_inRange newMode
  unfold rgblightModeEepromHelper
  rw [if_pos on]
  dsimp only
  split_ifs
  · rw [sethsv_own]
    · exact ⟨⟨on, rfl⟩, ⟨rfl, rfl, rfl⟩, rfl⟩
    · exact on
  · rw [sethsv_own]
    · exact ⟨⟨on, rfl⟩, ⟨rfl, rfl, rfl⟩, rfl⟩
    · exact on

/-- The mode part of `rgblight_update_sync`. -/
def updateMode (config : Config) (syncinfo side : Side) : Side :=
  if syncinfo.changeFlags &&& changeMode ≠ 0 then
    if syncinfo.enable then rgblightModeEepromHelper config syncinfo.mode false { side with enable := true }
    else rgblightDisable config false side
  else side

theorem updateMode_fields (config : Config) (syncinfo side : Side) :
    ((updateMode config syncinfo side).enable = enableAfter syncinfo side ∧
        (updateMode config syncinfo side).mode = modeAfter config syncinfo side) ∧
      Agree .hsvs side (updateMode config syncinfo side) ∧ Agree .layers side (updateMode config syncinfo side) := by
  unfold updateMode enableAfter modeAfter
  by_cases flag : flagged .mode syncinfo
  · have flag' : syncinfo.changeFlags &&& changeMode ≠ 0 := flag
    rw [if_pos flag', if_pos flag]
    cases on : syncinfo.enable with
    | true =>
      rw [if_pos rfl, if_pos ⟨flag, rfl⟩]
      have turned : ({ side with enable := true } : Side).enable = true := rfl
      exact modeHelper_fields turned
    | false =>
      rw [if_neg Bool.false_ne_true, if_neg fun both => Bool.noConfusion both.2]
      exact ⟨⟨rfl, rfl⟩, ⟨rfl, rfl, rfl⟩, rfl⟩
  · have flag' : ¬ syncinfo.changeFlags &&& changeMode ≠ 0 := flag
    rw [if_neg flag', if_neg flag, if_neg fun both => flag both.1]
    exact ⟨⟨rfl, rfl⟩, ⟨rfl, rfl, rfl⟩, rfl⟩

theorem sethsv_fields {hue sat val : BitVec 8} :
    Agree .mode side (rgblightSethsvEepromHelper config hue sat val false side) ∧
      Agree .layers side (rgblightSethsvEepromHelper config hue sat val false side) := by
  unfold rgblightSethsvEepromHelper eeconfigUpdateRgblight
  dsimp only
  rw [if_neg Bool.false_ne_true]
  split_ifs <;> exact ⟨⟨rfl, rfl⟩, rfl⟩

theorem sethsv_on (config : Config) (hue sat val : BitVec 8) (on : side.enable = true) :
    let effect := effectOf config side.mode
    let after := rgblightSethsvEepromHelper config hue sat val false side
    after.hue = (if effect = .rainbowMood ∨ effect = .rainbowSwirl then side.hue else hue) ∧ after.sat = sat ∧
      after.val = if effect = .breathing then side.val else val := by
  unfold rgblightSethsvEepromHelper
  rw [if_pos on]
  by_cases differs : side.hue ≠ hue ∨ side.sat ≠ sat ∨ side.val ≠ val
  · rw [if_pos differs]
    exact ⟨rfl, rfl, rfl⟩
  · rw [if_neg differs]
    exact ⟨rfl, rfl, rfl⟩

/-- A colour that the half takes is its colour afterwards. -/
theorem sethsv_taken (takes : Takes config syncinfo side) :
    Agree .hsvs syncinfo
      (rgblightSethsvEepromHelper config syncinfo.hue syncinfo.sat syncinfo.val false
        (updateMode config syncinfo side)) := by
  obtain ⟨⟨enable, mode⟩, same, -⟩ := updateMode_fields config syncinfo side
  unfold Takes at takes
  dsimp only at takes
  by_cases on : enableAfter syncinfo side = true
  · rw [if_pos on, ← mode] at takes
    obtain ⟨hue, sat, val⟩ := sethsv_on config syncinfo.hue syncinfo.sat syncinfo.val (enable.trans on)
    refine ⟨?_, sat.symm, ?_⟩
    · rw [hue]
      split_ifs with ignored
      · exact (takes.2 ignored).symm.trans same.1
      · rfl
    · rw [val]
      split_ifs with ignored
      · exact (takes.1 ignored).symm.trans same.2.2
      · rfl
  · rw [if_neg on] at takes
    unfold rgblightSethsvEepromHelper
    rw [if_neg fun lit => on (enable.symm.trans lit)]
    exact takes.trans same

/-- The layers part of `rgblight_update_sync`. -/
def updateLayers (syncinfo side : Side) : Side :=
  if syncinfo.changeFlags &&& changeLayers ≠ 0 then { side with enabledLayerMask := syncinfo.enabledLayerMask }
  else side

/-- The colour part of `rgblight_update_sync`. -/
def updateHsvs (config : Config) (syncinfo side : Side) : Side :=
  if syncinfo.changeFlags &&& changeHsvs ≠ 0 then
    rgblightSethsvEepromHelper config syncinfo.hue syncinfo.sat syncinfo.val false side
  else side

/-- The timer part of `rgblight_update_sync` is of no account here. -/
theorem updateSync_agree (part : Part) (syncinfo side : Side) :
    Agree part (updateHsvs config syncinfo (updateMode config syncinfo (updateLayers syncinfo side)))
      (rgblightUpdateSync config syncinfo side) := by
  show Agree part (updateHsvs config syncinfo (updateMode config syncinfo (updateLayers syncinfo side)))
    (if syncinfo.changeFlags &&& changeTimer ≠ 0 then
      if syncinfo.timerEnabled then
        rgblightTimerEnable config (updateHsvs config syncinfo (updateMode config syncinfo (updateLayers syncinfo side)))
      else rgblightTimerDisable (updateHsvs config syncinfo (updateMode config syncinfo (updateLayers syncinfo side)))
    else updateHsvs config syncinfo (updateMode config syncinfo (updateLayers syncinfo side)))
  split_ifs <;> exact agree_of_eq rfl rfl rfl rfl rfl rfl part

theorem updateLayers_agree {part : Part} (other : part ≠ .layers) (syncinfo side : Side) :
    Agree part side (updateLayers syncinfo side) := by
  unfold updateLayers
  cases part with
  | mode => split_ifs <;> exact ⟨rfl, rfl⟩
  | hsvs => split_ifs <;> exact ⟨rfl, rfl, rfl⟩
  | layers => exact absurd rfl other

theorem updateHsvs_agree {part : Part} (other : part ≠ .hsvs) (syncinfo side : Side) :
    Agree part side (updateHsvs config syncinfo side) := by
  unfold updateHsvs
  split_ifs
  · cases part with
    | mode => exact sethsv_fields.1
    | hsvs => exact absurd rfl other
    | layers => exact sethsv_fields.2
  · exact agree_of_eq rfl rfl rfl rfl rfl rfl part

theorem refuses_updateLayers (syncinfo side : Side) :
    Refuses config syncinfo (updateLayers syncinfo side) ↔ Refuses config syncinfo side := by
  unfold updateLayers
  split_ifs <;> exact Iff.rfl

/-- A part that was not flagged stays as it was. -/
theorem updateSync_keeps {part : Part} (quiet : ¬ flagged part syncinfo) :
    Agree part side (rgblightUpdateSync config syncinfo side) := by
  refine Agree.trans ?_ (updateSync_agree part syncinfo side)
  cases part with
  | mode =>
    have same : updateMode config syncinfo (updateLayers syncinfo side) = updateLayers syncinfo side := if_neg quiet
    rw [same]
    exact (updateLayers_agree (by decide) syncinfo side).trans (updateHsvs_agree (by decide) syncinfo _)
  | hsvs =>
    have same : updateHsvs config syncinfo (updateMode config syncinfo (updateLayers syncinfo side))
        = updateMode config syncinfo (updateLayers syncinfo side) := if_neg quiet
    rw [same]
    exact (updateLayers_agree (by decide) syncinfo side).trans (updateMode_fields config syncinfo _).2.1
  | layers =>
    have same : updateLayers syncinfo side = side := if_neg quiet
    rw [same]
    exact (updateMode_fields config syncinfo side).2.2.trans (updateHsvs_agree (by decide) syncinfo _)

/-- A part that was flagged is taken over, unless the half refuses. -/
theorem updateSync_takes {part : Part} (heeded : ¬ Refuses config syncinfo side)
    (range : flagged .mode syncinfo → InRange config syncinfo.mode) (flag : flagged part syncinfo) :
    Agree part syncinfo (rgblightUpdateSync config syncinfo side) := by
  refine Agree.trans ?_ (updateSync_agree part syncinfo side)
  rw [← refuses_updateLayers] at heeded
  obtain ⟨⟨enable, mode⟩, -, layers⟩ := updateMode_fields config syncinfo (updateLayers syncinfo side)
  cases part with
  | mode =>
    refine Agree.trans ⟨?_, ?_⟩ (updateHsvs_agree (by decide) syncinfo _)
    · rw [enable, enableAfter, if_pos flag]
    · rw [mode, modeAfter]
      split_ifs with both
      · exact (clampMode_of_inRange (range flag)).symm
      · by_contra differs
        have off : syncinfo.enable = false := Bool.eq_false_iff.mpr fun on => both ⟨flag, on⟩
        exact heeded (.inl ⟨flag, off, differs⟩)
  | hsvs =>
    have same : updateHsvs config syncinfo (updateMode config syncinfo (updateLayers syncinfo side))
        = rgblightSethsvEepromHelper config syncinfo.hue syncinfo.sat syncinfo.val false
            (updateMode config syncinfo (updateLayers syncinfo side)) := if_pos flag
    rw [same]
    refine sethsv_taken (not_not.mp fun refused => heeded (.inr ⟨flag, refused⟩))
  | layers =>
    refine Agree.trans ?_ (updateHsvs_agree (by decide) syncinfo _)
    have same : updateLayers syncinfo side = { side with enabledLayerMask := syncinfo.enabledLayerMask } := if_pos flag
    refine Agree.trans ?_ layers
    rw [same]
    exact rfl

end Updates

/-! ## Runs -/

section Steps

variable {config : Config} {s : State}

theorem sound_change {change : Change} (sound : Sound config s) (right : ¬ Corrects config change s.master) :
    Sound config (step config s (.change change)) := by
  have tracked : Tracked config s.master (change.make config s.master) := tracked_make sound.range right
  refine ⟨tracked.range sound.range, sound.sentRange, ?_, ?_⟩
  · intro part quiet sent
    have before : ¬ flagged part s.master := fun flag => quiet (tracked.keeps part flag)
    exact (tracked.same part quiet).symm.trans (sound.known part before sent)
  · intro part quiet sent
    have before : ¬ flagged part s.master := fun flag => quiet (tracked.keeps part flag)
    exact (tracked.same part quiet).symm.trans (sound.sent part before sent)

theorem not_flagged_zero (part : Part) (side : Side) : ¬ flagged part { side with changeFlags := 0 } := by
  intro flag
  exact flag (BitVec.zero_and)

/-- Fields other than the flags decide an agreement. -/
theorem agree_clear (part : Part) (side : Side) : Agree part { side with changeFlags := 0 } side :=
  agree_of_eq rfl rfl rfl rfl rfl rfl part

theorem sound_sync {now stamp : BitVec 32} (sound : Sound config s) (heeded : Heeded config s (.sync now stamp)) :
    Sound config (step config s (.sync now stamp)) := by
  show Sound config (rgblightHandlersMaster config now stamp s)
  unfold rgblightHandlersMaster
  split_ifs with sends
  · refine ⟨sound.range, fun _ => sound.range, ?_, ?_⟩
    · intro part _ quiet
      refine (agree_clear part s.master).trans ?_
      by_cases pending : flagged part s.rgblightSync
      · by_contra differs
        exact heeded sends part ⟨pending, quiet, differs⟩
      · exact sound.known part quiet pending
    · intro part _ _
      exact agree_clear part s.master
  · have none : s.master.changeFlags = 0 := by
      by_contra some
      exact sends (.inr some)
    dsimp only
    rw [← none]
    exact sound

theorem sound_consume (sound : Sound config s) (heeded : Heeded config s .consume) :
    Sound config (step config s .consume) := by
  show Sound config (rgblightHandlersSlave config s)
  unfold rgblightHandlersSlave
  dsimp only
  split_ifs with some
  · refine ⟨sound.range, fun flag => absurd flag (not_flagged_zero .mode _), ?_,
      fun part _ flag => absurd flag (not_flagged_zero part _)⟩
    intro part quiet _
    by_cases flag : flagged part s.rgblightSync
    · exact (sound.sent part quiet flag).trans (updateSync_takes heeded sound.sentRange flag)
    · exact (sound.known part quiet flag).trans (updateSync_keeps flag)
  · have none : s.rgblightSync.changeFlags = 0 := not_not.mp some
    rw [← none]
    exact sound

theorem sound_step {input : Input} (sound : Sound config s) (heeded : Heeded config s input) :
    Sound config (step config s input) := by
  cases input with
  | change change => exact sound_change sound heeded
  | sync now stamp => exact sound_sync sound heeded
  | consume => exact sound_consume sound heeded

theorem init_range (stored : Side) : InRange config (rgblightInit config stored).mode := by
  unfold rgblightInit
  dsimp only
  split_ifs
  · exact (tracked_mode fun corrects => absurd corrects.2.2.2 Bool.false_ne_true).range (clampMode_inRange _)
  · exact clampMode_inRange _

theorem init_flagged (part : Part) (changes : part ≠ .layers) (stored : Side) :
    flagged part (rgblightInit config stored) := by
  have raised : (0 ||| (changeMode ||| changeHsvs) ||| changeTimer) &&& part.flag ≠ 0 := by
    cases part with
    | mode => decide
    | hsvs => decide
    | layers => exact absurd rfl changes
  unfold rgblightInit
  dsimp only
  split_ifs
  · exact (tracked_mode fun corrects => absurd corrects.2.2.2 Bool.false_ne_true).keeps part raised
  · exact raised

theorem init_layers (stored : Side) : (rgblightInit config stored).enabledLayerMask = 0 := by
  unfold rgblightInit
  dsimp only
  split_ifs with on
  · exact (Eq.symm (modeHelper_fields on).2.2)
  · rfl

theorem sound_boot (stored slaveStored : Side) : Sound config (boot config stored slaveStored) := by
  have zero (part : Part) : ¬ flagged part Side.zero := not_flagged_zero part Side.zero
  refine ⟨init_range stored, fun flag => absurd flag (zero .mode), ?_, fun part _ flag => absurd flag (zero part)⟩
  intro part quiet _
  by_cases layers : part = .layers
  · subst layers
    exact (init_layers stored).trans (init_layers slaveStored).symm
  · exact absurd (init_flagged part layers stored) quiet

theorem sound_run (stored slaveStored : Side) (inputs : List Input)
    (every : EveryStep (fun earlier => Heeded config (run config (boot config stored slaveStored) earlier)) inputs) :
    Sound config (run config (boot config stored slaveStored) inputs) := by
  refine foldl_everyStep _ (fun _ => Sound config) (sound_boot stored slaveStored) ?_ inputs every
  intro ops op heeded sound
  exact sound_step sound heeded

/-! ## When the master stops changing -/

/-- The master has sent what it changed. -/
def Sent (s : State) : Prop := s.master.changeFlags = 0

/-- Nothing is under way to the slave. -/
def Settled (s : State) : Prop := s.master.changeFlags = 0 ∧ s.rgblightSync.changeFlags = 0

theorem sent_sync (now stamp : BitVec 32) : Sent (step config s (.sync now stamp)) := by
  rfl

theorem sent_step {input : Input} (handler : ∀ change, input ≠ .change change) (sent : Sent s) :
    Sent (step config s input) := by
  cases input with
  | change change => exact absurd rfl (handler change)
  | sync now stamp => exact sent_sync now stamp
  | consume =>
    show Sent (rgblightHandlersSlave config s)
    unfold rgblightHandlersSlave
    dsimp only
    split_ifs <;> exact sent

theorem settled_consume (sent : Sent s) : Settled (step config s .consume) := by
  show Settled (rgblightHandlersSlave config s)
  unfold rgblightHandlersSlave
  dsimp only
  split_ifs <;> exact ⟨sent, rfl⟩

theorem settled_step {input : Input} (handler : ∀ change, input ≠ .change change) (settled : Settled s) :
    Settled (step config s input) := by
  cases input with
  | change change => exact absurd rfl (handler change)
  | sync now stamp =>
    refine ⟨rfl, ?_⟩
    show (rgblightHandlersMaster config now stamp s).rgblightSync.changeFlags = 0
    unfold rgblightHandlersMaster
    split_ifs
    · exact settled.1
    · exact settled.2
  | consume => exact settled_consume settled.1

theorem settled_run (start : State) (inputs middle rest : List Input) (now stamp : BitVec 32)
    (handlers : ∀ change, .change change ∉ middle ++ rest) :
    Settled (run config start (inputs ++ .sync now stamp :: middle ++ .consume :: rest)) := by
  unfold run
  rw [List.foldl_append, List.foldl_append, List.foldl_cons, List.foldl_cons]
  refine List.foldlRecOn rest (step config) ?_ ?_
  · refine settled_consume (List.foldlRecOn middle (step config) (sent_sync now stamp) ?_)
    intro later sent input member
    refine sent_step (fun change here => ?_) sent
    exact handlers change (List.mem_append_left rest (here ▸ member))
  · intro later settled input member
    refine settled_step (fun change here => ?_) settled
    exact handlers change (List.mem_append_right middle (here ▸ member))

/-- In every run from the start of both halves whose steps all heed what the synchronisation does not
watch, the halves agree once the master has stopped changing, has sent its state and the slave has
consumed it. -/
theorem halves_converge (config : Config) (stored slaveStored : Side) (inputs middle rest : List Input)
    (now stamp : BitVec 32) (handlers : ∀ change, .change change ∉ middle ++ rest)
    (every : EveryStep (fun earlier => Heeded config (run config (boot config stored slaveStored) earlier))
      (inputs ++ .sync now stamp :: middle ++ .consume :: rest)) (part : Part) :
    let final := run config (boot config stored slaveStored) (inputs ++ .sync now stamp :: middle ++ .consume :: rest)
    Agree part final.master final.slave := by
  intro final
  have sound : Sound config final := sound_run stored slaveStored _ every
  have settled : Settled final := settled_run _ inputs middle rest now stamp handlers
  have quiet {side : Side} (none : side.changeFlags = 0) : ¬ flagged part side := by
    intro flag
    rw [flagged, none] at flag
    exact flag BitVec.zero_and
  exact sound.known part (quiet settled.1) (quiet settled.2)

end Steps

/-- Breathing has mode 2, and only mode 1 is static. -/
def strip : Config where
  modes := 40
  limitVal := 255
  throttle := 100
  isStaticEffect mode := mode == modeStaticLight
  effect mode := if mode = 2 then .breathing else .other
  some := by decide
  stored := by decide

def lit : Side := { Side.zero with enable := true, mode := modeStaticLight, hue := 10, sat := 255, val := 120 }

/-- The slave starts dark, and is told of a colour and a mode of the master. -/
theorem colourAndMode_converge :
    Agree .mode
      (run strip (boot strip lit Side.zero)
        ([.sync 0 0, .consume, .change (.sethsv 20 30 40 true), .change (.mode 7 true)] ++
          .sync 5 6 :: [] ++ .consume :: [.sync 200 201])).master
      (run strip (boot strip lit Side.zero)
        ([.sync 0 0, .consume, .change (.sethsv 20 30 40 true), .change (.mode 7 true)] ++
          .sync 5 6 :: [] ++ .consume :: [.sync 200 201])).slave :=
  halves_converge strip lit Side.zero
    [.sync 0 0, .consume, .change (.sethsv 20 30 40 true), .change (.mode 7 true)] [] [.sync 200 201] 5 6
    (by simp) (by decide +kernel) .mode

/-- A colour that is sent before the slave has consumed a mode takes the mode's place. -/
theorem overwritten_mode_lost :
    ¬ Agree .mode
      (run strip (boot strip lit lit)
        [.sync 0 0, .consume, .change (.mode 7 false), .sync 5 6, .change (.sethsv 20 30 40 false), .sync 7 8,
          .consume]).master
      (run strip (boot strip lit lit)
        [.sync 0 0, .consume, .change (.mode 7 false), .sync 5 6, .change (.sethsv 20 30 40 false), .sync 7 8,
          .consume]).slave := by
  decide +kernel

end QmkFirmware.SplitSync.RgbLight
