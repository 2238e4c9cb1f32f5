import QmkFirmware.Foundations.Runs
import Mathlib.Logic.Function.Basic

/-! # Auto Shift

A shallow embedding of `quantum/process_keycode/process_auto_shift.c` with `AUTO_SHIFT_REPEAT`, without `RETRO_SHIFT`,
`HOLD_ON_OTHER_KEY_PRESS` and the options for single keys.  The time is that of `timer_read`.  Around it stands a
keyboard with one key for each keycode, the action of the Shift keys, and whatever else changes the other modifiers.
-/

namespace QmkFirmware.AutoShift

abbrev Keycode := BitVec 16

def kcNo : Keycode := 0
def kcLsft : Keycode := 0x00E1
def kcRsft : Keycode := 0x00E5
def asDown : Keycode := 0x7C10
def asUp : Keycode := 0x7C11
def asOn : Keycode := 0x7C13
def asOff : Keycode := 0x7C14
def asTogg : Keycode := 0x7C15

/-! `MOD_BIT` of the Shift keys. -/

def modLsft : BitVec 8 := 0x02
def modRsft : BitVec 8 := 0x20

/-- `IS_RETRO`: a mod-tap or a layer-tap key. -/
def isRetro (keycode : Keycode) : Bool := (0x2000 ≤ keycode && keycode ≤ 0x3FFF) || (0x4000 ≤ keycode && keycode ≤ 0x4FFF)

/-- The keys of `get_auto_shifted_key`, the tapping term, `AUTO_SHIFT_NO_AUTO_REPEAT` and `AUTO_SHIFT_MODIFIERS`. -/
structure Config where
  autoShifted : Keycode → Bool
  tappingTerm : Keycode → BitVec 16
  noAutoRepeat : Bool
  modifiers : Bool
  kcNo : autoShifted kcNo = false
  lsft : autoShifted kcLsft = false
  rsft : autoShifted kcRsft = false

/-- The keys of `get_auto_shifted_key` by default: letters, digits, Tab and symbols. -/
def autoShiftedByDefault (keycode : Keycode) : Bool :=
  (0x04 ≤ keycode && keycode ≤ 0x1D) || (0x1E ≤ keycode && keycode ≤ 0x27) || keycode == 0x2B ||
    (0x2D ≤ keycode && keycode ≤ 0x38) || keycode == 0x64

/-- What holds without any options but `AUTO_SHIFT_REPEAT`. -/
def Config.default : Config where
  autoShifted := autoShiftedByDefault
  tappingTerm _ := 200
  noAutoRepeat := false
  modifiers := false
  kcNo := by decide
  lsft := by decide
  rsft := by decide

/-- `autoshift_press_user`, `autoshift_release_user` and `send_keyboard_report`. -/
inductive Output where
  | press (keycode : Keycode) (shifted : Bool)
  | release (keycode : Keycode) (shifted : Bool)
  | report
deriving DecidableEq

/-- The variables of `process_auto_shift.c`, with the real and the one-shot modifiers and the keys that are down. -/
structure State where
  time : BitVec 16
  timeout : BitVec 16
  lastkey : Keycode
  shiftStates : BitVec 8 → Bool
  enabled : Bool
  lastshifted : Bool
  inProgress : Bool
  holdingShift : Bool
  cancellingLshift : Bool
  cancellingRshift : Bool
  mods : BitVec 8
  oneshotMods : BitVec 8
  down : Keycode → Bool
  outputs : List Output

namespace State

def emit (output : Output) (s : State) : State := { s with outputs := s.outputs ++ [output] }

/-- `autoshift_press_user`: the report has the key, and so uses up the one-shot modifiers. -/
def pressUser (keycode : Keycode) (shifted : Bool) (s : State) : State :=
  { s.emit (.press keycode shifted) with oneshotMods := 0 }

def addMods (mods : BitVec 8) (s : State) : State := { s with mods := s.mods ||| mods }

def delMods (mods : BitVec 8) (s : State) : State := { s with mods := s.mods &&& ~~~mods }

def has (mod : BitVec 8) (s : State) : Bool := s.mods &&& mod != 0

def setShiftState (keycode : Keycode) (shifted : Bool) (s : State) : State :=
  { s with shiftStates := Function.update s.shiftStates (keycode.setWidth 8) shifted }

def getShiftState (keycode : Keycode) (s : State) : Bool := s.shiftStates (keycode.setWidth 8)

/-- Removes the Shifts that are held. -/
def cancelShift (s : State) : State :=
  let s := if s.has modLsft then { s with cancellingLshift := true }.delMods modLsft else s
  if s.has modRsft then { s with cancellingRshift := true }.delMods modRsft else s

/-- `autoshift_flush_shift`. -/
def flushShift (s : State) : State :=
  let s := { s with holdingShift := false }
  let s := if s.cancellingLshift then { s with cancellingLshift := false }.addMods modLsft else s
  let s := if s.cancellingRshift then { s with cancellingRshift := false }.addMods modRsft else s
  s.emit .report

end State

section Machine

variable (config : Config)

/-- `autoshift_press`. -/
def autoshiftPress (keycode : Keycode) (now : BitVec 16) (s : State) : State :=
  let combined : Bool := (s.mods ||| s.oneshotMods) &&& ~~~modLsft != 0
  let s := if combined then { s with lastkey := kcNo } else s
  if combined && !config.modifiers then
    let s := (s.setShiftState keycode false).pressUser keycode false
    { s with oneshotMods := s.oneshotMods &&& ~~~modLsft }
  else if keycode = s.lastkey ∧ (config.noAutoRepeat || !s.lastshifted) = true ∧
      now - s.time < config.tappingTerm s.lastkey then
    s.cancelShift.pressUser s.lastkey s.lastshifted
  else
    { s with
      lastshifted := (s.mods ||| s.oneshotMods) &&& modLsft != 0
      oneshotMods := s.oneshotMods &&& ~~~modLsft
      lastkey := keycode
      time := now
      inProgress := true }

/-- The press of the key in progress in `autoshift_end`. -/
def autoshiftEvaluate (now : BitVec 16) (s : State) : State :=
  let lastshifted := s.lastshifted || decide (s.timeout ≤ now - s.time)
  let s := { s with inProgress := false, lastshifted := lastshifted }.setShiftState s.lastkey lastshifted
  s.cancelShift.pressUser s.lastkey s.lastshifted

def autoshiftEnd (keycode : Keycode) (now : BitVec 16) (matrixTrigger : Bool) (s : State) : State :=
  if s.inProgress ∧ (keycode = s.lastkey ∨ keycode = kcNo) then
    let s := autoshiftEvaluate now s
    if !config.noAutoRepeat && matrixTrigger then s
    else { (s.emit (.release s.lastkey s.lastshifted)).flushShift with time := now }
  else
    let s := s.emit (.release keycode (s.getShiftState keycode))
    let s := if keycode = s.lastkey then s.flushShift else s
    { s with time := now }

def autoshiftMatrixScan (now : BitVec 16) (s : State) : State :=
  if s.inProgress ∧ s.timeout ≤ now - s.time then autoshiftEnd config s.lastkey now true s else s

/-- The keys that set up Auto Shift. -/
def setupKey (keycode : Keycode) (s : State) : State :=
  if keycode = asTogg then { s with enabled := !s.enabled }.flushShift
  else if keycode = asOn then { s with enabled := true }
  else if keycode = asOff then { s with enabled := false }.flushShift
  else if keycode = asUp then { s with timeout := s.timeout + 5 }
  else if keycode = asDown then { s with timeout := s.timeout - 5 }
  else s

/-- What `process_auto_shift` does with a press before it looks whether Auto Shift is enabled. -/
def beforePress (keycode : Keycode) (now : BitVec 16) (s : State) : State :=
  let s := if s.inProgress then autoshiftEnd config kcNo now false s else s
  setupKey keycode s

def beforeRelease (keycode : Keycode) (s : State) : State :=
  if keycode = kcLsft then { s with cancellingLshift := false }
  else if keycode = kcRsft then { s with cancellingRshift := false }
  else s

/-- `process_auto_shift`, with what it returns. -/
def processAutoShift (keycode : Keycode) (pressed : Bool) (now : BitVec 16) (s : State) : Bool × State :=
  let s := if pressed then beforePress config keycode now s else beforeRelease keycode s
  if isRetro keycode then (true, if pressed then { s with lastkey := kcNo } else s)
  else if !s.enabled then (true, s)
  else if config.autoShifted keycode then
    (false, if pressed then autoshiftPress config keycode now s else autoshiftEnd config keycode now false s)
  else (true, if pressed then { s with lastkey := kcNo } else s)

/-- The action of a key that Auto Shift leaves to it: the Shift keys are registered, and what is known of others is
how they leave the modifiers that are no Shifts and the one-shot modifiers. -/
def action (keycode : Keycode) (pressed : Bool) (others oneshot : BitVec 8) (s : State) : State :=
  let s := { s with
    mods := (s.mods &&& (modLsft ||| modRsft)) ||| (others &&& ~~~(modLsft ||| modRsft))
    oneshotMods := oneshot }
  if keycode = kcLsft then (if pressed then s.addMods modLsft else s.delMods modLsft)
  else if keycode = kcRsft then (if pressed then s.addMods modRsft else s.delMods modRsft)
  else s

/-- The key of a keycode goes down or up, the matrix is scanned, or the one-shot modifiers time out or are used up by
a report with another key. -/
inductive Input where
  | key (keycode : Keycode) (now : BitVec 16) (others oneshot : BitVec 8)
  | scan (now : BitVec 16)
  | oneshot (mods : BitVec 8)
deriving DecidableEq

def step (s : State) : Input → State
  | .key keycode now others oneshot =>
    let pressed := !s.down keycode
    let s := { s with down := Function.update s.down keycode pressed }
    let (continues, s) := processAutoShift config keycode pressed now s
    if continues then action keycode pressed others oneshot s else s
  | .scan now => autoshiftMatrixScan config now s
  | .oneshot mods => { s with oneshotMods := mods }

/-- `AUTO_SHIFT_TIMEOUT` is the timeout at the start. -/
def initial (timeout : BitVec 16) (enabled : Bool) : State where
  time := 0
  timeout := timeout
  lastkey := kcNo
  shiftStates _ := false
  enabled := enabled
  lastshifted := false
  inProgress := false
  holdingShift := false
  cancellingLshift := false
  cancellingRshift := false
  mods := 0
  oneshotMods := 0
  down _ := false
  outputs := []

def run (timeout : BitVec 16) (enabled : Bool) (inputs : List Input) : State :=
  inputs.foldl (step config) (initial timeout enabled)

end Machine

end QmkFirmware.AutoShift
