import QmkFirmware.Action.Keys
import QmkFirmware.ActionLayer.Model

/-! # Actions

A shallow embedding of `process_action` of `quantum/action.c`, with the modifiers, the one-shot keys and the report of
`quantum/action_util.c` and the layers of `quantum/action_layer.c`.  What `process_record_quantum` answers to a record is
part of the record, and the clock is read once for each step.
-/

namespace QmkFirmware.Action

open QmkFirmware.ActionLayer

/-! ## Action codes -/

abbrev ActionCode := UInt16

inductive Kind where
  | lmods | rmods | lmodsTap | rmodsTap
  | usage | mousekey | swapHands
  | layer | layerMods | layerTap | layerTapExt
  | unknown
  deriving DecidableEq

def kindId (action : ActionCode) : Kind :=
  match action.toNat / 2 ^ 12 with
  | 0b0000 => .lmods
  | 0b0001 => .rmods
  | 0b0010 => .lmodsTap
  | 0b0011 => .rmodsTap
  | 0b0100 => .usage
  | 0b0101 => .mousekey
  | 0b0110 => .swapHands
  | 0b1000 => .layer
  | 0b1001 => .layerMods
  | 0b1010 => .layerTap
  | 0b1011 => .layerTapExt
  | _ => .unknown

/-- The low byte: `key.code`, `layer_tap.code`, `swap.code` and `layer_mods.mods`. -/
def keyCode (action : ActionCode) : Keycode := action.toBitVec.setWidth 8

def keyMods (action : ActionCode) : BitVec 8 := (action.toBitVec >>> 8 &&& 0xF#16).setWidth 8

/-- The modifiers of a key, on the side that the kind of the action gives. -/
def actionMods (action : ActionCode) : BitVec 8 :=
  match kindId action with
  | .lmods | .lmodsTap => keyMods action
  | _ => keyMods action <<< 4

def layerBitopBits (action : ActionCode) : Nat := action.toNat % 16
def layerBitopXbit (action : ActionCode) : Bool := action.toNat / 2 ^ 4 % 2 ≠ 0
def layerBitopPart (action : ActionCode) : Nat := action.toNat / 2 ^ 5 % 8
def layerBitopOn (action : ActionCode) : BitVec 2 := .ofNat 2 (action.toNat / 2 ^ 8)
def layerBitopOp (action : ActionCode) : BitVec 2 := .ofNat 2 (action.toNat / 2 ^ 10)
def layerModsLayer (action : ActionCode) : Nat := action.toNat / 2 ^ 8 % 16
def layerTapVal (action : ActionCode) : Nat := action.toNat / 2 ^ 8 % 32
def usageCode (action : ActionCode) : Nat := action.toNat % 2 ^ 10
def usagePage (action : ActionCode) : Nat := action.toNat / 2 ^ 10 % 4

def modsOneshot : Keycode := 0x00
def modsTapToggle : Keycode := 0x01
def opTapToggle : Keycode := 0xF0
def opOnOff : Keycode := 0xF1
def opOffOn : Keycode := 0xF2
def opSetClear : Keycode := 0xF3
def opOneshot : Keycode := 0xF4
def opShToggle : Keycode := 0xF0
def opShTapToggle : Keycode := 0xF1
def opShOnOff : Keycode := 0xF2
def opShOffOn : Keycode := 0xF3
def opShOff : Keycode := 0xF4
def opShOn : Keycode := 0xF5
def opShOneshot : Keycode := 0xF6
def opBitAnd : BitVec 2 := 0
def opBitOr : BitVec 2 := 1
def opBitXor : BitVec 2 := 2
def opBitSet : BitVec 2 := 3
def onPress : BitVec 2 := 1
def onRelease : BitVec 2 := 2
def pageSystem : Nat := 0
def pageConsumer : Nat := 1

/-! ## Key codes -/

def kcNo : Keycode := 0
def isBasicKeycode (code : Keycode) : Bool := 0x04 ≤ code.toNat ∧ code.toNat ≤ 0xA4
def isSystemKeycode (code : Keycode) : Bool := 0xA5 ≤ code.toNat ∧ code.toNat ≤ 0xA7
def isConsumerKeycode (code : Keycode) : Bool := 0xA8 ≤ code.toNat ∧ code.toNat ≤ 0xC2
def isMouseKeycode (code : Keycode) : Bool := 0xCD ≤ code.toNat ∧ code.toNat ≤ 0xDF
def isModifierKeycode (code : Keycode) : Bool := 0xE0 ≤ code.toNat ∧ code.toNat ≤ 0xE7

def modBit (code : Keycode) : BitVec 8 := 1#8 <<< (code &&& 0x07#8).toNat

/-- The usages of `KC_SYSTEM_POWER` to `KC_SYSTEM_WAKE`. -/
def keycode2system (code : Keycode) : Nat := [0x81, 0x82, 0x83].getD (code.toNat - 0xA5) 0

/-- The usages of `KC_AUDIO_MUTE` to `KC_LAUNCHPAD`. -/
def keycode2consumer (code : Keycode) : Nat :=
  [0x0E2, 0x0E9, 0x0EA, 0x0B5, 0x0B6, 0x0B7, 0x0CD, 0x183, 0x0CC, 0x18A, 0x192, 0x194, 0x221, 0x223, 0x224, 0x225, 0x226,
    0x227, 0x22A, 0x0B3, 0x0B4, 0x06F, 0x070, 0x19F, 0x1CB, 0x29F, 0x2A0].getD (code.toNat - 0xA8) 0

/-! ## State -/

structure Config where
  keyboard : ActionLayer.Keyboard
  actionForKey : ActionForKey
  /-- `keymap_config.oneshot_enable` -/
  oneshotEnable : Bool
  /-- `ONESHOT_TAP_TOGGLE`, at most 1 if it is not used -/
  oneshotTapToggle : Nat
  tappingToggle : Nat
  /-- `ONESHOT_TIMEOUT`, 0 if there is none -/
  oneshotTimeout : Nat
  swapHandsEnable : Bool

structure Report where
  mods : BitVec 8
  keys : Keys
  deriving DecidableEq

inductive SwapHandsOneshot where
  | off | active | pressed | used
  deriving DecidableEq

/-- What goes to the host, and to the mouse keys. -/
inductive Call where
  | hostKeyboardSend (report : Report)
  | hostSystemSend (usage : Nat)
  | hostConsumerSend (usage : Nat)
  | registerMouse (code : Keycode) (pressed : Bool)
  | mousekeyClear
  deriving DecidableEq

structure State (keyboard : ActionLayer.Keyboard) where
  realMods : BitVec 8
  weakMods : BitVec 8
  oneshotMods : BitVec 8
  oneshotLockedMods : BitVec 8
  oneshotTime : BitVec 16
  oneshotLayerData : BitVec 8
  oneshotLayerTime : BitVec 16
  swapHands : Bool
  swapHeld : Bool
  swapHandsOneshot : SwapHandsOneshot
  oneshotSwaphandsTime : BitVec 16
  layers : LayerStates keyboard
  caches : Caches
  report : Report
  lastReport : Report
  timer : BitVec 16
  calls : List Call

variable (cfg : Config) {keyboard : ActionLayer.Keyboard}

def State.call (call : Call) (s : State keyboard) : State keyboard := { s with calls := s.calls ++ [call] }

/-! ## Modifiers -/

def addMods (mods : BitVec 8) (s : State keyboard) : State keyboard := { s with realMods := s.realMods ||| mods }

def delMods (mods : BitVec 8) (s : State keyboard) : State keyboard := { s with realMods := s.realMods &&& ~~~mods }

def clearMods (s : State keyboard) : State keyboard := { s with realMods := 0 }

def addWeakMods (mods : BitVec 8) (s : State keyboard) : State keyboard := { s with weakMods := s.weakMods ||| mods }

def delWeakMods (mods : BitVec 8) (s : State keyboard) : State keyboard := { s with weakMods := s.weakMods &&& ~~~mods }

def clearWeakMods (s : State keyboard) : State keyboard := { s with weakMods := 0 }

def timedOut (time : BitVec 16) (s : State keyboard) : Bool :=
  0 < cfg.oneshotTimeout ∧ cfg.oneshotTimeout ≤ (s.timer - time).toNat

def hasOneshotModsTimedOut (s : State keyboard) : Bool := timedOut cfg s.oneshotTime s

def addOneshotMods (mods : BitVec 8) (s : State keyboard) : State keyboard :=
  if s.oneshotMods &&& mods ≠ mods then { s with oneshotTime := s.timer, oneshotMods := s.oneshotMods ||| mods } else s

def delOneshotMods (mods : BitVec 8) (s : State keyboard) : State keyboard :=
  if s.oneshotMods &&& mods ≠ 0 then
    let left := s.oneshotMods &&& ~~~mods
    { s with
      oneshotMods := left
      oneshotTime := if left ≠ 0 then s.timer else 0 }
  else s

def clearOneshotMods (s : State keyboard) : State keyboard :=
  if s.oneshotMods ≠ 0 then { s with oneshotMods := 0, oneshotTime := 0 } else s

def addOneshotLockedMods (mods : BitVec 8) (s : State keyboard) : State keyboard :=
  if s.oneshotLockedMods &&& mods ≠ mods then { s with oneshotLockedMods := s.oneshotLockedMods ||| mods } else s

def delOneshotLockedMods (mods : BitVec 8) (s : State keyboard) : State keyboard :=
  if s.oneshotLockedMods &&& mods ≠ 0 then { s with oneshotLockedMods := s.oneshotLockedMods &&& ~~~mods } else s

/-! ## Reports -/

def addKey (code : Keycode) (s : State keyboard) : State keyboard :=
  { s with report := { s.report with keys := addKeyToReport code s.report.keys } }

def delKey (code : Keycode) (s : State keyboard) : State keyboard :=
  { s with report := { s.report with keys := delKeyFromReport code s.report.keys } }

def clearKeys (s : State keyboard) : State keyboard :=
  { s with report := { s.report with keys := clearKeysFromReport s.report.keys } }

/-- Pending one-shot modifiers are used up by a report that has a key. -/
def getModsForReport (s : State keyboard) : BitVec 8 × State keyboard :=
  let mods := s.realMods ||| s.weakMods
  if s.oneshotMods ≠ 0 then
    let s := if hasOneshotModsTimedOut cfg s then clearOneshotMods s else s
    (mods ||| s.oneshotMods, if hasAnykey s.report.keys ≠ 0 then clearOneshotMods s else s)
  else (mods, s)

def sendKeyboardReport (s : State keyboard) : State keyboard :=
  let (mods, s) := getModsForReport cfg s
  let report := { s.report with mods := mods }
  let s := { s with report := report }
  if report ≠ s.lastReport then { s with lastReport := report }.call (.hostKeyboardSend report) else s

def registerMods (mods : BitVec 8) (s : State keyboard) : State keyboard :=
  if mods ≠ 0 then sendKeyboardReport cfg (addMods mods s) else s

def unregisterMods (mods : BitVec 8) (s : State keyboard) : State keyboard :=
  if mods ≠ 0 then sendKeyboardReport cfg (delMods mods s) else s

def registerCode (code : Keycode) (s : State keyboard) : State keyboard :=
  if code = kcNo then s
  else if isBasicKeycode code then
    -- a key that is down already is pressed anew
    let s := if isKeyPressed code s.report.keys then sendKeyboardReport cfg (delKey code s) else s
    sendKeyboardReport cfg (addKey code s)
  else if isModifierKeycode code then sendKeyboardReport cfg (addMods (modBit code) s)
  else if isSystemKeycode code then s.call (.hostSystemSend (keycode2system code))
  else if isConsumerKeycode code then s.call (.hostConsumerSend (keycode2consumer code))
  else if isMouseKeycode code then s.call (.registerMouse code true)
  else s

def unregisterCode (code : Keycode) (s : State keyboard) : State keyboard :=
  if code = kcNo then s
  else if isBasicKeycode code then sendKeyboardReport cfg (delKey code s)
  else if isModifierKeycode code then sendKeyboardReport cfg (delMods (modBit code) s)
  else if isSystemKeycode code then s.call (.hostSystemSend 0)
  else if isConsumerKeycode code then s.call (.hostConsumerSend 0)
  else if isMouseKeycode code then s.call (.registerMouse code false)
  else s

/-- The mouse keys and the usages are released last. -/
def clearKeyboard (s : State keyboard) : State keyboard :=
  let s := (clearKeys (clearMods s)).call (.hostSystemSend 0) |>.call (.hostConsumerSend 0)
  (sendKeyboardReport cfg (clearWeakMods s)).call .mousekeyClear

/-! ## Layers -/

def layerStateSet (state : keyboard.LayerState) (s : State keyboard) : State keyboard :=
  { s with layers := { s.layers with layerState := state } }

def defaultLayerStateSet (state : keyboard.LayerState) (s : State keyboard) : State keyboard :=
  { s with layers := { s.layers with defaultLayerState := state } }

def layerMask (layer : Nat) : keyboard.LayerState := BitVec.ofNat (2 ^ keyboard.maxLayerBits) 1 <<< layer

def layerClear (s : State keyboard) : State keyboard := layerStateSet 0 s

def layerMove (layer : Nat) (s : State keyboard) : State keyboard := layerStateSet (layerMask layer) s

def layerOn (layer : Nat) (s : State keyboard) : State keyboard := layerStateSet (s.layers.layerState ||| layerMask layer) s

def layerOff (layer : Nat) (s : State keyboard) : State keyboard :=
  layerStateSet (s.layers.layerState &&& ~~~layerMask layer) s

def layerInvert (layer : Nat) (s : State keyboard) : State keyboard :=
  layerStateSet (s.layers.layerState ^^^ layerMask layer) s

/-- The bits of a layer operation, together with the mask that keeps the other layers. -/
def layerBits (keyboard : ActionLayer.Keyboard) (action : ActionCode) : keyboard.LayerState :=
  let shift := layerBitopPart action * 4
  let bits := BitVec.ofNat _ (layerBitopBits action) <<< shift
  let mask := if layerBitopXbit action then ~~~(BitVec.ofNat _ 0xF <<< shift) else BitVec.ofNat _ 0
  bits ||| mask

def layerBitop (op : BitVec 2) (old bits : keyboard.LayerState) : keyboard.LayerState :=
  if op = opBitAnd then old &&& bits else if op = opBitOr then old ||| bits else if op = opBitXor then old ^^^ bits else bits

/-! ## One-shot layers -/

def oneshotPressed : BitVec 8 := 0b01
def oneshotOtherKeyPressed : BitVec 8 := 0b10
def oneshotStart : BitVec 8 := 0b11
def oneshotToggled : BitVec 8 := 0b100

def getOneshotLayer (s : State keyboard) : Nat := (s.oneshotLayerData >>> 3).toNat

def getOneshotLayerState (s : State keyboard) : BitVec 8 := s.oneshotLayerData &&& 0b111

def isOneshotLayerActive (s : State keyboard) : Bool := getOneshotLayerState s ≠ 0

def hasOneshotLayerTimedOut (s : State keyboard) : Bool :=
  timedOut cfg s.oneshotLayerTime s ∧ getOneshotLayerState s &&& oneshotToggled = 0

def setOneshotLayer (layer : Nat) (state : BitVec 8) (s : State keyboard) : State keyboard :=
  if cfg.oneshotEnable then
    layerOn layer { s with oneshotLayerData := BitVec.ofNat 8 layer <<< 3 ||| state, oneshotLayerTime := s.timer }
  else layerOn layer s

def resetOneshotLayer (s : State keyboard) : State keyboard := { s with oneshotLayerData := 0, oneshotLayerTime := 0 }

def clearOneshotLayerState (state : BitVec 8) (s : State keyboard) : State keyboard :=
  let left := { s with oneshotLayerData := s.oneshotLayerData &&& ~~~state }
  if (isOneshotLayerActive left = false ∧ s.oneshotLayerData ≠ left.oneshotLayerData) ∧ cfg.oneshotEnable = true then
    resetOneshotLayer (layerOff (getOneshotLayer left) left)
  else left

/-! ## One-shot swapping -/

def setOneshotSwaphands (s : State keyboard) : State keyboard :=
  { s with
    swapHandsOneshot := .pressed
    swapHands := true
    oneshotSwaphandsTime := s.timer
    oneshotLayerTime := if s.oneshotLayerTime ≠ 0 then s.timer else 0 }

def clearOneshotSwaphands (s : State keyboard) : State keyboard :=
  { s with swapHandsOneshot := .off, swapHands := false, oneshotSwaphandsTime := 0 }

def hasOneshotSwaphandsTimedOut (s : State keyboard) : Bool :=
  timedOut cfg s.oneshotSwaphandsTime s ∧ s.swapHandsOneshot = .active

def releaseOneshotSwaphands (s : State keyboard) : State keyboard :=
  match s.swapHandsOneshot with
  | .pressed => { s with swapHandsOneshot := .active }
  | .used => clearOneshotSwaphands s
  | .off | .active => s

def useOneshotSwaphands (s : State keyboard) : State keyboard :=
  match s.swapHandsOneshot with
  | .pressed => { s with swapHandsOneshot := .used }
  | .active => clearOneshotSwaphands s
  | .off | .used => s

/-! ## Actions -/

/-- A record of a key, with what `process_record_quantum` answers to it and, should a one-shot layer end with it, to its
release. -/
structure Record where
  key : KeyPos
  pressed : Bool
  tapCount : Nat
  accepted : Bool
  releaseAccepted : Bool

/-- Modifiers of a modifier key, or of no key, are not weak. -/
def modsAreReal (action : ActionCode) : Bool := isModifierKeycode (keyCode action) ∨ keyCode action = kcNo

def processMods (action : ActionCode) (pressed : Bool) (s : State keyboard) : State keyboard :=
  let mods := actionMods action
  if pressed then
    registerCode cfg (keyCode action)
      (if mods ≠ 0 then sendKeyboardReport cfg (if modsAreReal action then addMods mods s else addWeakMods mods s) else s)
  else
    let s := unregisterCode cfg (keyCode action) s
    if mods ≠ 0 then sendKeyboardReport cfg (if modsAreReal action then delMods mods s else delWeakMods mods s) else s

def processOneshotMods (mods : BitVec 8) (pressed : Bool) (tapCount : Nat) (s : State keyboard) : State keyboard :=
  if pressed then
    if tapCount = 0 then registerMods cfg mods s
    else if tapCount = 1 then addOneshotMods mods s
    else if 1 < cfg.oneshotTapToggle ∧ tapCount = cfg.oneshotTapToggle then
      addOneshotLockedMods mods (delOneshotMods mods (registerMods cfg mods s))
    else s
  else if tapCount = 0 ∨ 1 < cfg.oneshotTapToggle ∧ tapCount = 1 ∧ mods &&& s.realMods ≠ 0 then
    delOneshotLockedMods mods (delOneshotMods mods (unregisterMods cfg mods s))
  else s

def processModsTapToggle (mods : BitVec 8) (pressed : Bool) (tapCount : Nat) (s : State keyboard) : State keyboard :=
  if pressed then if tapCount ≤ cfg.tappingToggle then registerMods cfg mods s else s
  else if tapCount < cfg.tappingToggle then unregisterMods cfg mods s else s

def processModsTap (action : ActionCode) (pressed : Bool) (tapCount : Nat) (s : State keyboard) : State keyboard :=
  let mods := actionMods action
  if keyCode action = modsOneshot then
    if cfg.oneshotEnable then processOneshotMods cfg mods pressed tapCount s else processMods cfg action pressed s
  else if keyCode action = modsTapToggle then processModsTapToggle cfg mods pressed tapCount s
  else if 0 < tapCount then
    if pressed then registerCode cfg (keyCode action) s else unregisterCode cfg (keyCode action) s
  else if pressed then registerMods cfg mods s
  else unregisterMods cfg mods s

def processUsage (action : ActionCode) (pressed : Bool) (s : State keyboard) : State keyboard :=
  let usage := if pressed then usageCode action else 0
  if usagePage action = pageSystem then s.call (.hostSystemSend usage)
  else if usagePage action = pageConsumer then s.call (.hostConsumerSend usage)
  else s

def processLayer (action : ActionCode) (pressed : Bool) (s : State keyboard) : State keyboard :=
  let bits := layerBits keyboard action
  if layerBitopOn action = 0 then
    if pressed then s else defaultLayerStateSet (layerBitop (layerBitopOp action) s.layers.defaultLayerState bits) s
  else if layerBitopOn action &&& (if pressed then onPress else onRelease) ≠ 0 then
    layerStateSet (layerBitop (layerBitopOp action) s.layers.layerState bits) s
  else s

def processLayerMods (action : ActionCode) (pressed : Bool) (s : State keyboard) : State keyboard :=
  if pressed then registerMods cfg (keyCode action) (layerOn (layerModsLayer action) s)
  else layerOff (layerModsLayer action) (unregisterMods cfg (keyCode action) s)

/-- A one-shot layer key, where one-shot keys are enabled. -/
def processOneshotLayer (layer : Nat) (pressed : Bool) (tapCount : Nat) (s : State keyboard) : State keyboard :=
  if 1 < cfg.oneshotTapToggle then
    if pressed then
      if getOneshotLayerState s = oneshotToggled then layerOff layer (resetOneshotLayer s)
      else if tapCount < cfg.oneshotTapToggle then setOneshotLayer cfg layer oneshotStart (layerOn layer s)
      else s
    else if cfg.oneshotTapToggle ≤ tapCount then setOneshotLayer cfg layer oneshotToggled (resetOneshotLayer s)
    else clearOneshotLayerState cfg oneshotPressed s
  else if pressed then setOneshotLayer cfg layer oneshotStart (layerOn layer s)
  else
    let s := clearOneshotLayerState cfg oneshotPressed s
    if 1 < tapCount then clearOneshotLayerState cfg oneshotOtherKeyPressed s else s

def processLayerTap (action : ActionCode) (pressed : Bool) (tapCount : Nat) (s : State keyboard) : State keyboard :=
  let layer := layerTapVal action
  let code := keyCode action
  if code = opTapToggle then
    if (if pressed then tapCount < cfg.tappingToggle else tapCount ≤ cfg.tappingToggle) then layerInvert layer s else s
  else if code = opOnOff then if pressed then layerOn layer s else layerOff layer s
  else if code = opOffOn then if pressed then layerOff layer s else layerOn layer s
  else if code = opSetClear then if pressed then layerMove layer s else layerClear s
  else if code = opOneshot then
    if cfg.oneshotEnable then processOneshotLayer cfg layer pressed tapCount s
    else if pressed then layerOn layer s
    else layerOff layer s
  else if 0 < tapCount then if pressed then registerCode cfg code s else unregisterCode cfg code s
  else if pressed then layerOn layer s
  else layerOff layer s

/-- A tap of a swapping key takes back what `process_record_tap_hint` has set up. -/
def undoSwapHeld (s : State keyboard) : State keyboard :=
  if s.swapHeld then { s with swapHands := !s.swapHands, swapHeld := false } else s

def processSwapHands (action : ActionCode) (pressed : Bool) (tapCount : Nat) (s : State keyboard) : State keyboard :=
  let code := keyCode action
  if code = opShToggle then if pressed then { s with swapHands := !s.swapHands } else s
  else if code = opShOnOff then { s with swapHands := pressed }
  else if code = opShOffOn then { s with swapHands := !pressed }
  else if code = opShOn then if pressed then s else { s with swapHands := true }
  else if code = opShOff then if pressed then s else { s with swapHands := false }
  else if code = opShOneshot then if pressed then setOneshotSwaphands s else releaseOneshotSwaphands s
  else if code = opShTapToggle then
    if pressed then if s.swapHeld then { s with swapHeld := false } else { s with swapHands := !s.swapHands }
    else if tapCount < cfg.tappingToggle then { s with swapHands := !s.swapHands }
    else s
  else if 0 < tapCount then
    let s := undoSwapHeld s
    if pressed then registerCode cfg code s else unregisterCode cfg code s
  else if pressed then s
  else undoSwapHeld s

/-- Whether the key is a one-shot key for swapping the hands. -/
def isOneshotSwaphands (action : ActionCode) : Bool :=
  cfg.swapHandsEnable ∧ kindId action = .swapHands ∧ keyCode action = opShOneshot

/-- The cases of `process_action`. -/
def processKind (action : ActionCode) (pressed : Bool) (tapCount : Nat) (s : State keyboard) : State keyboard :=
  match kindId action with
  | .lmods | .rmods => processMods cfg action pressed s
  | .lmodsTap | .rmodsTap => processModsTap cfg action pressed tapCount s
  | .usage => processUsage action pressed s
  | .mousekey => s.call (.registerMouse (keyCode action) pressed)
  | .layer => processLayer action pressed s
  | .layerMods => processLayerMods cfg action pressed s
  | .layerTap | .layerTapExt => processLayerTap cfg action pressed tapCount s
  | .swapHands => if cfg.swapHandsEnable then processSwapHands cfg action pressed tapCount s else s
  | .unknown => s

/-- `process_action`, but for one-shot layers that end with the action. -/
def processActionKind (action : ActionCode) (pressed : Bool) (tapCount : Nat) (s : State keyboard) : State keyboard :=
  let s := processKind cfg action pressed tapCount s
  if pressed ∧ cfg.swapHandsEnable ∧ ¬isOneshotSwaphands cfg action then useOneshotSwaphands s else s

/-- Modifier keys, and modifier tap keys that are held, keep a one-shot layer. -/
def keepsOneshotLayer (action : ActionCode) (tapCount : Nat) : Bool :=
  kindId action ≠ .usage ∧
    (isModifierKeycode (keyCode action) ∨
      (kindId action = .lmodsTap ∨ kindId action = .rmodsTap) ∧ (keyCode action ≤ modsTapToggle ∨ tapCount = 0))

/-- Whether the press of a key ends the part of a one-shot layer that waits for another key. -/
def usesOneshotLayer (record : Record) (action : ActionCode) (s : State keyboard) : Bool :=
  isOneshotLayerActive s ∧ record.pressed ∧ ¬keepsOneshotLayer action record.tapCount ∧ ¬isOneshotSwaphands cfg action ∧
    cfg.oneshotEnable

/-- With `ONESHOT_TAP_TOGGLE`, a one-shot layer key is not released early. -/
def isTappedOneshotLayer (action : ActionCode) : Bool :=
  (kindId action = .layerTap ∨ kindId action = .layerTapExt) ∧ keyCode action = opOneshot ∧ cfg.oneshotEnable ∧
    1 < cfg.oneshotTapToggle

section Records

variable {cfg : Config}

/-- The action of a record, from the layer that the key has been pressed on. -/
def storeOrGet (record : Record) (s : State cfg.keyboard) : ActionCode × State cfg.keyboard :=
  let (action, caches) := storeOrGetAction cfg.keyboard false cfg.actionForKey s.layers record.pressed record.key s.caches
  (action, { s with caches := caches })

/-- `process_record` for the release of a key, with which no one-shot layer ends. -/
def processRelease (record : Record) (accepted : Bool) (s : State cfg.keyboard) : State cfg.keyboard :=
  if accepted then
    let (action, s) := storeOrGet { record with pressed := false } s
    processActionKind cfg action false record.tapCount s
  else s

/-- A key that ends a one-shot layer is released at once, on that layer. -/
def processAction (record : Record) (action : ActionCode) (s : State cfg.keyboard) : State cfg.keyboard :=
  let uses := usesOneshotLayer cfg record action s
  let s := if uses then clearOneshotLayerState cfg oneshotOtherKeyPressed s else s
  let doReleaseOneshot := uses ∧ ¬isOneshotLayerActive s ∧ ¬isTappedOneshotLayer cfg action
  let s := processActionKind cfg action record.pressed record.tapCount s
  if doReleaseOneshot ∧ getOneshotLayerState s &&& oneshotPressed = 0 then
    let s := processRelease record record.releaseAccepted (layerOn (getOneshotLayer s) s)
    layerOff (getOneshotLayer s) s
  else s

def processRecord (record : Record) (s : State cfg.keyboard) : State cfg.keyboard :=
  if record.accepted then
    let (action, s) := storeOrGet record s
    processAction record action s
  else if isOneshotLayerActive s ∧ record.pressed ∧ cfg.oneshotEnable then
    clearOneshotLayerState cfg oneshotOtherKeyPressed s
  else s

/-- `action_exec`, up to the tapping. -/
def actionExec (pressed : Bool) (s : State cfg.keyboard) : State cfg.keyboard :=
  let s := if pressed then clearWeakMods s else s
  if cfg.oneshotEnable then
    let s := if hasOneshotLayerTimedOut cfg s then clearOneshotLayerState cfg oneshotOtherKeyPressed s else s
    let s := if hasOneshotModsTimedOut cfg s then clearOneshotMods s else s
    if cfg.swapHandsEnable ∧ hasOneshotSwaphandsTimedOut cfg s then clearOneshotSwaphands s else s
  else s

def processRecordTapHint (key : KeyPos) (s : State cfg.keyboard) : State cfg.keyboard :=
  let action := layerSwitchGetAction cfg.keyboard cfg.actionForKey s.layers key
  if cfg.swapHandsEnable ∧ kindId action = .swapHands ∧ keyCode action ≠ opShOneshot then
    { s with swapHands := !s.swapHands, swapHeld := true }
  else s

/-! ## Runs -/

/-- The calls into this code, which the tapping may put in any order. -/
inductive Op where
  | exec (pressed : Bool)
  | record (record : Record)
  | tapHint (key : KeyPos)
  | clearKeyboard

def step (s : State cfg.keyboard) : BitVec 16 × Op → State cfg.keyboard
  | (now, op) =>
    let s := { s with timer := now }
    match op with
    | .exec pressed => actionExec pressed s
    | .record record => processRecord record s
    | .tapHint key => processRecordTapHint key s
    | .clearKeyboard => clearKeyboard cfg s

/-- Before the first event no key is down, in a report of the given kind. -/
def State.start (keys : Keys) : State cfg.keyboard where
  realMods := 0
  weakMods := 0
  oneshotMods := 0
  oneshotLockedMods := 0
  oneshotTime := 0
  oneshotLayerData := 0
  oneshotLayerTime := 0
  swapHands := false
  swapHeld := false
  swapHandsOneshot := .off
  oneshotSwaphandsTime := 0
  layers := { layerState := BitVec.ofNat _ 0, defaultLayerState := BitVec.ofNat _ 0 }
  caches := { sourceLayersCache := fun _ _ => 0, encoderSourceLayersCache := fun _ _ => 0 }
  report := { mods := 0, keys := clearKeysFromReport keys }
  lastReport := { mods := 0, keys := clearKeysFromReport keys }
  timer := 0
  calls := []

def run (cfg : Config) (keys : Keys) (ops : List (BitVec 16 × Op)) : State cfg.keyboard := ops.foldl step (State.start keys)

end Records

end QmkFirmware.Action
