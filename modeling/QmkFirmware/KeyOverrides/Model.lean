import Mathlib.Data.List.Basic
import QmkFirmware.Foundations.Runs

/-! # Key overrides

A shallow embedding of `quantum/process_keycode/process_key_override.c`, with the part of the
report it works on and with what the rest of `process_record` does to a key that it lets
through.  A report is the set of key codes that are registered in it: the keys of the keyboard
report, which has a place for every key as under NKRO, the eight modifiers of `get_mods()`, the one
system and the one consumer code whose usage the host was sent last, and the directions and buttons
of the mouse (without inertia and `MK_3_SPEED`).  Sending the report does not change it.
-/

namespace QmkFirmware.KeyOverrides

/-! ## Key codes -/

abbrev Keycode : Type := BitVec 16

def kcNo : Keycode := 0
def qkMods : Nat := 0x0100
def qkModsMax : Nat := 0x1FFF
def safeRange : Nat := 0x7E40
def qkKeyOverrideToggle : Keycode := 0x7C5D
def qkKeyOverrideOn : Keycode := 0x7C5E
def qkKeyOverrideOff : Keycode := 0x7C5F

def isBasicKeycode (code : Nat) : Bool := decide (0x04 ≤ code ∧ code ≤ 0xA4)

def isSystemKeycode (code : Nat) : Bool := decide (0xA5 ≤ code ∧ code ≤ 0xA7)

def isConsumerKeycode (code : Nat) : Bool := decide (0xA8 ≤ code ∧ code ≤ 0xC2)

def isMouseKeycode (code : Nat) : Bool := decide (0xCD ≤ code ∧ code ≤ 0xDF)

def isModifierKeycode (code : Nat) : Bool := decide (0xE0 ≤ code ∧ code ≤ 0xE7)

/-- The codes that `register_code` knows: basic, system and consumer, mouse and modifier codes. -/
def isReportable (code : Nat) : Bool := decide (0x04 ≤ code ∧ code ≤ 0xC2 ∨ 0xCD ≤ code ∧ code ≤ 0xE7)

/-- A key code passed as `uint8_t`. -/
def lowByte (keycode : Keycode) : BitVec 8 := keycode.setWidth 8

def clearModsFrom (keycode : Keycode) : Keycode :=
  if qkMods ≤ keycode.toNat ∧ keycode.toNat ≤ qkModsMax then keycode &&& ~~~0x1F00 else keycode

/-- The modifiers of a key code in the `QK_MODS` range, on the side it asks for. -/
def extractModBits (code : Keycode) : BitVec 8 :=
  if qkMods ≤ code.toNat ∧ code.toNat ≤ qkModsMax then
    let bits := (code >>> 8).setWidth 8 &&& 0x0F
    if code &&& 0x1000 ≠ 0 then bits <<< 4 else bits
  else 0

/-! ## Overrides -/

/-- `key_override_t`.  What `enabled` points to can change at any time and comes with the events. -/
structure KeyOverride where
  trigger : Keycode
  triggerMods : BitVec 8
  layers : BitVec 32
  negativeModMask : BitVec 8
  suppressedMods : BitVec 8
  replacement : Keycode
  options : BitVec 8
  customAction : Option (Bool → Bool)

def koOptionActivationTriggerDown : BitVec 8 := 1
def koOptionActivationRequiredModDown : BitVec 8 := 2
def koOptionActivationNegativeModUp : BitVec 8 := 4
def koOptionsAllActivations : BitVec 8 := 7
def koOptionOneMod : BitVec 8 := 8
def koOptionNoReregisterTrigger : BitVec 8 := 16
def koOptionNoUnregisterOnOtherKeyDown : BitVec 8 := 32

/-- The pointers of `key_overrides` up to its `NULL`, which a `uint8_t` index has to reach, and
what they point to. -/
structure Table where
  pointers : List Nat
  override : Nat → KeyOverride
  short : pointers.length ≤ 255

/-- The static variables and the report.  `deferredBy` is a ghost: the override that scheduled
the deferred key code. -/
structure State where
  enabled : Bool
  activeOverride : Option Nat
  activeOverrideTriggerIsDown : Bool
  lastKeyDown : Keycode
  lastKeyDownTime : BitVec 32
  deferReferenceTime : BitVec 32
  deferDelay : BitVec 32
  deferredRegister : Keycode
  deferredBy : Option Nat
  suppressedMods : BitVec 8
  weakOverrideMods : BitVec 8
  registered : BitVec 8 → Bool

/-- A key event, with the time, the layer, the one-shot modifiers and the `enabled` flags it finds. -/
structure KeyEvent where
  keycode : Keycode
  pressed : Bool
  now : BitVec 32
  layer : Nat
  oneshotMods : BitVec 8
  flag : Nat → Bool

/-! ## The report -/

def setRegistered (code : BitVec 8) (down : Bool) (s : State) : State :=
  { s with registered := Function.update s.registered code down }

def addKey (code : BitVec 8) (s : State) : State := setRegistered code true s

def delKey (code : BitVec 8) (s : State) : State := setRegistered code false s

/-- `host_system_send` and `host_consumer_send`: the last usage that was sent takes the place of the
one before, whichever key it came from; usage 0 leaves none. -/
def hostSend (ofKind : Nat → Bool) (usage : Option (BitVec 8)) (s : State) : State :=
  { s with registered := fun code => if ofKind code.toNat then decide (usage = some code) else s.registered code }

/-- The other direction on the same axis of the mouse or of its wheel. -/
def oppositeDirection (code : BitVec 8) : Option (BitVec 8) :=
  match code.toNat with
  | 0xCD => some 0xCE
  | 0xCE => some 0xCD
  | 0xCF => some 0xD0
  | 0xD0 => some 0xCF
  | 0xD9 => some 0xDA
  | 0xDA => some 0xD9
  | 0xDB => some 0xDC
  | 0xDC => some 0xDB
  | _ => none

/-- A direction sets the sign of its axis; `mousekey_off` clears it only if the sign is its own. -/
def registerMouse (code : BitVec 8) (pressed : Bool) (s : State) : State :=
  match pressed, oppositeDirection code with
  | true, some other => addKey code (delKey other s)
  | true, none => addKey code s
  | false, _ => delKey code s

def registerCode (code : BitVec 8) (s : State) : State :=
  if isBasicKeycode code.toNat then addKey code s
  else if isModifierKeycode code.toNat then setRegistered code true s
  else if isSystemKeycode code.toNat then hostSend isSystemKeycode (some code) s
  else if isConsumerKeycode code.toNat then hostSend isConsumerKeycode (some code) s
  else if isMouseKeycode code.toNat then registerMouse code true s
  else s

def unregisterCode (code : BitVec 8) (s : State) : State :=
  if isBasicKeycode code.toNat then delKey code s
  else if isModifierKeycode code.toNat then setRegistered code false s
  else if isSystemKeycode code.toNat then hostSend isSystemKeycode none s
  else if isConsumerKeycode code.toNat then hostSend isConsumerKeycode none s
  else if isMouseKeycode code.toNat then registerMouse code false s
  else s

/-- The weak modifiers that come with the code are not part of the model. -/
def registerCode16 (code : Keycode) (s : State) : State := registerCode (lowByte code) s

def getMods (s : State) : BitVec 8 :=
  (List.range 8).foldl (fun mods i => if s.registered (BitVec.ofNat 8 (0xE0 + i)) then mods ||| 1 <<< i else mods) 0

/-! ## Activating and deactivating -/

section Machine

variable (table : Table)

def keyOverrideMatchesActiveModifiers (o : KeyOverride) (mods : BitVec 8) : Bool :=
  if o.negativeModMask &&& mods ≠ 0 then false
  else if o.triggerMods = 0 then true
  else if o.options &&& koOptionOneMod ≠ 0 then decide (o.triggerMods &&& mods ≠ 0)
  else
    let oneSidedRequiredMods := o.triggerMods &&& 0x0F ||| o.triggerMods >>> 4
    let activeRequiredMods := o.triggerMods &&& mods
    let oneSidedActiveRequiredMods := activeRequiredMods &&& 0x0F ||| activeRequiredMods >>> 4
    decide (oneSidedActiveRequiredMods = oneSidedRequiredMods)

/-- Schedule a key code on behalf of override `p`. -/
def scheduleDeferredRegister (p : Nat) (keycode : Keycode) (now : BitVec 32) (s : State) : State :=
  if now - s.lastKeyDownTime < 500 then
    { s with
      deferReferenceTime := s.lastKeyDownTime
      deferDelay := 500
      deferredRegister := keycode
      deferredBy := some p }
  else
    { s with
      deferReferenceTime := now
      deferDelay := 50
      deferredRegister := keycode
      deferredBy := some p }

def firesCustomAction (o : KeyOverride) (activated : Bool) : Bool :=
  match o.customAction with
  | some action => action activated
  | none => true

/-- The replacement is unregistered.  Its key code is a `uint8_t` here. -/
def unregisterReplacement (o : KeyOverride) (s : State) : State :=
  let modFreeReplacement := lowByte (clearModsFrom o.replacement)
  if modFreeReplacement ≠ 0 ∧ modFreeReplacement.toNat < safeRange ∧ firesCustomAction o false = true then
    if isBasicKeycode modFreeReplacement.toNat then delKey modFreeReplacement s
    else unregisterCode modFreeReplacement s
  else s

/-- The trigger that is registered again when its override goes. -/
def reregistersTrigger (o : KeyOverride) (allowReregister triggerIsDown : Bool) : Bool :=
  allowReregister && decide (o.options &&& koOptionNoReregisterTrigger = 0) && triggerIsDown &&
    decide (o.trigger ≠ kcNo) && decide (o.trigger.toNat < safeRange)

/-- The body of `clear_active_override` for the active override `p`. -/
def deactivate (p : Nat) (allowReregister : Bool) (now : BitVec 32) (s : State) : State :=
  let o := table.override p
  let s := unregisterReplacement o { s with deferredRegister := 0, suppressedMods := 0, weakOverrideMods := 0 }
  let s :=
    if reregistersTrigger o allowReregister s.activeOverrideTriggerIsDown then
      scheduleDeferredRegister p o.trigger now s
    else s
  { s with activeOverride := none, activeOverrideTriggerIsDown := false }

def clearActiveOverride (allowReregister : Bool) (now : BitVec 32) (s : State) : State :=
  match s.activeOverride with
  | none => s
  | some p => deactivate table p allowReregister now s

def checkActivationEvent (o : KeyOverride) (keyDown isMod : Bool) : Bool :=
  let options := if o.options &&& koOptionsAllActivations = 0 then koOptionsAllActivations else o.options
  match isMod, keyDown with
  | true, true => decide (options &&& koOptionActivationRequiredModDown ≠ 0)
  | true, false => decide (options &&& koOptionActivationNegativeModUp ≠ 0)
  | false, true => decide (options &&& koOptionActivationTriggerDown ≠ 0)
  | false, false => false

/-- The checks of the loop in `try_activating_override`, none of which may fail. -/
def shouldActivate (event : KeyEvent) (isMod : Bool) (activeMods : BitVec 8) (s : State) (p : Nat) : Bool :=
  let o := table.override p
  let isTrigger := decide (o.trigger = event.keycode)
  let noTrigger := decide (o.trigger = kcNo)
  let triggerDown := isTrigger && event.pressed
  !(decide (activeMods = 0) && decide (o.triggerMods ≠ 0)) &&
    decide (o.layers &&& 1 <<< event.layer ≠ 0) &&
    checkActivationEvent o event.pressed isMod &&
    !(isTrigger && !event.pressed) &&
    decide (s.activeOverride ≠ some p) &&
    event.flag p &&
    keyOverrideMatchesActiveModifiers o activeMods &&
    (noTrigger || triggerDown || decide (s.lastKeyDown = o.trigger))

/-- Whether activating the override registers its replacement. -/
def registersReplacement (o : KeyOverride) : Bool :=
  decide (clearModsFrom o.replacement ≠ kcNo) && decide ((clearModsFrom o.replacement).toNat < safeRange) &&
    firesCustomAction o true

/-- The replacement is registered now, or scheduled if a modifier event activates the override. -/
def registerReplacement (p : Nat) (isMod : Bool) (now : BitVec 32) (s : State) : State :=
  let o := table.override p
  let modFreeReplacement := clearModsFrom o.replacement
  if registersReplacement o then
    let s := { s with weakOverrideMods := extractModBits o.replacement }
    if isMod then scheduleDeferredRegister p modFreeReplacement now s
    else if isBasicKeycode modFreeReplacement.toNat then addKey (lowByte modFreeReplacement) s
    else registerCode (lowByte modFreeReplacement) s
  else s

/-- The trigger of an override is removed from the report. -/
def unregisterTrigger (o : KeyOverride) (s : State) : State :=
  if isBasicKeycode o.trigger.toNat then delKey (lowByte o.trigger) s else unregisterCode (lowByte o.trigger) s

/-- The first half of an activation: the earlier override is cleared, the new one is active, and its
trigger is not in the report. -/
def replaceTrigger (event : KeyEvent) (p : Nat) (s : State) : State :=
  let o := table.override p
  let triggerDown := decide (o.trigger = event.keycode) && event.pressed
  let s := clearActiveOverride table false event.now s
  let s := { s with
    activeOverride := some p
    activeOverrideTriggerIsDown := true
    suppressedMods := o.suppressedMods }
  if !triggerDown && decide (o.trigger ≠ kcNo) then unregisterTrigger o s else s

def activate (event : KeyEvent) (isMod : Bool) (p : Nat) (s : State) : State :=
  registerReplacement table p isMod event.now (replaceTrigger table event p s)

/-- Returns whether the key action should be sent, whether an override was activated, and the
new state. -/
def tryActivatingOverride (event : KeyEvent) (isMod : Bool) (activeMods : BitVec 8) (s : State) :
    Bool × Bool × State :=
  match table.pointers.find? (shouldActivate table event isMod activeMods s) with
  | none => (true, false, s)
  | some p =>
    let triggerDown := decide ((table.override p).trigger = event.keycode) && event.pressed
    (!triggerDown, true, activate table event isMod p s)

/-! ## Events -/

def keyOverrideOn (s : State) : State := { s with enabled := true }

def keyOverrideOff (now : BitVec 32) (s : State) : State :=
  clearActiveOverride table false now { s with enabled := false }

def keyOverrideTask (now : BitVec 32) (s : State) : State :=
  if s.deferredRegister = 0 then s
  else if now - s.deferReferenceTime ≥ s.deferDelay then
    { registerCode16 s.deferredRegister s with deferredRegister := 0, deferReferenceTime := 0, deferDelay := 0 }
  else s

/-- The modifiers as they are after the event. -/
def effectiveMods (event : KeyEvent) (s : State) : BitVec 8 :=
  let mods := getMods s ||| event.oneshotMods
  if isModifierKeycode event.keycode.toNat then
    let bit := (1 : BitVec 8) <<< (event.keycode.toNat &&& 7)
    if event.pressed then mods ||| bit else mods &&& ~~~bit
  else mods

/-- A press of a non-modifier is the last key down; its release cancels what is deferred. -/
def trackLastKey (event : KeyEvent) (s : State) : State :=
  if event.pressed then
    { s with lastKeyDown := event.keycode, lastKeyDownTime := event.now, deferredRegister := 0 }
  else if event.keycode = s.lastKeyDown then
    { s with lastKeyDown := 0, lastKeyDownTime := 0, deferredRegister := 0 }
  else s

/-- Whether the active override `p` survives an event that did not activate another one. -/
def checkActiveOverride (p : Nat) (event : KeyEvent) (isMod : Bool) (mods : BitVec 8) (s : State) : State :=
  let o := table.override p
  if isMod then
    if keyOverrideMatchesActiveModifiers o mods then s else clearActiveOverride table true event.now s
  else
    let lifted := decide (event.keycode = o.trigger) && !event.pressed
    let s := if lifted then { s with activeOverrideTriggerIsDown := false } else s
    if lifted || event.pressed && decide (o.options &&& koOptionNoUnregisterOnOtherKeyDown = 0) then
      clearActiveOverride table false event.now s
    else s

def deactivateOnEvent (event : KeyEvent) (isMod : Bool) (mods : BitVec 8) (s : State) : State :=
  match s.activeOverride with
  | none => s
  | some p => checkActiveOverride table p event isMod mods s

/-- The body of `process_key_override` behind its early returns. -/
def processEnabled (event : KeyEvent) (s : State) : Bool × State :=
  let isMod := isModifierKeycode event.keycode.toNat
  let mods := effectiveMods event s
  let s := if isMod then s else trackLastKey event s
  let (sendKeyAction, activated, s) :=
    if isMod || event.pressed then tryActivatingOverride table event isMod mods s else (true, false, s)
  (sendKeyAction, if activated then s else deactivateOnEvent table event isMod mods s)

def processKeyOverride (event : KeyEvent) (s : State) : Bool × State :=
  if event.pressed ∧ event.keycode = qkKeyOverrideToggle then
    (false, if s.enabled then keyOverrideOff table event.now s else keyOverrideOn s)
  else if event.pressed ∧ event.keycode = qkKeyOverrideOn then (false, keyOverrideOn s)
  else if event.pressed ∧ event.keycode = qkKeyOverrideOff then (false, keyOverrideOff table event.now s)
  else if s.enabled then processEnabled table event s
  else (true, s)

/-! ## Keys -/

/-- The codes that a key's own action registers when it is pressed and unregisters when it is
released: an 8-bit code itself; for a code with modifiers the 8-bit code, and the modifiers where
they are not weak.  Other codes (layers, macros, custom codes) do not touch the report. -/
def actionCodes (keycode : Keycode) : List (BitVec 8) :=
  if keycode.toNat ≤ qkModsMax then
    let mods := extractModBits keycode
    let modCodes := ((List.range 8).filter fun i => mods.getLsbD i).map fun i => BitVec.ofNat 8 (0xE0 + i)
    if isModifierKeycode (lowByte keycode).toNat || decide (lowByte keycode = 0) then lowByte keycode :: modCodes
    else [lowByte keycode]
  else []

def processAction (keycode : Keycode) (pressed : Bool) (s : State) : State :=
  (actionCodes keycode).foldl (fun s code => if pressed then registerCode code s else unregisterCode code s) s

/-- The keys that are physically held, and the firmware. -/
structure World where
  held : List Keycode
  state : State

inductive Step where
  | key (event : KeyEvent)
  | task (now : BitVec 32)

def heldAfter (event : KeyEvent) (held : List Keycode) : List Keycode :=
  if event.pressed then event.keycode :: held else held.erase event.keycode

def keyStep (event : KeyEvent) (w : World) : World :=
  let (sendKeyAction, s) := processKeyOverride table event w.state
  { held := heldAfter event w.held
    state := if sendKeyAction then processAction event.keycode event.pressed s else s }

def step (w : World) : Step → World
  | .key event => keyStep table event w
  | .task now => { w with state := keyOverrideTask now w.state }

end Machine

/-- No key is held, nothing is registered; overrides may be switched on or off. -/
def start (enabled : Bool) : World where
  held := []
  state :=
    { enabled := enabled
      activeOverride := none
      activeOverrideTriggerIsDown := false
      lastKeyDown := 0
      lastKeyDownTime := 0
      deferReferenceTime := 0
      deferDelay := 0
      deferredRegister := 0
      deferredBy := none
      suppressedMods := 0
      weakOverrideMods := 0
      registered := fun _ => false }

end QmkFirmware.KeyOverrides
