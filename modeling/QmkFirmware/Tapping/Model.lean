import Mathlib.Data.UInt

/-! # Tapping keys

A shallow embedding of `quantum/action_tapping.c`.  Key events pass through
`actionTappingProcess`, which holds them back while it is open whether a tapping
key is tapped or held.  The calls the code makes into the rest of the firmware are
recorded in order; what depends on the layers, such as the action of a key, may
depend on these calls.

Combos and retro shift are not compiled in.  `process_record` gets its record by
value: it writes to the record only for an interrupted tap of a key with the hold
option, and such a key is decided as soon as it is interrupted.
-/

namespace QmkFirmware.Tapping

/-! ## Actions -/

inductive ActionKind where
  | lmods | rmods | lmodsTap | rmodsTap
  | usage | mousekey | swapHands
  | layer | layerMods | layerTap | layerTapExt
deriving DecidableEq

/-- The fields of `action_t` that this code reads; `code` is the low byte. -/
structure Action where
  kind : ActionKind
  mods : BitVec 4
  code : UInt8

def opTapToggle : UInt8 := 0xF0
def opOnOff : UInt8 := 0xF1
def opOffOn : UInt8 := 0xF2
def opSetClear : UInt8 := 0xF3
def opOneshot : UInt8 := 0xF4
def opShTapToggle : UInt8 := 0xF1

def kcLeftCtrl : UInt8 := 0xE0
def kcRightGui : UInt8 := 0xE7

def isModifierKeycode (code : UInt8) : Bool := kcLeftCtrl ≤ code && code ≤ kcRightGui

def isTapAction (action : Action) : Bool :=
  match action.kind with
  | .lmodsTap | .rmodsTap | .layerTap | .layerTapExt =>
    action.code ≤ kcRightGui || action.code == opTapToggle || action.code == opOneshot
  | .swapHands => action.code ≤ kcRightGui || action.code == opShTapToggle
  | _ => false

/-- Modifier and layer keys whose release waits for the end of a tapping. -/
def retained (action : Action) (count : Nat) : Bool :=
  match action.kind with
  | .lmods | .rmods => (action.mods != 0 && action.code == 0) || isModifierKeycode action.code
  | .lmodsTap | .rmodsTap => (action.mods != 0 && count == 0) || isModifierKeycode action.code
  | .layerTap | .layerTapExt =>
    action.code < opTapToggle || action.code == opOnOff || action.code == opOffOn ||
      action.code == opSetClear
  | _ => false

/-! ## Events and records -/

inductive EventType where
  | tick | key | encoderCw | encoderCcw | combo
deriving DecidableEq

structure Event (κ : Type) where
  key : κ
  time : UInt16
  type : EventType
  pressed : Bool
deriving DecidableEq

def Event.isEvent {κ : Type} (event : Event κ) : Bool := event.type != .tick

structure Tap where
  interrupted : Bool := false
  count : Nat := 0
deriving DecidableEq

structure Record (κ : Type) where
  event : Event κ
  tap : Tap := {}
deriving DecidableEq

/-- Calls into the rest of the firmware. -/
inductive Call (κ : Type) where
  | processRecord (record : Record κ)
  | processRecordTapHint (record : Record κ)
  | clearKeyboard
deriving DecidableEq

/-! ## State -/

/-- The options of a keyboard.  Only the hold option is one for each key at all times. -/
structure Settings (κ : Type) where
  layerSwitchGetAction : List (Call κ) → κ → Action
  getTappingTerm : List (Call κ) → Record κ → UInt16
  getQuickTapTerm : List (Call κ) → Record κ → UInt16
  getPermissiveHold : List (Call κ) → Record κ → Bool
  getHoldOnOtherKeyPress : κ → Bool

/-- `tappingKey` is `none` where the source has the zeroed record.  The ring buffer
is the list of its records from the tail to the head. -/
structure State (κ : Type) where
  tappingKey : Option (Record κ) := none
  waitingBuffer : List (Record κ) := []
  calls : List (Call κ) := []
deriving DecidableEq

def waitingBufferSize : Nat := 8

section

variable {κ : Type} [DecidableEq κ] (settings : Settings κ)

def State.processRecord (record : Record κ) (s : State κ) : State κ :=
  { s with calls := s.calls ++ [.processRecord record] }

def State.processRecordTapHint (record : Record κ) (s : State κ) : State κ :=
  { s with calls := s.calls ++ [.processRecordTapHint record] }

/-- The tapping key counts as held: it is processed and reset. -/
def State.endTapping (tapping : Record κ) (s : State κ) : State κ :=
  { s.processRecord tapping with tappingKey := none }

def isTapRecord (s : State κ) (record : Record κ) : Bool :=
  record.event.isEvent && isTapAction (settings.layerSwitchGetAction s.calls record.event.key)

def isTappingRecord (tapping record : Record κ) : Bool := tapping.event.key == record.event.key

/-- `TIMER_DIFF_16` is the difference of 16-bit times. -/
def withinTappingTerm (s : State κ) (tapping : Record κ) (event : Event κ) : Bool :=
  event.time - tapping.event.time < settings.getTappingTerm s.calls tapping

def withinQuickTapTerm (s : State κ) (tapping : Record κ) (event : Event κ) : Bool :=
  event.time - tapping.event.time < settings.getQuickTapTerm s.calls tapping

/-! ## Waiting buffer -/

def waitingBufferEnq (record : Record κ) (s : State κ) : Option (State κ) :=
  if !record.event.isEvent then some s
  else if s.waitingBuffer.length + 1 = waitingBufferSize then none
  else some { s with waitingBuffer := s.waitingBuffer ++ [record] }

def waitingBufferTyped (event : Event κ) (s : State κ) : Bool :=
  s.waitingBuffer.any fun record =>
    event.key == record.event.key && event.pressed != record.event.pressed

/-- Marks the first release of the tapping key within its term, if there is one. -/
def markTap (s : State κ) (tapping : Record κ) : List (Record κ) → Option (List (Record κ))
  | [] => none
  | candidate :: rest =>
    if candidate.event.isEvent && candidate.event.key == tapping.event.key &&
        !candidate.event.pressed && withinTappingTerm settings s tapping candidate.event then
      some ({ candidate with tap.count := 1 } :: rest)
    else (markTap s tapping rest).map (candidate :: ·)

def waitingBufferScanTap (s : State κ) : State κ :=
  match s.tappingKey with
  | none => s
  | some tapping =>
    if 0 < tapping.tap.count || !tapping.event.pressed then s
    else
      match markTap settings s tapping s.waitingBuffer with
      | none => s
      | some waitingBuffer =>
        let tapping := { tapping with tap.count := 1 }
        { s with tappingKey := some tapping, waitingBuffer }.processRecord tapping

/-! ## State machine -/

/-- What `process_tapping` returns, and what it leaves in the record and in the state. -/
structure Outcome (κ : Type) where
  consumed : Bool
  keyp : Record κ
  state : State κ

/-- The release that ends a repeated tap when the next tapping key is pressed. -/
def unregister (tapping : Record κ) (event : Event κ) : Record κ :=
  { tap := tapping.tap
    event := { key := tapping.event.key, time := event.time, type := tapping.event.type
               pressed := false } }

/-- No decision yet, and an event within the term. -/
def processUndecided (keyp tapping : Record κ) (s : State κ) : Outcome κ :=
  let event := keyp.event
  if isTappingRecord tapping keyp && !event.pressed then
    -- first tap
    let tapping := { tapping with tap.count := 1 }
    ⟨false, { keyp with tap := tapping.tap },
      { s with tappingKey := some tapping }.processRecord tapping⟩
  else if !event.pressed && waitingBufferTyped event s &&
      settings.getPermissiveHold s.calls tapping then
    ⟨false, keyp, s.endTapping tapping⟩
  else if !event.pressed && !waitingBufferTyped event s then
    -- released key was pressed before the tapping started
    if retained (settings.layerSwitchGetAction s.calls event.key) keyp.tap.count then
      ⟨false, keyp, s⟩
    else ⟨true, keyp, s.processRecord keyp⟩
  else if event.pressed then
    let tapping := { tapping with tap.interrupted := true }
    if settings.getHoldOnOtherKeyPress tapping.event.key then
      ⟨false, keyp, s.endTapping tapping⟩
    else ⟨false, keyp, { s with tappingKey := some tapping }⟩
  else ⟨false, keyp, s⟩

/-- The tapping key has been tapped; `released` is what becomes of it with its release. -/
def processTapped (released : Record κ → Option (Record κ)) (keyp tapping : Record κ)
    (s : State κ) : Outcome κ :=
  let event := keyp.event
  if isTappingRecord tapping keyp && !event.pressed then
    let keyp := { keyp with tap := tapping.tap }
    ⟨true, keyp, { s.processRecord keyp with tappingKey := released keyp }⟩
  else if isTapRecord settings s keyp && event.pressed then
    let s := if 1 < tapping.tap.count then s.processRecord (unregister tapping event) else s
    ⟨true, keyp, waitingBufferScanTap settings { s with tappingKey := some keyp }⟩
  else ⟨true, keyp, s.processRecord keyp⟩

/-- The tap count has four bits and stays at its largest value. -/
def Tap.next (tap : Tap) : Tap :=
  if tap.count < 15 then { tap with count := tap.count + 1 } else tap

/-- The tapping key has been released, and an event arrives within the term. -/
def processReleased (keyp tapping : Record κ) (s : State κ) : Outcome κ :=
  let event := keyp.event
  if event.pressed then
    if isTappingRecord tapping keyp then
      if withinQuickTapTerm settings s tapping event && !tapping.tap.interrupted &&
          0 < tapping.tap.count then
        -- sequential tap
        let keyp := { keyp with tap := tapping.tap.next }
        ⟨true, keyp, { s.processRecord keyp with tappingKey := some keyp }⟩
      else ⟨true, keyp, { s with tappingKey := some keyp }⟩
    else if isTapRecord settings s keyp then
      ⟨true, keyp, waitingBufferScanTap settings { s with tappingKey := some keyp }⟩
    else
      let tapping := { tapping with tap.interrupted := true }
      ⟨true, keyp, { s with tappingKey := some tapping }.processRecord keyp⟩
  else ⟨true, keyp, s.processRecord keyp⟩

def processIdle (keyp : Record κ) (s : State κ) : Outcome κ :=
  let event := keyp.event
  if !event.isEvent then ⟨true, keyp, s⟩
  else if event.pressed && isTapRecord settings s keyp then
    ⟨true, keyp, waitingBufferScanTap settings
      ({ s with tappingKey := some keyp }.processRecordTapHint keyp)⟩
  else ⟨true, keyp, s.processRecord keyp⟩

def processTapping (keyp : Record κ) (s : State κ) : Outcome κ :=
  let event := keyp.event
  match s.tappingKey with
  | none => processIdle settings keyp s
  | some tapping =>
    if tapping.event.pressed then
      if withinTappingTerm settings s tapping event then
        if !event.isEvent then ⟨true, keyp, s⟩
        else if tapping.tap.count = 0 then processUndecided settings keyp tapping s
        else processTapped settings some keyp tapping s
      else if tapping.tap.count = 0 then
        -- timeout, the key is held
        ⟨false, keyp, s.endTapping tapping⟩
      else if !event.isEvent then ⟨true, keyp, s⟩
      else processTapped settings (fun _ => none) keyp tapping s
    else if withinTappingTerm settings s tapping event then
      if !event.isEvent then ⟨true, keyp, s⟩ else processReleased settings keyp tapping s
    else
      -- timeout after the release
      ⟨false, keyp, { s with tappingKey := none }⟩

/-- The loop over the waiting buffer.  The record at the tail stays in the buffer
while it is processed. -/
def processWaitingBuffer : Nat → State κ → State κ
  | 0, s => s
  | fuel + 1, s =>
    match s.waitingBuffer with
    | [] => s
    | head :: _ =>
      let outcome := processTapping settings head s
      let rest := outcome.state.waitingBuffer.tail
      if outcome.consumed then
        processWaitingBuffer fuel { outcome.state with waitingBuffer := rest }
      else { outcome.state with waitingBuffer := outcome.keyp :: rest }

/-- `clear_keyboard`, `waiting_buffer_clear` and the reset of the tapping key. -/
def State.clearAll (s : State κ) : State κ :=
  { tappingKey := none, waitingBuffer := [], calls := s.calls ++ [.clearKeyboard] }

/-- The first half of `action_tapping_process`: process the record or queue it. -/
def acceptRecord (record : Record κ) (s : State κ) : State κ :=
  let outcome := processTapping settings record s
  if outcome.consumed then outcome.state
  else (waitingBufferEnq outcome.keyp outcome.state).getD outcome.state.clearAll

def actionTappingProcess (record : Record κ) (s : State κ) : State κ :=
  let s := acceptRecord settings record s
  processWaitingBuffer settings s.waitingBuffer.length s

/-- `action_exec` makes a fresh record of each event. -/
def actionExec (s : State κ) (event : Event κ) : State κ :=
  actionTappingProcess settings { event } s

def run (events : List (Event κ)) : State κ := events.foldl (actionExec settings) {}

end

end QmkFirmware.Tapping
