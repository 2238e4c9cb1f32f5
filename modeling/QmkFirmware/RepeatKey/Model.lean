import Mathlib.Data.BitVec
import Mathlib.Logic.Function.Basic

/-! # Repeat Key

A shallow embedding of `quantum/repeat_key.c` and `quantum/process_keycode/process_repeat_key.c`.  Around it stands the
part of `process_record_quantum` that calls them, which they call again with the record to repeat, and a keyboard with
one key for each keycode.
-/

namespace QmkFirmware.RepeatKey

abbrev Keycode := BitVec 16

def qkRepeatKey : Keycode := 0x7C79
def qkAltRepeatKey : Keycode := 0x7C7A

/-- The event of a key, which has a place in the keymap. -/
structure Event where
  keycode : Keycode
  pressed : Bool
deriving DecidableEq

structure Record where
  event : Event
  tapCount : BitVec 4
  keycode : Keycode
deriving DecidableEq

/-- `get_record_keycode`: the keymap is asked if the record has no keycode. -/
def Record.getKeycode (record : Record) : Keycode :=
  if record.keycode ≠ 0 then record.keycode else record.event.keycode

/-- The callback of the user that filters and changes what is remembered, and the key that is the alternate. -/
structure Config where
  rememberLastKeyUser : Keycode → Record → BitVec 8 → Option (BitVec 8)
  getAltRepeatKeyKeycode : Keycode → BitVec 8 → Keycode

/-- What is seen of the functions: their calls of `register_weak_mods`, `unregister_weak_mods` and `process_record`, and
the keys that they leave to the rest of `process_record`. -/
inductive Output where
  | registerWeakMods (mods : BitVec 8)
  | unregisterWeakMods (mods : BitVec 8)
  | feed (keycode : Keycode) (pressed : Bool)
  | handle (keycode : Keycode) (pressed : Bool)
deriving DecidableEq

/-- The variables of `repeat_key.c`, the modifiers, the keys that are down, and what has been seen since the last
event. -/
structure State where
  lastRecord : Record
  lastMods : BitVec 8
  lastRepeatCount : Int
  processingRepeatCount : Int
  registeredRecord : Record
  registeredRepeatCount : Int
  altRegisteredRecord : Record
  altRegisteredRepeatCount : Int
  mods : BitVec 8
  weakMods : BitVec 8
  oneshotMods : BitVec 8
  down : Keycode → Bool
  outputs : List Output

namespace State

def emit (output : Output) (s : State) : State := { s with outputs := s.outputs ++ [output] }

def registerWeakMods (mods : BitVec 8) (s : State) : State :=
  if mods = 0 then s else { s with weakMods := s.weakMods ||| mods }.emit (.registerWeakMods mods)

def unregisterWeakMods (mods : BitVec 8) (s : State) : State :=
  if mods = 0 then s else { s with weakMods := s.weakMods &&& ~~~mods }.emit (.unregisterWeakMods mods)

def setLastRecord (keycode : Keycode) (record : Record) (s : State) : State :=
  { s with lastRecord := { record with keycode := keycode }, lastRepeatCount := 0 }

/-- The count is an `int8_t`, and stays between -127 and 127. -/
def updateLastRepeatCount (dir : Int) (s : State) : State :=
  if dir * s.lastRepeatCount < 0 then { s with lastRepeatCount := dir }
  else if dir * s.lastRepeatCount < 127 then { s with lastRepeatCount := s.lastRepeatCount + dir }
  else s

end State

/-- The keys that `remember_last_key` ignores: layer switches, modifiers, one-shot keys, tap-hold keys that are held,
and the keys that repeat. -/
def isIgnored (keycode : Keycode) (record : Record) : Bool :=
  (0x5220 ≤ keycode && keycode ≤ 0x523F) || (0x5200 ≤ keycode && keycode ≤ 0x521F) ||
    (0x5260 ≤ keycode && keycode ≤ 0x527F) || (0x52C0 ≤ keycode && keycode ≤ 0x52DF) ||
    (0xE0 ≤ keycode && keycode ≤ 0xE7) || keycode == 0x0F00 || keycode == 0x0700 ||
    (0x5280 ≤ keycode && keycode ≤ 0x529F) || (0x52A0 ≤ keycode && keycode ≤ 0x52BF) ||
    (((0x2000 ≤ keycode && keycode ≤ 0x3FFF) || (0x4000 ≤ keycode && keycode ≤ 0x4FFF)) && record.tapCount == 0) ||
    keycode == qkRepeatKey || keycode == qkAltRepeatKey

section Functions

variable (config : Config)

/-- `remember_last_key`, with the modifiers to remember. -/
def rememberLastKey (keycode : Keycode) (record : Record) (mods : BitVec 8) : Option (BitVec 8) :=
  if isIgnored keycode record then none else config.rememberLastKeyUser keycode record mods

def processLastKey (keycode : Keycode) (record : Record) (s : State) : State :=
  if s.processingRepeatCount ≠ 0 then s
  else if record.event.pressed then
    match rememberLastKey config keycode record (s.mods ||| s.weakMods ||| s.oneshotMods) with
    | some mods => { s.setLastRecord keycode record with lastMods := mods }
    | none => s
  else s

/-- The press in `repeat_key_invoke`. -/
def repeatKeyPress (s : State) : State :=
  let s := (s.updateLastRepeatCount 1).registerWeakMods s.lastMods
  { s with registeredRecord := s.lastRecord, registeredRepeatCount := s.lastRepeatCount }

/-- `repeat_key_invoke`, with the `process_record` that it calls. -/
def repeatKeyInvoke (processRecord : Record → State → Option State) (event : Event) (s : State) : Option State :=
  if s.processingRepeatCount ≠ 0 ∨ s.lastRecord.keycode = 0 then some s
  else
    let s := if event.pressed then repeatKeyPress s else s
    let record := { s.registeredRecord with event := event }
    let s := { s with registeredRecord := record, processingRepeatCount := s.registeredRepeatCount }
    do
      let s ← processRecord record (s.emit (.feed record.keycode event.pressed))
      let s := { s with processingRepeatCount := 0 }
      some (if event.pressed then s else s.unregisterWeakMods s.lastMods)

/-- `alt_repeat_key_invoke`. -/
def altRepeatKeyInvoke (processRecord : Record → State → Option State) (event : Event) (s : State) : Option State :=
  if s.processingRepeatCount ≠ 0 then some s
  else
    let s := if event.pressed then
        { s with altRegisteredRecord := ⟨⟨0, false⟩, 0, config.getAltRepeatKeyKeycode s.lastRecord.keycode s.lastMods⟩ }
      else s
    if s.altRegisteredRecord.keycode = 0 then some s
    else
      let s := if event.pressed then
          { s.updateLastRepeatCount (-1) with
            altRegisteredRepeatCount := (s.updateLastRepeatCount (-1)).lastRepeatCount }
        else s
      let record := { s.altRegisteredRecord with event := event }
      let s := { s with altRegisteredRecord := record, processingRepeatCount := s.altRegisteredRepeatCount }
      do
        let s ← processRecord record (s.emit (.feed record.keycode event.pressed))
        some { s with processingRepeatCount := 0 }

/-- `process_record` up to `process_repeat_key`, with fuel for its calls of itself. -/
def processRecord : Nat → Record → State → Option State
  | 0, _, _ => none
  | fuel + 1, record, s =>
    let keycode := record.getKeycode
    let s := processLastKey config keycode record s
    if s.processingRepeatCount ≠ 0 then some (s.emit (.handle keycode record.event.pressed))
    else if keycode = qkRepeatKey then repeatKeyInvoke (processRecord fuel) record.event s
    else if keycode = qkAltRepeatKey then altRepeatKeyInvoke config (processRecord fuel) record.event s
    else some (s.emit (.handle keycode record.event.pressed))

/-- The key of a keycode goes down or up.  The modifiers are what the rest of the firmware has made of them. -/
structure Input where
  keycode : Keycode
  tapCount : BitVec 4
  mods : BitVec 8
  weakMods : BitVec 8
  oneshotMods : BitVec 8
deriving DecidableEq

def Input.record (input : Input) (pressed : Bool) : Record := ⟨⟨input.keycode, pressed⟩, input.tapCount, 0⟩

/-- The state in which the event of a key is processed. -/
def State.begin (s : State) (input : Input) : State :=
  { s with
    mods := input.mods
    weakMods := input.weakMods
    oneshotMods := input.oneshotMods
    down := Function.update s.down input.keycode (!s.down input.keycode)
    outputs := [] }

/-- The record of a key and the record that it repeats: where this fuel is not enough, none is. -/
def step (s : State) (input : Input) : Option State :=
  processRecord config 2 (input.record (!s.down input.keycode)) (s.begin input)

def Record.empty : Record := ⟨⟨0, false⟩, 0, 0⟩

def initial : State where
  lastRecord := .empty
  lastMods := 0
  lastRepeatCount := 0
  processingRepeatCount := 0
  registeredRecord := .empty
  registeredRepeatCount := 0
  altRegisteredRecord := .empty
  altRegisteredRepeatCount := 0
  mods := 0
  weakMods := 0
  oneshotMods := 0
  down _ := false
  outputs := []

def run (inputs : List Input) : Option State := inputs.foldlM (step config) initial

end Functions

end QmkFirmware.RepeatKey
