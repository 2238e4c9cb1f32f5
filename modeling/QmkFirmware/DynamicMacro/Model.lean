import Mathlib.Logic.Function.Basic
import Mathlib.Data.List.Basic

/-! # Dynamic macros

A shallow embedding of `quantum/process_keycode/process_dynamic_macro.c`.  A pointer into
`macro_buffer` is an index, which may be one past either end; an access outside the buffer is
`none`.  Playing a macro calls `process_record`, which can come back to `process_dynamic_macro`
and can write through the pointer it is given.  So a macro that is being played is a frame on a
stack, and what happens between two of its records are further inputs.
-/

namespace QmkFirmware.DynamicMacro

abbrev Keycode : Type := BitVec 16

def qkRecordStart1 : Keycode := 0x7C53
def qkRecordStart2 : Keycode := 0x7C54
def qkRecordStop : Keycode := 0x7C55
def qkPlay1 : Keycode := 0x7C56
def qkPlay2 : Keycode := 0x7C57

structure KeyEvent where
  row : BitVec 8
  col : BitVec 8
  time : BitVec 16
  pressed : Bool
deriving DecidableEq, Inhabited

/-- `keyrecord_t`. -/
structure KeyRecord where
  event : KeyEvent
  tapInterrupted : Bool
  tapCount : BitVec 4
deriving DecidableEq, Inhabited

/-- `DYNAMIC_MACRO_SIZE`, `DYNAMIC_MACRO_NO_NESTING` and `dynamic_macro_valid_key_user`. -/
structure Config where
  size : Nat
  noNesting : Bool
  validKey : Keycode → KeyRecord → Bool

inductive Slot where
  | first
  | second
deriving DecidableEq

namespace Slot

def direction : Slot → Int
  | first => 1
  | second => -1

def other : Slot → Slot
  | first => second
  | second => first

end Slot

/-- The calls out of `process_dynamic_macro`, and its results. -/
inductive Output where
  /-- `dynamic_macro_record_start_user`, `clear_keyboard` and `layer_clear`. -/
  | recordStart (slot : Slot)
  /-- `dynamic_macro_record_key_user`. -/
  | full (slot : Slot) (record : KeyRecord)
  /-- `dynamic_macro_record_end_user`. -/
  | recordEnd (slot : Slot)
  /-- `clear_keyboard` and `layer_clear`. -/
  | playStart (slot : Slot)
  /-- `process_record` on an element of the buffer. -/
  | replayed (slot : Slot) (record : KeyRecord)
  /-- `clear_keyboard`, `layer_state_set` and `dynamic_macro_play_user`. -/
  | played (slot : Slot) (savedLayerState : BitVec 32)
  | result (processing : Bool)
deriving DecidableEq

/-- The local variables of a `dynamic_macro_play` that waits for `process_record`. -/
structure Frame where
  macroBuffer : Int
  macroEnd : Int
  slot : Slot
  savedLayerState : BitVec 32

structure State where
  buffer : Int → KeyRecord
  macroEnd : Int
  rMacroEnd : Int
  macroPointer : Option Int
  macroId : Option Slot
  frames : List Frame
  outputs : List Output

namespace State

def emit (output : Output) (s : State) : State := { s with outputs := s.outputs ++ [output] }

/-- The end of a slot, its first free element. -/
def endOf (s : State) : Slot → Int
  | .first => s.macroEnd
  | .second => s.rMacroEnd

end State

section Machine

variable (config : Config)

def InBuffer (index : Int) : Prop := 0 ≤ index ∧ index < config.size

instance (index : Int) : Decidable (InBuffer config index) := inferInstanceAs (Decidable (_ ∧ _))

/-- `macro_buffer` and `r_macro_buffer`. -/
def start : Slot → Int
  | .first => 0
  | .second => config.size - 1

def load (s : State) (index : Int) : Option KeyRecord :=
  if InBuffer config index then some (s.buffer index) else none

def store (s : State) (index : Int) (record : KeyRecord) : Option State :=
  if InBuffer config index then some { s with buffer := Function.update s.buffer index record } else none

def dynamicMacroRecordStart (macroBuffer : Int) (slot : Slot) (s : State) : State :=
  { s.emit (.recordStart slot) with macroPointer := some macroBuffer }

/-- The loop of `dynamic_macro_play`, from its condition to the next `process_record` or through
the rest of the function. -/
def playOn (frame : Frame) (s : State) : Option State :=
  if frame.macroBuffer = frame.macroEnd then
    some ((s.emit (.played frame.slot frame.savedLayerState)).emit (.result false))
  else do
    let record ← load config s frame.macroBuffer
    some { s.emit (.replayed frame.slot record) with frames := frame :: s.frames }

def dynamicMacroPlay (macroBuffer macroEnd : Int) (slot : Slot) (layerState : BitVec 32) (s : State) :
    Option State :=
  playOn config ⟨macroBuffer, macroEnd, slot, layerState⟩ (s.emit (.playStart slot))

def dynamicMacroRecordKey (macroBuffer macro2End : Int) (slot : Slot) (record : KeyRecord) (s : State) :
    Option State := do
  let macroPointer ← s.macroPointer
  if record.event.pressed = false ∧ macroPointer = macroBuffer then some s
  else if macroPointer - slot.direction ≠ macro2End then
    let s ← store config s macroPointer record
    some { s with macroPointer := some (macroPointer + slot.direction) }
  else some (s.emit (.full slot record))

/-- The loop of `dynamic_macro_record_end`. -/
def trimPresses (macroBuffer : Int) (slot : Slot) (s : State) : Nat → Int → Option Int
  | 0, _ => none
  | fuel + 1, macroPointer =>
    if macroPointer = macroBuffer then some macroPointer
    else do
      let last ← load config s (macroPointer - slot.direction)
      if last.event.pressed then trimPresses macroBuffer slot s fuel (macroPointer - slot.direction)
      else some macroPointer

/-- Returns the new end of the slot. -/
def dynamicMacroRecordEnd (macroBuffer : Int) (slot : Slot) (s : State) : Option Int := do
  let macroPointer ← s.macroPointer
  trimPresses config macroBuffer slot s (config.size + 1) macroPointer

def dynamicMacroStopRecording (s : State) : Option State :=
  match s.macroId with
  | some .first => do
    let macroEnd ← dynamicMacroRecordEnd config (start config .first) .first s
    some { s.emit (.recordEnd .first) with macroEnd := macroEnd, macroId := none }
  | some .second => do
    let macroEnd ← dynamicMacroRecordEnd config (start config .second) .second s
    some { s.emit (.recordEnd .second) with rMacroEnd := macroEnd, macroId := none }
  | none => some s

/-- The recording branch of `process_dynamic_macro`. -/
def processRecording (slot : Slot) (keycode : Keycode) (record : KeyRecord) (s : State) : Option State :=
  if keycode = qkRecordStart1 ∨ keycode = qkRecordStart2 ∨ keycode = qkRecordStop then
    if record.event.pressed ^^ decide (keycode ≠ qkRecordStop) then do
      let s ← dynamicMacroStopRecording config s
      some (s.emit (.result false))
    else some (s.emit (.result false))
  else if config.noNesting = true ∧ (keycode = qkPlay1 ∨ keycode = qkPlay2) then
    some (s.emit (.result false))
  else if config.validKey keycode record then do
    let s ← match slot with
      | .first => dynamicMacroRecordKey config (start config .first) s.rMacroEnd .first record s
      | .second => dynamicMacroRecordKey config (start config .second) s.macroEnd .second record s
    some (s.emit (.result true))
  else some (s.emit (.result true))

def processDynamicMacro (keycode : Keycode) (record : KeyRecord) (layerState : BitVec 32) (s : State) :
    Option State :=
  match s.macroId with
  | none =>
    if record.event.pressed = true then some (s.emit (.result true))
    else if keycode = qkRecordStart1 then
      some ({ dynamicMacroRecordStart (start config .first) .first s with
        macroId := some .first }.emit (.result false))
    else if keycode = qkRecordStart2 then
      some ({ dynamicMacroRecordStart (start config .second) .second s with
        macroId := some .second }.emit (.result false))
    else if keycode = qkPlay1 then
      dynamicMacroPlay config (start config .first) s.macroEnd .first layerState s
    else if keycode = qkPlay2 then
      dynamicMacroPlay config (start config .second) s.rMacroEnd .second layerState s
    else some (s.emit (.result true))
  | some slot => processRecording config slot keycode record s

/-- A key event, of the matrix or of the `process_record` of a macro that is being played, or
something else that this `process_record` does. -/
inductive Input where
  | event (keycode : Keycode) (record : KeyRecord) (layerState : BitVec 32)
  /-- `process_record` writes through its pointer. -/
  | written (record : KeyRecord)
  /-- `process_record` returns to `dynamic_macro_play`. -/
  | returned

def step (s : State) : Input → Option State
  | .event keycode record layerState => processDynamicMacro config keycode record layerState s
  | .written record =>
    match s.frames with
    | [] => some s
    | frame :: _ => store config s frame.macroBuffer record
  | .returned =>
    match s.frames with
    | [] => some s
    | frame :: frames =>
      playOn config { frame with macroBuffer := frame.macroBuffer + frame.slot.direction } { s with frames := frames }

def initial : State where
  buffer _ := default
  macroEnd := start config .first
  rMacroEnd := start config .second
  macroPointer := none
  macroId := none
  frames := []
  outputs := []

def run (inputs : List Input) : Option State := inputs.foldlM (step config) (initial config)

end Machine

end QmkFirmware.DynamicMacro
