import QmkFirmware.Foundations.Bits
import QmkFirmware.Foundations.Ledger
import QmkFirmware.Foundations.Runs

/-! # Combos

A shallow embedding of `quantum/process_keycode/process_combo.c` in its default configuration:
no per-combo terms, holds, taps or orders, a timer, eight keys and four slots of ready combos.
What the functions hand to `action_tapping_process` and `process_combo_event` is collected in
`sent`; that code is behind `process_combo` and does not call it.
-/

namespace QmkFirmware.Combos

abbrev Keycode : Type := BitVec 16

def comboEnd : Keycode := 0
def qkComboOn : Keycode := 0x7C50
def qkComboOff : Keycode := 0x7C51
def qkComboToggle : Keycode := 0x7C52

def comboTerm : BitVec 16 := 50
def comboKeyBufferLength : Nat := 8

/-- A slot of the ring of `COMBO_BUFFER_LENGTH` ready combos; `INCREMENT_MOD` is addition here. -/
abbrev Slot : Type := Fin 4

/-! ## Combos and their flags -/

/-- The constant part of `combo_t`.  The keys end before the first `COMBO_END`.  The combo's own key
code only decides whether its events go to `action_tapping_process` or to `process_combo_event`. -/
structure Combo where
  keys : List Keycode
  ended : comboEnd ∉ keys

/-- `combo_count` and `combo_get`. -/
structure Table where
  count : Nat
  get : Nat → Combo

/-- The part of `combo_t` that changes. -/
structure Flags where
  disabled : Bool
  active : Bool
  state : BitVec 8
deriving DecidableEq

/-- What a queued record has become: the key press itself, a tick because combo `index` took the
key, or the event of combo `index`. -/
inductive RecordKind where
  | key
  | tick (index : Nat)
  | combo (index : Nat)
deriving DecidableEq

structure QueuedRecord where
  keycode : Keycode
  kind : RecordKind
deriving DecidableEq

structure State where
  timer : BitVec 16
  enable : Bool
  longestTerm : BitVec 16
  keyBuffer : List QueuedRecord
  comboBufferWrite : Slot
  comboBufferRead : Slot
  comboBuffer : Slot → Nat
  flags : Nat → Flags
  sent : List (Ledger.Entry Keycode Nat)

structure KeyEvent where
  keycode : Keycode
  pressed : Bool
  now : BitVec 16
deriving DecidableEq

def timerElapsed (now last : BitVec 16) : BitVec 16 := now - last

/-! ## Macros on the state of a combo -/

def allComboKeysAreDown (state : BitVec 8) (keyCount : Nat) : Bool := decide (2 ^ keyCount - 1 = state.toNat)

def onlyOneKeyIsDown (state : BitVec 8) : Bool := decide (state &&& (state - 1) = 0)

def keyNotYetReleased (state : BitVec 8) (keyIndex : Nat) : Bool := decide (state &&& BitVec.ofNat 8 1 <<< keyIndex ≠ 0)

def keyStateDown (state : BitVec 8) (keyIndex : Nat) : BitVec 8 := state ||| BitVec.ofNat 8 1 <<< keyIndex

def keyStateUp (state : BitVec 8) (keyIndex : Nat) : BitVec 8 := state &&& ~~~(BitVec.ofNat 8 1 <<< keyIndex)

/-- The loop of `_find_key_index_and_count`, with the keys it has not read yet.  The terminator is
compared with the key code too. -/
def findKeyIndexAndCount (keycode : Keycode) : List Keycode → Option Nat → Nat → Option Nat × Nat
  | [], keyIndex, keyCount => (if keycode = comboEnd then some keyCount else keyIndex, keyCount)
  | key :: keys, keyIndex, keyCount =>
    findKeyIndexAndCount keycode keys (if keycode = key then some keyCount else keyIndex) (keyCount + 1)

def Combo.find (combo : Combo) (keycode : Keycode) : Option Nat × Nat :=
  findKeyIndexAndCount keycode combo.keys none 0

/-! ## The ring of ready combos -/

/-- The slots that a loop from `i` to `combo_buffer_write` visits. -/
def slotsFrom : Nat → Slot → Slot → List Slot
  | 0, _, _ => []
  | fuel + 1, i, write => if i = write then [] else i :: slotsFrom fuel (i + 1) write

namespace State

variable (s : State)

def slots : List Slot := slotsFrom 4 s.comboBufferRead s.comboBufferWrite

def emit (entries : List (Ledger.Entry Keycode Nat)) : State := { s with sent := s.sent ++ entries }

def setFlags (index : Nat) (flags : Flags) : State := { s with flags := Function.update s.flags index flags }

def disableCombo (index : Nat) : State := s.setFlags index { s.flags index with disabled := true }

def activateCombo (index : Nat) : State := s.setFlags index { s.flags index with active := true }

def deactivateCombo (index : Nat) : State := s.setFlags index { s.flags index with active := false }

def setComboState (index : Nat) (state : BitVec 8) : State := s.setFlags index { s.flags index with state := state }

end State

/-- The loop of `drop_combo_from_buffer` over the slots that are left. -/
def dropFromSlots (index : Nat) : List Slot → State → State
  | [], s => s
  | i :: rest, s =>
    if s.comboBuffer i = index then
      let s := s.disableCombo index
      if i = s.comboBufferRead then { s with comboBufferRead := s.comboBufferRead + 1 } else s
    else dropFromSlots index rest s

def dropComboFromBuffer (index : Nat) (s : State) : State := dropFromSlots index s.slots s

/-! ## Flushing -/

/-- What the host side gets for a queued record. -/
def QueuedRecord.entries (record : QueuedRecord) : List (Ledger.Entry Keycode Nat) :=
  match record.kind with
  | .key => [.deliver record.keycode]
  | .tick index => [.absorb record.keycode index]
  | .combo index => [.absorb record.keycode index, .comboDown index]

def dumpKeyBuffer (s : State) : State :=
  { s.emit (s.keyBuffer.flatMap QueuedRecord.entries) with keyBuffer := [] }

section Machine

variable (table : Table)

def clearCombos (s : State) : State :=
  { s with
    longestTerm := 0
    flags := fun index =>
      if index < table.count ∧ (s.flags index).active = false then
        { disabled := false, active := false, state := 0 }
      else s.flags index }

/-- The loop of `apply_combo` over the key buffer.  The flag says whether it reached the last key
of the combo. -/
def applyToRecords (index : Nat) : BitVec 8 → List QueuedRecord → List QueuedRecord × Bool
  | _, [] => ([], false)
  | state, record :: records =>
    match (table.get index).find record.keycode with
    | (none, _) =>
      let (records, last) := applyToRecords index state records
      (record :: records, last)
    | (some keyIndex, keyCount) =>
      let state := keyStateDown state keyIndex
      if allComboKeysAreDown state keyCount then ({ record with kind := .combo index } :: records, true)
      else
        let (records, last) := applyToRecords index state records
        ({ record with kind := .tick index } :: records, last)

def applyCombo (index : Nat) (s : State) : State :=
  if (s.flags index).disabled then s
  else
    let (records, last) := applyToRecords table index 0 s.keyBuffer
    let s := { s with keyBuffer := records }
    dropComboFromBuffer index (if last then s.activateCombo index else s)

def applyCombos (s : State) : State :=
  let s := s.slots.foldl (fun s i => applyCombo table (s.comboBuffer i) s) s
  clearCombos table (dumpKeyBuffer s)

/-! ## Single combos -/

/-- The combo that is dropped if the two share a key: the one with fewer keys, else the first. -/
def overlaps (index1 index2 : Nat) : Option Nat :=
  let keys1 := (table.get index1).keys
  let keys2 := (table.get index2).keys
  if keys1.any fun key => keys2.contains key then
    if keys2.length < keys1.length then some index2 else some index1
  else none

/-- The loop over the ready combos when combo `index` is complete.  The flag says whether `index`
itself is dropped. -/
def disableOverlapping (index : Nat) : List Slot → State → Bool × State
  | [], s => (false, s)
  | i :: rest, s =>
    match overlaps table (s.comboBuffer i) index with
    | none => disableOverlapping index rest s
    | some drop =>
      let s := s.disableCombo drop
      if drop = index then (true, s)
      else if i = s.comboBufferRead then
        disableOverlapping index rest { s with comboBufferRead := s.comboBufferRead + 1 }
      else disableOverlapping index rest s

def readyCombo (index : Nat) (s : State) : State :=
  match disableOverlapping table index s.slots s with
  | (true, s) => s
  | (false, s) =>
    { s with
      comboBuffer := Function.update s.comboBuffer s.comboBufferWrite index
      comboBufferWrite := s.comboBufferWrite + 1 }

def countKey (index keyIndex : Nat) (s : State) : State :=
  if (s.flags index).active then s
  else
    { s.setComboState index (keyStateDown (s.flags index).state keyIndex) with
      longestTerm := if s.longestTerm < comboTerm then comboTerm else s.longestTerm }

/-- A key of the combo goes down. -/
def chordPress (index keyIndex keyCount : Nat) (now : BitVec 16) (s : State) : State :=
  let s := countKey index keyIndex s
  if allComboKeysAreDown (s.flags index).state keyCount then
    if s.timer ≠ 0 ∧ timerElapsed now s.timer > comboTerm then s.disableCombo index else readyCombo table index s
  else s

def releaseCombo (index : Nat) (s : State) : State := (s.emit [.comboUp index]).deactivateCombo index

/-- A key of the combo goes up, or down while it does not count. -/
def chordRelease (index keyIndex keyCount : Nat) (partOfCombo : Bool) (s : State) : Bool × State :=
  let flags := s.flags index
  let (partOfCombo, s) :=
    if !flags.active && allComboKeysAreDown flags.state keyCount then
      if flags.disabled then (false, dropComboFromBuffer index s) else (partOfCombo, s)
    else if flags.active && onlyOneKeyIsDown flags.state && keyNotYetReleased flags.state keyIndex then
      (true, releaseCombo index s)
    else if flags.active && keyNotYetReleased flags.state keyIndex then (true, s)
    else (false, s)
  (partOfCombo, s.setComboState index (keyStateUp (s.flags index).state keyIndex))

def processSingleCombo (event : KeyEvent) (index : Nat) (s : State) : Bool × State :=
  match (table.get index).find event.keycode with
  | (none, _) => (false, s)
  | (some keyIndex, keyCount) =>
    let partOfCombo := !(s.flags index).disabled && s.enable
    if event.pressed && partOfCombo then (true, chordPress table index keyIndex keyCount event.now s)
    else chordRelease index keyIndex keyCount partOfCombo s

/-! ## Events -/

def comboEnable (s : State) : State := { s with enable := true }

def comboDisable (s : State) : State :=
  dumpKeyBuffer (clearCombos table
    { s with timer := 0, enable := false, comboBufferRead := s.comboBufferWrite })

def comboToggle (s : State) : State := if s.enable then comboDisable table s else comboEnable s

/-- The loop over all combos, stopped before combo `count`. -/
def processCombos (event : KeyEvent) (s : State) : Nat → Bool × State
  | 0 => (false, s)
  | count + 1 =>
    let (isComboKey, s) := processCombos event s count
    let (partOfCombo, s) := processSingleCombo table event count s
    (isComboKey || partOfCombo, s)

/-- The key buffer is applied or dumped. -/
def flush (s : State) : State :=
  if s.comboBufferRead ≠ s.comboBufferWrite then applyCombos table s
  else clearCombos table { dumpKeyBuffer s with timer := 0 }

def queueKey (event : KeyEvent) (s : State) : State :=
  let s := { s with timer := event.now }
  if s.keyBuffer.length < comboKeyBufferLength then
    { s with keyBuffer := s.keyBuffer ++ [{ keycode := event.keycode, kind := .key }] }
  else s

/-- Returns whether the event goes on to the rest of the firmware. -/
def processCombo (event : KeyEvent) (s : State) : Bool × State :=
  if event.keycode = qkComboOn ∧ event.pressed then (true, comboEnable s)
  else if event.keycode = qkComboOff ∧ event.pressed then (true, comboDisable table s)
  else if event.keycode = qkComboToggle ∧ event.pressed then (true, comboToggle table s)
  else
    let (isComboKey, s) := processCombos table event s table.count
    if event.pressed && isComboKey then (false, queueKey event s)
    else (!isComboKey, flush table s)

def comboTask (now : BitVec 16) (s : State) : State :=
  if !s.enable then s
  else if s.timer ≠ 0 ∧ timerElapsed now s.timer > s.longestTerm then
    if s.comboBufferRead ≠ s.comboBufferWrite then { applyCombos table s with longestTerm := 0, timer := 0 }
    else clearCombos table { dumpKeyBuffer s with timer := 0 }
  else s

/-! ## Runs -/

/-- The keys that are physically held, and the firmware. -/
structure World where
  held : List Keycode
  state : State

inductive Input where
  | key (event : KeyEvent)
  | task (now : BitVec 16)
deriving DecidableEq

/-- A key event.  The firmware sees it and the rest of the firmware gets it if it goes on. -/
def keyStep (event : KeyEvent) (w : World) : World :=
  if event.pressed then
    let (goesOn, s) := processCombo table event (w.state.emit [.press event.keycode])
    { held := event.keycode :: w.held
      state := if goesOn then s.emit [.deliver event.keycode] else s }
  else
    let (goesOn, s) := processCombo table event w.state
    { held := w.held.erase event.keycode
      state := s.emit [.release event.keycode goesOn] }

def step (w : World) : Input → World
  | .key event => keyStep table event w
  | .task now => { w with state := comboTask table now w.state }

end Machine

def start : World where
  held := []
  state :=
    { timer := 0
      enable := true
      longestTerm := 0
      keyBuffer := []
      comboBufferWrite := 0
      comboBufferRead := 0
      comboBuffer := fun _ => 0
      flags := fun _ => { disabled := false, active := false, state := 0 }
      sent := [] }

def run (table : Table) (inputs : List Input) : World := inputs.foldl (step table) start

end QmkFirmware.Combos
