import QmkFirmware.Autocorrect.Dictionary

/-! # Autocorrection

A shallow embedding of `process_autocorrect` with the default handlers.  The buffer holds the key codes of the last
typed characters; a word break is a space.  The writes to the local arrays are listed, not performed: nothing the
function sends depends on them. -/

namespace QmkFirmware.Autocorrect

/-! ## The generated header -/

/-- `autocorrect_data.h`. -/
structure Header where
  autocorrectData : List UInt8
  minLength : Nat
  maxLength : Nat
  deriving DecidableEq

def generateAutocorrectData (autocorrections : List Entry) : Option Header := do
  let data ← serializeTrie (makeTrie autocorrections)
  let minLength ← (autocorrections.map fun entry => entry.typo.length).min?
  let maxLength ← (autocorrections.map fun entry => entry.typo.length).max?
  return ⟨data, minLength, maxLength⟩

/-- A dictionary that the generator accepts. -/
structure Dictionary where
  lines : List Entry
  entries : List Entry
  header : Header
  parsed : parseFile lines = some entries
  generated : generateAutocorrectData entries = some header

/-! ## Key presses -/

structure KeyRecord where
  keycode : UInt16
  pressed : Bool
  /-- with the one-shot modifiers -/
  mods : UInt8
  tapCount : UInt8

/-- The options of the build that the handler looks at. -/
structure Features where
  noActionTapping : Bool
  noActionLayer : Bool
  swapHandsEnable : Bool

structure State where
  enabled : Bool
  typoBuffer : List UInt8

def State.start (enabled : Bool) : State := ⟨enabled, [kcSpc]⟩

/-- What the handler makes of a key: it is left out, perhaps with the buffer cleared, or taken with a key code. -/
inductive Verdict where
  | excluded (clears : Bool)
  | allowed (keycode : UInt16) (mods : UInt8)

/-- Modifiers other than shift stop the correction. -/
def checkMods (keycode : UInt16) (mods : UInt8) : Verdict :=
  if mods &&& ~~~0x22 ≠ 0 then .excluded true else .allowed keycode mods

def defaultHandler (f : Features) (r : KeyRecord) : Verdict :=
  let kc := r.keycode
  if kc = 0xE1 ∨ kc = 0xE5 ∨ kc = 0x39 ∨ (0x5000 ≤ kc ∧ kc ≤ 0x52DF) then .excluded false
  else if 0x0200 ≤ kc ∧ kc ≤ 0x02FF then .allowed (kc &&& 0xFF) (r.mods ||| 0x02)
  else if 0x1200 ≤ kc ∧ kc ≤ 0x12FF then .allowed (kc &&& 0xFF) (r.mods ||| 0x12)
  else if 0x4000 ≤ kc ∧ kc ≤ 0x4FFF then
    if f.noActionTapping ∨ f.noActionLayer ∨ r.tapCount = 0 then .excluded false else checkMods (kc &&& 0xFF) r.mods
  else if 0x2000 ≤ kc ∧ kc ≤ 0x3FFF then
    if f.noActionTapping ∨ r.tapCount = 0 then .excluded false else checkMods (kc &&& 0xFF) r.mods
  else if 0x5600 ≤ kc ∧ kc ≤ 0x56FF then
    if !f.swapHandsEnable ∨ (0x56F0 ≤ kc ∧ kc ≤ 0x56F6) ∨ (!f.noActionTapping ∧ r.tapCount = 0) then .excluded false
    else checkMods (kc &&& 0xFF) r.mods
  else checkMods kc r.mods

/-- What a key does to the buffer. -/
inductive BufferKey where
  | append (keycode : UInt8) (clears : Bool)
  | backspace
  | clear
  deriving DecidableEq

def bufferKey (keycode : UInt16) (mods : UInt8) : BufferKey :=
  if 0x04 ≤ keycode ∧ keycode ≤ 0x1D then .append keycode.toUInt8 false
  else if (0x1E ≤ keycode ∧ keycode ≤ 0x27) ∨ (0x2B ≤ keycode ∧ keycode ≤ 0x33) ∨ (0x35 ≤ keycode ∧ keycode ≤ 0x38) then
    .append kcSpc false
  else if keycode = 0x28 then .append kcSpc true
  else if keycode = 0x2A then .backspace
  else if keycode = 0x34 then .append (if mods &&& 0x22 ≠ 0 then kcSpc else kcQuot) false
  else .clear

/-! ## Looking up -/

def pgmReadByte (data : List UInt8) (address : Nat) : UInt8 := data.getD address 0

/-- The loop over the children of a node, to the place of the key. -/
def matchBranch (data : List UInt8) (key : UInt8) : Nat → Nat → UInt8 → Option Nat
  | 0, _, _ => none
  | fuel + 1, state, code =>
    if code = key then some state
    else if code = 0 then none
    else matchBranch data key fuel (state + 3) (pgmReadByte data (state + 3))

/-- The state behind a key, if it matches. -/
def advance (data : List UInt8) (key : UInt8) (state : Nat) : Option Nat :=
  let code := pgmReadByte data state
  if code &&& 64 ≠ 0 then
    (matchBranch data key (data.length + 1) state (code &&& 63)).map fun state =>
      (pgmReadByte data (state + 1)).toNat ||| (pgmReadByte data (state + 2)).toNat <<< 8
  else if code ≠ key then none
  else if pgmReadByte data (state + 1) = 0 then some (state + 2)
  else some (state + 1)

/-- The lookup of the keys, the last one first, to the state of a correction. -/
def lookup (data : List UInt8) : Nat → List UInt8 → Option Nat
  | _, [] => none
  | state, key :: keys =>
    match advance data key state with
    | none => none
    | some next =>
      if data.length ≤ next then none
      else if pgmReadByte data next &&& 128 ≠ 0 then some next
      else lookup data next keys

/-- The string at an address, up to its terminator. -/
def stringAt (data : List UInt8) (address : Nat) : List UInt8 := (data.drop address).takeWhile (· ≠ 0)

/-! ## Applying a correction -/

/-- The loop that measures the last word: its length and its start.  The last character always counts. -/
def measure (buffer : List UInt8) : Nat → Nat → Nat × Nat
  | 0, typoLen => (typoLen, 0)
  | i + 1, typoLen =>
    if buffer.getD i 0 = kcSpc ∧ i + 1 ≠ buffer.length then (typoLen, i + 1) else measure buffer i (typoLen + 1)

/-- A correction: the backspaces and the string that are sent, and the offsets that are written in `typo` and
`correct`. -/
structure Correction where
  backspaces : Nat
  changes : List UInt8
  typoWrites : List Int
  correctWrites : List Int

def writesAt (start : Int) (n : Nat) : List Int := (List.range n).map fun (k : Nat) => start + k

def applyCorrection (data : List UInt8) (buffer : List UInt8) (state : Nat) : Correction :=
  let backspaces := (pgmReadByte data state &&& 63).toNat
  let changes := stringAt data (state + 1)
  let spaceLast := decide (buffer.getLast? = some kcSpc)
  let typoLen := (measure buffer buffer.length 0).1 - if spaceLast then 1 else 0
  let typoStart := (measure buffer buffer.length 0).2
  let typo := (List.range typoLen).map fun i => buffer.getD (typoStart + i) 0 - kcA + 0x61
  let offset := if spaceLast then backspaces else backspaces + 1
  { backspaces
    changes
    typoWrites := writesAt 0 typoLen
    -- both copies end with a terminator
    correctWrites := writesAt 0 ((typo.takeWhile (· ≠ 0)).length + 1) ++
      writesAt ((typoLen : Int) - offset) (changes.length + 1) }

/-- What happened: the state, whether the key goes on to the host, and the correction. -/
structure Outcome where
  state : State
  passes : Bool
  correction : Option Correction

/-- The buffer with a further key. -/
def pushKey (maxLength : Nat) (buffer : List UInt8) (keycode : UInt8) : List UInt8 :=
  (if maxLength ≤ buffer.length then (buffer.drop 1).take (maxLength - 1) else buffer) ++ [keycode]

def appendKey (h : Header) (s : State) (buffer : List UInt8) (keycode : UInt8) : Outcome :=
  let buffer := pushKey h.maxLength buffer keycode
  if buffer.length < h.minLength then ⟨{ s with typoBuffer := buffer }, true, none⟩
  else
    match lookup h.autocorrectData 0 buffer.reverse with
    | none => ⟨{ s with typoBuffer := buffer }, true, none⟩
    | some state =>
      let correction := applyCorrection h.autocorrectData buffer state
      if keycode = kcSpc then ⟨{ s with typoBuffer := [kcSpc] }, true, some correction⟩
      else ⟨{ s with typoBuffer := [] }, false, some correction⟩

def processAutocorrect (h : Header) (f : Features) (s : State) (r : KeyRecord) : Outcome :=
  if r.keycode = 0x7C74 ∧ r.pressed then ⟨{ s with enabled := true }, false, none⟩
  else if r.keycode = 0x7C75 ∧ r.pressed then ⟨⟨false, []⟩, false, none⟩
  else if r.keycode = 0x7C76 ∧ r.pressed then ⟨⟨!s.enabled, []⟩, false, none⟩
  else if !s.enabled then ⟨{ s with typoBuffer := [] }, true, none⟩
  else if !r.pressed then ⟨s, true, none⟩
  else
    match defaultHandler f r with
    | .excluded clears => ⟨{ s with typoBuffer := if clears then [] else s.typoBuffer }, true, none⟩
    | .allowed keycode mods =>
      match bufferKey keycode mods with
      | .append keycode clears => appendKey h s (if clears then [] else s.typoBuffer) keycode
      | .backspace => ⟨{ s with typoBuffer := s.typoBuffer.dropLast }, true, none⟩
      | .clear => ⟨{ s with typoBuffer := [] }, true, none⟩

end QmkFirmware.Autocorrect
