import QmkFirmware.Unicode.Model
import Mathlib.Logic.Function.Basic

/-! # UCIS

A shallow embedding of `quantum/unicode/ucis.c` and `quantum/process_keycode/process_ucis.c`.  The array `input` stands in
a memory, whose other bytes may be anything.
-/

namespace QmkFirmware.Ucis

open Unicode (Env registerUnicode)

abbrev Keycode := BitVec 16

def kcA : Keycode := 0x04
def kcZ : Keycode := 0x1D
def kc1 : Keycode := 0x1E
def kc9 : Keycode := 0x26
def kc0 : Keycode := 0x27
def kcEnter : Keycode := 0x28
def kcEscape : Keycode := 0x29
def kcBackspace : Keycode := 0x2A
def kcSpace : Keycode := 0x2C

/-- `ucis_symbol_t`: a C string and its code points. -/
structure Symbol where
  mnemonic : List UInt8
  codePoints : List Nat
  noNul : ∀ c ∈ mnemonic, c ≠ 0

/-- The symbols before the end of `ucis_symbol_table`, and the lengths of the arrays.  The counters of the loops are of
eight bits, which the length of `input` fits with a place to spare. -/
structure Config where
  ucisSymbolTable : List Symbol
  maxInputLength : Nat
  maxCodePoints : Nat
  fits : maxInputLength < 255

/-- The variables of `ucis.c`, what has been typed, the symbols that have been registered, and the places of `input` that
have been accessed. -/
structure State where
  count : Nat
  active : Bool
  input : Nat → UInt8
  typing : Unicode.State
  symbols : List Nat
  accesses : List Nat

def keycodeToChar (keycode : Keycode) : UInt8 :=
  if kcA ≤ keycode ∧ keycode ≤ kcZ then 0x61 + .ofNat (keycode - kcA).toNat
  else if kc1 ≤ keycode ∧ keycode ≤ kc9 then 0x31 + .ofNat (keycode - kc1).toNat
  else if keycode = kc0 then 0x30
  else 0

def ucisAdd (keycode : Keycode) (s : State) : Bool × State :=
  let c := keycodeToChar keycode
  if c ≠ 0 then
    (true, { s with
      input := Function.update s.input s.count c
      count := s.count + 1
      accesses := s.accesses ++ [s.count] })
  else (false, s)

def ucisRemoveLast (s : State) : Bool × State :=
  if s.count ≠ 0 then (true, { s with count := s.count - 1 }) else (false, s)

def ucisCancel (s : State) : State := { s with count := 0, active := false }

/-- The loop of `match_mnemonic` from an index, with the places of `input` that it reads.  It ends before the fuel does,
as it does not go beyond the place after `count`. -/
def matchLoop (input : Nat → UInt8) (count : Nat) (mnemonic : List UInt8) : Nat → Nat → Bool × List Nat
  | 0, _ => (false, [])
  | fuel + 1, i =>
    if input i = 0 then (true, [i])
    else if count < i ∨ input i ≠ mnemonic.getD i 0 then (false, [i])
    else ((matchLoop input count mnemonic fuel (i + 1)).1, i :: (matchLoop input count mnemonic fuel (i + 1)).2)

def matchMnemonic (s : State) (mnemonic : List UInt8) : Bool × List Nat :=
  matchLoop s.input s.count mnemonic (s.count + 2) 0

section Functions

variable (env : Env) (config : Config)

def ucisStart (s : State) : State :=
  { s with count := 0, active := true, typing := registerUnicode env 0x2328 s.typing }

/-- The loop of `ucis_finish` from an index, which is of eight bits: the symbol that it finds, or the end of the table. -/
def findLoop (s : State) : Nat → Nat → Option (Option Nat × List Nat)
  | 0, _ => none
  | fuel + 1, i =>
    match config.ucisSymbolTable[i]? with
    | none => some (none, [])
    | some symbol =>
      if (matchMnemonic s symbol.mnemonic).1 then some (some i, (matchMnemonic s symbol.mnemonic).2)
      else (findLoop s fuel ((i + 1) % 256)).map fun rest => (rest.1, (matchMnemonic s symbol.mnemonic).2 ++ rest.2)

/-- `register_ucis`. -/
def registerUcis (index : Nat) (s : State) : State :=
  let codePoints := ((config.ucisSymbolTable[index]?.map Symbol.codePoints).getD []).take config.maxCodePoints
  { s with
    typing := (codePoints.takeWhile (· != 0)).foldl (fun typing codePoint => registerUnicode env codePoint typing) s.typing
    symbols := s.symbols ++ [index] }

/-- `ucis_finish`: it ends before the index has come round. -/
def ucisFinish (s : State) : Option State :=
  (findLoop config s 256 0).map fun result =>
    let s := { s with accesses := s.accesses ++ result.2 }
    let s := match result.1 with
      | some index =>
        -- the symbol that stands for the input is deleted with it
        let typing := Nat.iterate (Unicode.State.tapCode (kcBackspace.setWidth 8)) (s.count + 1) s.typing
        registerUcis env config index { s with typing := typing }
      | none => s
    { s with active := false }

/-- `process_ucis`, with what it returns. -/
def processUcis (keycode : Keycode) (pressed : Bool) (s : State) : Option (Bool × State) :=
  if s.active && pressed then
    let special : Bool := keycode == kcSpace || keycode == kcEnter || keycode == kcEscape || keycode == kcBackspace
    if config.maxInputLength ≤ s.count ∧ special = false then some (false, s)
    else
      let (added, s) := ucisAdd keycode s
      if added then some (true, s)
      else if keycode = kcBackspace then some (ucisRemoveLast s)
      else if keycode = kcEscape then some (false, ucisCancel s)
      else if keycode = kcSpace ∨ keycode = kcEnter then (ucisFinish env config s).map fun s => (false, s)
      else some (true, s)
  else some (true, s)

/-- A session starts, or a key is routed through `process_ucis`. -/
inductive Input where
  | start
  | key (keycode : Keycode) (pressed : Bool)
deriving DecidableEq

def step (s : State) : Input → Option State
  | .start => some (ucisStart env s)
  | .key keycode pressed => (processUcis env config keycode pressed s).map Prod.snd

/-- The array is zero at the start, the memory behind it is not. -/
def initial (typing : Unicode.State) (behind : Nat → UInt8) : State where
  count := 0
  active := false
  input i := if i < config.maxInputLength then 0 else behind i
  typing := typing
  symbols := []
  accesses := []

def run (typing : Unicode.State) (behind : Nat → UInt8) (inputs : List Input) : Option State :=
  inputs.foldlM (step env config) (initial config typing behind)

end Functions

end QmkFirmware.Ucis
