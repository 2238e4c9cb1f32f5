import Mathlib.Data.UInt
import QmkFirmware.Foundations.Sweep

/-! # Eager debounce per key

A shallow embedding of `quantum/debounce/sym_eager_pk.c`.  A matrix is a function from
rows to words of `width` bits.  The counters are indexed by row and column: both loops of
the source walk through the array in the order of the keys.
-/

namespace QmkFirmware.Debounce

/-- The constants of a keyboard, with the debounce time `g_debounce`. -/
structure Board (width : Nat) where
  numRows : Nat
  matrixCols : Nat
  gDebounce : UInt8
  fits : matrixCols ≤ width

/-- The static variables. -/
structure Debouncer where
  debounceCounters : Nat → Nat → UInt8
  lastTime : UInt32
  countersNeedUpdate : Bool
  matrixNeedUpdate : Bool
  cookedChanged : Bool

def debounceElapsed : UInt8 := 0

variable {width : Nat}

def Debouncer.setCounter (d : Debouncer) (row col : Nat) (value : UInt8) : Debouncer :=
  { d with debounceCounters := fun r c =>
      if r = row ∧ c = col then value else d.debounceCounters r c }

/-! ## Counters -/

def updateCounter (elapsedTime : UInt8) (row : Nat) (d : Debouncer) (col : Nat) : Debouncer :=
  let counter := d.debounceCounters row col
  if counter ≠ debounceElapsed then
    if counter ≤ elapsedTime then
      -- the key may change again, and the matrix has to be looked at
      { d.setCounter row col debounceElapsed with matrixNeedUpdate := true }
    else { d.setCounter row col (counter - elapsedTime) with countersNeedUpdate := true }
  else d

def updateDebounceCounters (board : Board width) (elapsedTime : UInt8) (d : Debouncer) : Debouncer :=
  (List.range board.numRows).foldl
    (fun d row => (List.range board.matrixCols).foldl (updateCounter elapsedTime row) d)
    { d with countersNeedUpdate := false, matrixNeedUpdate := false }

/-! ## Matrix -/

/-- One step of the inner loop, with the row that is being assembled. -/
def transferKey (board : Board width) (delta : BitVec width) (row : Nat)
    (state : Debouncer × BitVec width) (col : Nat) : Debouncer × BitVec width :=
  let colMask : BitVec width := BitVec.ofNat width 1 <<< col
  if delta &&& colMask ≠ 0 then
    -- a key whose counter runs keeps its bit until the counter expires
    if state.1.debounceCounters row col = debounceElapsed then
      ({ state.1.setCounter row col board.gDebounce with
          countersNeedUpdate := true, cookedChanged := true },
        state.2 ^^^ colMask)
    else state
  else state

def transferRow (board : Board width) (raw : Nat → BitVec width)
    (state : Debouncer × (Nat → BitVec width)) (row : Nat) : Debouncer × (Nat → BitVec width) :=
  let delta := raw row ^^^ state.2 row
  let moved := (List.range board.matrixCols).foldl (transferKey board delta row)
    (state.1, state.2 row)
  (moved.1, fun r => if r = row then moved.2 else state.2 r)

def transferMatrixValues (board : Board width) (raw cooked : Nat → BitVec width) (d : Debouncer) :
    Debouncer × (Nat → BitVec width) :=
  (List.range board.numRows).foldl (transferRow board raw) ({ d with matrixNeedUpdate := false }, cooked)

/-! ## Debounce -/

/-- The counters go on, if there is any that runs; the flag is `updated_last`. -/
def advanceCounters (board : Board width) (now : UInt32) (d : Debouncer) : Debouncer × Bool :=
  if d.countersNeedUpdate then
    let elapsedTime := now - d.lastTime
    -- the counters have eight bits
    let elapsedTime := if 255 < elapsedTime then 255 else elapsedTime
    let d := { d with lastTime := now }
    (if 0 < elapsedTime then updateDebounceCounters board elapsedTime.toUInt8 d else d, true)
  else (d, false)

/-- The state after a call and the cooked matrix; the result is the flag `cookedChanged`. -/
def debounce (board : Board width) (now : UInt32) (raw cooked : Nat → BitVec width)
    (changed : Bool) (d : Debouncer) : Debouncer × (Nat → BitVec width) :=
  let (d, updatedLast) := advanceCounters board now { d with cookedChanged := false }
  if changed || d.matrixNeedUpdate then
    -- counters that start now count from this call
    transferMatrixValues board raw cooked (if !updatedLast then { d with lastTime := now } else d)
  else (d, cooked)

end QmkFirmware.Debounce
