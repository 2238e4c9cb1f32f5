import QmkFirmware.Foundations.Runs
import Mathlib.Logic.Function.Basic

/-! # The ring of the keyboard report

`add_key_byte`, `del_key_byte` and `clear_keys_from_report` of `tmk_core/protocol/report.c` with
`RING_BUFFERED_6KRO_REPORT_ENABLE`, for a report that is not NKRO.
-/

namespace QmkFirmware.Report

abbrev Keycode := BitVec 8

/-! `RO_ADD` and `RO_SUB`, for the six keys of `KEYBOARD_REPORT_KEYS`. -/

def roAdd (a b : Nat) : Nat := (a + b) % 6

def roSub (a b : Nat) : Nat := (a + 6 - b) % 6

def roInc (a : Nat) : Nat := roAdd a 1

def roDec (a : Nat) : Nat := roSub a 1

/-- The keys of the report, at the indexes below six, with `cb_head`, `cb_tail` and `cb_count`. -/
structure KeyRing where
  keys : Nat → Keycode
  head : Nat
  tail : Nat
  count : BitVec 8

def KeyRing.empty : KeyRing where
  keys _ := 0
  head := 0
  tail := 0
  count := 0

/-- The indexes that a loop goes through from one on, at least one, until it comes to the tail. -/
def visit (tail : Nat) : (fuel : Nat) → Nat → List Nat
  | 0, _ => []
  | fuel + 1, i => i :: if roInc i = tail then [] else visit tail fuel (roInc i)

/-- The indexes from the head to the tail. -/
def KeyRing.indexes (ring : KeyRing) : List Nat := visit ring.tail 6 ring.head

/-- The keys moved left over the first empty index, with the number of empty ones. -/
def compact (keys : Nat → Keycode) (empty offset : Nat) : List Nat → (Nat → Keycode) × Nat
  | [] => (keys, offset)
  | i :: rest =>
    if keys i ≠ 0 then
      compact (Function.update (Function.update keys empty (keys i)) i 0) (roInc empty) offset rest
    else compact keys empty (offset + 1) rest

def KeyRing.leftShift (ring : KeyRing) (empty : Nat) : KeyRing :=
  let (keys, offset) := compact ring.keys empty 1 (visit ring.tail 6 (roInc empty))
  { ring with keys := keys, tail := roSub ring.tail offset }

def KeyRing.addToTail (ring : KeyRing) (code : Keycode) : KeyRing :=
  { ring with
    keys := Function.update ring.keys ring.tail code
    tail := roInc ring.tail
    count := ring.count + 1 }

/-- The loop that looks for the code also finds the first empty index. -/
def addKeyByte (ring : KeyRing) (code : Keycode) : KeyRing :=
  if ring.count ≠ 0 then
    if ring.indexes.any (ring.keys · = code) then ring
    else if ring.tail = ring.head then
      match ring.indexes.find? (ring.keys · = 0) with
      | none => { ring with head := roInc ring.head, count := ring.count - 1 }.addToTail code
      | some empty => (ring.leftShift empty).addToTail code
    else ring.addToTail code
  else ring.addToTail code

/-- The left shift of the tail, which comes to the head after six steps at most. -/
def shiftTail (keys : Nat → Keycode) (head : Nat) : (fuel : Nat) → Nat → Nat
  | 0, tail => tail
  | fuel + 1, tail =>
    if keys (roDec (roDec tail)) ≠ 0 then roDec tail
    else if roDec tail ≠ head then shiftTail keys head fuel (roDec tail)
    else roDec tail

/-- The key at an index is taken out. -/
def KeyRing.take (ring : KeyRing) (i : Nat) : KeyRing :=
  { ring with keys := Function.update ring.keys i 0, count := ring.count - 1 }

def delKeyByte (ring : KeyRing) (code : Keycode) : KeyRing :=
  if ring.count ≠ 0 then
    match ring.indexes.find? (ring.keys · = code) with
    | none => ring
    | some i =>
      let ring := ring.take i
      let ring := if ring.count = 0 then { ring with head := 0, tail := 0 } else ring
      if i = roDec ring.tail then { ring with tail := shiftTail ring.keys ring.head 6 ring.tail } else ring
  else ring

/-- `clear_keys_from_report`, which leaves the ring as it is. -/
def clearKeys (ring : KeyRing) : KeyRing := { ring with keys := fun _ => 0 }

/-! ## Runs -/

inductive Call where
  | add (code : Keycode) (key : code ≠ 0)
  | del (code : Keycode)
  | clear

def KeyRing.call (ring : KeyRing) : Call → KeyRing
  | .add code _ => addKeyByte ring code
  | .del code => delKeyByte ring code
  | .clear => clearKeys ring

def KeyRing.run (calls : List Call) : KeyRing := calls.foldl KeyRing.call KeyRing.empty

/-- The entries that are not zero. -/
def pressed (entries : List Keycode) : List Keycode := entries.filter (· ≠ 0)

def KeyRing.reported (ring : KeyRing) : List Keycode := pressed ((List.range 6).map ring.keys)

/-- The last six of the codes, in the order in which they have been added; a code that is there is not added again. -/
def recentAfter (recent : List Keycode) : Call → List Keycode
  | .add code _ => if code ∈ recent then recent else (recent ++ [code]).drop (recent.length + 1 - 6)
  | .del code => recent.filter (· ≠ code)
  | .clear => []

def recentKeys (calls : List Call) : List Keycode := calls.foldl recentAfter []

/-- The report shows each of the keys once, and no others. -/
structure KeyRing.Shows (ring : KeyRing) (keys : List Keycode) : Prop where
  nodup : ring.reported.Nodup
  exact : ∀ code, code ∈ ring.reported ↔ code ∈ keys

/-- The count is not zero where the call finds keys in the report that matter to it. -/
def KeyRing.Counted (ring : KeyRing) : Call → Prop
  | .add _ _ => ring.count = 0 → ring.reported = []
  | .del code => ring.count = 0 → code ∉ ring.reported
  | .clear => True

instance (ring : KeyRing) (call : Call) : Decidable (ring.Counted call) :=
  match call with
  | .add _ _ => inferInstanceAs (Decidable (_ → _))
  | .del _ => inferInstanceAs (Decidable (_ → _))
  | .clear => inferInstanceAs (Decidable True)

end QmkFirmware.Report
