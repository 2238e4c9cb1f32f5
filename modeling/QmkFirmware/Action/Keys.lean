import QmkFirmware.Foundations.Bits

/-! # The keys of a report

The key functions of `tmk_core/protocol/report.c`, for the report of a boot keyboard with its six codes and for the
NKRO report with a bit for each code.  The report with the ring buffer is in `QmkFirmware.Report`.
-/

namespace QmkFirmware.Action

open QmkFirmware.Bits

abbrev Keycode := BitVec 8

def keyboardReportKeys : Nat := 6
def nkroReportBits : Nat := 30

/-- `report_keyboard_t` or `report_nkro_t`, without its modifiers. -/
inductive Keys where
  | boot (keys : Vector Keycode keyboardReportKeys)
  | nkro (bits : Vector (BitVec 8) nkroReportBits)
  deriving DecidableEq

def addKeyByte (keys : Vector Keycode keyboardReportKeys) (code : Keycode) : Vector Keycode keyboardReportKeys :=
  if keys.contains code then keys
  else
    match keys.findFinIdx? (· == 0) with
    | some empty => keys.set empty code
    | none => keys

def delKeyByte (keys : Vector Keycode keyboardReportKeys) (code : Keycode) : Vector Keycode keyboardReportKeys :=
  keys.map fun key => if key = code then 0#8 else key

def addKeyBit (bits : Vector (BitVec 8) nkroReportBits) (code : Keycode) : Vector (BitVec 8) nkroReportBits :=
  if inside : code.toNat / 8 < nkroReportBits then
    bits.set (code.toNat / 8) (bits[code.toNat / 8] ||| 1#8 <<< (code.toNat % 8))
  else bits

def delKeyBit (bits : Vector (BitVec 8) nkroReportBits) (code : Keycode) : Vector (BitVec 8) nkroReportBits :=
  if inside : code.toNat / 8 < nkroReportBits then
    bits.set (code.toNat / 8) (bits[code.toNat / 8] &&& ~~~(1#8 <<< (code.toNat % 8)))
  else bits

def addKeyToReport (code : Keycode) : Keys → Keys
  | .boot keys => .boot (addKeyByte keys code)
  | .nkro bits => .nkro (addKeyBit bits code)

def delKeyFromReport (code : Keycode) : Keys → Keys
  | .boot keys => .boot (delKeyByte keys code)
  | .nkro bits => .nkro (delKeyBit bits code)

def isKeyPressed (code : Keycode) (keys : Keys) : Bool :=
  if code = 0#8 then false
  else
    match keys with
    | .boot keys => keys.contains code
    | .nkro bits =>
      if inside : code.toNat / 8 < nkroReportBits then bits[code.toNat / 8] &&& 1#8 <<< (code.toNat % 8) ≠ 0
      else false

/-- The number of bytes that are not zero. -/
def hasAnykey : Keys → Nat
  | .boot keys => keys.countP (· ≠ 0)
  | .nkro bits => bits.countP (· ≠ 0)

def clearKeysFromReport : Keys → Keys
  | .boot _ => .boot (.replicate keyboardReportKeys 0)
  | .nkro _ => .nkro (.replicate nkroReportBits 0)

/-! ## Keys that are added and taken away -/

variable {code other : Keycode} {keys : Keys}

theorem addKeyByte_contains {slots : Vector Keycode keyboardReportKeys}
    (pressed : (addKeyByte slots code).contains other = true) : other = code ∨ slots.contains other = true := by
  unfold addKeyByte at pressed
  split at pressed
  · exact .inr pressed
  · split at pressed
    · rw [Vector.contains_iff_mem] at pressed
      rcases Vector.mem_or_eq_of_mem_set pressed with member | rfl
      · exact .inr (Vector.contains_iff_mem.mpr member)
      · exact .inl rfl
    · exact .inr pressed

theorem delKeyByte_contains {slots : Vector Keycode keyboardReportKeys} (nonzero : other ≠ 0#8) :
    (delKeyByte slots code).contains other = true ↔ other ≠ code ∧ slots.contains other = true := by
  simp only [delKeyByte, Vector.contains_iff_mem, Vector.mem_map]
  constructor
  · rintro ⟨key, member, same⟩
    split at same
    · exact absurd same.symm nonzero
    · next kept => exact ⟨same ▸ kept, same ▸ member⟩
  · rintro ⟨apart, member⟩
    exact ⟨other, member, if_neg apart⟩

/-- Codes with different bytes or different bits are different. -/
theorem code_eq_of_bits (byte : code.toNat / 8 = other.toNat / 8) (bit : code.toNat % 8 = other.toNat % 8) :
    code = other := by
  apply BitVec.eq_of_toNat_eq
  rw [← Nat.div_add_mod code.toNat 8, byte, bit, Nat.div_add_mod]

theorem isKeyPressed_nkro (bits : Vector (BitVec 8) nkroReportBits) :
    isKeyPressed code (.nkro bits) = true ↔
      code ≠ 0#8 ∧ ∃ inside : code.toNat / 8 < nkroReportBits, bits[code.toNat / 8].getLsbD (code.toNat % 8) = true := by
  unfold isKeyPressed
  by_cases zero : code = 0#8
  · simp [zero]
  · rw [if_neg zero]
    dsimp only
    split
    · next inside =>
      rw [decide_eq_true_iff, and_mask_ne_zero]
      simp [zero, inside]
    · next outside => simp [outside]

theorem isKeyPressed_addKeyBit (bits : Vector (BitVec 8) nkroReportBits) :
    isKeyPressed other (.nkro (addKeyBit bits code)) = true ↔
      (other = code ∧ code ≠ 0#8 ∧ code.toNat / 8 < nkroReportBits) ∨ isKeyPressed other (.nkro bits) = true := by
  rw [isKeyPressed_nkro, isKeyPressed_nkro, addKeyBit]
  split
  · next inside =>
    simp only [Vector.getElem_set]
    by_cases byte : code.toNat / 8 = other.toNat / 8
    · simp only [byte, if_true, BitVec.getLsbD_or, getLsbD_mask, Bool.or_eq_true, Bool.and_eq_true, decide_eq_true_eq]
      by_cases same : other = code
      · subst same
        have small : other.toNat % 8 < 8 := Nat.mod_lt _ (by decide)
        by_cases zero : other = 0#8
        · simp [zero]
        · simp [zero, inside, small]
      · have bit : other.toNat % 8 ≠ code.toNat % 8 := fun bit => same (code_eq_of_bits byte.symm bit)
        simp only [same, bit, and_false, or_false, false_and, false_or]
    · have apart : other ≠ code := fun same => byte (by rw [same])
      simp [byte, apart]
  · next outside =>
    simp [outside]

theorem isKeyPressed_delKeyBit (bits : Vector (BitVec 8) nkroReportBits) :
    isKeyPressed other (.nkro (delKeyBit bits code)) = true ↔ other ≠ code ∧ isKeyPressed other (.nkro bits) = true := by
  rw [isKeyPressed_nkro, isKeyPressed_nkro, delKeyBit]
  split
  · next inside =>
    simp only [Vector.getElem_set]
    by_cases byte : code.toNat / 8 = other.toNat / 8
    · simp only [byte, if_true, BitVec.getLsbD_and, BitVec.getLsbD_not, getLsbD_mask, Bool.and_eq_true]
      have small : other.toNat % 8 < 8 := Nat.mod_lt _ (by decide)
      by_cases same : other = code
      · subst same
        simp [small]
      · have bit : other.toNat % 8 ≠ code.toNat % 8 := fun bit => same (code_eq_of_bits byte.symm bit)
        simp only [same, bit, small, decide_true, decide_false, Bool.and_false, Bool.not_false, and_true, not_false_eq_true,
          ne_eq, true_and]
    · have apart : other ≠ code := fun same => byte (by rw [same])
      simp [byte, apart]
  · next outside =>
    constructor
    · rintro ⟨nonzero, inside, set⟩
      refine ⟨?_, nonzero, inside, set⟩
      rintro rfl
      exact outside inside
    · exact And.right

/-- Only the code that is added can become pressed. -/
theorem isKeyPressed_addKey (pressed : isKeyPressed other (addKeyToReport code keys) = true) :
    other = code ∨ isKeyPressed other keys = true := by
  cases keys with
  | boot slots =>
    by_cases zero : other = 0#8
    · simp [isKeyPressed, zero] at pressed
    · rw [addKeyToReport, isKeyPressed, if_neg zero] at pressed
      rw [isKeyPressed, if_neg zero]
      exact addKeyByte_contains pressed
  | nkro bits => exact ((isKeyPressed_addKeyBit bits).mp pressed).imp And.left id

theorem isKeyPressed_delKey :
    isKeyPressed other (delKeyFromReport code keys) = true ↔ other ≠ code ∧ isKeyPressed other keys = true := by
  cases keys with
  | boot slots =>
    by_cases zero : other = 0#8
    · simp [isKeyPressed, zero]
    · rw [delKeyFromReport, isKeyPressed, if_neg zero, isKeyPressed, if_neg zero]
      exact delKeyByte_contains zero
  | nkro bits => exact isKeyPressed_delKeyBit bits

theorem isKeyPressed_clearKeys (code : Keycode) (keys : Keys) : isKeyPressed code (clearKeysFromReport keys) = false := by
  by_cases zero : code = 0#8
  · simp [isKeyPressed, zero]
  · cases keys with
    | boot slots =>
      rw [clearKeysFromReport, isKeyPressed, if_neg zero, Bool.eq_false_iff, Ne, Vector.contains_iff_mem, Vector.mem_replicate]
      exact fun member => zero member.2
    | nkro bits =>
      rw [Bool.eq_false_iff, Ne, clearKeysFromReport, isKeyPressed_nkro]
      rintro ⟨-, inside, set⟩
      simp at set

end QmkFirmware.Action
