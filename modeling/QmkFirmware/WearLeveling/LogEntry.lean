import Mathlib.Data.UInt
import Mathlib.Tactic
import QmkFirmware.Foundations.Memory

/-! # Write-log entries

The eight-byte union `write_log_entry_t` and the three encodings of
`wear_leveling_internal.h`, as lists of the bytes `raw8[0]` .. `raw8[7]`.  The
`raw16`/`raw32`/`raw64` views of the union are its consecutive byte groups, so a
backing-store word is the list of its bytes in memory order.
-/

namespace QmkFirmware.WearLeveling

/-- `BACKING_STORE_WRITE_SIZE`, the number of bytes of one `backing_store_int_t`. -/
inductive WriteSize where
  | two
  | four
  | eight
  deriving DecidableEq, Repr

def WriteSize.bytes : WriteSize → Nat
  | .two => 2
  | .four => 4
  | .eight => 8

/-- `LOG_ENTRY_GET_TYPE` distinguishes these; two bits, so a fourth pattern exists. -/
inductive EntryType where
  | multibyte
  | optimized64
  | word01
  | unknown
  deriving DecidableEq, Repr

def bitmaskForBitcount (n : Nat) : Nat := (1 <<< n) - 1

/-- The byte `raw8[k]` of an entry. -/
def raw8 (entry : List UInt8) (k : Nat) : Nat := (entry.getD k 0).toNat

/-- The word `raw16[k]`, `raw32[k]` or `raw64` of an entry. -/
def rawWord (size : WriteSize) (entry : List UInt8) (k : Nat) : List UInt8 :=
  (entry.drop (k * size.bytes)).take size.bytes

def logEntryGetType (entry : List UInt8) : EntryType :=
  match (raw8 entry 0 >>> 6) &&& bitmaskForBitcount 2 with
  | 0 => .multibyte
  | 1 => .optimized64
  | 2 => .word01
  | _ => .unknown

/-! ## Multi-byte entries -/

def logEntryMultibyteMaxBytes : Nat := 5

def logEntryMultibyteGetAddress (entry : List UInt8) : Nat :=
  ((raw8 entry 0 &&& bitmaskForBitcount 3) <<< 16) ||| (raw8 entry 1 <<< 8) ||| raw8 entry 2

def logEntryMultibyteGetLength (entry : List UInt8) : Nat :=
  (raw8 entry 0 >>> 3) &&& bitmaskForBitcount 3

def logEntryMakeMultibyte (address length : Nat) : List UInt8 :=
  [UInt8.ofNat (((0 &&& bitmaskForBitcount 2) <<< 6) |||
      ((length &&& bitmaskForBitcount 3) <<< 3) |||
      ((address >>> 16) &&& bitmaskForBitcount 3)),
    UInt8.ofNat ((address >>> 8) &&& bitmaskForBitcount 8),
    UInt8.ofNat (address &&& bitmaskForBitcount 8),
    0, 0, 0, 0, 0]

/-- `log.raw8[3 + i] = p[i]` for every payload byte. -/
def logEntrySetPayload (entry payload : List UInt8) : List UInt8 :=
  entry.take 3 ++ payload ++ entry.drop (3 + payload.length)

/-! ## Two-byte write optimisations -/

def logEntryOptimized64GetAddress (entry : List UInt8) : Nat := raw8 entry 0 &&& bitmaskForBitcount 6

def logEntryOptimized64GetValue (entry : List UInt8) : UInt8 := entry.getD 1 0

def logEntryMakeOptimized64 (address : Nat) (value : UInt8) : List UInt8 :=
  [UInt8.ofNat (((1 &&& bitmaskForBitcount 2) <<< 6) ||| (address &&& bitmaskForBitcount 6)),
    value, 0, 0, 0, 0, 0, 0]

def logEntryWord01GetAddress (entry : List UInt8) : Nat :=
  ((raw8 entry 0 &&& bitmaskForBitcount 5) <<< 9) ||| (raw8 entry 1 <<< 1)

def logEntryWord01GetValue (entry : List UInt8) : UInt8 :=
  UInt8.ofNat ((raw8 entry 0 >>> 5) &&& bitmaskForBitcount 1)

def logEntryMakeWord01 (address value : Nat) : List UInt8 :=
  [UInt8.ofNat (((2 &&& bitmaskForBitcount 2) <<< 6) |||
      (((if value = 0 then 0 else 1) &&& bitmaskForBitcount 1) <<< 5) |||
      ((address >>> 9) &&& bitmaskForBitcount 5)),
    UInt8.ofNat (address >>> 1),
    0, 0, 0, 0, 0, 0]

/-! ## Decoding what was encoded -/

section Roundtrip

private theorem header_bits (length high : Nat) (lengthBound : length < 8) (highBound : high < 8) :
    let header := UInt8.ofNat (((0 &&& bitmaskForBitcount 2) <<< 6) |||
      ((length &&& bitmaskForBitcount 3) <<< 3) ||| high)
    (header.toNat >>> 6) &&& bitmaskForBitcount 2 = 0 ∧
      header.toNat &&& bitmaskForBitcount 3 = high ∧
      (header.toNat >>> 3) &&& bitmaskForBitcount 3 = length ∧
      (0 < length → header ≠ 0) := by
  interval_cases length <;> interval_cases high <;> decide

private theorem and_mask (value bits : Nat) : value &&& bitmaskForBitcount bits = value % 2 ^ bits := by
  simp [bitmaskForBitcount, Nat.one_shiftLeft, Nat.and_two_pow_sub_one_eq_mod]

private theorem toNat_ofNat_of_lt {value : Nat} (h : value < 256) : (UInt8.ofNat value).toNat = value := by
  simp [UInt8.toNat_ofNat', Nat.mod_eq_of_lt h]

variable (address length : Nat) (payload : List UInt8)

/-- The first byte of a multi-byte entry decodes to its type, its length and the
top three address bits; it is never zero, so playback never takes the entry for
an empty slot. -/
theorem makeMultibyte_header (bound : length < 8) :
    logEntryGetType (logEntryMakeMultibyte address length) = .multibyte ∧
      logEntryMultibyteGetLength (logEntryMakeMultibyte address length) = length ∧
      raw8 (logEntryMakeMultibyte address length) 0 &&& bitmaskForBitcount 3 =
        address / 65536 % 8 ∧
      (0 < length → (logEntryMakeMultibyte address length).getD 0 0 ≠ 0) := by
  have high : (address >>> 16) &&& bitmaskForBitcount 3 = address / 65536 % 8 := by
    rw [and_mask, Nat.shiftRight_eq_div_pow]
    norm_num
  obtain ⟨typeBits, addressBits, lengthBits, nonzero⟩ :=
    header_bits length (address / 65536 % 8) bound (Nat.mod_lt _ (by decide))
  simp only [logEntryGetType, logEntryMultibyteGetLength, logEntryMakeMultibyte, raw8, high,
    List.getD_cons_zero] at *
  rw [typeBits]
  exact ⟨rfl, lengthBits, addressBits, nonzero⟩

theorem makeMultibyte_raw8_one :
    raw8 (logEntryMakeMultibyte address length) 1 = address / 256 % 256 := by
  have mid : (address >>> 8) &&& bitmaskForBitcount 8 = address / 256 % 256 := by
    rw [and_mask, Nat.shiftRight_eq_div_pow]
    norm_num
  simp only [raw8, logEntryMakeMultibyte, List.getD_cons_succ, List.getD_cons_zero, mid]
  exact toNat_ofNat_of_lt (Nat.mod_lt _ (by decide))

theorem makeMultibyte_raw8_two :
    raw8 (logEntryMakeMultibyte address length) 2 = address % 256 := by
  simp only [raw8, logEntryMakeMultibyte, List.getD_cons_succ, List.getD_cons_zero, and_mask]
  exact toNat_ofNat_of_lt (Nat.mod_lt _ (by decide))

/-- The three address fields put back together. -/
theorem join_address (high mid low : Nat) (midBound : mid < 256) (lowBound : low < 256) :
    (high <<< 16) ||| (mid <<< 8) ||| low = high * 65536 + mid * 256 + low := by
  have first : (mid <<< 8) ||| low = mid * 256 + low := by
    rw [← Nat.shiftLeft_add_eq_or_of_lt (by omega), Nat.shiftLeft_eq]
  rw [Nat.or_assoc, first, ← Nat.shiftLeft_add_eq_or_of_lt (by omega), Nat.shiftLeft_eq]
  omega

theorem optimized64_roundtrip (value : UInt8) (bound : address < 64) :
    logEntryGetType (logEntryMakeOptimized64 address value) = .optimized64 ∧
      logEntryOptimized64GetAddress (logEntryMakeOptimized64 address value) = address ∧
      logEntryOptimized64GetValue (logEntryMakeOptimized64 address value) = value ∧
      (logEntryMakeOptimized64 address value).getD 0 0 ≠ 0 := by
  have header : ∀ a : Nat, a < 64 →
      let byte := UInt8.ofNat (((1 &&& bitmaskForBitcount 2) <<< 6) ||| (a &&& bitmaskForBitcount 6))
      (byte.toNat >>> 6) &&& bitmaskForBitcount 2 = 1 ∧ byte.toNat &&& bitmaskForBitcount 6 = a ∧
        byte ≠ 0 := by
    decide
  obtain ⟨typeBits, addressBits, nonzero⟩ := header address bound
  simp only [logEntryGetType, logEntryOptimized64GetAddress, logEntryOptimized64GetValue,
    logEntryMakeOptimized64, raw8, List.getD_cons_zero, List.getD_cons_succ] at *
  rw [typeBits]
  exact ⟨rfl, addressBits, trivial, nonzero⟩

theorem word01_roundtrip (value : Nat) (even : address % 2 = 0) (bound : address < 16384)
    (binary : value = 0 ∨ value = 1) :
    logEntryGetType (logEntryMakeWord01 address value) = .word01 ∧
      logEntryWord01GetAddress (logEntryMakeWord01 address value) = address ∧
      logEntryWord01GetValue (logEntryMakeWord01 address value) = UInt8.ofNat value ∧
      (logEntryMakeWord01 address value).getD 0 0 ≠ 0 := by
  have header : ∀ v : Nat, v < 2 → ∀ a : Nat, a < 32 →
      let byte := UInt8.ofNat (((2 &&& bitmaskForBitcount 2) <<< 6) |||
        (((if v = 0 then 0 else 1) &&& bitmaskForBitcount 1) <<< 5) ||| a)
      (byte.toNat >>> 6) &&& bitmaskForBitcount 2 = 2 ∧ byte.toNat &&& bitmaskForBitcount 5 = a ∧
        (byte.toNat >>> 5) &&& bitmaskForBitcount 1 = v ∧ byte ≠ 0 := by
    decide
  have high : (address >>> 9) &&& bitmaskForBitcount 5 = address / 512 := by
    rw [and_mask, Nat.shiftRight_eq_div_pow]
    omega
  have low : (UInt8.ofNat (address >>> 1)).toNat = address / 2 % 256 := by
    rw [Nat.shiftRight_eq_div_pow, UInt8.toNat_ofNat']
  obtain ⟨typeBits, addressBits, valueBits, nonzero⟩ :=
    header value (by omega) (address / 512) (by omega)
  simp only [logEntryGetType, logEntryWord01GetAddress, logEntryWord01GetValue,
    logEntryMakeWord01, raw8, high, low, List.getD_cons_zero, List.getD_cons_succ] at *
  rw [typeBits, addressBits, valueBits]
  refine ⟨rfl, ?_, rfl, nonzero⟩
  have small : (address / 2 % 256) <<< 1 < 2 ^ 9 := by
    rw [Nat.shiftLeft_eq]
    omega
  rw [← Nat.shiftLeft_add_eq_or_of_lt small, Nat.shiftLeft_eq, Nat.shiftLeft_eq]
  omega

end Roundtrip

end QmkFirmware.WearLeveling
