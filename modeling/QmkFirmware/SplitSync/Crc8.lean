import QmkFirmware.Foundations.PolynomialDivision

/-! # The checksum of a split message

A shallow embedding of `quantum/crc.c`.  `crc_t` is `uint_least8_t` or `uint_fast8_t`, so it has `spare`
bits above its low byte.  The table is that of the polynomial `0x07` and the loop shifts by `0x31`: each
divides by its own polynomial, and both values agree only where the remainder modulo their least common
multiple is a byte. -/

namespace QmkFirmware.SplitSync

open PolynomialDivision

/-! ## The two implementations -/

def crcTable : List (BitVec 8) :=
  [0x00, 0x07, 0x0e, 0x09, 0x1c, 0x1b, 0x12, 0x15, 0x38, 0x3f, 0x36, 0x31, 0x24, 0x23, 0x2a, 0x2d,
   0x70, 0x77, 0x7e, 0x79, 0x6c, 0x6b, 0x62, 0x65, 0x48, 0x4f, 0x46, 0x41, 0x54, 0x53, 0x5a, 0x5d,
   0xe0, 0xe7, 0xee, 0xe9, 0xfc, 0xfb, 0xf2, 0xf5, 0xd8, 0xdf, 0xd6, 0xd1, 0xc4, 0xc3, 0xca, 0xcd,
   0x90, 0x97, 0x9e, 0x99, 0x8c, 0x8b, 0x82, 0x85, 0xa8, 0xaf, 0xa6, 0xa1, 0xb4, 0xb3, 0xba, 0xbd,
   0xc7, 0xc0, 0xc9, 0xce, 0xdb, 0xdc, 0xd5, 0xd2, 0xff, 0xf8, 0xf1, 0xf6, 0xe3, 0xe4, 0xed, 0xea,
   0xb7, 0xb0, 0xb9, 0xbe, 0xab, 0xac, 0xa5, 0xa2, 0x8f, 0x88, 0x81, 0x86, 0x93, 0x94, 0x9d, 0x9a,
   0x27, 0x20, 0x29, 0x2e, 0x3b, 0x3c, 0x35, 0x32, 0x1f, 0x18, 0x11, 0x16, 0x03, 0x04, 0x0d, 0x0a,
   0x57, 0x50, 0x59, 0x5e, 0x4b, 0x4c, 0x45, 0x42, 0x6f, 0x68, 0x61, 0x66, 0x73, 0x74, 0x7d, 0x7a,
   0x89, 0x8e, 0x87, 0x80, 0x95, 0x92, 0x9b, 0x9c, 0xb1, 0xb6, 0xbf, 0xb8, 0xad, 0xaa, 0xa3, 0xa4,
   0xf9, 0xfe, 0xf7, 0xf0, 0xe5, 0xe2, 0xeb, 0xec, 0xc1, 0xc6, 0xcf, 0xc8, 0xdd, 0xda, 0xd3, 0xd4,
   0x69, 0x6e, 0x67, 0x60, 0x75, 0x72, 0x7b, 0x7c, 0x51, 0x56, 0x5f, 0x58, 0x4d, 0x4a, 0x43, 0x44,
   0x19, 0x1e, 0x17, 0x10, 0x05, 0x02, 0x0b, 0x0c, 0x21, 0x26, 0x2f, 0x28, 0x3d, 0x3a, 0x33, 0x34,
   0x4e, 0x49, 0x40, 0x47, 0x52, 0x55, 0x5c, 0x5b, 0x76, 0x71, 0x78, 0x7f, 0x6a, 0x6d, 0x64, 0x63,
   0x3e, 0x39, 0x30, 0x37, 0x22, 0x25, 0x2c, 0x2b, 0x06, 0x01, 0x08, 0x0f, 0x1a, 0x1d, 0x14, 0x13,
   0xae, 0xa9, 0xa0, 0xa7, 0xb2, 0xb5, 0xbc, 0xbb, 0x96, 0x91, 0x98, 0x9f, 0x8a, 0x8d, 0x84, 0x83,
   0xde, 0xd9, 0xd0, 0xd7, 0xc2, 0xc5, 0xcc, 0xcb, 0xe6, 0xe1, 0xe8, 0xef, 0xfa, 0xfd, 0xf4, 0xf3]

section Code

variable (spare : Nat)

/-- The loop of `crc8` under `CRC8_USE_TABLE`. -/
def crc8TableLoop (crc : BitVec (8 + spare)) : List (BitVec 8) → BitVec (8 + spare)
  | [] => crc
  | byte :: rest =>
    let tblIdx := crc ^^^ byte.setWidth (8 + spare)
    crc8TableLoop ((crcTable[tblIdx.toNat]?.getD 0).setWidth (8 + spare) &&& 0xff) rest

def crc8Table (data : List (BitVec 8)) : BitVec 8 :=
  (crc8TableLoop spare 0xff data &&& 0xff).setWidth 8

def crc8Shift (crc : BitVec (8 + spare)) : BitVec (8 + spare) :=
  if crc &&& 0x80 ≠ 0 then (crc <<< 1) ^^^ 0x31 else crc <<< 1

def crc8Loop (crc : BitVec (8 + spare)) : List (BitVec 8) → BitVec (8 + spare)
  | [] => crc
  | byte :: rest => crc8Loop ((crc8Shift spare)^[8] (crc ^^^ byte.setWidth (8 + spare))) rest

/-- `crc8` without `CRC8_USE_TABLE`. -/
def crc8 (data : List (BitVec 8)) : BitVec 8 :=
  (crc8Loop spare 0xff data).setWidth 8

end Code

/-! ## Each divides by its own polynomial -/

section Divide

variable {spare : Nat}

theorem crcTable_eq : ∀ index : BitVec 8, crcTable[index.toNat]?.getD 0 = (advance 0x07)^[8] index := by
  decide +kernel

theorem start_byte : (0xff : BitVec (8 + spare)) = (0xff : BitVec 8).setWidth (8 + spare) :=
  (BitVec.setWidth_ofNat_of_le_of_lt (Nat.le_add_right 8 spare) (show 0xff < 2 ^ 8 by decide)).symm

theorem low_byte (crc : BitVec 8) : crc.setWidth (8 + spare) &&& 0xff = crc.setWidth (8 + spare) := by
  rw [start_byte, ← BitVec.setWidth_and]
  exact congrArg _ BitVec.and_allOnes

theorem narrow_byte (crc : BitVec 8) : (crc.setWidth (8 + spare)).setWidth 8 = crc := by
  rw [BitVec.setWidth_setWidth_of_le _ (Nat.le_add_right 8 spare), BitVec.setWidth_eq]

/-- The register of the table never leaves its low byte. -/
theorem crc8TableLoop_eq (crc : BitVec 8) (data : List (BitVec 8)) :
    crc8TableLoop spare (crc.setWidth (8 + spare)) data = (remainder 0x07 crc data).setWidth (8 + spare) := by
  induction data generalizing crc with
  | nil => rfl
  | cons byte rest ih =>
    have index : (crc.setWidth (8 + spare) ^^^ byte.setWidth (8 + spare)).toNat = (crc ^^^ byte).toNat := by
      rw [← BitVec.setWidth_xor, BitVec.toNat_setWidth_of_le (Nat.le_add_right 8 spare)]
    rw [crc8TableLoop, index, crcTable_eq, low_byte, ih, remainder, remainder, List.foldl_cons, absorb,
      BitVec.setWidth_eq]

theorem crc8Table_eq (data : List (BitVec 8)) : crc8Table spare data = remainder 0x07 0xff data := by
  rw [crc8Table, start_byte, crc8TableLoop_eq, ← start_byte, low_byte, narrow_byte]

/-- The bits above the low byte never come back into it. -/
theorem crc8Shift_low (crc : BitVec (8 + spare)) :
    (crc8Shift spare crc).setWidth 8 = advance 0x31 (crc.setWidth 8) := by
  have shifted : (crc <<< 1).setWidth 8 = crc.setWidth 8 <<< 1 :=
    BitVec.setWidth_shiftLeft_of_le (Nat.le_add_right 8 spare)
  have generator : (0x31 : BitVec (8 + spare)).setWidth 8 = 0x31 :=
    BitVec.setWidth_ofNat_of_le (Nat.le_add_right 8 spare) 0x31
  have top : crc &&& 0x80 ≠ 0 ↔ (crc.setWidth 8).msb = true := by
    have bit : (BitVec.twoPow (8 + spare) 7).toNat = 0x80 := BitVec.toNat_twoPow_of_lt (by omega)
    have mask : (0x80 : BitVec (8 + spare)) = BitVec.twoPow (8 + spare) 7 := by
      apply BitVec.eq_of_toNat_eq
      rw [bit]
      exact Nat.mod_eq_of_lt (Nat.lt_of_lt_of_le (by decide) (Nat.pow_le_pow_right two_pos (Nat.le_add_right 8 spare)))
    have nonzero : BitVec.twoPow (8 + spare) 7 ≠ 0#(8 + spare) := by
      intro zero
      rw [zero] at bit
      simp at bit
    rw [mask, BitVec.and_twoPow, BitVec.msb_setWidth]
    cases crc.getLsbD 7 <;> simp [nonzero]
  rw [crc8Shift, advance]
  by_cases set : crc &&& 0x80 ≠ 0
  · rw [if_pos set, if_pos (top.mp set), BitVec.setWidth_xor, shifted, generator]
  · rw [if_neg set, if_neg (mt top.mpr set), shifted]

theorem crc8Loop_low (crc : BitVec (8 + spare)) (data : List (BitVec 8)) :
    (crc8Loop spare crc data).setWidth 8 = remainder 0x31 (crc.setWidth 8) data := by
  have shifts : ∀ (count : Nat) (crc : BitVec (8 + spare)),
      ((crc8Shift spare)^[count] crc).setWidth 8 = (advance 0x31)^[count] (crc.setWidth 8) := by
    intro count
    induction count with
    | zero => exact fun _ => rfl
    | succ count ih =>
      intro crc
      rw [Function.iterate_succ_apply, ih, crc8Shift_low, Function.iterate_succ_apply]
  induction data generalizing crc with
  | nil => rfl
  | cons byte rest ih =>
    rw [crc8Loop, ih, shifts, BitVec.setWidth_xor, narrow_byte, remainder, remainder, List.foldl_cons, absorb,
      BitVec.setWidth_eq]

theorem crc8_eq (data : List (BitVec 8)) : crc8 spare data = remainder 0x31 0xff data := by
  rw [crc8, crc8Loop_low, start_byte, narrow_byte]

end Divide

/-! ## Where they agree -/

/-- The least common multiple of both polynomials has degree 15. -/
def commonRemainder (data : List (BitVec 8)) : BitVec 15 :=
  remainder 0x6d8d 0xff data

section Agreement

open Polynomial

theorem divisor_table : divisor (0x07 : BitVec 8) = X ^ 8 + X ^ 2 + X + 1 := by
  rw [divisor, poly_eq_sum]
  simp [Fin.sum_univ_succ]
  ring

theorem divisor_loop : divisor (0x31 : BitVec 8) = X ^ 8 + X ^ 5 + X ^ 4 + 1 := by
  rw [divisor, poly_eq_sum]
  simp [Fin.sum_univ_succ]
  ring

theorem divisor_common : divisor (0x6d8d : BitVec 15)
    = X ^ 15 + X ^ 14 + X ^ 13 + X ^ 11 + X ^ 10 + X ^ 8 + X ^ 7 + X ^ 3 + X ^ 2 + 1 := by
  rw [divisor, poly_eq_sum]
  simp [Fin.sum_univ_succ]
  ring

/-- Both polynomials have the factor `X + 1` and no other in common. -/
theorem common_least (p : (ZMod 2)[X]) :
    divisor (0x6d8d : BitVec 15) ∣ p ↔ divisor (0x07 : BitVec 8) ∣ p ∧ divisor (0x31 : BitVec 8) ∣ p := by
  have two : (2 : (ZMod 2)[X]) = 0 := CharTwo.two_eq_zero
  have coprime : IsCoprime (X ^ 7 + X ^ 6 + X ^ 5 + X ^ 4 + X ^ 3 + X ^ 2 + 1 : (ZMod 2)[X])
      (X ^ 7 + X ^ 6 + X ^ 5 + X ^ 3 + X ^ 2 + X + 1) := by
    refine ⟨X ^ 3 + X ^ 2 + X + 1, X ^ 3 + X ^ 2 + X, ?_⟩
    linear_combination (X ^ 10 + 2 * X ^ 9 + 3 * X ^ 8 + 3 * X ^ 7 + 3 * X ^ 6 + 3 * X ^ 5 + 3 * X ^ 4 + 3 * X ^ 3
      + 2 * X ^ 2 + X) * two
  refine common_dvd_iff ?_ ?_ coprime p
  · rw [divisor_table, divisor_common]
    linear_combination -(X ^ 9 + X ^ 8 + X ^ 7 + X ^ 6 + X ^ 5 + X ^ 4 + X ^ 3 + X ^ 2 + X) * two
  · rw [divisor_loop, divisor_common]
    linear_combination -(X ^ 12 + X ^ 11 + X ^ 10 + X ^ 9 + X ^ 8 + X ^ 7 + X ^ 6 + X ^ 5 + X ^ 4) * two

/-- The two implementations agree on exactly the data that leaves a byte modulo the common multiple. -/
theorem crc8_agree_iff (spare spare' : Nat) (data : List (BitVec 8)) :
    crc8Table spare data = crc8 spare' data ↔ (commonRemainder data).toNat < 2 ^ 8 := by
  have start : poly (0xff : BitVec 15) = poly (0xff : BitVec 8) :=
    poly_setWidth (show 8 ≤ 15 by decide) (0xff : BitVec 8)
  have longer : (divisor (0x07 : BitVec 8)).degree ≤ (divisor (0x6d8d : BitVec 15)).degree := by
    rw [degree_divisor, degree_divisor]
    exact Nat.cast_le.mpr (by decide)
  have same : (divisor (0x07 : BitVec 8)).degree = (divisor (0x31 : BitVec 8)).degree := by
    rw [degree_divisor, degree_divisor]
  have agree := modByMonic_eq_iff (divisor_monic _) (divisor_monic _) (divisor_monic _) same longer common_least
    (message (poly (0xff : BitVec 8)) data)
  rw [degree_divisor] at agree
  rw [crc8Table_eq, crc8_eq, ← poly_injective.eq_iff, poly_remainder _ le_rfl, poly_remainder _ le_rfl, agree,
    ← degree_poly_lt_iff, commonRemainder, poly_remainder _ (show 8 ≤ 15 by decide), start]

theorem crc8_differs : crc8Table 0 [0x00] ≠ crc8 0 [0x00] := by decide +kernel

end Agreement

end QmkFirmware.SplitSync
