import Mathlib.Algebra.Group.Nat.Defs
import Mathlib.Tactic.Common

/-! # Single bits of a word

A mask with one bit selects that bit of a word, and a masked exclusive-or writes it.
A mask with a run of bits selects a field, and a field is appended with an or.
-/

namespace QmkFirmware.Bits

variable {width : Nat}

theorem getLsbD_mask (bit j : Nat) :
    (BitVec.ofNat width 1 <<< bit).getLsbD j = (decide (j < width) && decide (j = bit)) := by
  rw [BitVec.getLsbD_shiftLeft, BitVec.getLsbD_one]
  grind

theorem and_mask_ne_zero (word : BitVec width) (bit : Nat) :
    word &&& BitVec.ofNat width 1 <<< bit ≠ 0 ↔ word.getLsbD bit = true := by
  rw [Ne, BitVec.eq_of_getLsbD_eq_iff]
  constructor
  · intro nonzero
    by_contra clear
    refine nonzero fun j bound => ?_
    rw [BitVec.getLsbD_and, getLsbD_mask]
    by_cases own : j = bit
    · subst own
      simp [clear]
    · simp [own]
  · intro set zero
    have bound := BitVec.lt_of_getLsbD set
    have value := zero bit bound
    rw [BitVec.getLsbD_and, getLsbD_mask, set] at value
    simp [bound] at value

/-- The mask selects the bit that is taken from the first word. -/
theorem getLsbD_xor_masked (source word : BitVec width) {bit : Nat} (bound : bit < width) (j : Nat) :
    (word ^^^ (source ^^^ word) &&& BitVec.ofNat width 1 <<< bit).getLsbD j =
      if j = bit then source.getLsbD bit else word.getLsbD j := by
  rw [BitVec.getLsbD_xor, BitVec.getLsbD_and, BitVec.getLsbD_xor, getLsbD_mask]
  by_cases own : j = bit
  · subst own
    simp only [bound, decide_true, Bool.and_true, if_true]
    cases source.getLsbD j <;> cases word.getLsbD j <;> rfl
  · simp [own]

theorem getLsbD_flipped (word : BitVec width) {bit : Nat} (bound : bit < width) (j : Nat) :
    (word ^^^ BitVec.ofNat width 1 <<< bit).getLsbD j =
      if j = bit then !word.getLsbD bit else word.getLsbD j := by
  rw [BitVec.getLsbD_xor, getLsbD_mask]
  by_cases own : j = bit
  · subst own
    simp [bound]
  · simp [own]

/-- The mask selects the bit that is taken from the second word. -/
theorem getLsbD_replaced (word source : BitVec width) (bit j : Nat) :
    (word &&& ~~~(BitVec.ofNat width 1 <<< bit) ||| source &&& BitVec.ofNat width 1 <<< bit).getLsbD j =
      if j = bit then source.getLsbD bit else word.getLsbD j := by
  rw [BitVec.getLsbD_or, BitVec.getLsbD_and, BitVec.getLsbD_and, BitVec.getLsbD_not, getLsbD_mask]
  by_cases inside : j < width
  · by_cases own : j = bit
    · subst own
      simp [inside]
    · simp [own, inside]
  · have ge := Nat.le_of_not_lt inside
    by_cases own : j = bit
    · subst own
      simp [BitVec.getLsbD_of_ge _ j ge]
    · simp [own, BitVec.getLsbD_of_ge _ j ge]

theorem replaced_ne_iff (word source : BitVec width) (bit : Nat) :
    word ^^^ (word &&& ~~~(BitVec.ofNat width 1 <<< bit) ||| source &&& BitVec.ofNat width 1 <<< bit) ≠ 0 ↔
      source.getLsbD bit ≠ word.getLsbD bit := by
  have zero : (0 : BitVec width) = BitVec.ofNat width 0 := rfl
  rw [Ne, zero, BitVec.xor_eq_zero_iff, BitVec.eq_of_getLsbD_eq_iff, Ne, not_iff_not]
  simp only [getLsbD_replaced]
  constructor
  · intro same
    by_cases inside : bit < width
    · simpa using (same bit inside).symm
    · have ge := Nat.le_of_not_lt inside
      rw [BitVec.getLsbD_of_ge source bit ge, BitVec.getLsbD_of_ge word bit ge]
  · intro same j _
    split
    · next own => rw [own, same]
    · rfl

/-! ## Fields -/

theorem nat_and_field (word mask shift : Nat) : word &&& mask <<< shift = (word >>> shift &&& mask) <<< shift := by
  apply Nat.eq_of_testBit_eq
  intro i
  simp only [Nat.testBit_and, Nat.testBit_shiftLeft, Nat.testBit_shiftRight]
  by_cases high : shift ≤ i
  · simp [high]
  · simp [high]

/-- The field of `bits` bits from `shift` on. -/
theorem toNat_and_field (word : BitVec width) (bits shift : Nat) (fits : bits + shift ≤ width) :
    (word &&& BitVec.ofNat width ((2 ^ bits - 1) <<< shift)).toNat =
      word.toNat / 2 ^ shift % 2 ^ bits * 2 ^ shift := by
  have small : (2 ^ bits - 1) * 2 ^ shift < 2 ^ width := by
    have below : 2 ^ bits * 2 ^ shift ≤ 2 ^ width := by
      rw [← Nat.pow_add]
      exact Nat.pow_le_pow_right (by omega) fits
    have less : (2 ^ bits - 1) * 2 ^ shift < 2 ^ bits * 2 ^ shift :=
      Nat.mul_lt_mul_of_pos_right (Nat.sub_lt (Nat.two_pow_pos bits) (by omega)) (Nat.two_pow_pos shift)
    omega
  rw [BitVec.toNat_and, BitVec.toNat_ofNat, Nat.shiftLeft_eq, Nat.mod_eq_of_lt small, ← Nat.shiftLeft_eq,
    nat_and_field, Nat.and_two_pow_sub_one_eq_mod, Nat.shiftRight_eq_div_pow, Nat.shiftLeft_eq]

/-- A value below the lowest bit of a multiple is appended by an or. -/
theorem toNat_or_low (high low : BitVec width) (factor shift : Nat) (multiple : high.toNat = factor * 2 ^ shift)
    (small : low.toNat < 2 ^ shift) : (high ||| low).toNat = factor * 2 ^ shift + low.toNat := by
  rw [BitVec.toNat_or, multiple, ← Nat.shiftLeft_eq, ← Nat.shiftLeft_add_eq_or_of_lt small]

end QmkFirmware.Bits
