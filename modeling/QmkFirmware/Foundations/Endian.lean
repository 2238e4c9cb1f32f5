import Mathlib.Tactic

/-! # Numbers as bytes -/

namespace QmkFirmware.Endian

/-- The `count` low bytes of a number, the lowest one first. -/
def littleEndian : (count value : Nat) → List UInt8
  | 0, _ => []
  | count + 1, value => UInt8.ofNat value :: littleEndian count (value / 256)

def ofLittleEndian : List UInt8 → Nat
  | [] => 0
  | byte :: bytes => byte.toNat + 256 * ofLittleEndian bytes

@[simp] theorem length_littleEndian (count value : Nat) : (littleEndian count value).length = count := by
  induction count generalizing value with
  | zero => rfl
  | succ count ih => rw [littleEndian, List.length_cons, ih]

theorem ofLittleEndian_littleEndian (count value : Nat) :
    ofLittleEndian (littleEndian count value) = value % 256 ^ count := by
  induction count generalizing value with
  | zero => rw [Nat.pow_zero, Nat.mod_one]; rfl
  | succ count ih =>
    rw [littleEndian, ofLittleEndian, ih, Nat.pow_succ', Nat.mod_mul]
    rfl

end QmkFirmware.Endian
