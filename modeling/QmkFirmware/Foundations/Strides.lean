import Mathlib.Logic.Function.Basic
import Mathlib.Data.List.Basic
import Mathlib.Data.List.Infix

/-! # Strides

The cells of a memory that is indexed by integers, from one index on and at a fixed distance:
a block that grows upwards or downwards.
-/

namespace QmkFirmware.Strides

variable {α : Type}

def stride (memory : Int → α) (start distance : Int) (count : Nat) : List α :=
  (List.range count).map fun k : Nat => memory (start + distance * k)

@[simp] theorem length_stride (memory : Int → α) (start distance : Int) (count : Nat) :
    (stride memory start distance count).length = count := by
  simp [stride]

theorem stride_succ (memory : Int → α) (start distance : Int) (count : Nat) :
    stride memory start distance (count + 1) =
      stride memory start distance count ++ [memory (start + distance * count)] := by
  simp [stride, List.range_succ]

theorem stride_cons (memory : Int → α) (start distance : Int) (count : Nat) :
    stride memory start distance (count + 1) =
      memory start :: stride memory (start + distance) distance count := by
  simp only [stride, List.range_succ_eq_map, List.map_cons, List.map_map, Int.natCast_zero, Int.mul_zero,
    Int.add_zero, List.cons.injEq, true_and]
  apply List.map_congr_left
  intro k _
  show memory (start + distance * (k + 1 : Nat)) = _
  rw [Int.natCast_succ, Int.mul_add, Int.mul_one]
  congr 1
  omega

theorem stride_congr {memory other : Int → α} {start distance : Int} {count : Nat}
    (same : ∀ k : Nat, k < count → memory (start + distance * k) = other (start + distance * k)) :
    stride memory start distance count = stride other start distance count := by
  apply List.map_congr_left
  intro k member
  exact same k (List.mem_range.mp member)

theorem stride_update {memory : Int → α} {start distance index : Int} {count : Nat} (value : α)
    (outside : ∀ k : Nat, k < count → start + distance * k ≠ index) :
    stride (Function.update memory index value) start distance count = stride memory start distance count := by
  apply stride_congr
  intro k bound
  exact Function.update_of_ne (outside k bound) _ _

theorem stride_take (memory : Int → α) (start distance : Int) {count n : Nat} (within : n ≤ count) :
    (stride memory start distance count).take n = stride memory start distance n := by
  rw [stride, ← List.map_take, List.take_range, Nat.min_eq_left within]
  rfl

/-- What a stride holds, its beginning holds of it. -/
theorem stride_of_prefix {memory : Int → α} {start distance : Int} {all some : List α}
    (holds : stride memory start distance all.length = all) (shorter : some <+: all) :
    stride memory start distance some.length = some := by
  rw [← stride_take memory start distance shorter.length_le, holds]
  exact (List.prefix_iff_eq_take.mp shorter).symm

end QmkFirmware.Strides
