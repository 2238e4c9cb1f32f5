import Mathlib.Algebra.Order.Ring.Int
import Mathlib.Data.Int.GCD
import Mathlib.Tactic.Ring
import Mathlib.Tactic.Linarith

/-! # Lines on a grid

The walk along a line of slope at most one that keeps an error instead of a fraction: one step along the long axis at
a time, and one along the short axis with it whenever the error is small enough.  The errors are those multiples of
the greatest common divisor that lie in a window as wide as the line is long.
-/

namespace QmkFirmware.LineWalk

/-- The steps along the short axis so far, and the error. -/
structure Place where
  short : Nat
  error : Int

def Place.next (long short : Nat) (place : Place) : Place :=
  if 2 * place.error ≤ long then ⟨place.short + 1, place.error - short + long⟩
  else ⟨place.short, place.error - short⟩

/-- The place after a number of steps along the long axis. -/
def walk (long short : Nat) : Nat → Place
  | 0 => ⟨0, (long : Int) - short⟩
  | k + 1 => (walk long short k).next long short

variable {long short : Nat}

theorem walk_error (k : Nat) :
    (walk long short k).error = ((walk long short k).short + 1) * long - (k + 1) * short := by
  induction k with
  | zero => simp [walk]
  | succ k ih =>
    simp only [walk, Place.next]
    split
    · push_cast
      linarith
    · push_cast
      linarith

/-- The error stays in the window. -/
theorem walk_window (slope : short ≤ long) (positive : 0 < long) (k : Nat) :
    (long : Int) - 2 * short < 2 * (walk long short k).error ∧
      2 * (walk long short k).error ≤ 3 * long - 2 * short := by
  induction k with
  | zero =>
    simp only [walk]
    omega
  | succ k ih =>
    simp only [walk, Place.next]
    split <;> simp only <;> omega

/-- After all the steps along the long axis, all those along the short axis have been made. -/
theorem walk_long (slope : short ≤ long) (positive : 0 < long) : (walk long short long).short = short := by
  obtain ⟨above, below⟩ := walk_window slope positive long
  rw [walk_error] at above below
  have wide : (0 : Int) < long := by exact_mod_cast positive
  have least : (0 : Int) < 2 * ((walk long short long).short + 1 - short) := by
    by_contra no
    nlinarith
  have most : 2 * ((walk long short long).short + 1 - short : Int) ≤ 3 := by
    by_contra no
    nlinarith
  omega

theorem walk_short_mono {k m : Nat} (before : k ≤ m) : (walk long short k).short ≤ (walk long short m).short := by
  induction before with
  | refl => exact Nat.le_refl _
  | step _ ih =>
    apply Nat.le_trans ih
    simp only [walk, Place.next]
    split <;> simp

theorem walk_short_le (slope : short ≤ long) (positive : 0 < long) {k : Nat} (before : k ≤ long) :
    (walk long short k).short ≤ short := by
  have last := @walk_short_mono long short _ _ before
  rwa [walk_long slope positive] at last

/-! ## The errors of the walk -/

theorem gcd_dvd_error (k : Nat) : (Nat.gcd long short : Int) ∣ (walk long short k).error := by
  rw [walk_error]
  apply Int.dvd_sub
  · exact dvd_mul_of_dvd_right (Int.natCast_dvd_natCast.mpr (Nat.gcd_dvd_left _ _)) _
  · exact dvd_mul_of_dvd_right (Int.natCast_dvd_natCast.mpr (Nat.gcd_dvd_right _ _)) _

/-- Every multiple of the greatest common divisor in the window is the error somewhere. -/
theorem exists_error (slope : short ≤ long) (positive : 0 < long) {value : Int}
    (multiple : (Nat.gcd long short : Int) ∣ value) (above : (long : Int) - 2 * short < 2 * value)
    (below : 2 * value ≤ 3 * long - 2 * short) : ∃ k < long, (walk long short k).error = value := by
  obtain ⟨factor, rfl⟩ := multiple
  -- the step before which the multiples of `short` add up to the value, up to multiples of `long`
  let step : Int := -(Nat.gcdB long short * factor) - 1
  have nonneg : 0 ≤ step % long := Int.emod_nonneg _ (by omega)
  have inside : step % long < long := Int.emod_lt_of_pos _ (by exact_mod_cast positive)
  refine ⟨(step % long).toNat, by omega, ?_⟩
  obtain ⟨above', below'⟩ := walk_window slope positive (step % long).toNat
  have multiple : (long : Int) ∣ (walk long short (step % long).toNat).error - Nat.gcd long short * factor := by
    rw [walk_error, Int.toNat_of_nonneg nonneg, Nat.gcd_eq_gcd_ab]
    generalize ((walk long short (step % long).toNat).short : Int) = minor
    rw [Int.emod_def]
    refine ⟨minor + 1 + step / long * short - Nat.gcdA long short * factor, ?_⟩
    simp only [step]
    ring
  -- two numbers of the window that differ by a multiple of its width are the same
  have near := Int.eq_zero_of_abs_lt_dvd multiple (abs_lt.mpr ⟨by omega, by omega⟩)
  omega

/-- The greatest error. -/
def peak (long short : Nat) : Nat := Nat.gcd long short * ((3 * long - 2 * short) / (2 * Nat.gcd long short))

theorem error_le_peak (slope : short ≤ long) (positive : 0 < long) (k : Nat) :
    (walk long short k).error ≤ peak long short := by
  obtain ⟨factor, equal⟩ := @gcd_dvd_error long short k
  obtain ⟨-, below⟩ := walk_window slope positive k
  have common : (0 : Int) < Nat.gcd long short := by exact_mod_cast Nat.gcd_pos_of_pos_left short positive
  have few : factor ≤ (3 * long - 2 * short : Nat) / (2 * Nat.gcd long short : Nat) := by
    apply Int.le_ediv_of_mul_le
    · omega
    · rw [equal] at below
      push_cast [Nat.cast_sub (show 2 * short ≤ 3 * long by omega)]
      linarith
  rw [equal, peak]
  push_cast
  exact Int.mul_le_mul_of_nonneg_left few common.le

/-- The greatest error is one of those on the way. -/
theorem exists_peak (slope : short ≤ long) (positive : 0 < long) : ∃ k < long, (walk long short k).error = peak long short := by
  have common : 0 < Nat.gcd long short := Nat.gcd_pos_of_pos_left short positive
  have small : Nat.gcd long short ≤ long := Nat.gcd_le_left short positive
  have rounded := Nat.div_add_mod (3 * long - 2 * short) (2 * Nat.gcd long short)
  have rest := Nat.mod_lt (3 * long - 2 * short) (show 0 < 2 * Nat.gcd long short by omega)
  have double : 2 * peak long short = 2 * Nat.gcd long short * ((3 * long - 2 * short) / (2 * Nat.gcd long short)) := by
    rw [peak, ← Nat.mul_assoc]
  apply exists_error slope positive
  · exact Int.natCast_dvd_natCast.mpr (Nat.dvd_mul_right _ _)
  · omega
  · omega

/-- The errors stay below a bound exactly if the greatest one does. -/
theorem forall_error_le_iff (slope : short ≤ long) (positive : 0 < long) {bound : Nat} :
    (∀ k < long, (walk long short k).error ≤ bound) ↔ peak long short ≤ bound := by
  constructor
  · intro all
    obtain ⟨k, before, equal⟩ := exists_peak slope positive
    have reached := all k before
    rw [equal] at reached
    exact_mod_cast reached
  · intro enough k _
    have below := error_le_peak slope positive k
    omega

end QmkFirmware.LineWalk
