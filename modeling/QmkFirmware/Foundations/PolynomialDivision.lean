import Mathlib.Algebra.Polynomial.OfFn
import Mathlib.Algebra.Polynomial.Div
import Mathlib.Algebra.Polynomial.Degree.IsMonicOfDegree
import Mathlib.Algebra.CharP.Two
import Mathlib.RingTheory.AdjoinRoot
import Mathlib.Data.ZMod.Basic
import Mathlib.Tactic

/-! # Division by a shift register

A register of `w` bits is a polynomial over the field of two elements.  Shifting it and subtracting the
generator when a bit falls out divides by `X ^ w + generator`, and two such registers agree exactly
when the remainder modulo a common multiple is small. -/

namespace QmkFirmware.PolynomialDivision

open Polynomial

variable {w : Nat}

/-! ## The register -/

/-- One step of a division, with the leading `1` of the divisor left out. -/
def advance (generator register : BitVec w) : BitVec w :=
  if register.msb then (register <<< 1) ^^^ generator else register <<< 1

def absorb (generator register : BitVec w) (byte : BitVec 8) : BitVec w :=
  (advance generator)^[8] (register ^^^ byte.setWidth w)

def remainder (generator start : BitVec w) (data : List (BitVec 8)) : BitVec w :=
  data.foldl (absorb generator) start

/-! ## Registers as polynomials -/

noncomputable def poly (bits : BitVec w) : (ZMod 2)[X] :=
  ofFn w fun i => if bits.getLsbD i then 1 else 0

noncomputable def divisor (generator : BitVec w) : (ZMod 2)[X] :=
  X ^ w + poly generator

/-- The bytes behind a start value, each followed by the next, with eight zero bits at the end. -/
noncomputable def message (start : (ZMod 2)[X]) (data : List (BitVec 8)) : (ZMod 2)[X] :=
  data.foldl (fun front byte => (front + poly byte) * X ^ 8) start

@[simp] theorem coeff_poly (bits : BitVec w) (i : Nat) :
    (poly bits).coeff i = if bits.getLsbD i then 1 else 0 := by
  by_cases inside : i < w
  · rw [poly, ofFn_coeff_eq_val_of_lt _ inside]
  · rw [poly, ofFn_coeff_eq_zero_of_ge _ (not_lt.mp inside), BitVec.getLsbD_of_ge _ _ (not_lt.mp inside)]
    rfl

theorem poly_eq_sum (bits : BitVec w) : poly bits = ∑ i : Fin w, if bits.getLsbD i then X ^ (i : Nat) else 0 := by
  rw [poly, ofFn_eq_sum_monomial]
  refine Finset.sum_congr rfl fun i _ => ?_
  cases bits.getLsbD i <;> simp [X_pow_eq_monomial]

theorem degree_poly_lt (bits : BitVec w) : (poly bits).degree < w :=
  ofFn_degree_lt _

theorem poly_injective : Function.Injective (poly (w := w)) := by
  intro first second same
  apply BitVec.eq_of_getLsbD_eq
  intro i _
  have bit := congrArg (·.coeff i) same
  simp only [coeff_poly] at bit
  cases one : first.getLsbD i <;> cases other : second.getLsbD i <;> simp_all

@[simp] theorem poly_xor (first second : BitVec w) : poly (first ^^^ second) = poly first + poly second := by
  ext i
  rw [coeff_add, coeff_poly, coeff_poly, coeff_poly, BitVec.getLsbD_xor]
  cases first.getLsbD i <;> cases second.getLsbD i <;> decide

theorem poly_setWidth {v : Nat} (wide : w ≤ v) (bits : BitVec w) : poly (bits.setWidth v) = poly bits := by
  ext i
  rw [coeff_poly, coeff_poly, BitVec.getLsbD_setWidth]
  by_cases inside : i < v
  · simp [inside]
  · simp [inside, BitVec.getLsbD_of_ge bits i (wide.trans (not_lt.mp inside))]

theorem poly_shift (bits : BitVec w) :
    X * poly bits = poly (bits <<< 1) + if bits.msb then X ^ w else 0 := by
  ext i
  have top : (if bits.msb then (X : (ZMod 2)[X]) ^ w else 0).coeff i
      = if i = w ∧ bits.getLsbD (w - 1) then 1 else 0 := by
    rw [BitVec.msb_eq_getLsbD_last]
    cases bits.getLsbD (w - 1) <;> simp [coeff_X_pow]
  rw [coeff_add, coeff_poly, top, BitVec.getLsbD_shiftLeft]
  cases i with
  | zero =>
    have outside : ¬ (0 = w ∧ bits.getLsbD (w - 1)) := by
      rintro ⟨rfl, set⟩
      simp at set
    simp [outside]
  | succ i =>
    rw [coeff_X_mul, coeff_poly]
    rcases lt_trichotomy (i + 1) w with inside | rfl | outside
    · simp [inside, inside.ne]
    · simp
    · simp [outside.not_gt, outside.ne', BitVec.getLsbD_of_ge bits i (by omega)]

theorem divisor_monic (generator : BitVec w) : (divisor generator).Monic :=
  monic_X_pow_add (degree_poly_lt generator)

theorem degree_divisor (generator : BitVec w) : (divisor generator).degree = w := by
  rw [divisor, degree_add_eq_left_of_degree_lt, degree_X_pow]
  rw [degree_X_pow]
  exact degree_poly_lt generator

/-! ## The register holds the remainder -/

section Divide

variable (generator : BitVec w)

theorem mk_advance (register : BitVec w) :
    AdjoinRoot.mk (divisor generator) (poly (advance generator register))
      = AdjoinRoot.mk (divisor generator) (X * poly register) := by
  rw [poly_shift, advance]
  cases register.msb with
  | false => simp
  | true =>
    apply AdjoinRoot.mk_eq_mk.mpr
    rw [if_pos rfl, if_pos rfl, poly_xor, add_sub_add_left_eq_sub, CharTwo.sub_eq_add, add_comm]
    exact dvd_rfl

theorem mk_iterate (count : Nat) (register : BitVec w) :
    AdjoinRoot.mk (divisor generator) (poly ((advance generator)^[count] register))
      = AdjoinRoot.mk (divisor generator) (poly register * X ^ count) := by
  induction count with
  | zero => simp
  | succ count ih =>
    rw [Function.iterate_succ_apply', mk_advance, map_mul, ih, ← map_mul]
    congr 1
    ring

theorem mk_remainder (wide : 8 ≤ w) (start : BitVec w) (data : List (BitVec 8)) :
    AdjoinRoot.mk (divisor generator) (poly (remainder generator start data))
      = AdjoinRoot.mk (divisor generator) (message (poly start) data) := by
  suffices each : ∀ front, AdjoinRoot.mk (divisor generator) (poly start) = AdjoinRoot.mk (divisor generator) front →
      AdjoinRoot.mk (divisor generator) (poly (remainder generator start data))
        = AdjoinRoot.mk (divisor generator) (message front data) from each _ rfl
  induction data generalizing start with
  | nil => exact fun _ same => same
  | cons byte data ih =>
    intro front same
    apply ih
    rw [absorb, mk_iterate, poly_xor, poly_setWidth wide, map_mul, map_add, same, ← map_add, ← map_mul]

/-- Shifting the data through the register divides it. -/
theorem poly_remainder (wide : 8 ≤ w) (start : BitVec w) (data : List (BitVec 8)) :
    poly (remainder generator start data) = message (poly start) data %ₘ divisor generator := by
  have small : (poly (remainder generator start data)).degree < (divisor generator).degree := by
    rw [degree_divisor]
    exact degree_poly_lt _
  rw [← (modByMonic_eq_self_iff (divisor_monic generator)).mpr small]
  exact modByMonic_eq_of_dvd_sub (divisor_monic generator) (AdjoinRoot.mk_eq_mk.mp (mk_remainder generator wide start data))

end Divide

/-! ## When two remainders agree -/

/-- Two divisors of one degree leave the same remainder exactly where their least common multiple leaves
one that is as short. -/
theorem modByMonic_eq_iff {R : Type} [CommRing R] [Nontrivial R] {first second common : R[X]} (monic : first.Monic)
    (monic' : second.Monic) (monicCommon : common.Monic) (same : first.degree = second.degree)
    (longer : first.degree ≤ common.degree) (least : ∀ p, common ∣ p ↔ first ∣ p ∧ second ∣ p) (p : R[X]) :
    p %ₘ first = p %ₘ second ↔ (p %ₘ common).degree < first.degree := by
  have rest : ∀ {q : R[X]}, q.Monic → q ∣ p - p %ₘ q := by
    intro q _
    exact ⟨p /ₘ q, by rw [sub_eq_iff_eq_add', modByMonic_add_div]⟩
  constructor
  · intro agree
    have divides : common ∣ p - p %ₘ first := (least _).mpr ⟨rest monic, agree ▸ rest monic'⟩
    have short : (p %ₘ first).degree < first.degree := degree_modByMonic_lt p monic
    rw [modByMonic_eq_of_dvd_sub monicCommon divides,
      (modByMonic_eq_self_iff monicCommon).mpr (short.trans_le longer)]
    exact short
  · intro short
    obtain ⟨divides, divides'⟩ := (least _).mp (rest monicCommon)
    rw [modByMonic_eq_of_dvd_sub monic divides, modByMonic_eq_of_dvd_sub monic' divides',
      (modByMonic_eq_self_iff monic).mpr short, (modByMonic_eq_self_iff monic').mpr (same ▸ short)]

/-- A common multiple is the least one when the two cofactors are coprime. -/
theorem common_dvd_iff {R : Type} [CommRing R] {first second common cofirst cosecond : R}
    (one : common = first * cosecond) (other : common = second * cofirst) (coprime : IsCoprime cofirst cosecond) (p : R) :
    common ∣ p ↔ first ∣ p ∧ second ∣ p := by
  constructor
  · intro divides
    exact ⟨(Dvd.intro _ one.symm).trans divides, (Dvd.intro _ other.symm).trans divides⟩
  · rintro ⟨⟨a, left⟩, ⟨b, right⟩⟩
    obtain ⟨u, v, unit⟩ := coprime
    refine ⟨u * b + v * a, ?_⟩
    calc p = (u * cofirst + v * cosecond) * p := by rw [unit, one_mul]
      _ = u * cofirst * (second * b) + v * cosecond * (first * a) := by rw [← left, ← right, add_mul]
      _ = u * b * (second * cofirst) + v * a * (first * cosecond) := by ring
      _ = common * (u * b + v * a) := by
        rw [← one, ← other]
        ring

theorem degree_poly_lt_iff (bits : BitVec w) (n : Nat) : (poly bits).degree < n ↔ bits.toNat < 2 ^ n := by
  rw [degree_lt_iff_coeff_zero]
  constructor
  · intro zero
    apply Nat.lt_pow_two_of_testBit
    intro i high
    have off := zero i high
    rw [coeff_poly] at off
    by_contra set
    rw [Bool.not_eq_false] at set
    rw [if_pos (by exact set)] at off
    exact one_ne_zero off
  · intro small i high
    rw [coeff_poly, if_neg]
    rw [BitVec.getLsbD, Nat.testBit_lt_two_pow (small.trans_le (Nat.pow_le_pow_right two_pos high))]
    exact Bool.false_ne_true

end QmkFirmware.PolynomialDivision
