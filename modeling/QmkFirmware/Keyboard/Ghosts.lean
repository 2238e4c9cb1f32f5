import QmkFirmware.Foundations.Conduction
import QmkFirmware.Keyboard.MatrixTask

/-! # Ghosts

In a matrix without diodes a key can seem to be pressed because three others close a detour around it.  A row that the
firmware does not leave for later shows its keys as they are, if the keymap has a key at every position.
-/

namespace QmkFirmware.Keyboard

open QmkFirmware.Bits QmkFirmware.Conduction QmkFirmware.Switches

variable {cfg : Config}

/-! ## What the check looks at -/

theorem getRealKeys_getLsbD (row : Nat) (rowdata : BitVec cfg.width) (col : Nat) :
    (getRealKeys cfg row rowdata).getLsbD col = true ↔
      (col < cfg.matrixCols ∧ cfg.keycodeAtKeymapLocation 0 row col ≠ 0) ∧ rowdata.getLsbD col = true := by
  have bits (m : Nat) (bound : m ≤ cfg.matrixCols) :
      ((List.range m).foldl
        (fun out col =>
          if cfg.keycodeAtKeymapLocation 0 row col ≠ 0 ∧ rowdata &&& BitVec.ofNat cfg.width 1 <<< col ≠ 0 then
            out ||| BitVec.ofNat cfg.width 1 <<< col
          else out) (BitVec.ofNat cfg.width 0)).getLsbD col = true ↔
        (col < m ∧ cfg.keycodeAtKeymapLocation 0 row col ≠ 0) ∧ rowdata.getLsbD col = true := by
    induction m with
    | zero => simp
    | succ m ih =>
      have fits : m < cfg.width := by
        have := cfg.cols_le_width
        omega
      have earlier := ih (by omega)
      rw [List.range_succ, List.foldl_append, List.foldl_cons, List.foldl_nil]
      split
      · next kept =>
        rw [and_mask_ne_zero] at kept
        rw [BitVec.getLsbD_or, Bool.or_eq_true, earlier, getLsbD_mask, Bool.and_eq_true, decide_eq_true_eq,
          decide_eq_true_eq]
        by_cases last : col = m
        · subst last
          exact iff_of_true (.inr ⟨fits, rfl⟩) ⟨⟨Nat.lt_succ_self col, kept.1⟩, kept.2⟩
        · have below : col < m + 1 ↔ col < m := by omega
          simp only [last, and_false, or_false, below]
      · next skipped =>
        rw [and_mask_ne_zero] at skipped
        rw [earlier]
        by_cases last : col = m
        · subst last
          refine iff_of_false (fun h => Nat.lt_irrefl _ h.1.1) ?_
          exact fun h => skipped ⟨h.1.2, h.2⟩
        · have below : col < m + 1 ↔ col < m := by omega
          rw [below]
  exact bits cfg.matrixCols (Nat.le_refl _)

/-- Two bits that are set are noticed: taking one away from the word leaves the upper one. -/
theorem popcountMoreThanOne_of_pair {width first second : Nat} {rowdata : BitVec width} (order : first < second)
    (lower : rowdata.getLsbD first = true) (upper : rowdata.getLsbD second = true) : popcountMoreThanOne rowdata = true := by
  have fits := BitVec.lt_of_getLsbD upper
  have positive : 0 < rowdata.toNat % 2 ^ second := by
    have below : (rowdata.toNat % 2 ^ second).testBit first = true := by
      rw [Nat.testBit_mod_two_pow, decide_eq_true order, Bool.true_and]
      exact lower
    apply Nat.pos_of_ne_zero
    intro zero
    rw [zero, Nat.zero_testBit] at below
    cases below
  have one : (BitVec.ofNat width 1).toNat = 1 := by
    rw [BitVec.toNat_ofNat, Nat.mod_eq_of_lt (Nat.one_lt_two_pow (by omega))]
  have nonzero : 1 ≤ rowdata.toNat := Nat.lt_of_lt_of_le positive (Nat.mod_le _ _)
  have less : (rowdata - BitVec.ofNat width 1).toNat = rowdata.toNat - 1 := by
    rw [BitVec.toNat_sub_of_le (by rw [BitVec.le_def, one]; exact nonzero), one]
  have same : (rowdata - BitVec.ofNat width 1).getLsbD second = true := by
    show (rowdata - BitVec.ofNat width 1).toNat.testBit second = true
    have top : rowdata.toNat.testBit second = true := upper
    rw [Nat.testBit_eq_decide_div_mod_eq] at top ⊢
    rw [less]
    have split := Nat.div_add_mod rowdata.toNat (2 ^ second)
    have quotient : (rowdata.toNat - 1) / 2 ^ second = rowdata.toNat / 2 ^ second := by
      have small := Nat.mod_lt rowdata.toNat (Nat.two_pow_pos second)
      apply Nat.div_eq_of_lt_le
      · rw [Nat.mul_comm]
        omega
      · rw [Nat.add_mul, Nat.mul_comm]
        omega
    rwa [quotient]
  rw [popcountMoreThanOne, decide_eq_true_eq]
  intro zero
  have bit := congrArg (BitVec.getLsbD · second) zero
  rw [BitVec.getLsbD_and, upper, same] at bit
  simp at bit

theorem popcountMoreThanOne_of_ne {width first second : Nat} {rowdata : BitVec width} (differ : first ≠ second)
    (one : rowdata.getLsbD first = true) (other : rowdata.getLsbD second = true) : popcountMoreThanOne rowdata = true := by
  rcases Nat.lt_or_gt_of_ne differ with order | order
  · exact popcountMoreThanOne_of_pair order one other
  · exact popcountMoreThanOne_of_pair order other one

/-! ## Honest events -/

/-- The switches of the matrix that are closed. -/
def Closed (cfg : Config) (pressed : Nat → Nat → Prop) (row col : Nat) : Prop :=
  row < cfg.matrixRows ∧ col < cfg.matrixCols ∧ pressed row col

/-- The matrix is read without diodes: a row shows every column that it conducts to. -/
def Reads (cfg : Config) (pressed : Nat → Nat → Prop) (matrix : Rows cfg) : Prop :=
  ∀ row < cfg.matrixRows, ∀ col < cfg.matrixCols,
    (matrix row).getLsbD col = true ↔ Conducts (Closed cfg pressed) row col

/-- The keymap has a key at every position. -/
def NoBlanks (cfg : Config) : Prop :=
  ∀ row < cfg.matrixRows, ∀ col < cfg.matrixCols, cfg.keycodeAtKeymapLocation 0 row col ≠ 0

section Honest

variable {pressed : Nat → Nat → Prop} {matrix : Rows cfg} {row col : Nat}

theorem lt_of_conducts (conducts : Conducts (Closed cfg pressed) row col) : col < cfg.matrixCols := by
  cases conducts with
  | direct own => exact own.2.1
  | detour _ _ onward => exact onward.2.1

theorem row_lt_of_conducts (conducts : Conducts (Closed cfg pressed) row col) : row < cfg.matrixRows := by
  induction conducts with
  | direct own => exact own.1
  | detour _ _ _ inside => exact inside

/-- What the row shows is pressed, unless the row is left for later. -/
theorem pressed_of_not_ghost (ghosts : cfg.matrixHasGhost = true) (noBlanks : NoBlanks cfg) (reads : Reads cfg pressed matrix)
    (inside : row < cfg.matrixRows) (colInside : col < cfg.matrixCols)
    (clear : hasGhostInRow cfg matrix row (matrix row) = false) :
    (matrix row).getLsbD col = true ↔ pressed row col := by
  have real {r c : Nat} (rInside : r < cfg.matrixRows) (conducts : Conducts (Closed cfg pressed) r c) :
      (getRealKeys cfg r (matrix r)).getLsbD c = true := by
    have cInside := lt_of_conducts conducts
    exact (getRealKeys_getLsbD r _ c).mpr ⟨⟨cInside, noBlanks r rInside c cInside⟩, (reads r rInside c cInside).mpr conducts⟩
  rw [reads row inside col colInside]
  constructor
  · intro conducts
    refine (closed_of_conducts ?_ conducts).2.2
    rintro other apart ⟨first, second, differ, ownFirst, ownSecond, otherFirst, otherSecond⟩
    have otherInside := row_lt_of_conducts otherFirst
    have many := popcountMoreThanOne_of_ne differ (real inside ownFirst) (real inside ownSecond)
    have shared : popcountMoreThanOne (getRealKeys cfg other (matrix other) &&& getRealKeys cfg row (matrix row)) = true := by
      apply popcountMoreThanOne_of_ne differ
      · rw [BitVec.getLsbD_and, real otherInside otherFirst, real inside ownFirst]
        rfl
      · rw [BitVec.getLsbD_and, real otherInside otherSecond, real inside ownSecond]
        rfl
    have flagged : hasGhostInRow cfg matrix row (matrix row) = true := by
      unfold hasGhostInRow
      rw [if_pos ghosts]
      dsimp only
      rw [if_pos many, List.any_eq_true]
      exact ⟨other, List.mem_range.mpr otherInside, by simp [apart, shared]⟩
    rw [clear] at flagged
    cases flagged
  · exact fun down => .direct ⟨inside, colInside, down⟩

end Honest

/-! ## Runs -/

/-- A pass over a matrix, and the keys that are pressed meanwhile. -/
structure Reading (cfg : Config) where
  pass : Pass cfg
  pressed : Nat → Nat → Prop
  reads : Reads cfg pressed pass.matrix

section Run

variable {readings : List (Reading cfg)} {reading : Reading cfg} {row col : Nat}

def runReadings (readings : List (Reading cfg)) : State cfg := run (readings.map Reading.pass)

/-- Whether a pass takes the row as it reads it. -/
def Reading.Takes (reading : Reading cfg) (row : Nat) : Prop :=
  reading.pass.matrixCanRead = true ∧ hasGhostInRow cfg reading.pass.matrix row (reading.pass.matrix row) = false

/-- In every run over a matrix without diodes, with a key at every position, the calls never make a key go down that is
not pressed, nor up one that is: a row is taken as it really is, or left as it was. -/
theorem ghosts_never_typed (ghosts : cfg.matrixHasGhost = true) (noBlanks : NoBlanks cfg) (readings : List (Reading cfg))
    (reading : Reading cfg) (row : Nat) (inside : row < cfg.matrixRows) :
    (reading.Takes row ∧ ∀ col < cfg.matrixCols,
      (replay (switches (runReadings (readings ++ [reading])).calls) (row, col) = true ↔ reading.pressed row col)) ∨
    ¬reading.Takes row ∧ ∀ col < cfg.matrixCols,
      replay (switches (runReadings (readings ++ [reading])).calls) (row, col) =
        replay (switches (runReadings readings).calls) (row, col) := by
  have follows := matrixTask_follows ((readings ++ [reading]).map Reading.pass)
  have split : (readings ++ [reading]).map Reading.pass = readings.map Reading.pass ++ [reading.pass] := by simp
  have current := follows.current _ _ split row inside
  by_cases taken : reading.Takes row
  · refine .inl ⟨taken, fun col colInside => ?_⟩
    have shown := (current col colInside).trans (if_pos taken)
    rw [runReadings, shown]
    exact pressed_of_not_ghost ghosts noBlanks reading.reads inside colInside taken.2
  · refine .inr ⟨taken, fun col colInside => ?_⟩
    exact (current col colInside).trans (if_neg taken)

end Run

/-- Two rows and two columns without diodes. -/
def square : Config where
  matrixRows := 2
  matrixCols := 2
  width := 8
  cols_le_width := by omega
  matrixHasGhost := true
  keycodeAtKeymapLocation _ _ _ := 4

/-- Three corners are pressed, and all four are read. -/
def threeCorners : Reading square where
  pass :=
    { matrixCanRead := true
      matrix := fun _ => 3
      shouldProcessKeypress := true
      now := 0 }
  pressed row col := row = 0 ∨ col = 0
  reads := by
    intro row rowInside col colInside
    have corner (r c : Nat) (rInside : r < 2) (cInside : c < 2) (pressed : r = 0 ∨ c = 0) :
        Closed square (fun row col => row = 0 ∨ col = 0) r c := ⟨rInside, cInside, pressed⟩
    have bit : (3#8).getLsbD col = true := by
      have small : col = 0 ∨ col = 1 := by
        have : col < 2 := colInside
        omega
      rcases small with rfl | rfl
      · rfl
      · rfl
    refine iff_of_true bit ?_
    apply Conducts.detour (Conducts.direct (corner row 0 rowInside (by omega) (.inr rfl)))
    · exact corner 0 0 (by omega) (by omega) (.inl rfl)
    · exact corner 0 col (by omega) colInside (.inl rfl)

theorem square_noBlanks : NoBlanks square := by
  intro row _ col _
  show (4 : BitVec 16) ≠ 0
  decide

theorem fourth_corner_not_typed :
    replay (switches (runReadings [threeCorners]).calls) (1, 1) = false := by
  have honest := @ghosts_never_typed square rfl square_noBlanks [] threeCorners 1 (by decide)
  rw [List.nil_append] at honest
  rcases honest with ⟨-, taken⟩ | ⟨-, left⟩
  · rw [Bool.eq_false_iff]
    intro typed
    have pressed : (1 : Nat) = 0 ∨ (1 : Nat) = 0 := (taken 1 (by decide)).mp typed
    omega
  · rw [left 1 (by decide)]
    rfl

end QmkFirmware.Keyboard
