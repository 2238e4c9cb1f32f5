import Mathlib.Data.Fintype.Pi
import QmkFirmware.Foundations.ShiftRegister

/-! # The matrix scan with a shift register

`matrix_scan_custom` of the Keychron keyboards drives one column low after the other and reads the rows.  Some
columns hang on pins, the others on the outputs of a chain of 74HC595: a zero that is shifted in at the first of
them walks along the chain.  A key connects its row to its column; diodes keep the current from flowing back.
-/

namespace QmkFirmware.Matrix

open QmkFirmware.ShiftRegister

/-- The configuration of a keyboard. -/
structure Config where
  rows : Nat
  cols : Nat
  /-- the bits of `matrix_row_t` -/
  width : Nat
  cols_le_width : cols ≤ width
  hc595Start : Nat
  hc595End : Nat
  hc595Offset : Nat
  unselectDriveHigh : Bool
  /-- `none` stands for `NO_PIN` -/
  rowPins : Nat → Option Nat
  rowPins_distinct : ∀ row < rows, ∀ other < rows, rowPins row ≠ none → rowPins row = rowPins other → row = other
  colPins : Nat → Nat
  colPins_distinct : ∀ col < cols, ∀ other < cols, (col < hc595Start ∨ hc595End < col) →
    (other < hc595Start ∨ hc595End < other) → colPins col = colPins other → col = other

inductive PinState where
  | inputHigh
  | outputLow
  | outputHigh
  deriving DecidableEq

/-- The column pins and the chain. -/
structure Board where
  pins : Nat → PinState
  chain : Chain

/-- The keys that are down; none sits in a row without a pin. -/
structure Keys (cfg : Config) where
  down : Nat → Nat → Bool
  wired : ∀ row col, down row col = true → cfg.rowPins row ≠ none

abbrev Rows (cfg : Config) := Fin cfg.rows → BitVec cfg.width

variable (cfg : Config)

/-- The column hangs on a pin. -/
def IsDirect (col : Nat) : Prop := col < cfg.hc595Start ∨ cfg.hc595End < col

instance (col : Nat) : Decidable (IsDirect cfg col) := inferInstanceAs (Decidable (_ ∨ _))

/-! ## Columns -/

def Board.setPin (s : Board) (pin : Nat) (state : PinState) : Board :=
  { s with pins := fun other => if other = pin then state else s.pins other }

/-- Shifts in the bits of the data, or only the first, and shows them at the outputs. -/
def hc595Output (data : Nat) (bitFlag : Bool) (s : Board) : Board :=
  let n := if bitFlag then min 1 (cfg.hc595End + 1 - cfg.hc595Start) else cfg.hc595End + 1 - cfg.hc595Start
  { s with chain := ((List.range n).foldl (fun chain i => chain.shiftIn (data.testBit i)) s.chain).pulseLatch }

def selectCol (col : Nat) (s : Board) : Board :=
  if IsDirect cfg col then s.setPin (cfg.colPins col) .outputLow
  else if col = cfg.hc595Start then
    let s := hc595Output cfg 0x00 true s
    if col < cfg.hc595Offset then hc595Output cfg 0x01 true s else s
  else s

def unselectCol (col : Nat) (s : Board) : Board :=
  if IsDirect cfg col then s.setPin (cfg.colPins col) (if cfg.unselectDriveHigh then .outputHigh else .inputHigh)
  else hc595Output cfg 0x01 true s

/-- Before the zero one more bit is shifted in, where the first output of the chain is not used. -/
def skipped : Nat := if cfg.hc595Start < cfg.hc595Offset then 1 else 0

/-- The output that a column of the chain is wired to. -/
def output (col : Nat) : Nat := skipped cfg + (col - cfg.hc595Start)

/-- The column is driven low. -/
def colLow (s : Board) (col : Nat) : Bool :=
  if IsDirect cfg col then s.pins (cfg.colPins col) = .outputLow else !s.chain.outputs (output cfg col)

/-! ## Rows -/

/-- The level of a row pin, which is pulled up: low if a key connects it to a column that is low. -/
def readPin (keys : Keys cfg) (s : Board) (pin : Nat) : Bool :=
  !(List.range cfg.rows).any fun row =>
    cfg.rowPins row = some pin ∧ (List.range cfg.cols).any fun col => keys.down row col && colLow cfg s col

def readMatrixPin (keys : Keys cfg) (s : Board) : Option Nat → Bool
  | some pin => readPin cfg keys s pin
  | none => true

/-- The rows with the bit of the selected column. -/
def readRows (keys : Keys cfg) (s : Board) (rowShifter : BitVec cfg.width) (current : Rows cfg) : Rows cfg :=
  fun row => if readMatrixPin cfg keys s (cfg.rowPins row) = false then current row ||| rowShifter
    else current row &&& ~~~rowShifter

/-- The variables of the loop over the columns. -/
structure Scan where
  board : Board
  currMatrix : Rows cfg
  rowShifter : BitVec cfg.width

def matrixReadRowsOnCol (keys : Keys cfg) (scan : Scan cfg) (col : Nat) : Scan cfg :=
  let selected := selectCol cfg col scan.board
  { scan with
    board := unselectCol cfg col selected
    currMatrix := readRows cfg keys selected scan.rowShifter scan.currMatrix }

def nextCol (scan : Scan cfg) : Scan cfg := { scan with rowShifter := scan.rowShifter <<< 1 }

/-- The scan after the columns below `cols`. -/
def scanCols (keys : Keys cfg) (s : Board) (cols : Nat) : Scan cfg :=
  (List.range cols).foldl (fun scan col => nextCol cfg (matrixReadRowsOnCol cfg keys scan col))
    ⟨s, fun _ => BitVec.ofNat cfg.width 0, BitVec.ofNat cfg.width 1⟩

structure Result where
  board : Board
  matrix : Rows cfg
  changed : Bool

def matrixScanCustom (keys : Keys cfg) (s : Board) (currentMatrix : Rows cfg) : Result cfg :=
  let scan := scanCols cfg keys s cfg.cols
  let changed := decide (currentMatrix ≠ scan.currMatrix)
  { board := scan.board
    matrix := if changed then scan.currMatrix else currentMatrix
    changed }

/-- The matrix holds exactly the keys that are down. -/
def Reads (keys : Keys cfg) (matrix : Rows cfg) : Prop :=
  ∀ (row : Fin cfg.rows) (col : Nat), (matrix row).getLsbD col = (decide (col < cfg.cols) && keys.down row col)

/-! ## Between two columns -/

/-- The number of stages up to the output of the last column. -/
def depth (col : Nat) : Nat := skipped cfg + (min col (cfg.hc595End + 1) - cfg.hc595Start)

/-- The chain before a column: no zero before the first column of the chain, then the zero at the output of the
column, or behind the last one. -/
def walking (col : Nat) : Nat → Bool := if col ≤ cfg.hc595Start then allOnes else zeroAt (depth cfg col)

/-- Some column hangs on the chain. -/
def HasChain : Prop := cfg.hc595Start ≤ cfg.hc595End ∧ cfg.hc595Start < cfg.cols

/-- The board before a column: no column pin is low, and the zero is where it should be. -/
structure Waiting (col : Nat) (s : Board) : Prop where
  pins : ∀ other < cfg.cols, IsDirect cfg other → s.pins (cfg.colPins other) ≠ .outputLow
  chain : HasChain cfg → s.chain.Shows (depth cfg cfg.cols) (walking cfg col)

/-- What the columns below `col` leave behind, whatever was there before: their pins are not low, and the ones
shifted in behind the zero fill the chain. -/
structure Released (col : Nat) (s : Board) : Prop where
  pins : ∀ other < col, IsDirect cfg other → s.pins (cfg.colPins other) ≠ .outputLow
  chain : HasChain cfg → cfg.hc595Start < col → s.chain.Shows (depth cfg col) allOnes

/-- Only one column is low. -/
def Selected (col : Nat) (s : Board) : Prop := ∀ other < cfg.cols, colLow cfg s other = decide (other = col)

variable {cfg} {col : Nat} {s : Board}

theorem hasChain_of_not_direct (below : col < cfg.cols) (chained : ¬IsDirect cfg col) : HasChain cfg := by
  unfold IsDirect at chained
  exact ⟨by omega, by omega⟩

theorem output_lt_depth (below : col < cfg.cols) (chained : ¬IsDirect cfg col) : output cfg col < depth cfg cfg.cols := by
  unfold IsDirect at chained
  unfold output depth
  omega

theorem hc595Output_bit (chained : ¬IsDirect cfg col) (data : Nat) :
    hc595Output cfg data true s = { s with chain := (s.chain.shiftIn (data.testBit 0)).pulseLatch } := by
  unfold IsDirect at chained
  have one : min 1 (cfg.hc595End + 1 - cfg.hc595Start) = 1 := by omega
  rw [hc595Output, if_pos rfl, one]
  rfl

/-- Outside the chain the zero does not move. -/
theorem walking_direct (chain : HasChain cfg) (direct : IsDirect cfg col) : walking cfg (col + 1) = walking cfg col := by
  have order := chain.1
  unfold walking depth
  cases direct with
  | inl before => rw [if_pos (by omega), if_pos (by omega)]
  | inr after =>
    rw [if_neg (by omega), if_neg (by omega),
      show min (col + 1) (cfg.hc595End + 1) = min col (cfg.hc595End + 1) by omega]

theorem walking_chained (chained : ¬IsDirect cfg col) : walking cfg (col + 1) = zeroAt (output cfg col + 1) := by
  unfold IsDirect at chained
  have place : depth cfg (col + 1) = output cfg col + 1 := by
    unfold depth output
    omega
  rw [walking, if_neg (by omega), place]

/-- In the chain the zero is at the output of a column while it is selected. -/
theorem select_chained (waiting : Waiting cfg col s) (below : col < cfg.cols) (chained : ¬IsDirect cfg col) :
    (selectCol cfg col s).pins = s.pins ∧
      (selectCol cfg col s).chain.Shows (depth cfg cfg.cols) (zeroAt (output cfg col)) := by
  have shows := waiting.chain (hasChain_of_not_direct below chained)
  rw [selectCol, if_neg chained]
  by_cases first : col = cfg.hc595Start
  · rw [walking, if_pos (Nat.le_of_eq first)] at shows
    have zero := shows.push false
    rw [pushed_false_allOnes] at zero
    rw [if_pos first, hc595Output_bit chained]
    dsimp only
    by_cases skips : col < cfg.hc595Offset
    · have place : output cfg col = 1 := by
        rw [output, skipped, if_pos (first ▸ skips)]
        omega
      rw [if_pos skips, hc595Output_bit chained, place]
      have one := zero.push true
      rw [pushed_zeroAt] at one
      exact ⟨rfl, one.congr (by omega) fun _ _ => rfl⟩
    · have place : output cfg col = 0 := by
        rw [output, skipped, if_neg (first ▸ skips)]
        omega
      rw [if_neg skips, place]
      exact ⟨rfl, zero.congr (by omega) fun _ _ => rfl⟩
  · rw [if_neg first]
    refine ⟨rfl, shows.congr (Nat.le_refl _) fun k _ => ?_⟩
    unfold IsDirect at chained
    have place : depth cfg col = output cfg col := by
      unfold depth output
      omega
    rw [walking, if_neg (by omega), place]

theorem select_direct (direct : IsDirect cfg col) : selectCol cfg col s = s.setPin (cfg.colPins col) .outputLow := by
  rw [selectCol, if_pos direct]

@[simp] theorem setPin_same (s : Board) (pin : Nat) (state : PinState) : (s.setPin pin state).pins pin = state :=
  if_pos rfl

theorem setPin_other (s : Board) {pin other : Nat} (state : PinState) (different : other ≠ pin) :
    (s.setPin pin state).pins other = s.pins other := if_neg different

/-- While a column waits for its turn, none is low. -/
theorem Waiting.colLow_chained (waiting : Waiting cfg col s) (direct : IsDirect cfg col) {other : Nat}
    (below : other < cfg.cols) (chained : ¬IsDirect cfg other) : s.chain.outputs (output cfg other) = true := by
  have chain := hasChain_of_not_direct below chained
  rw [(waiting.chain chain).outputs _ (output_lt_depth below chained), walking]
  unfold IsDirect at direct chained
  cases direct with
  | inl before =>
    rw [if_pos (Nat.le_of_lt before)]
    rfl
  | inr after =>
    rw [if_neg (by omega)]
    apply zeroAt_of_lt
    unfold output depth
    omega

theorem select_selected (waiting : Waiting cfg col s) (below : col < cfg.cols) :
    Selected cfg col (selectCol cfg col s) := by
  intro other otherBelow
  by_cases direct : IsDirect cfg col
  · rw [select_direct direct, colLow]
    by_cases otherDirect : IsDirect cfg other
    · rw [if_pos otherDirect]
      by_cases same : other = col
      · simp [same]
      · have pin : cfg.colPins other ≠ cfg.colPins col := fun equal =>
          same (cfg.colPins_distinct other otherBelow col below otherDirect direct equal)
        simp [setPin_other s _ pin, waiting.pins other otherBelow otherDirect, same]
    · have different : other ≠ col := fun same => otherDirect (same ▸ direct)
      rw [if_neg otherDirect]
      simp [Board.setPin, waiting.colLow_chained direct otherBelow otherDirect, different]
  · obtain ⟨pins, shows⟩ := select_chained waiting below direct
    rw [colLow]
    by_cases otherDirect : IsDirect cfg other
    · have different : other ≠ col := fun same => direct (same ▸ otherDirect)
      rw [if_pos otherDirect, pins]
      simp [waiting.pins other otherBelow otherDirect, different]
    · rw [if_neg otherDirect, shows.outputs _ (output_lt_depth otherBelow otherDirect)]
      have place : output cfg other = output cfg col ↔ other = col := by
        unfold IsDirect at direct otherDirect
        unfold output
        omega
      simp [zeroAt, place]

theorem unselect_waiting (waiting : Waiting cfg col s) (below : col < cfg.cols) :
    Waiting cfg (col + 1) (unselectCol cfg col (selectCol cfg col s)) := by
  rw [unselectCol]
  by_cases direct : IsDirect cfg col
  · rw [if_pos direct, select_direct direct]
    refine ⟨?_, ?_⟩
    · intro other otherBelow otherDirect
      by_cases same : cfg.colPins other = cfg.colPins col
      · rw [same, setPin_same]
        split <;> decide
      · rw [setPin_other _ _ same, setPin_other _ _ same]
        exact waiting.pins other otherBelow otherDirect
    · intro chain
      rw [walking_direct chain direct]
      exact waiting.chain chain
  · obtain ⟨pins, shows⟩ := select_chained waiting below direct
    rw [if_neg direct, hc595Output_bit direct]
    refine ⟨?_, ?_⟩
    · intro other otherBelow otherDirect
      dsimp only
      rw [pins]
      exact waiting.pins other otherBelow otherDirect
    · intro chain
      have next := shows.push true
      rw [pushed_zeroAt, ← walking_chained direct] at next
      exact next.congr (Nat.le_succ _) fun _ _ => rfl

/-! ## Reading -/

/-- A row is read low exactly when the key in the selected column is down. -/
theorem Selected.read (selected : Selected cfg col s) (below : col < cfg.cols) (keys : Keys cfg) {row : Nat}
    (rowBelow : row < cfg.rows) : readMatrixPin cfg keys s (cfg.rowPins row) = !keys.down row col := by
  cases pin : cfg.rowPins row with
  | none =>
    cases down : keys.down row col with
    | false => rfl
    | true => exact absurd pin (keys.wired row col down)
  | some pin' =>
    rw [readMatrixPin, readPin, Bool.not_inj_iff, Bool.eq_iff_iff, List.any_eq_true]
    constructor
    · rintro ⟨other, member, connects⟩
      obtain ⟨samePin, connected⟩ := of_decide_eq_true connects
      obtain ⟨there, thereMember, low⟩ := List.any_eq_true.mp connected
      rw [Bool.and_eq_true, selected there (List.mem_range.mp thereMember), decide_eq_true_iff] at low
      have same : row = other := cfg.rowPins_distinct row rowBelow other (List.mem_range.mp member)
        (by rw [pin]; exact Option.some_ne_none _) (by rw [pin, samePin])
      rw [same, ← low.2]
      exact low.1
    · intro down
      refine ⟨row, List.mem_range.mpr rowBelow, decide_eq_true ⟨pin, List.any_eq_true.mpr ⟨col, List.mem_range.mpr below, ?_⟩⟩⟩
      rw [selected col below, down]
      simp

/-- The scan before a column. -/
structure Scanning (keys : Keys cfg) (col : Nat) (scan : Scan cfg) : Prop where
  waiting : Waiting cfg col scan.board
  rowShifter : scan.rowShifter = BitVec.ofNat cfg.width 1 <<< col
  matrix : ∀ (row : Fin cfg.rows) (k : Nat), (scan.currMatrix row).getLsbD k = (decide (k < col) && keys.down row k)

theorem Scanning.step {keys : Keys cfg} {scan : Scan cfg} (scanning : Scanning keys col scan) (below : col < cfg.cols) :
    Scanning keys (col + 1) (nextCol cfg (matrixReadRowsOnCol cfg keys scan col)) := by
  have selected := select_selected scanning.waiting below
  refine ⟨unselect_waiting scanning.waiting below, ?_, ?_⟩
  · simp only [nextCol, matrixReadRowsOnCol]
    rw [scanning.rowShifter, BitVec.shiftLeft_add]
  · intro row k
    have inside := Nat.lt_of_lt_of_le below cfg.cols_le_width
    have shifter : (BitVec.ofNat cfg.width 1 <<< col).getLsbD k = decide (k = col) := by
      rw [BitVec.getLsbD_shiftLeft, BitVec.getLsbD_one]
      by_cases same : k = col
      · subst same
        simp [inside]
        omega
      · simp [same]
        omega
    simp only [nextCol, matrixReadRowsOnCol, readRows]
    rw [selected.read below keys row.isLt]
    cases down : keys.down row col with
    | true =>
      simp only [Bool.not_true, if_true, BitVec.getLsbD_or]
      rw [scanning.rowShifter, shifter, scanning.matrix]
      by_cases same : k = col
      · simp [same, down]
      · have earlier : k < col + 1 ↔ k < col := by omega
        simp [same, earlier]
    | false =>
      simp only [Bool.not_false, Bool.true_eq_false, if_false, BitVec.getLsbD_and, BitVec.getLsbD_not]
      rw [scanning.rowShifter, shifter, scanning.matrix]
      by_cases same : k = col
      · simp [same, down]
      · have earlier : k < col + 1 ↔ k < col := by omega
        by_cases before : k < col
        · have within : k < cfg.width := by omega
          simp [same, earlier, within]
        · simp [earlier, before]

theorem scanCols_succ (keys : Keys cfg) (s : Board) (cols : Nat) :
    scanCols cfg keys s (cols + 1) = nextCol cfg (matrixReadRowsOnCol cfg keys (scanCols cfg keys s cols) cols) := by
  rw [scanCols, List.range_succ, List.foldl_append]
  rfl

theorem scanning_cols (waiting : Waiting cfg 0 s) (keys : Keys cfg) :
    ∀ cols ≤ cfg.cols, Scanning keys cols (scanCols cfg keys s cols) := by
  intro cols within
  induction cols with
  | zero => exact ⟨waiting, by simp [scanCols], fun row k => by simp [scanCols]⟩
  | succ cols ih =>
    rw [scanCols_succ]
    exact (ih (Nat.le_of_succ_le within)).step within

/-! ## After a scan -/

theorem select_filled (released : Released cfg col s) (below : col < cfg.cols) (chained : ¬IsDirect cfg col) :
    (selectCol cfg col s).pins = s.pins ∧ (selectCol cfg col s).chain.Shows (output cfg col) allOnes := by
  rw [selectCol, if_neg chained]
  by_cases first : col = cfg.hc595Start
  · rw [if_pos first, hc595Output_bit chained]
    dsimp only
    have start := Chain.shows_zero (Nat.testBit 0 0) allOnes s.chain
    by_cases skips : col < cfg.hc595Offset
    · have place : output cfg col = 1 := by
        rw [output, skipped, if_pos (first ▸ skips)]
        omega
      rw [if_pos skips, hc595Output_bit chained, place]
      have one := start.push true
      rw [pushed_allOnes] at one
      exact ⟨rfl, one⟩
    · have place : output cfg col = 0 := by
        rw [output, skipped, if_neg (first ▸ skips)]
        omega
      rw [if_neg skips, place]
      exact ⟨rfl, start⟩
  · rw [if_neg first]
    have chain := hasChain_of_not_direct below chained
    unfold IsDirect at chained
    have place : depth cfg col = output cfg col := by
      unfold depth output
      omega
    exact ⟨rfl, place ▸ released.chain chain (by omega)⟩

theorem unselect_released (released : Released cfg col s) (below : col < cfg.cols) :
    Released cfg (col + 1) (unselectCol cfg col (selectCol cfg col s)) := by
  rw [unselectCol]
  by_cases direct : IsDirect cfg col
  · rw [if_pos direct, select_direct direct]
    refine ⟨?_, ?_⟩
    · intro other otherBelow otherDirect
      by_cases same : cfg.colPins other = cfg.colPins col
      · rw [same, setPin_same]
        split <;> decide
      · have earlier : other < col := Nat.lt_of_le_of_ne (Nat.le_of_lt_succ otherBelow) fun equal => same (by rw [equal])
        rw [setPin_other _ _ same, setPin_other _ _ same]
        exact released.pins other earlier otherDirect
    · intro chain started
      have order := chain.1
      unfold IsDirect at direct
      have place : depth cfg (col + 1) = depth cfg col := by
        unfold depth
        omega
      rw [place]
      exact released.chain chain (by omega)
  · obtain ⟨pins, shows⟩ := select_filled released below direct
    rw [if_neg direct, hc595Output_bit direct]
    refine ⟨?_, ?_⟩
    · intro other otherBelow otherDirect
      have different : other ≠ col := fun same => direct (same ▸ otherDirect)
      dsimp only
      rw [pins]
      exact released.pins other (by omega) otherDirect
    · intro chain started
      have next := shows.push true
      rw [pushed_allOnes] at next
      unfold IsDirect at direct
      have place : depth cfg (col + 1) = output cfg col + 1 := by
        unfold depth output
        omega
      rw [place]
      exact next

theorem scanCols_released (keys : Keys cfg) (s : Board) :
    ∀ cols ≤ cfg.cols, Released cfg cols (scanCols cfg keys s cols).board := by
  intro cols within
  induction cols with
  | zero => exact ⟨fun other below => absurd below (Nat.not_lt_zero other), fun _ before => absurd before (Nat.not_lt_zero _)⟩
  | succ cols ih =>
    rw [scanCols_succ]
    exact unselect_released (ih (Nat.le_of_succ_le within)) within

theorem Released.waiting (released : Released cfg cfg.cols s) : Waiting cfg 0 s where
  pins := released.pins
  chain chain := by
    rw [walking, if_pos (Nat.zero_le _)]
    exact released.chain chain chain.2

/-- Where a scan ends no column is low. -/
theorem Released.colLow (released : Released cfg cfg.cols s) (below : col < cfg.cols) :
    colLow cfg s col = false := by
  rw [Matrix.colLow]
  by_cases direct : IsDirect cfg col
  · rw [if_pos direct]
    exact decide_eq_false (released.pins col below direct)
  · have chain := hasChain_of_not_direct below direct
    rw [if_neg direct, (released.chain chain chain.2).outputs _ (output_lt_depth below direct)]
    rfl

theorem matrixScanCustom_matrix (keys : Keys cfg) (s : Board) (current : Rows cfg) :
    (matrixScanCustom cfg keys s current).matrix = (scanCols cfg keys s cfg.cols).currMatrix := by
  rw [matrixScanCustom]
  by_cases same : current = (scanCols cfg keys s cfg.cols).currMatrix
  · simp [← same]
  · simp [same]

/-- A scan after an earlier one, from any board, reads exactly the keys that are down, tells whether the matrix
has changed, and leaves no column low. -/
theorem scan_correct (cfg : Config) (earlier keys : Keys cfg) (s : Board) (previous current : Rows cfg) :
    Reads cfg keys (matrixScanCustom cfg keys (matrixScanCustom cfg earlier s previous).board current).matrix ∧
      ((matrixScanCustom cfg keys (matrixScanCustom cfg earlier s previous).board current).changed = true ↔
        (matrixScanCustom cfg keys (matrixScanCustom cfg earlier s previous).board current).matrix ≠ current) ∧
      ∀ col < cfg.cols,
        colLow cfg (matrixScanCustom cfg keys (matrixScanCustom cfg earlier s previous).board current).board col =
          false := by
  have rests : Waiting cfg 0 (matrixScanCustom cfg earlier s previous).board :=
    (scanCols_released earlier s cfg.cols (Nat.le_refl _)).waiting
  generalize (matrixScanCustom cfg earlier s previous).board = rest at rests ⊢
  refine ⟨?_, ?_, ?_⟩
  · rw [matrixScanCustom_matrix]
    exact (scanning_cols rests keys cfg.cols (Nat.le_refl _)).matrix
  · rw [matrixScanCustom_matrix]
    exact decide_eq_true_iff.trans ne_comm
  · intro col below
    exact (scanCols_released keys rest cfg.cols (Nat.le_refl _)).colLow below

/-- Five rows and one without a pin; the first column on a pin, the other sixteen on two 74HC595. -/
def seventeenColumns : Config where
  rows := 6
  cols := 17
  width := 32
  cols_le_width := Nat.le_of_ble_eq_true rfl
  hc595Start := 1
  hc595End := 16
  hc595Offset := 0
  unselectDriveHigh := false
  rowPins row := if row < 5 then some row else none
  rowPins_distinct row _ other _ pinned same := by
    split_ifs at pinned same with below otherBelow
    · exact Option.some.inj same
    · exact absurd rfl pinned
  colPins _ := 5
  colPins_distinct col below other otherBelow direct otherDirect _ := by omega

/-- A key on the pin, and one on the last output of the chain. -/
def twoCorners : Keys seventeenColumns where
  down row col := decide (row = 0 ∧ col = 0 ∨ row = 4 ∧ col = 16)
  wired row col isDown := by
    rcases of_decide_eq_true isDown with ⟨rfl, -⟩ | ⟨rfl, -⟩
    · exact Option.some_ne_none 0
    · exact Option.some_ne_none 4

theorem twoCorners_read :
    let board : Board := ⟨fun _ => .inputHigh, ⟨false, false, false, fun _ => false, fun _ => false⟩⟩
    let first := matrixScanCustom seventeenColumns twoCorners board fun _ => 0
    Reads seventeenColumns twoCorners (matrixScanCustom seventeenColumns twoCorners first.board fun _ => 0).matrix :=
  (scan_correct seventeenColumns twoCorners twoCorners _ _ _).1

end QmkFirmware.Matrix
