import QmkFirmware.Debounce.Key
import QmkFirmware.Debounce.Model
import QmkFirmware.Foundations.Bits

/-! # The eager debouncer as one machine for each key

The loops over the matrix, the flags and the clipped time of the code come to one machine
for each key, as long as changes of the raw matrix are announced.
-/

namespace QmkFirmware.Debounce

open QmkFirmware.Sweep QmkFirmware.Bits

/-! ## Counters of the code -/

section

variable {width : Nat} (board : Board width)

@[simp] theorem setCounter_apply (d : Debouncer) (row col : Nat) (value : UInt8) (r c : Nat) :
    (d.setCounter row col value).debounceCounters r c =
      if r = row ∧ c = col then value else d.debounceCounters r c := rfl

/-- What the time does to one counter. -/
def countDown (elapsedTime counter : UInt8) : UInt8 :=
  if counter ≤ elapsedTime then debounceElapsed else counter - elapsedTime

theorem countDown_toNat (elapsedTime counter : UInt8) :
    (countDown elapsedTime counter).toNat = counter.toNat - elapsedTime.toNat := by
  rw [countDown]
  split
  · next expired =>
    rw [UInt8.le_iff_toNat_le] at expired
    have zero : debounceElapsed.toNat = 0 := rfl
    omega
  · next runs =>
    rw [UInt8.toNat_sub_of_le]
    exact UInt8.le_of_lt (UInt8.not_le.mp runs)

theorem updateCounter_local (elapsedTime : UInt8) (row : Nat) :
    Local (updateCounter elapsedTime row) (fun d col => d.debounceCounters row col)
      (fun _ => countDown elapsedTime) where
  own d col := by
    simp only [updateCounter, countDown]
    split_ifs with runs expired expired
    · simp
    · simp
    · simpa using runs
    · have rest : d.debounceCounters row col = debounceElapsed := not_not.mp runs
      rw [rest] at expired
      exact absurd (UInt8.zero_le) expired
  other d col other apart := by
    simp only [updateCounter]
    split_ifs <;> simp [apart.symm]

theorem updateCounter_otherRow (elapsedTime : UInt8) {row other : Nat} (apart : other ≠ row)
    (cols : List Nat) (d : Debouncer) :
    (cols.foldl (updateCounter elapsedTime row) d).debounceCounters other = d.debounceCounters other := by
  induction cols generalizing d with
  | nil => rfl
  | cons col cols ih =>
    rw [List.foldl_cons, ih]
    funext c
    simp only [updateCounter]
    split_ifs <;> simp [apart]

/-- A row of counters after the inner loop. -/
def countDownRow (elapsedTime : UInt8) (_ : Nat) (counters : Nat → UInt8) (col : Nat) : UInt8 :=
  if col < board.matrixCols then countDown elapsedTime (counters col) else counters col

theorem updateRow_local (elapsedTime : UInt8) :
    Local (fun d row => (List.range board.matrixCols).foldl (updateCounter elapsedTime row) d)
      Debouncer.debounceCounters (countDownRow board elapsedTime) where
  own d row := by
    funext col
    rw [countDownRow]
    split
    · next inside =>
      exact (updateCounter_local elapsedTime row).foldl_of_mem List.nodup_range
        (List.mem_range.mpr inside) d
    · next outside =>
      exact (updateCounter_local elapsedTime row).foldl_of_notMem
        (fun member => outside (List.mem_range.mp member)) d
  other d row other apart := updateCounter_otherRow elapsedTime apart.symm _ d

/-- The keys of the matrix. -/
def Board.Key (row col : Nat) : Prop := row < board.numRows ∧ col < board.matrixCols

theorem updateDebounceCounters_counter {row col : Nat} (key : board.Key row col) (elapsedTime : UInt8)
    (d : Debouncer) : (updateDebounceCounters board elapsedTime d).debounceCounters row col =
      countDown elapsedTime (d.debounceCounters row col) := by
  have swept := (updateRow_local board elapsedTime).foldl_of_mem List.nodup_range
    (List.mem_range.mpr key.1) { d with countersNeedUpdate := false, matrixNeedUpdate := false }
  rw [updateDebounceCounters, swept, countDownRow, if_pos key.2]

theorem updateCounter_expires (elapsedTime : UInt8) (row : Nat) (d : Debouncer) (col : Nat) :
    (updateCounter elapsedTime row d col).matrixNeedUpdate = true ↔
      d.matrixNeedUpdate = true ∨
        d.debounceCounters row col ≠ debounceElapsed ∧ d.debounceCounters row col ≤ elapsedTime := by
  simp only [updateCounter]
  split_ifs <;> simp_all [Debouncer.setCounter]

theorem updateCounter_runs (elapsedTime : UInt8) (row : Nat) (d : Debouncer) (col : Nat) :
    (updateCounter elapsedTime row d col).countersNeedUpdate = true ↔
      d.countersNeedUpdate = true ∨ elapsedTime < d.debounceCounters row col := by
  simp only [updateCounter]
  split_ifs with nonzero expired
  · simp [Debouncer.setCounter, UInt8.not_lt.mpr expired]
  · simp [UInt8.not_le.mp expired]
  · have rest : d.debounceCounters row col = debounceElapsed := not_not.mp nonzero
    simp [rest, debounceElapsed]

/-- A flag that the counters raise one by one is raised if one of them does. -/
theorem updateDebounceCounters_flag (flag : Debouncer → Prop) (raises : UInt8 → Prop)
    (elapsedTime : UInt8)
    (raised : ∀ row d col, flag (updateCounter elapsedTime row d col) ↔
      flag d ∨ raises (d.debounceCounters row col))
    (d : Debouncer) (clear : ¬flag { d with countersNeedUpdate := false, matrixNeedUpdate := false }) :
    flag (updateDebounceCounters board elapsedTime d) ↔
      ∃ row col, board.Key row col ∧ raises (d.debounceCounters row col) := by
  -- the two loops, from the inside out
  have inner (row : Nat) := (updateCounter_local elapsedTime row).foldl_flag flag
    (fun _ => raises) (raised row) (List.nodup_range : (List.range board.matrixCols).Nodup)
  have rows := (updateRow_local board elapsedTime).foldl_flag flag
    (fun _ counters => ∃ col ∈ List.range board.matrixCols, raises (counters col))
    (fun d row => inner row d) (List.nodup_range : (List.range board.numRows).Nodup)
  rw [updateDebounceCounters, rows]
  simp [clear, Board.Key, and_assoc]

theorem updateDebounceCounters_expires (elapsedTime : UInt8) (d : Debouncer) :
    (updateDebounceCounters board elapsedTime d).matrixNeedUpdate = true ↔
      ∃ row col, board.Key row col ∧ d.debounceCounters row col ≠ debounceElapsed ∧
        d.debounceCounters row col ≤ elapsedTime :=
  updateDebounceCounters_flag board (fun d => d.matrixNeedUpdate = true)
    (fun counter => counter ≠ debounceElapsed ∧ counter ≤ elapsedTime) elapsedTime
    (updateCounter_expires elapsedTime) d Bool.false_ne_true

theorem updateDebounceCounters_runs (elapsedTime : UInt8) (d : Debouncer) :
    (updateDebounceCounters board elapsedTime d).countersNeedUpdate = true ↔
      ∃ row col, board.Key row col ∧ elapsedTime < d.debounceCounters row col :=
  updateDebounceCounters_flag board (fun d => d.countersNeedUpdate = true)
    (fun counter => elapsedTime < counter) elapsedTime (updateCounter_runs elapsedTime) d
    Bool.false_ne_true

theorem updateCounter_frame (elapsedTime : UInt8) (row : Nat) (d : Debouncer) (col : Nat) :
    (updateCounter elapsedTime row d col).lastTime = d.lastTime ∧
    (updateCounter elapsedTime row d col).cookedChanged = d.cookedChanged := by
  simp only [updateCounter]
  split_ifs <;> exact ⟨rfl, rfl⟩

theorem updateDebounceCounters_frame (elapsedTime : UInt8) (d : Debouncer) :
    (updateDebounceCounters board elapsedTime d).lastTime = d.lastTime ∧
    (updateDebounceCounters board elapsedTime d).cookedChanged = d.cookedChanged := by
  have kept := updateDebounceCounters_flag board
    (fun s => ¬(s.lastTime = d.lastTime ∧ s.cookedChanged = d.cookedChanged)) (fun _ => False)
    elapsedTime (fun row s col => by simp [updateCounter_frame]) d (by simp)
  simpa using kept

/-! ## Matrix of the code -/

/-- What the inner loop does to the counter and the bit of one key. -/
def transferBit (delta : BitVec width) (col : Nat) (key : UInt8 × Bool) : UInt8 × Bool :=
  if delta.getLsbD col = true ∧ key.1 = debounceElapsed then (board.gDebounce, !key.2) else key

theorem transferKey_local (delta : BitVec width) (row : Nat) :
    Local (transferKey board delta row)
      (fun state col => (state.1.debounceCounters row col, state.2.getLsbD col))
      (transferBit board delta) where
  own state col := by
    simp only [transferKey, and_mask_ne_zero, transferBit]
    split_ifs with differs rest both both both
    · have bound := BitVec.lt_of_getLsbD differs
      rw [BitVec.getLsbD_xor, getLsbD_mask]
      simp [bound]
    · exact absurd ⟨differs, rest⟩ both
    · exact absurd both.2 rest
    · rfl
    · exact absurd both.1 differs
    · rfl
  other state col other apart := by
    simp only [transferKey]
    split_ifs
    · rw [BitVec.getLsbD_xor, getLsbD_mask]
      simp [apart.symm]
    · rfl
    · rfl

theorem transferKey_otherRow (delta : BitVec width) {row other : Nat} (apart : other ≠ row)
    (cols : List Nat) (state : Debouncer × BitVec width) :
    (cols.foldl (transferKey board delta row) state).1.debounceCounters other =
      state.1.debounceCounters other := by
  induction cols generalizing state with
  | nil => rfl
  | cons col cols ih =>
    rw [List.foldl_cons, ih]
    funext c
    simp only [transferKey]
    split_ifs <;> simp [apart]

/-- Counter and cooked bit of a key. -/
def keyPart (state : Debouncer × (Nat → BitVec width)) (row col : Nat) : UInt8 × Bool :=
  (state.1.debounceCounters row col, (state.2 row).getLsbD col)

/-- The transfer of one key, given its raw bit. -/
def moveKey (raw : Bool) (key : UInt8 × Bool) : UInt8 × Bool :=
  if raw ≠ key.2 ∧ key.1 = debounceElapsed then (board.gDebounce, raw) else key

def moveRow (raw : Nat → BitVec width) (row : Nat) (keys : Nat → UInt8 × Bool) (col : Nat) :
    UInt8 × Bool :=
  if col < board.matrixCols then moveKey board ((raw row).getLsbD col) (keys col) else keys col

theorem transferBit_delta (raw cooked : BitVec width) (col : Nat) (counter : UInt8) :
    transferBit board (raw ^^^ cooked) col (counter, cooked.getLsbD col) =
      moveKey board (raw.getLsbD col) (counter, cooked.getLsbD col) := by
  simp only [transferBit, moveKey, BitVec.getLsbD_xor]
  cases raw.getLsbD col <;> cases cooked.getLsbD col <;> simp

theorem transferRow_local (raw : Nat → BitVec width) :
    Local (transferRow board raw) keyPart (moveRow board raw) where
  own state row := by
    funext col
    have inner := transferKey_local board (raw row ^^^ state.2 row) row
    simp only [keyPart, transferRow, moveRow, if_true]
    split
    · next inside =>
      rw [← transferBit_delta]
      exact inner.foldl_of_mem List.nodup_range (List.mem_range.mpr inside) (state.1, state.2 row)
    · next outside =>
      exact inner.foldl_of_notMem (fun member => outside (List.mem_range.mp member))
        (state.1, state.2 row)
  other state row other apart := by
    funext col
    simp only [keyPart, transferRow, if_neg apart.symm]
    rw [transferKey_otherRow board _ apart.symm]

theorem transferMatrixValues_row {row : Nat} (inside : row < board.numRows)
    (raw cooked : Nat → BitVec width) (d : Debouncer) :
    keyPart (transferMatrixValues board raw cooked d) row =
      moveRow board raw row (keyPart (d, cooked) row) :=
  (transferRow_local board raw).foldl_of_mem List.nodup_range (List.mem_range.mpr inside)
    ({ d with matrixNeedUpdate := false }, cooked)

theorem transferMatrixValues_key {row col : Nat} (key : board.Key row col)
    (raw cooked : Nat → BitVec width) (d : Debouncer) :
    keyPart (transferMatrixValues board raw cooked d) row col =
      moveKey board ((raw row).getLsbD col) (keyPart (d, cooked) row col) := by
  rw [transferMatrixValues_row board key.1, moveRow, if_pos key.2]

/-- A key that the transfer changes. -/
def Passes (raw cooked : Nat → BitVec width) (d : Debouncer) (row col : Nat) : Prop :=
  (raw row).getLsbD col ≠ (cooked row).getLsbD col ∧ d.debounceCounters row col = debounceElapsed

theorem moveKey_of_passes {raw cooked : Nat → BitVec width} {d : Debouncer} {row col : Nat}
    (passes : Passes raw cooked d row col) :
    moveKey board ((raw row).getLsbD col) (keyPart (d, cooked) row col) =
      (board.gDebounce, (raw row).getLsbD col) := if_pos passes

theorem moveKey_of_not_passes {raw cooked : Nat → BitVec width} {d : Debouncer} {row col : Nat}
    (waits : ¬Passes raw cooked d row col) :
    moveKey board ((raw row).getLsbD col) (keyPart (d, cooked) row col) =
      keyPart (d, cooked) row col := if_neg waits

/-- The matrix changes exactly at the keys that pass. -/
theorem transferMatrixValues_changes (raw cooked : Nat → BitVec width) (d : Debouncer) :
    (∃ row < board.numRows, (transferMatrixValues board raw cooked d).2 row ≠ cooked row) ↔
      ∃ row col, board.Key row col ∧ Passes raw cooked d row col := by
  constructor
  · intro changed
    obtain ⟨row, inside, differs⟩ := changed
    by_contra none
    -- bit by bit, also in the columns that the matrix does not have
    refine differs (BitVec.eq_of_getLsbD_eq fun col _ => ?_)
    have moved := congrFun (transferMatrixValues_row board inside raw cooked d) col
    rw [moveRow] at moved
    split at moved
    · next key =>
      rw [moveKey_of_not_passes board fun passes => none ⟨row, col, ⟨inside, key⟩, passes⟩] at moved
      exact congrArg Prod.snd moved
    · exact congrArg Prod.snd moved
  · intro moves
    obtain ⟨row, col, key, passes⟩ := moves
    refine ⟨row, key.1, fun same => passes.1 ?_⟩
    have moved := transferMatrixValues_key board key raw cooked d
    rw [moveKey_of_passes board passes] at moved
    have bit : ((transferMatrixValues board raw cooked d).2 row).getLsbD col = (raw row).getLsbD col :=
      congrArg Prod.snd moved
    rw [← bit, same]

/-- A flag that the transfer raises if it changes a key, or leaves alone. -/
theorem transferMatrixValues_flag (flag : Debouncer → Prop) (raises : Prop)
    (raised : ∀ delta row state col, flag (transferKey board delta row state col).1 ↔
      flag state.1 ∨ (delta.getLsbD col = true ∧ state.1.debounceCounters row col = debounceElapsed) ∧
        raises)
    (raw cooked : Nat → BitVec width) (d : Debouncer) :
    flag (transferMatrixValues board raw cooked d).1 ↔
      flag { d with matrixNeedUpdate := false } ∨
        (∃ row col, board.Key row col ∧ Passes raw cooked d row col) ∧ raises := by
  -- the two loops, from the inside out; the inner one sees the row as it was
  have inner (row : Nat) (state : Debouncer × (Nat → BitVec width)) :
      flag (transferRow board raw state row).1 ↔ flag state.1 ∨
        ∃ col ∈ List.range board.matrixCols,
          ((raw row).getLsbD col ≠ (keyPart state row col).2 ∧
            (keyPart state row col).1 = debounceElapsed) ∧ raises := by
    have cols := (transferKey_local board (raw row ^^^ state.2 row) row).foldl_flag
      (fun state => flag state.1)
      (fun col key => ((raw row ^^^ state.2 row).getLsbD col = true ∧ key.1 = debounceElapsed) ∧ raises)
      (fun state col => raised _ row state col)
      (List.nodup_range : (List.range board.matrixCols).Nodup) (state.1, state.2 row)
    rw [transferRow]
    refine cols.trans (or_congr_right (exists_congr fun col => and_congr_right fun _ => ?_))
    simp [keyPart]
  have rows := (transferRow_local board raw).foldl_flag (fun state => flag state.1)
    (fun row keys => ∃ col ∈ List.range board.matrixCols,
      ((raw row).getLsbD col ≠ (keys col).2 ∧ (keys col).1 = debounceElapsed) ∧ raises)
    (fun state row => inner row state) (List.nodup_range : (List.range board.numRows).Nodup)
    ({ d with matrixNeedUpdate := false }, cooked)
  rw [transferMatrixValues]
  refine rows.trans (or_congr_right ?_)
  simp only [List.mem_range, keyPart, Board.Key, Passes]
  grind

theorem transferKey_flags (delta : BitVec width) (row : Nat) (state : Debouncer × BitVec width)
    (col : Nat) :
    ((transferKey board delta row state col).1.countersNeedUpdate = true ↔
      state.1.countersNeedUpdate = true ∨
        delta.getLsbD col = true ∧ state.1.debounceCounters row col = debounceElapsed) ∧
    ((transferKey board delta row state col).1.cookedChanged = true ↔
      state.1.cookedChanged = true ∨
        delta.getLsbD col = true ∧ state.1.debounceCounters row col = debounceElapsed) := by
  simp only [transferKey, and_mask_ne_zero]
  split_ifs with differs rest <;> simp [*]

theorem transferMatrixValues_countersNeedUpdate (raw cooked : Nat → BitVec width) (d : Debouncer) :
    (transferMatrixValues board raw cooked d).1.countersNeedUpdate = true ↔
      d.countersNeedUpdate = true ∨ ∃ row col, board.Key row col ∧ Passes raw cooked d row col := by
  have flag := transferMatrixValues_flag board (fun d => d.countersNeedUpdate = true) True
    (fun delta row state col => by simpa using (transferKey_flags board delta row state col).1)
    raw cooked d
  simpa using flag

theorem transferMatrixValues_cookedChanged (raw cooked : Nat → BitVec width) (d : Debouncer) :
    (transferMatrixValues board raw cooked d).1.cookedChanged = true ↔
      d.cookedChanged = true ∨ ∃ row col, board.Key row col ∧ Passes raw cooked d row col := by
  have flag := transferMatrixValues_flag board (fun d => d.cookedChanged = true) True
    (fun delta row state col => by simpa using (transferKey_flags board delta row state col).2)
    raw cooked d
  simpa using flag

theorem transferKey_frame (delta : BitVec width) (row : Nat) (state : Debouncer × BitVec width)
    (col : Nat) :
    (transferKey board delta row state col).1.lastTime = state.1.lastTime ∧
    (transferKey board delta row state col).1.matrixNeedUpdate = state.1.matrixNeedUpdate := by
  simp only [transferKey]
  split_ifs <;> exact ⟨rfl, rfl⟩

theorem transferMatrixValues_frame (raw cooked : Nat → BitVec width) (d : Debouncer) :
    (transferMatrixValues board raw cooked d).1.lastTime = d.lastTime ∧
    (transferMatrixValues board raw cooked d).1.matrixNeedUpdate = false := by
  have kept := transferMatrixValues_flag board
    (fun s => ¬(s.lastTime = d.lastTime ∧ s.matrixNeedUpdate = false)) False
    (fun delta row state col => by simp [transferKey_frame]) raw cooked d
  simpa using kept

end

/-! ## Calls -/

variable {width : Nat}

/-- One call of `debounce`, `elapsed` milliseconds of the fast timer after the last one. -/
structure Call (width : Nat) where
  raw : Nat → BitVec width
  elapsed : UInt32
  changed : Bool

/-- The debouncer with its matrices, and the time of the last call. -/
structure System (width : Nat) where
  debouncer : Debouncer
  cooked : Nat → BitVec width
  raw : Nat → BitVec width
  now : UInt32

def System.start (matrix : Nat → BitVec width) (lastTime now : UInt32) : System width where
  debouncer := ⟨fun _ _ => debounceElapsed, lastTime, false, false, false⟩
  cooked := matrix
  raw := matrix
  now := now

def System.call (board : Board width) (s : System width) (call : Call width) : System width :=
  let now := s.now + call.elapsed
  let result := debounce board now call.raw s.cooked call.changed s.debouncer
  ⟨result.1, result.2, call.raw, now⟩

/-- The flag `changed` is set whenever the raw matrix differs from that of the last call. -/
def Announced (board : Board width) (s : System width) (call : Call width) : Prop :=
  (∃ row < board.numRows, call.raw row ≠ s.raw row) → call.changed = true

def System.key (s : System width) (row col : Nat) : KeyState :=
  ⟨(s.cooked row).getLsbD col, (s.debouncer.debounceCounters row col).toNat⟩

structure Consistent (board : Board width) (s : System width) : Prop where
  settled : ∀ row col, board.Key row col →
    (s.key row col).cooked = (s.raw row).getLsbD col ∨ (s.key row col).counter ≠ 0
  bounded : ∀ row col, board.Key row col → (s.key row col).counter ≤ board.gDebounce.toNat
  flagged : ∀ row col, board.Key row col → (s.key row col).counter ≠ 0 →
    s.debouncer.countersNeedUpdate = true
  quiet : s.debouncer.matrixNeedUpdate = false
  clock : s.debouncer.countersNeedUpdate = true → s.debouncer.lastTime = s.now

/-- The state between the two halves of a call. -/
structure Advanced (board : Board width) (s : System width) (elapsed : UInt32) (d : Debouncer)
    (updatedLast : Bool) : Prop where
  counter : ∀ row col, board.Key row col →
    (d.debounceCounters row col).toNat = (s.key row col).counter - elapsed.toNat
  expires : ∀ row col, board.Key row col → (s.key row col).counter ≠ 0 →
    (s.key row col).counter ≤ elapsed.toNat → d.matrixNeedUpdate = true
  flagged : ∀ row col, board.Key row col → d.debounceCounters row col ≠ debounceElapsed →
    d.countersNeedUpdate = true
  clock : updatedLast = true → d.lastTime = s.now + elapsed
  idle : updatedLast = false → d.countersNeedUpdate = false
  unchanged : d.cookedChanged = false

/-- The clipped time does the same to a counter as the time itself. -/
theorem countDown_clipped (elapsed : UInt32) (counter : UInt8) :
    (countDown (if 255 < elapsed then 255 else elapsed).toUInt8 counter).toNat =
      counter.toNat - elapsed.toNat := by
  -- a counter is at most 255, so a clipped time brings it to zero as well
  have small := counter.toNat_lt
  rw [countDown_toNat, UInt32.toNat_toUInt8]
  split
  · next long =>
    rw [UInt32.lt_iff_toNat_lt] at long
    have limit : (255 : UInt32).toNat = 255 := rfl
    omega
  · next short =>
    rw [UInt32.not_lt, UInt32.le_iff_toNat_le] at short
    have limit : (255 : UInt32).toNat = 255 := rfl
    omega

theorem updateDebounceCounters_spec {board : Board width} {s : System width} {elapsed : UInt32}
    {d : Debouncer} (counters : d.debounceCounters = s.debouncer.debounceCounters)
    (time : d.lastTime = s.now + elapsed) (unchanged : d.cookedChanged = false) :
    Advanced board s elapsed
      (updateDebounceCounters board (if 255 < elapsed then 255 else elapsed).toUInt8 d) true where
  counter row col key := by
    rw [updateDebounceCounters_counter board key, countDown_clipped, counters]
    rfl
  expires row col key nonzero expired := by
    rw [updateDebounceCounters_expires]
    simp only [System.key, ← counters] at nonzero expired
    refine ⟨row, col, key, fun rest => nonzero (by rw [rest]; rfl), ?_⟩
    have clipped := countDown_clipped elapsed (d.debounceCounters row col)
    rw [countDown_toNat] at clipped
    rw [UInt8.le_iff_toNat_le]
    omega
  flagged row col key runs := by
    rw [updateDebounceCounters_counter board key, countDown] at runs
    rw [updateDebounceCounters_runs]
    refine ⟨row, col, key, UInt8.not_le.mp fun expired => ?_⟩
    exact runs (if_pos expired)
  clock _ := by
    rw [(updateDebounceCounters_frame board _ d).1, time]
  idle := by simp
  unchanged := by
    rw [(updateDebounceCounters_frame board _ d).2, unchanged]

theorem advanceCounters_spec {board : Board width} {s : System width}
    (consistent : Consistent board s) (elapsed : UInt32) :
    Advanced board s elapsed
      (advanceCounters board (s.now + elapsed) { s.debouncer with cookedChanged := false }).1
      (advanceCounters board (s.now + elapsed) { s.debouncer with cookedChanged := false }).2 := by
  simp only [advanceCounters]
  split
  · next running =>
    have time : s.now + elapsed - s.debouncer.lastTime = elapsed := by
      rw [consistent.clock running, add_sub_cancel_left]
    rw [time]
    by_cases still : 0 < if 255 < elapsed then 255 else elapsed
    · rw [if_pos still]
      exact updateDebounceCounters_spec (s := s) rfl rfl rfl
    · -- no time has passed, and the counters are left as they are
      rw [if_neg still]
      have zero : elapsed.toNat = 0 := by
        rw [UInt32.not_lt, UInt32.le_iff_toNat_le] at still
        split at still
        · exact absurd still (by decide)
        · exact Nat.le_zero.mp still
      refine ⟨?_, ?_, fun _ _ _ _ => running, fun _ => rfl, by simp, rfl⟩
      · intro row col key
        rw [zero]
        rfl
      · intro row col key nonzero expired
        omega
  · next resting =>
    -- no counter runs, so there is nothing to count down
    have rest : ∀ row col, board.Key row col → (s.key row col).counter = 0 := by
      intro row col key
      by_contra runs
      exact resting (consistent.flagged row col key runs)
    refine ⟨?_, ?_, ?_, by simp, fun _ => by simpa using resting, rfl⟩
    · intro row col key
      rw [rest row col key, Nat.zero_sub]
      exact rest row col key
    · intro row col key nonzero
      exact absurd (rest row col key) nonzero
    · intro row col key runs
      have zero : (s.debouncer.debounceCounters row col).toNat = 0 := rest row col key
      exact absurd (UInt8.toNat_inj.mp zero) runs

/-! ## One call -/

section

variable {board : Board width} {s : System width} {call : Call width}

/-- A call either transfers the matrix, or finds that nothing is to be done. -/
theorem call_cases (consistent : Consistent board s) (call : Call width) :
    (∃ d, Advanced board s call.elapsed d true ∧
      s.call board call = ⟨(transferMatrixValues board call.raw s.cooked d).1,
        (transferMatrixValues board call.raw s.cooked d).2, call.raw, s.now + call.elapsed⟩) ∨
    ∃ d updatedLast, Advanced board s call.elapsed d updatedLast ∧ call.changed = false ∧
      d.matrixNeedUpdate = false ∧ s.call board call = ⟨d, s.cooked, call.raw, s.now + call.elapsed⟩ := by
  have advanced := advanceCounters_spec consistent call.elapsed
  simp only [System.call, debounce]
  cases advance : advanceCounters board (s.now + call.elapsed)
      { s.debouncer with cookedChanged := false } with
  | mk d updatedLast =>
    rw [advance] at advanced
    dsimp only
    split
    · left
      cases updatedLast with
      | true => exact ⟨d, advanced, rfl⟩
      | false =>
        -- the counters were idle, and only the time is set
        refine ⟨{ d with lastTime := s.now + call.elapsed }, ?_, rfl⟩
        exact ⟨advanced.counter, advanced.expires, advanced.flagged, fun _ => rfl, by simp,
          advanced.unchanged⟩
    · next nothing =>
      right
      simp only [Bool.or_eq_true, not_or, Bool.not_eq_true] at nothing
      exact ⟨d, updatedLast, advanced, nothing.1, nothing.2, rfl⟩

/-- A key that waits for no counter is cooked, unless its change is announced. -/
theorem waits_or_cooked (consistent : Consistent board s) (announced : Announced board s call)
    {d : Debouncer} {updatedLast : Bool} (advanced : Advanced board s call.elapsed d updatedLast)
    (unannounced : call.changed = false) (unexpired : d.matrixNeedUpdate = false) {row col : Nat}
    (key : board.Key row col) (rest : (s.key row col).counter - call.elapsed.toNat = 0) :
    (call.raw row).getLsbD col = (s.key row col).cooked := by
  -- a counter that expires in this call would have asked for the transfer
  have idle : (s.key row col).counter = 0 := by
    by_contra runs
    rw [advanced.expires row col key runs (by omega)] at unexpired
    cases unexpired
  have same : call.raw row = s.raw row := by
    by_contra differs
    rw [announced ⟨row, key.1, differs⟩] at unannounced
    cases unannounced
  have settled := consistent.settled row col key
  rw [same]
  exact (settled.resolve_right (not_not.mpr idle)).symm

/-- What the whole call does to a key, whether or not the matrix is transferred. -/
theorem call_key (consistent : Consistent board s) (announced : Announced board s call)
    {row col : Nat} (key : board.Key row col) :
    (s.call board call).key row col =
      keyStep board.gDebounce.toNat ((call.raw row).getLsbD col) call.elapsed.toNat (s.key row col) := by
  cases call_cases consistent call with
  | inl transfer =>
    obtain ⟨d, advanced, result⟩ := transfer
    have counter := advanced.counter row col key
    have moved := transferMatrixValues_key board key call.raw s.cooked d
    have atRest : d.debounceCounters row col = debounceElapsed ↔
        (s.key row col).counter - call.elapsed.toNat = 0 := by
      rw [← counter, ← UInt8.toNat_inj]
      rfl
    -- the key after the call is the transferred key
    have view : (s.call board call).key row col =
        ⟨(moveKey board ((call.raw row).getLsbD col) (keyPart (d, s.cooked) row col)).2,
          (moveKey board ((call.raw row).getLsbD col) (keyPart (d, s.cooked) row col)).1.toNat⟩ := by
      rw [← moved, result]
      rfl
    rw [view, moveKey, keyStep]
    simp only [keyPart, atRest, and_comm]
    split
    · next passes => exact (if_pos passes).symm
    · next waits =>
      refine Eq.trans ?_ (if_neg waits).symm
      rw [← counter]
      rfl
  | inr nothing =>
    obtain ⟨d, updatedLast, advanced, unannounced, unexpired, result⟩ := nothing
    have counter := advanced.counter row col key
    have waits := waits_or_cooked consistent announced advanced unannounced unexpired key
    rw [keyStep, if_neg (fun passes => passes.2 (waits passes.1)), ← counter, result]
    rfl

theorem keyStep_counter_le {time : Nat} {raw : Bool} {elapsed : Nat} {key : KeyState}
    (bounded : key.counter ≤ time) : (keyStep time raw elapsed key).counter ≤ time := by
  rw [keyStep]
  split
  · exact le_rfl
  · exact (Nat.sub_le _ _).trans bounded

theorem call_consistent (consistent : Consistent board s) (announced : Announced board s call) :
    Consistent board (s.call board call) where
  settled row col key := by
    rw [call_key consistent announced key]
    exact keyStep_settled _ _ _ _
  bounded row col key := by
    rw [call_key consistent announced key]
    exact keyStep_counter_le (consistent.bounded row col key)
  flagged row col key runs := by
    cases call_cases consistent call with
    | inl transfer =>
      obtain ⟨d, advanced, result⟩ := transfer
      rw [result, transferMatrixValues_countersNeedUpdate]
      by_cases passes : Passes call.raw s.cooked d row col
      · exact .inr ⟨row, col, key, passes⟩
      · refine .inl (advanced.flagged row col key fun rest => runs ?_)
        have moved := transferMatrixValues_key board key call.raw s.cooked d
        rw [moveKey_of_not_passes board passes] at moved
        rw [result]
        exact congrArg (fun part => part.1.toNat) (moved.trans (congrArg (·, _) rest))
    | inr nothing =>
      obtain ⟨d, updatedLast, advanced, -, -, result⟩ := nothing
      rw [result] at runs ⊢
      exact advanced.flagged row col key fun rest => runs (congrArg UInt8.toNat rest)
  quiet := by
    cases call_cases consistent call with
    | inl transfer =>
      obtain ⟨d, -, result⟩ := transfer
      rw [result]
      exact (transferMatrixValues_frame board call.raw s.cooked d).2
    | inr nothing =>
      obtain ⟨d, updatedLast, -, -, unexpired, result⟩ := nothing
      rw [result]
      exact unexpired
  clock running := by
    cases call_cases consistent call with
    | inl transfer =>
      obtain ⟨d, advanced, result⟩ := transfer
      rw [result]
      exact (transferMatrixValues_frame board call.raw s.cooked d).1.trans (advanced.clock rfl)
    | inr nothing =>
      obtain ⟨d, updatedLast, advanced, -, -, result⟩ := nothing
      rw [result] at running ⊢
      cases updatedLast with
      | true => exact advanced.clock rfl
      | false =>
        rw [advanced.idle rfl] at running
        cases running

/-- The result tells whether the cooked matrix has changed. -/
theorem call_result (consistent : Consistent board s) (call : Call width) :
    (s.call board call).debouncer.cookedChanged = true ↔
      ∃ row < board.numRows, (s.call board call).cooked row ≠ s.cooked row := by
  cases call_cases consistent call with
  | inl transfer =>
    obtain ⟨d, advanced, result⟩ := transfer
    rw [result, transferMatrixValues_changes, transferMatrixValues_cookedChanged]
    simp [advanced.unchanged]
  | inr nothing =>
    obtain ⟨d, updatedLast, advanced, -, -, result⟩ := nothing
    rw [result]
    simp [advanced.unchanged]

end

end QmkFirmware.Debounce
