import QmkFirmware.Debounce.Contract

/-! # Debouncing with deferred changes

What `sym_defer_pk.c` and `asym_eager_defer_pk.c` have in common: two passes over the
counters, of which the first one runs only if a counter is running, and the second one only
if something asks for it.  A pass visits the keys one by one, and each visit concerns the
counter and the cooked bit of its own key.
-/

namespace QmkFirmware.Debounce

open QmkFirmware.Sweep QmkFirmware.Bits QmkFirmware.Runs

/-- The constants of a keyboard.  With `DEBOUNCE` at zero another file is compiled in. -/
structure Grid (width : Nat) where
  numRows : Nat
  matrixCols : Nat
  debounce : UInt8
  positive : 0 < debounce.toNat
  fits : matrixCols ≤ width

def Grid.Key {width : Nat} (grid : Grid width) (row col : Nat) : Prop :=
  row < grid.numRows ∧ col < grid.matrixCols

/-- The static variables, and the cooked matrix that a pass works on.  In `sym_defer_pk.c`
there is no `matrix_need_update`. -/
structure Pass (γ : Type) (width : Nat) where
  debounceCounters : Nat → Nat → γ
  lastTime : UInt32
  countersNeedUpdate : Bool
  matrixNeedUpdate : Bool
  cookedChanged : Bool
  cooked : Nat → BitVec width

section

variable {γ : Type} {width : Nat}

def Pass.setCounter (p : Pass γ width) (row col : Nat) (value : γ) : Pass γ width :=
  { p with debounceCounters := fun r c =>
      if r = row ∧ c = col then value else p.debounceCounters r c }

def Pass.setRow (p : Pass γ width) (row : Nat) (value : BitVec width) : Pass γ width :=
  { p with cooked := fun r => if r = row then value else p.cooked r }

/-- The cooked bit of a key takes the value of the raw bit. -/
def Pass.transferBit (p : Pass γ width) (raw : Nat → BitVec width) (row col : Nat) : Pass γ width :=
  let colMask : BitVec width := BitVec.ofNat width 1 <<< col
  let cookedNext := p.cooked row &&& ~~~colMask ||| raw row &&& colMask
  { p.setRow row cookedNext with
    cookedChanged := p.cookedChanged || p.cooked row ^^^ cookedNext ≠ 0 }

/-- The two loops over the matrix. -/
def Grid.visit (grid : Grid width) (step : Nat → Pass γ width → Nat → Pass γ width)
    (p : Pass γ width) : Pass γ width :=
  (List.range grid.numRows).foldl (fun p row => (List.range grid.matrixCols).foldl (step row) p) p

/-- The first half of a call; the flag is `updated_last`. -/
def advance (update : UInt8 → Pass γ width → Pass γ width) (now : UInt32) (p : Pass γ width) :
    Pass γ width × Bool :=
  if p.countersNeedUpdate then
    let elapsedTime := now - p.lastTime
    -- the counters have at most eight bits
    let elapsedTime := if 255 < elapsedTime then 255 else elapsedTime
    let p := { p with lastTime := now }
    (if 0 < elapsedTime then update elapsedTime.toUInt8 p else p, true)
  else (p, false)

/-- A call, with its second half `start`, which may also be asked for by the first half; the
result is the flag `cookedChanged`. -/
def deferredCall (update : UInt8 → Pass γ width → Pass γ width) (asks : Pass γ width → Bool)
    (start : Pass γ width → Pass γ width) (now : UInt32) (changed : Bool) (p : Pass γ width) :
    Pass γ width :=
  let (p, updatedLast) := advance update now { p with cookedChanged := false }
  if changed || asks p then start (if !updatedLast then { p with lastTime := now } else p)
  else p

section

variable (p : Pass γ width) (row col : Nat)

theorem setCounter_countersNeedUpdate (value : γ) :
    (p.setCounter row col value).countersNeedUpdate = p.countersNeedUpdate := rfl

theorem setCounter_matrixNeedUpdate (value : γ) :
    (p.setCounter row col value).matrixNeedUpdate = p.matrixNeedUpdate := rfl

theorem setCounter_cookedChanged (value : γ) :
    (p.setCounter row col value).cookedChanged = p.cookedChanged := rfl

theorem transferBit_countersNeedUpdate (raw : Nat → BitVec width) :
    (p.transferBit raw row col).countersNeedUpdate = p.countersNeedUpdate := rfl

theorem transferBit_matrixNeedUpdate (raw : Nat → BitVec width) :
    (p.transferBit raw row col).matrixNeedUpdate = p.matrixNeedUpdate := rfl

end

/-! ## Passes -/

/-- The counter and the cooked bit of a key. -/
def Pass.part (p : Pass γ width) (key : Nat × Nat) : γ × Bool :=
  (p.debounceCounters key.1 key.2, (p.cooked key.1).getLsbD key.2)

@[simp] theorem part_setCounter (p : Pass γ width) (row col : Nat) (value : γ) (key : Nat × Nat) :
    (p.setCounter row col value).part key =
      (if key = (row, col) then value else (p.part key).1, (p.part key).2) := by
  simp [Pass.part, Pass.setCounter, Prod.ext_iff]

@[simp] theorem part_setRow (p : Pass γ width) (row : Nat) (value : BitVec width) (key : Nat × Nat) :
    (p.setRow row value).part key =
      ((p.part key).1, if key.1 = row then value.getLsbD key.2 else (p.part key).2) := by
  simp only [Pass.part, Pass.setRow]
  split <;> rfl

@[simp] theorem part_transferBit (p : Pass γ width) (raw : Nat → BitVec width) (row col : Nat)
    (key : Nat × Nat) :
    (p.transferBit raw row col).part key =
      ((p.part key).1, if key = (row, col) then (raw row).getLsbD col else (p.part key).2) := by
  refine (part_setRow p row _ key).trans (Prod.ext rfl ?_)
  rw [getLsbD_replaced]
  by_cases same : key.1 = row
  · subst same
    simp only [if_true, Prod.ext_iff, true_and]
    rfl
  · simp [same, Prod.ext_iff]

@[simp] theorem cookedChanged_transferBit (p : Pass γ width) (raw : Nat → BitVec width) (row col : Nat) :
    (p.transferBit raw row col).cookedChanged = true ↔
      p.cookedChanged = true ∨ (raw row).getLsbD col ≠ (p.part (row, col)).2 := by
  simp only [Pass.transferBit, Bool.or_eq_true, decide_eq_true_eq, replaced_ne_iff]
  rfl

@[simp] theorem part_countersNeedUpdate (p : Pass γ width) (flag : Bool) (key : Nat × Nat) :
    Pass.part { p with countersNeedUpdate := flag } key = p.part key := rfl

@[simp] theorem part_matrixNeedUpdate (p : Pass γ width) (flag : Bool) (key : Nat × Nat) :
    Pass.part { p with matrixNeedUpdate := flag } key = p.part key := rfl

@[simp] theorem part_cookedChanged (p : Pass γ width) (flag : Bool) (key : Nat × Nat) :
    Pass.part { p with cookedChanged := flag } key = p.part key := rfl

variable {grid : Grid width} {step : Nat → Pass γ width → Nat → Pass γ width}
  {effect : Nat × Nat → γ × Bool → γ × Bool}

/-- Each visit concerns the key that is visited. -/
abbrev VisitsLocally (step : Nat → Pass γ width → Nat → Pass γ width)
    (effect : Nat × Nat → γ × Bool → γ × Bool) : Prop :=
  Local (fun p (key : Nat × Nat) => step key.1 p key.2) Pass.part effect

def Grid.keys (grid : Grid width) : List (Nat × Nat) :=
  List.range grid.numRows ×ˢ List.range grid.matrixCols

theorem Grid.mem_keys {key : Nat × Nat} : key ∈ grid.keys ↔ grid.Key key.1 key.2 := by
  rw [Grid.keys, List.mem_product, List.mem_range, List.mem_range, Grid.Key]

theorem Grid.nodup_keys (grid : Grid width) : grid.keys.Nodup :=
  List.nodup_range.product List.nodup_range

theorem visit_eq (grid : Grid width) (step : Nat → Pass γ width → Nat → Pass γ width)
    (p : Pass γ width) :
    grid.visit step p = grid.keys.foldl (fun p key => step key.1 p key.2) p :=
  foldl_product (fun p row col => step row p col) _ _ p

theorem visit_part (visits : VisitsLocally step effect) {row col : Nat} (key : grid.Key row col)
    (p : Pass γ width) : (grid.visit step p).part (row, col) = effect (row, col) (p.part (row, col)) := by
  rw [visit_eq]
  exact visits.foldl_of_mem grid.nodup_keys (Grid.mem_keys.mpr key) p

theorem visit_part_outside (visits : VisitsLocally step effect) {row col : Nat}
    (outside : ¬grid.Key row col) (p : Pass γ width) :
    (grid.visit step p).part (row, col) = p.part (row, col) := by
  rw [visit_eq]
  exact visits.foldl_of_notMem (fun member => outside (Grid.mem_keys.mp member)) p

/-- A flag that the visits raise one by one. -/
theorem visit_flag (grid : Grid width) (visits : VisitsLocally step effect) (flag : Pass γ width → Prop)
    (raises : Nat × Nat → γ × Bool → Prop)
    (raised : ∀ p row col, flag (step row p col) ↔ flag p ∨ raises (row, col) (p.part (row, col)))
    (p : Pass γ width) :
    flag (grid.visit step p) ↔
      flag p ∨ ∃ row col, grid.Key row col ∧ raises (row, col) (p.part (row, col)) := by
  have swept := visits.foldl_flag flag raises (fun p key => raised p key.1 key.2) grid.nodup_keys p
  rw [visit_eq, swept]
  refine or_congr_right ⟨?_, ?_⟩
  · rintro ⟨key, member, raises⟩
    exact ⟨key.1, key.2, Grid.mem_keys.mp member, raises⟩
  · rintro ⟨row, col, key, raises⟩
    exact ⟨(row, col), Grid.mem_keys.mpr key, raises⟩

/-- What every visit keeps, the pass keeps. -/
theorem visit_keeps (holds : Pass γ width → Prop)
    (kept : ∀ p row col, holds p → holds (step row p col)) {p : Pass γ width} (before : holds p) :
    holds (grid.visit step p) := by
  rw [visit_eq]
  exact foldl_invariant (fun p key holds => kept p key.1 key.2 holds) before grid.keys

/-- What a pass does to the machines of the keys, and how it sets the flags. -/
structure PassEffect {κ : Type} (keyOf : γ × Bool → κ) (runs : κ → Prop) (grid : Grid width)
    (effect : Nat → Nat → κ → κ) (p next : Pass γ width) : Prop where
  key : ∀ row col, grid.Key row col →
    keyOf (next.part (row, col)) = effect row col (keyOf (p.part (row, col)))
  outside : ∀ row col, ¬grid.Key row col → (next.part (row, col)).2 = (p.part (row, col)).2
  flagged : ∀ row col, grid.Key row col → runs (keyOf (next.part (row, col))) → next.countersNeedUpdate = true
  changed : next.cookedChanged = true ↔
    ∃ row col, grid.Key row col ∧ (next.part (row, col)).2 ≠ (p.part (row, col)).2

/-- If a pass leaves the bits outside the grid alone, a row that has changed has a key that has. -/
theorem cooked_ne_iff {p next : Pass γ width}
    (outside : ∀ row col, ¬grid.Key row col → (next.part (row, col)).2 = (p.part (row, col)).2) :
    (∃ row < grid.numRows, next.cooked row ≠ p.cooked row) ↔
      ∃ row col, grid.Key row col ∧ (next.part (row, col)).2 ≠ (p.part (row, col)).2 := by
  constructor
  · rintro ⟨row, _, changed⟩
    by_contra none
    refine changed (BitVec.eq_of_getLsbD_eq fun col _ => ?_)
    by_contra differs
    by_cases key : grid.Key row col
    · exact none ⟨row, col, key, differs⟩
    · exact differs (outside row col key)
  · rintro ⟨row, col, key, differs⟩
    refine ⟨row, key.1, fun same => differs ?_⟩
    simp only [Pass.part, same]

/-! ## The first half of a call -/

def clip (elapsed : UInt32) : UInt8 := (if 255 < elapsed then 255 else elapsed).toUInt8

theorem clip_toNat (elapsed : UInt32) : (clip elapsed).toNat = min elapsed.toNat 255 := by
  have clipped := countDown_clipped elapsed 255
  have limit : (255 : UInt8).toNat = 255 := rfl
  rw [countDown_toNat, limit, ← clip] at clipped
  have small := (clip elapsed).toNat_lt
  omega

theorem le_clip_iff (counter : UInt8) (elapsed : UInt32) :
    counter ≤ clip elapsed ↔ counter.toNat ≤ elapsed.toNat := by
  have small := counter.toNat_lt
  rw [UInt8.le_iff_toNat_le, clip_toNat]
  omega

/-- What the first half does: nothing if no counter runs, and only the time is taken if none has
passed. -/
inductive AdvanceStep (update : UInt8 → Pass γ width → Pass γ width) (now elapsed : UInt32)
    (p : Pass γ width) : Pass γ width × Bool → Prop where
  | idle (resting : p.countersNeedUpdate = false) : AdvanceStep update now elapsed p (p, false)
  | still (running : p.countersNeedUpdate = true) (zero : elapsed.toNat = 0) :
      AdvanceStep update now elapsed p ({ p with lastTime := now + elapsed }, true)
  | counts (running : p.countersNeedUpdate = true) :
      AdvanceStep update now elapsed p
        (update (clip elapsed) { p with lastTime := now + elapsed }, true)

theorem advance_step (update : UInt8 → Pass γ width → Pass γ width) {now : UInt32} (elapsed : UInt32)
    {p : Pass γ width} (clock : p.countersNeedUpdate = true → p.lastTime = now) :
    AdvanceStep update now elapsed p (advance update (now + elapsed) p) := by
  rw [advance]
  by_cases running : p.countersNeedUpdate = true
  · have time : now + elapsed - p.lastTime = elapsed := by rw [clock running, add_sub_cancel_left]
    simp only [if_pos running, time]
    by_cases counts : 0 < if 255 < elapsed then 255 else elapsed
    · rw [if_pos counts]
      exact .counts running
    · rw [if_neg counts]
      refine .still running ?_
      rw [UInt32.not_lt, UInt32.le_iff_toNat_le] at counts
      split at counts
      · exact absurd counts (by decide)
      · exact Nat.le_zero.mp counts
  · rw [if_neg running]
    exact .idle (by simpa using running)

/-! ## Calls -/

/-- A pass with the matrix and the time of the last call. -/
structure Scan (γ : Type) (width : Nat) where
  pass : Pass γ width
  raw : Nat → BitVec width
  now : UInt32

/-- An algorithm takes the time, the raw matrix and the flag `changed`. -/
abbrev Algorithm (γ : Type) (width : Nat) : Type :=
  UInt32 → (Nat → BitVec width) → Bool → Pass γ width → Pass γ width

def Scan.start (counters : Nat → Nat → γ) (matrix : Nat → BitVec width) (lastTime now : UInt32) :
    Scan γ width where
  pass := ⟨counters, lastTime, false, false, false, matrix⟩
  raw := matrix
  now := now

def Scan.call (algorithm : Algorithm γ width) (s : Scan γ width) (call : Call width) : Scan γ width :=
  ⟨algorithm (s.now + call.elapsed) call.raw call.changed s.pass, call.raw, s.now + call.elapsed⟩

def Scan.cookedBit (s : Scan γ width) (row col : Nat) : Bool := (s.pass.cooked row).getLsbD col

def Scan.rawBit (s : Scan γ width) (row col : Nat) : Bool := (s.raw row).getLsbD col

/-- The flag `changed` is set whenever the raw matrix differs from that of the last call. -/
def Scan.Announced (grid : Grid width) (s : Scan γ width) (call : Call width) : Prop :=
  (∃ row < grid.numRows, call.raw row ≠ s.raw row) → call.changed = true

instance (s : Scan γ width) (call : Call width) : Decidable (s.Announced grid call) :=
  inferInstanceAs (Decidable ((∃ row < grid.numRows, _) → _))

theorem Scan.Announced.same {s : Scan γ width} {call : Call width} (announced : s.Announced grid call)
    (unchanged : call.changed = false) {row : Nat} (inside : row < grid.numRows) : call.raw row = s.raw row := by
  by_contra differs
  exact Bool.eq_false_iff.mp unchanged (announced ⟨row, inside, differs⟩)

section

variable (algorithm : Algorithm γ width) (s : Scan γ width) (calls : List (Call width))

/-- The state after the first `n` calls. -/
def scanAfter (n : Nat) : Scan γ width := (calls.take n).foldl (Scan.call algorithm) s

def ScansAnnounced (grid : Grid width) : Prop :=
  EveryStep (fun earlier call => (earlier.foldl (Scan.call algorithm) s).Announced grid call) calls

instance (grid : Grid width) : Decidable (ScansAnnounced algorithm s calls grid) :=
  inferInstanceAs (Decidable (EveryStep _ calls))

/-- The result of each call tells whether it has changed the cooked matrix. -/
def ResultsTell (grid : Grid width) : Prop :=
  ∀ n < calls.length, (scanAfter algorithm s calls (n + 1)).pass.cookedChanged = true ↔
    ∃ row < grid.numRows, (scanAfter algorithm s calls (n + 1)).pass.cooked row ≠
      (scanAfter algorithm s calls n).pass.cooked row

end

variable {algorithm : Algorithm γ width} {start : Scan γ width} {calls : List (Call width)}

theorem scanAfter_succ {n : Nat} (inside : n < calls.length) :
    scanAfter algorithm start calls (n + 1) = (scanAfter algorithm start calls n).call algorithm calls[n] := by
  rw [scanAfter, List.take_add_one, List.getElem?_eq_getElem inside, Option.toList_some, List.foldl_append]
  rfl

/-- An invariant of announced calls holds throughout. -/
theorem scanAfter_invariant {invariant : Scan γ width → Prop} (initial : invariant start)
    (announced : ScansAnnounced algorithm start calls grid)
    (kept : ∀ s call, Scan.Announced grid s call → invariant s → invariant (s.call algorithm call)) (n : Nat) :
    invariant (scanAfter algorithm start calls n) :=
  foldl_everyStep _ (fun _ s => invariant s) initial (fun _ call announces holds => kept _ call announces holds)
    (calls.take n) (EveryStep.take announced n)

theorem elapsedBetween_self (calls : List (Call width)) (i : Nat) : elapsedBetween calls i i = 0 := by
  rw [elapsedBetween, List.drop_of_length_le]
  · rfl
  · rw [List.length_take]
    exact Nat.min_le_left _ _

theorem elapsedBetween_mono (calls : List (Call width)) {i i' j j' : Nat} (later : i ≤ i') (earlier : j' ≤ j) :
    elapsedBetween calls i' j' ≤ elapsedBetween calls i j := by
  have part : List.Sublist ((calls.take (j' + 1)).drop (i' + 1)) ((calls.take (j + 1)).drop (i + 1)) :=
    ((List.take_sublist_take_left (Nat.succ_le_succ earlier)).drop (i' + 1)).trans
      (List.drop_sublist_drop_left _ (Nat.succ_le_succ later))
  exact (part.map _).sum_le_sum fun _ _ => Nat.zero_le _

theorem elapsedBetween_succ {i j : Nat} (order : i ≤ j) (inside : j + 1 < calls.length) :
    elapsedBetween calls i (j + 1) = elapsedBetween calls i j + calls[j + 1].elapsed.toNat := by
  have split : (calls.take (j + 1 + 1)).drop (i + 1) = (calls.take (j + 1)).drop (i + 1) ++ [calls[j + 1]] := by
    rw [List.take_add_one, List.getElem?_eq_getElem inside, Option.toList_some,
      List.drop_append_of_le_length]
    rw [List.length_take]
    omega
  rw [elapsedBetween, split, List.map_append, List.sum_append, elapsedBetween]
  simp

end

end QmkFirmware.Debounce
