import QmkFirmware.Foundations.Bits
import QmkFirmware.Foundations.Runs
import QmkFirmware.Foundations.Switches

/-! # The matrix task

`matrix_task` of `quantum/keyboard.c` compares the matrix with the one of the previous pass and makes an event of each
key that has changed.  A row in which keys may be ghosts is left for a later pass.
-/

namespace QmkFirmware.Keyboard

open QmkFirmware.Bits QmkFirmware.Runs QmkFirmware.Switches

structure Config where
  matrixRows : Nat
  matrixCols : Nat
  /-- the bits of `matrix_row_t` -/
  width : Nat
  cols_le_width : matrixCols ≤ width
  matrixHasGhost : Bool
  keycodeAtKeymapLocation : (layer row col : Nat) → BitVec 16

structure KeyEvent where
  row : Nat
  col : Nat
  pressed : Bool
  time : BitVec 16
  deriving DecidableEq

/-- What the task calls. -/
inductive Call where
  | actionExec (event : KeyEvent)
  | tickEvent (time : BitVec 16)
  | switchEvents (row col : Nat) (pressed : Bool)
  deriving DecidableEq

variable (cfg : Config)

abbrev Rows := Nat → BitVec cfg.width

/-- The matrix of the previous pass and the time of the last tick, and all calls so far. -/
structure State where
  matrixPrevious : Rows cfg
  lastTick : BitVec 16
  calls : List Call

/-- What a pass reads: whether the matrix can be read, its rows, the role of the keyboard and the clock. -/
structure Pass where
  matrixCanRead : Bool
  matrix : Rows cfg
  shouldProcessKeypress : Bool
  now : BitVec 16

/-! ## Ghosts -/

def getRealKeys (row : Nat) (rowdata : BitVec cfg.width) : BitVec cfg.width :=
  (List.range cfg.matrixCols).foldl
    (fun out col =>
      if cfg.keycodeAtKeymapLocation 0 row col ≠ 0 ∧ rowdata &&& BitVec.ofNat cfg.width 1 <<< col ≠ 0 then
        out ||| BitVec.ofNat cfg.width 1 <<< col
      else out) (BitVec.ofNat cfg.width 0)

def popcountMoreThanOne {width : Nat} (rowdata : BitVec width) : Bool := rowdata &&& (rowdata - BitVec.ofNat width 1) ≠ 0

def hasGhostInRow (matrix : Rows cfg) (row : Nat) (rowdata : BitVec cfg.width) : Bool :=
  if cfg.matrixHasGhost then
    let rowdata := getRealKeys cfg row rowdata
    if popcountMoreThanOne rowdata then
      (List.range cfg.matrixRows).any fun i =>
        i ≠ row && popcountMoreThanOne (getRealKeys cfg i (matrix i) &&& rowdata)
    else false
  else false

/-! ## Passes -/

variable {cfg}

def State.call (s : State cfg) (call : Call) : State cfg := { s with calls := s.calls ++ [call] }

def generateTickEvent (now : BitVec 16) (s : State cfg) : State cfg :=
  if now - s.lastTick ≠ 0 then { s.call (.tickEvent now) with lastTick := now } else s

def processCol (pass : Pass cfg) (row : Nat) (currentRow rowChanges : BitVec cfg.width) (s : State cfg) (col : Nat) :
    State cfg :=
  if rowChanges &&& BitVec.ofNat cfg.width 1 <<< col ≠ 0 then
    let keyPressed : Bool := currentRow &&& BitVec.ofNat cfg.width 1 <<< col ≠ 0
    let s := if pass.shouldProcessKeypress then s.call (.actionExec ⟨row, col, keyPressed, pass.now⟩) else s
    s.call (.switchEvents row col keyPressed)
  else s

def processRow (pass : Pass cfg) (s : State cfg) (row : Nat) : State cfg :=
  let currentRow := pass.matrix row
  let rowChanges := currentRow ^^^ s.matrixPrevious row
  if rowChanges = 0 ∨ hasGhostInRow cfg pass.matrix row currentRow = true then s
  else
    let s := (List.range cfg.matrixCols).foldl (processCol pass row currentRow rowChanges) s
    { s with matrixPrevious := Function.update s.matrixPrevious row currentRow }

/-- Also tells whether the matrix has changed. -/
def matrixTask (pass : Pass cfg) (s : State cfg) : Bool × State cfg :=
  if pass.matrixCanRead then
    let matrixChanged := (List.range cfg.matrixRows).any fun row => s.matrixPrevious row ^^^ pass.matrix row ≠ 0
    if matrixChanged then (true, (List.range cfg.matrixRows).foldl (processRow pass) s)
    else (false, generateTickEvent pass.now s)
  else (false, generateTickEvent pass.now s)

def State.start : State cfg where
  matrixPrevious _ := BitVec.ofNat cfg.width 0
  lastTick := 0
  calls := []

def run (passes : List (Pass cfg)) : State cfg := passes.foldl (fun s pass => (matrixTask pass s).2) State.start

/-- The changes of the keys that the rest of the firmware is told of. -/
def switches (calls : List Call) : List ((Nat × Nat) × Bool) :=
  calls.filterMap fun call => match call with
    | .switchEvents row col pressed => some ((row, col), pressed)
    | .actionExec _ => none
    | .tickEvent _ => none

/-- The key events that are processed. -/
def keyEvents (calls : List Call) : List KeyEvent :=
  calls.filterMap fun call => match call with
    | .actionExec event => some event
    | .switchEvents _ _ _ => none
    | .tickEvent _ => none

def KeyEvent.change (event : KeyEvent) : (Nat × Nat) × Bool := ((event.row, event.col), event.pressed)

/-! ## One pass -/

section Pass

variable {pass : Pass cfg} {s : State cfg} {shown : Nat → Nat → Bool} {row col : Nat}

@[simp] theorem calls_call (call : Call) : (s.call call).calls = s.calls ++ [call] := rfl

@[simp] theorem matrixPrevious_call (call : Call) : (s.call call).matrixPrevious = s.matrixPrevious := rfl

theorem switches_append (calls more : List Call) : switches (calls ++ more) = switches calls ++ switches more :=
  List.filterMap_append

theorem keyEvents_append (calls more : List Call) : keyEvents (calls ++ more) = keyEvents calls ++ keyEvents more :=
  List.filterMap_append

/-- The calls toggle keys of the matrix, and lead to the keys that are shown. -/
structure Tracks (cfg : Config) (calls : List Call) (shown : Nat → Nat → Bool) : Prop where
  toggling : Toggling (switches calls)
  inside : ∀ change ∈ switches calls, change.1.1 < cfg.matrixRows ∧ change.1.2 < cfg.matrixCols
  replayed : ∀ row < cfg.matrixRows, ∀ col < cfg.matrixCols, replay (switches calls) (row, col) = shown row col

theorem Tracks.congr {calls : List Call} (tracks : Tracks cfg calls shown) {other : Nat → Nat → Bool}
    (same : ∀ row < cfg.matrixRows, ∀ col < cfg.matrixCols, other row col = shown row col) : Tracks cfg calls other where
  toggling := tracks.toggling
  inside := tracks.inside
  replayed row rowInside col colInside := (tracks.replayed row rowInside col colInside).trans (same row rowInside col colInside).symm

/-- A key that has changed is turned over. -/
theorem Tracks.turn {calls : List Call} (tracks : Tracks cfg calls shown) (rowInside : row < cfg.matrixRows)
    (colInside : col < cfg.matrixCols) {pressed : Bool} (changed : shown row col = !pressed) (more : List Call)
    (turned : switches more = [((row, col), pressed)]) :
    Tracks cfg (calls ++ more) fun r c => if r = row ∧ c = col then pressed else shown r c := by
  refine ⟨?_, ?_, ?_⟩
  · rw [switches_append, turned, toggling_concat]
    exact ⟨tracks.toggling, (tracks.replayed row rowInside col colInside).trans changed⟩
  · intro change member
    rw [switches_append, turned] at member
    rcases List.mem_append.mp member with member | member
    · exact tracks.inside change member
    · rw [List.mem_singleton.mp member]
      exact ⟨rowInside, colInside⟩
  · intro r rInside c cInside
    rw [switches_append, turned, replay_concat, tracks.replayed r rInside c cInside]
    simp only [Prod.mk.injEq]

theorem processCol_calls (currentRow rowChanges : BitVec cfg.width) :
    (processCol pass row currentRow rowChanges s col).calls = s.calls ++
      if rowChanges.getLsbD col then
        (if pass.shouldProcessKeypress then [.actionExec ⟨row, col, currentRow.getLsbD col, pass.now⟩] else []) ++
          [.switchEvents row col (currentRow.getLsbD col)]
      else [] := by
  unfold processCol
  simp only [and_mask_ne_zero, Bool.decide_eq_true]
  split
  · split
    · simp
    · simp
  · simp

theorem processCol_matrixPrevious (currentRow rowChanges : BitVec cfg.width) :
    (processCol pass row currentRow rowChanges s col).matrixPrevious = s.matrixPrevious := by
  unfold processCol
  dsimp only
  split
  · split
    · rfl
    · rfl
  · rfl

/-- The columns below `m` show the current row. -/
theorem processCols_tracks (currentRow previous : BitVec cfg.width) (rowInside : row < cfg.matrixRows)
    (tracks : Tracks cfg s.calls shown) (before : ∀ col < cfg.matrixCols, shown row col = previous.getLsbD col) {m : Nat}
    (bound : m ≤ cfg.matrixCols) :
    Tracks cfg ((List.range m).foldl (processCol pass row currentRow (currentRow ^^^ previous)) s).calls
      fun r c => if r = row ∧ c < m then currentRow.getLsbD c else shown r c := by
  induction m with
  | zero => exact tracks.congr fun _ _ _ _ => if_neg (by omega)
  | succ m ih =>
    have earlier := ih (by omega)
    rw [List.range_succ, List.foldl_append, List.foldl_cons, List.foldl_nil, processCol_calls, BitVec.getLsbD_xor]
    have own : (if row = row ∧ m < m then currentRow.getLsbD m else shown row m) = previous.getLsbD m := by
      rw [if_neg (by omega), before m (by omega)]
    cases changed : currentRow.getLsbD m ^^ previous.getLsbD m with
    | true =>
      rw [if_pos rfl]
      have turned : previous.getLsbD m = !currentRow.getLsbD m := by
        revert changed
        cases currentRow.getLsbD m <;> cases previous.getLsbD m <;> simp
      refine (earlier.turn rowInside (by omega) (own.trans turned) _ ?_).congr ?_
      · rw [switches_append]
        split
        · rfl
        · rfl
      · intro r _ c _
        by_cases last : c = m
        · subst last
          by_cases same : r = row
          · simp [same]
          · simp [same]
        · have below : c < m + 1 ↔ c < m := by omega
          simp [last, below]
    | false =>
      rw [if_neg Bool.false_ne_true, List.append_nil]
      refine earlier.congr ?_
      intro r _ c _
      by_cases last : r = row ∧ c = m
      · obtain ⟨rfl, rfl⟩ := last
        rw [if_pos (by omega), own]
        exact (by simpa using changed)
      · have below : r = row ∧ c < m + 1 ↔ r = row ∧ c < m := by omega
        simp only [below]

theorem processCols_matrixPrevious (currentRow rowChanges : BitVec cfg.width) (cols : List Nat) :
    (cols.foldl (processCol pass row currentRow rowChanges) s).matrixPrevious = s.matrixPrevious := by
  induction cols generalizing s with
  | nil => rfl
  | cons col cols ih => exact ih.trans (processCol_matrixPrevious currentRow rowChanges)

def bits (rows : Rows cfg) (row col : Nat) : Bool := (rows row).getLsbD col

/-- A row without ghosts takes the current value. -/
theorem processRow_matrixPrevious (other : Nat) :
    (processRow pass s row).matrixPrevious other =
      if other = row ∧ hasGhostInRow cfg pass.matrix row (pass.matrix row) = false then pass.matrix row
      else s.matrixPrevious other := by
  unfold processRow
  dsimp only
  cases ghost : hasGhostInRow cfg pass.matrix row (pass.matrix row) with
  | true => simp
  | false =>
    by_cases same : pass.matrix row ^^^ s.matrixPrevious row = 0
    · rw [if_pos (.inl same)]
      have equal := BitVec.xor_eq_zero_iff.mp same
      by_cases own : other = row
      · rw [own, if_pos ⟨rfl, rfl⟩, equal]
      · rw [if_neg (by simp [own])]
    · rw [if_neg fun h => h.elim same Bool.false_ne_true]
      dsimp only
      rw [Function.update_apply, processCols_matrixPrevious]
      simp

theorem processRow_tracks (rowInside : row < cfg.matrixRows) (tracks : Tracks cfg s.calls (bits s.matrixPrevious)) :
    Tracks cfg (processRow pass s row).calls (bits (processRow pass s row).matrixPrevious) := by
  by_cases quiet : pass.matrix row ^^^ s.matrixPrevious row = 0 ∨ hasGhostInRow cfg pass.matrix row (pass.matrix row) = true
  · have same : processRow pass s row = s := if_pos quiet
    rw [same]
    exact tracks
  · have ghost : hasGhostInRow cfg pass.matrix row (pass.matrix row) = false := by simpa using fun h => quiet (.inr h)
    have calls : (processRow pass s row).calls = ((List.range cfg.matrixCols).foldl (processCol pass row (pass.matrix row)
        (pass.matrix row ^^^ s.matrixPrevious row)) s).calls := by
      unfold processRow
      rw [if_neg quiet]
    rw [calls]
    refine (processCols_tracks _ _ rowInside tracks (fun _ _ => rfl) (Nat.le_refl _)).congr ?_
    intro r _ c cInside
    rw [bits, processRow_matrixPrevious]
    by_cases own : r = row
    · rw [if_pos ⟨own, ghost⟩, if_pos ⟨own, cInside⟩]
    · rw [if_neg (by simp [own]), if_neg (by simp [own]), bits]

theorem processRows_tracks {m : Nat} (bound : m ≤ cfg.matrixRows) (tracks : Tracks cfg s.calls (bits s.matrixPrevious)) :
    Tracks cfg ((List.range m).foldl (processRow pass) s).calls
      (bits ((List.range m).foldl (processRow pass) s).matrixPrevious) := by
  induction m with
  | zero => exact tracks
  | succ m ih =>
    rw [List.range_succ, List.foldl_append]
    exact processRow_tracks bound (ih (by omega))

theorem processRows_matrixPrevious (m other : Nat) :
    ((List.range m).foldl (processRow pass) s).matrixPrevious other =
      if other < m ∧ hasGhostInRow cfg pass.matrix other (pass.matrix other) = false then pass.matrix other
      else s.matrixPrevious other := by
  induction m with
  | zero => rw [if_neg (by omega)]; rfl
  | succ m ih =>
    rw [List.range_succ, List.foldl_append, List.foldl_cons, List.foldl_nil, processRow_matrixPrevious, ih]
    by_cases last : other = m
    · subst last
      simp
    · have below : other < m + 1 ↔ other < m := by omega
      rw [if_neg (by simp [last])]
      simp only [below]

theorem generateTickEvent_matrixPrevious (now : BitVec 16) : (generateTickEvent now s).matrixPrevious = s.matrixPrevious := by
  unfold generateTickEvent
  split
  · rfl
  · rfl

theorem generateTickEvent_switches (now : BitVec 16) : switches (generateTickEvent now s).calls = switches s.calls := by
  unfold generateTickEvent
  split
  · exact (switches_append _ _).trans (List.append_nil _)
  · rfl

theorem generateTickEvent_keyEvents (now : BitVec 16) : keyEvents (generateTickEvent now s).calls = keyEvents s.calls := by
  unfold generateTickEvent
  split
  · exact (keyEvents_append _ _).trans (List.append_nil _)
  · rfl

theorem Tracks.of_switches {calls other : List Call} (tracks : Tracks cfg calls shown) (same : switches other = switches calls) :
    Tracks cfg other shown := by
  obtain ⟨toggling, inside, replayed⟩ := tracks
  rw [← same] at toggling inside replayed
  exact ⟨toggling, inside, replayed⟩

theorem matrixTask_tracks (tracks : Tracks cfg s.calls (bits s.matrixPrevious)) :
    Tracks cfg (matrixTask pass s).2.calls (bits (matrixTask pass s).2.matrixPrevious) := by
  have ticked : Tracks cfg (generateTickEvent pass.now s).calls (bits (generateTickEvent pass.now s).matrixPrevious) := by
    rw [generateTickEvent_matrixPrevious]
    exact tracks.of_switches (generateTickEvent_switches pass.now)
  unfold matrixTask
  dsimp only
  split
  · split
    · exact processRows_tracks (Nat.le_refl _) tracks
    · exact ticked
  · exact ticked

/-- A row takes its current value in each pass that can read it, unless keys in it may be ghosts. -/
theorem matrixTask_matrixPrevious (inside : row < cfg.matrixRows) :
    (matrixTask pass s).2.matrixPrevious row =
      if pass.matrixCanRead = true ∧ hasGhostInRow cfg pass.matrix row (pass.matrix row) = false then pass.matrix row
      else s.matrixPrevious row := by
  unfold matrixTask
  dsimp only
  cases readable : pass.matrixCanRead with
  | false =>
    rw [if_neg Bool.false_ne_true, generateTickEvent_matrixPrevious]
    simp
  | true =>
    rw [if_pos rfl]
    split
    · rw [processRows_matrixPrevious]
      simp [inside]
    · next unchanged =>
      have same : s.matrixPrevious row = pass.matrix row := by
        by_contra differ
        apply unchanged
        simp only [List.any_eq_true, List.mem_range, decide_eq_true_eq]
        exact ⟨row, inside, fun zero => differ (BitVec.xor_eq_zero_iff.mp zero)⟩
      rw [generateTickEvent_matrixPrevious, same, ite_self]

/-- Each change is an event as well. -/
def Processed (s : State cfg) : Prop := (keyEvents s.calls).map KeyEvent.change = switches s.calls

theorem matrixTask_processed (processing : pass.shouldProcessKeypress = true) (before : Processed s) :
    Processed (matrixTask pass s).2 := by
  have col (currentRow rowChanges : BitVec cfg.width) (row : Nat) (t : State cfg) (col : Nat) (same : Processed t) :
      Processed (processCol pass row currentRow rowChanges t col) := by
    rw [Processed, processCol_calls, processing, keyEvents_append, switches_append, List.map_append, same]
    split
    · rfl
    · rfl
  have row (t : State cfg) (row : Nat) (same : Processed t) : Processed (processRow pass t row) := by
    unfold processRow
    dsimp only
    split
    · exact same
    · exact @foldl_invariant _ _ _ Processed (col _ _ row) _ same _
  have ticked : Processed (generateTickEvent pass.now s) := by
    rw [Processed, generateTickEvent_keyEvents, generateTickEvent_switches, before]
  unfold matrixTask
  dsimp only
  split
  · split
    · exact @foldl_invariant _ _ _ Processed row _ before _
    · exact ticked
  · exact ticked

end Pass

/-! ## Runs -/

section Run

variable {passes : List (Pass cfg)} {pass : Pass cfg}

theorem run_concat : run (passes ++ [pass]) = (matrixTask pass (run passes)).2 := List.foldl_append

theorem run_tracks (passes : List (Pass cfg)) : Tracks cfg (run passes).calls (bits (run passes).matrixPrevious) := by
  induction passes using List.reverseRecOn with
  | nil =>
    refine ⟨toggling_nil, List.forall_mem_nil _, ?_⟩
    intro row _ col _
    simp [run, bits, State.start, switches]
  | append_singleton passes pass ih =>
    rw [run_concat]
    exact matrixTask_tracks ih

/-- What the calls of a run say about the matrix. -/
structure Follows (passes : List (Pass cfg)) : Prop where
  /-- a key goes down only if it is up, and up only if it is down -/
  toggling : Toggling (switches (run passes).calls)
  inside : ∀ change ∈ switches (run passes).calls, change.1.1 < cfg.matrixRows ∧ change.1.2 < cfg.matrixCols
  /-- after a pass the calls have led to the matrix that it has read, but for the rows that it leaves for later -/
  current : ∀ before pass, passes = before ++ [pass] → ∀ row < cfg.matrixRows, ∀ col < cfg.matrixCols,
    replay (switches (run passes).calls) (row, col) =
      if pass.matrixCanRead = true ∧ hasGhostInRow cfg pass.matrix row (pass.matrix row) = false then
        (pass.matrix row).getLsbD col
      else replay (switches (run before).calls) (row, col)
  /-- each change is processed as an event -/
  processed : (∀ pass ∈ passes, pass.shouldProcessKeypress = true) →
    (keyEvents (run passes).calls).map KeyEvent.change = switches (run passes).calls

/-- In every run of the task the events of each key are presses and releases in turn, and replaying them gives the
matrix. -/
theorem matrixTask_follows (passes : List (Pass cfg)) : Follows passes where
  toggling := (run_tracks passes).toggling
  inside := (run_tracks passes).inside
  current := by
    rintro before pass rfl row rowInside col colInside
    rw [(run_tracks _).replayed row rowInside col colInside, (run_tracks before).replayed row rowInside col colInside,
      run_concat, bits, matrixTask_matrixPrevious rowInside]
    split
    · rfl
    · rfl
  processed := by
    intro every
    induction passes using List.reverseRecOn with
    | nil => rfl
    | append_singleton passes last ih =>
      rw [run_concat]
      exact matrixTask_processed (every last (by simp)) (ih fun pass member => every pass (List.mem_append_left _ member))

end Run

end QmkFirmware.Keyboard
