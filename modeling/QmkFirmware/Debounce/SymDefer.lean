import QmkFirmware.Debounce.Deferral

/-! # Symmetric deferred debounce per key

A shallow embedding of `quantum/debounce/sym_defer_pk.c`.  A key that differs from its
cooked bit starts a counter, and the bit follows when the counter runs out; a key that
comes back stops its counter.
-/

namespace QmkFirmware.Debounce.SymDefer

open QmkFirmware.Sweep QmkFirmware.Bits

variable {width : Nat}

/-! ## Model -/

def expireKey (raw : Nat → BitVec width) (elapsedTime : UInt8) (row : Nat) (p : Pass UInt8 width)
    (col : Nat) : Pass UInt8 width :=
  let counter := p.debounceCounters row col
  if counter ≠ debounceElapsed then
    if counter ≤ elapsedTime then (p.setCounter row col debounceElapsed).transferBit raw row col
    else { p.setCounter row col (counter - elapsedTime) with countersNeedUpdate := true }
  else p

def updateDebounceCountersAndTransferIfExpired (grid : Grid width) (raw : Nat → BitVec width)
    (elapsedTime : UInt8) (p : Pass UInt8 width) : Pass UInt8 width :=
  grid.visit (expireKey raw elapsedTime) { p with countersNeedUpdate := false }

def startKey (grid : Grid width) (delta : BitVec width) (row : Nat) (p : Pass UInt8 width) (col : Nat) :
    Pass UInt8 width :=
  if delta &&& BitVec.ofNat width 1 <<< col ≠ 0 then
    if p.debounceCounters row col = debounceElapsed then
      { p.setCounter row col grid.debounce with countersNeedUpdate := true }
    else p
  else p.setCounter row col debounceElapsed

def startDebounceCounters (grid : Grid width) (raw : Nat → BitVec width) (p : Pass UInt8 width) :
    Pass UInt8 width :=
  (List.range grid.numRows).foldl
    (fun p row =>
      let delta := raw row ^^^ p.cooked row
      (List.range grid.matrixCols).foldl (startKey grid delta row) p) p

def debounce (grid : Grid width) : Algorithm UInt8 width := fun now raw changed p =>
  deferredCall (updateDebounceCountersAndTransferIfExpired grid raw) (fun _ => false)
    (startDebounceCounters grid raw) now changed p

/-- The counters that `debounce_init` leaves. -/
def resting (_row _col : Nat) : UInt8 := debounceElapsed

/-! ## Passes -/

/-- What the first pass does to a key, given its raw bit. -/
def expireBit (elapsedTime : UInt8) (raw : Bool) (key : UInt8 × Bool) : UInt8 × Bool :=
  (countDown elapsedTime key.1, if key.1 ≠ debounceElapsed ∧ key.1 ≤ elapsedTime then raw else key.2)

/-- What the second pass does to a key, given its raw bit. -/
def startBit (grid : Grid width) (raw : Bool) (key : UInt8 × Bool) : UInt8 × Bool :=
  (if raw ≠ key.2 then if key.1 = debounceElapsed then grid.debounce else key.1 else debounceElapsed,
    key.2)

/-- The cases of a visit in the first pass. -/
inductive ExpireStep (raw : Nat → BitVec width) (elapsedTime : UInt8) (row col : Nat)
    (p : Pass UInt8 width) : Pass UInt8 width → Prop where
  | rests (rest : (p.part (row, col)).1 = debounceElapsed) : ExpireStep raw elapsedTime row col p p
  | expires (running : (p.part (row, col)).1 ≠ debounceElapsed) (expired : (p.part (row, col)).1 ≤ elapsedTime) :
      ExpireStep raw elapsedTime row col p ((p.setCounter row col debounceElapsed).transferBit raw row col)
  | goesOn (later : elapsedTime < (p.part (row, col)).1) :
      ExpireStep raw elapsedTime row col p
        { p.setCounter row col ((p.part (row, col)).1 - elapsedTime) with countersNeedUpdate := true }

/-- The cases of a visit in the second pass. -/
inductive StartStep (grid : Grid width) (raw : Nat → BitVec width) (row col : Nat)
    (p : Pass UInt8 width) : Pass UInt8 width → Prop where
  | starts (differs : (raw row).getLsbD col ≠ (p.part (row, col)).2)
      (rest : (p.part (row, col)).1 = debounceElapsed) :
      StartStep grid raw row col p { p.setCounter row col grid.debounce with countersNeedUpdate := true }
  | goesOn (differs : (raw row).getLsbD col ≠ (p.part (row, col)).2)
      (running : (p.part (row, col)).1 ≠ debounceElapsed) : StartStep grid raw row col p p
  | stops (same : (raw row).getLsbD col = (p.part (row, col)).2) :
      StartStep grid raw row col p (p.setCounter row col debounceElapsed)

section

variable {grid : Grid width} (raw : Nat → BitVec width)

theorem expireKey_step (elapsedTime : UInt8) (row col : Nat) (p : Pass UInt8 width) :
    ExpireStep raw elapsedTime row col p (expireKey raw elapsedTime row p col) := by
  simp only [expireKey]
  by_cases running : p.debounceCounters row col ≠ debounceElapsed
  · rw [if_pos running]
    by_cases expired : p.debounceCounters row col ≤ elapsedTime
    · rw [if_pos expired]
      exact .expires running expired
    · rw [if_neg expired]
      exact .goesOn (UInt8.not_le.mp expired)
  · rw [if_neg running]
    exact .rests (not_not.mp running)

theorem expireKey_local (elapsedTime : UInt8) :
    VisitsLocally (expireKey raw elapsedTime)
      (fun key => expireBit elapsedTime ((raw key.1).getLsbD key.2)) where
  own p key := by
    obtain ⟨row, col⟩ := key
    have step := expireKey_step raw elapsedTime row col p
    simp only [expireBit, countDown]
    generalize expireKey raw elapsedTime row p col = next at step ⊢
    cases step with
    | rests rest => exact Prod.ext (by simp [rest, debounceElapsed]) (by simp [rest])
    | expires running expired => simp [running, expired]
    | goesOn later => simp [UInt8.not_le.mpr later]
  other p key other apart := by
    have step := expireKey_step raw elapsedTime key.1 key.2 p
    generalize expireKey raw elapsedTime key.1 p key.2 = next at step ⊢
    cases step with
    | rests => rfl
    | expires => simp [apart.symm]
    | goesOn => simp [apart.symm]

/-- The flags after a visit: a counter that goes on, and a bit that changes. -/
theorem expireKey_flags (elapsedTime : UInt8) (p : Pass UInt8 width) (row col : Nat) :
    ((expireKey raw elapsedTime row p col).countersNeedUpdate = true ↔
      p.countersNeedUpdate = true ∨ elapsedTime < (p.part (row, col)).1) ∧
    ((expireKey raw elapsedTime row p col).cookedChanged = true ↔ p.cookedChanged = true ∨
      (expireBit elapsedTime ((raw row).getLsbD col) (p.part (row, col))).2 ≠ (p.part (row, col)).2) := by
  have step := expireKey_step raw elapsedTime row col p
  simp only [expireBit]
  generalize expireKey raw elapsedTime row p col = next at step ⊢
  cases step with
  | rests rest => simp [rest, debounceElapsed]
  | expires running expired =>
    simp only [cookedChanged_transferBit, part_setCounter]
    simp [running, expired, UInt8.not_lt.mpr expired, setCounter_cookedChanged, transferBit_countersNeedUpdate,
      setCounter_countersNeedUpdate]
  | goesOn later => simp [UInt8.not_le.mpr later, later, setCounter_cookedChanged]

theorem startKey_step (grid : Grid width) (row col : Nat) (p : Pass UInt8 width) :
    StartStep grid raw row col p (startKey grid (raw row ^^^ p.cooked row) row p col) := by
  have differs : (raw row ^^^ p.cooked row) &&& BitVec.ofNat width 1 <<< col ≠ 0 ↔
      (raw row).getLsbD col ≠ (p.part (row, col)).2 := by
    rw [and_mask_ne_zero, BitVec.getLsbD_xor, bne_iff_ne]
    rfl
  rw [startKey]
  by_cases changed : (raw row ^^^ p.cooked row) &&& BitVec.ofNat width 1 <<< col ≠ 0
  · rw [if_pos changed]
    by_cases rest : p.debounceCounters row col = debounceElapsed
    · rw [if_pos rest]
      exact .starts (differs.mp changed) rest
    · rw [if_neg rest]
      exact .goesOn (differs.mp changed) rest
  · rw [if_neg changed]
    exact .stops (not_not.mp fun other => changed (differs.mpr other))

/-- The second pass, with the difference looked up at each key. -/
def startVisit (grid : Grid width) (raw : Nat → BitVec width) (row : Nat) (p : Pass UInt8 width) (col : Nat) :
    Pass UInt8 width :=
  startKey grid (raw row ^^^ p.cooked row) row p col

theorem startVisit_local (grid : Grid width) :
    VisitsLocally (startVisit grid raw) (fun key => startBit grid ((raw key.1).getLsbD key.2)) where
  own p key := by
    obtain ⟨row, col⟩ := key
    have step := startKey_step raw grid row col p
    simp only [startBit, startVisit]
    generalize startKey grid (raw row ^^^ p.cooked row) row p col = next at step ⊢
    cases step with
    | starts differs rest => simp [differs, rest]
    | goesOn differs running => exact Prod.ext (by simp [differs, running]) rfl
    | stops same => simp [same]
  other p key other apart := by
    have step := startKey_step raw grid key.1 key.2 p
    simp only [startVisit]
    generalize startKey grid (raw key.1 ^^^ p.cooked key.1) key.1 p key.2 = next at step ⊢
    cases step with
    | starts => simp [apart.symm]
    | goesOn => rfl
    | stops => simp [apart.symm]

/-- A visit of the second pass leaves the rest of the state alone. -/
theorem startVisit_keeps (grid : Grid width) (row : Nat) (p : Pass UInt8 width) (col : Nat) :
    (startVisit grid raw row p col).cooked = p.cooked ∧
    (startVisit grid raw row p col).cookedChanged = p.cookedChanged ∧
    (startVisit grid raw row p col).lastTime = p.lastTime := by
  have step := startKey_step raw grid row col p
  rw [startVisit]
  generalize startKey grid (raw row ^^^ p.cooked row) row p col = next at step ⊢
  cases step <;> exact ⟨rfl, rfl, rfl⟩

/-- No visit of the second pass changes the cooked matrix, so that the difference of a row is
the same for all of its keys. -/
theorem startDebounceCounters_eq (grid : Grid width) (p : Pass UInt8 width) :
    startDebounceCounters grid raw p = grid.visit (startVisit grid raw) p := by
  have inner : ∀ (row : Nat) (cols : List Nat) (p : Pass UInt8 width),
      cols.foldl (startKey grid (raw row ^^^ p.cooked row) row) p = cols.foldl (startVisit grid raw row) p := by
    intro row cols
    induction cols with
    | nil => exact fun p => rfl
    | cons col cols ih =>
      intro p
      have same := congrFun (startVisit_keeps raw grid row p col).1 row
      rw [List.foldl_cons, List.foldl_cons, ← ih, same]
      rfl
  rw [startDebounceCounters, Grid.visit]
  simp only [inner]

theorem startVisit_flags (grid : Grid width) (p : Pass UInt8 width) (row col : Nat) :
    (startVisit grid raw row p col).countersNeedUpdate = true ↔ p.countersNeedUpdate = true ∨
      (raw row).getLsbD col ≠ (p.part (row, col)).2 ∧ (p.part (row, col)).1 = debounceElapsed := by
  have step := startKey_step raw grid row col p
  simp only [startVisit]
  generalize startKey grid (raw row ^^^ p.cooked row) row p col = next at step ⊢
  cases step with
  | starts differs rest => simp [differs, rest]
  | goesOn differs running => simp [running]
  | stops same => simp [same, setCounter_countersNeedUpdate]

end

/-! ## One key -/

/-- A running counter that the time has reached lets the raw bit pass. -/
def expire (raw : Bool) (elapsed : Nat) (key : KeyState) : KeyState where
  cooked := if key.counter ≠ 0 ∧ key.counter ≤ elapsed then raw else key.cooked
  counter := key.counter - elapsed

/-- The counter starts with a difference, and stops when the difference is gone. -/
def restart (time : Nat) (raw : Bool) (key : KeyState) : KeyState where
  cooked := key.cooked
  counter := if raw = key.cooked then 0 else if key.counter = 0 then time else key.counter

/-- The counter runs while the raw bit and the cooked bit differ. -/
def Pending (raw : Bool) (key : KeyState) : Prop := key.counter ≠ 0 ↔ raw ≠ key.cooked

/-- What a call does to a key of which the counter is within the time. -/
inductive DeferStep (time : Nat) (raw : Bool) (elapsed : Nat) (key : KeyState) : KeyState → Prop where
  | agrees (same : raw = key.cooked) : DeferStep time raw elapsed key ⟨raw, 0⟩
  | transfers (differs : raw ≠ key.cooked) (running : key.counter ≠ 0) (expired : key.counter ≤ elapsed) :
      DeferStep time raw elapsed key ⟨raw, 0⟩
  | starts (differs : raw ≠ key.cooked) (rest : key.counter = 0) :
      DeferStep time raw elapsed key ⟨key.cooked, time⟩
  | waits (differs : raw ≠ key.cooked) (later : elapsed < key.counter) :
      DeferStep time raw elapsed key ⟨key.cooked, key.counter - elapsed⟩

theorem defer_step (time : Nat) (raw : Bool) (elapsed : Nat) (key : KeyState) :
    DeferStep time raw elapsed key (restart time raw (expire raw elapsed key)) := by
  rw [restart, expire]
  by_cases same : raw = key.cooked
  · simpa [← same] using DeferStep.agrees same
  by_cases rest : key.counter = 0
  · simpa [rest, same] using DeferStep.starts same rest
  by_cases expired : key.counter ≤ elapsed
  · simpa [rest, expired] using DeferStep.transfers same rest expired
  · have later := Nat.lt_of_not_le expired
    have left : ¬key.counter - elapsed = 0 := by omega
    simpa [expired, same, left] using DeferStep.waits same later

theorem expire_rest {raw : Bool} {elapsed : Nat} {key : KeyState} (rest : key.counter = 0) :
    expire raw elapsed key = key := by
  obtain ⟨cooked, counter⟩ := key
  subst rest
  simp [expire]

theorem expire_zero (raw : Bool) (key : KeyState) : expire raw 0 key = key := by
  obtain ⟨cooked, counter⟩ := key
  simp [expire]

theorem Pending.expire {raw : Bool} {key : KeyState} (pending : Pending raw key) (elapsed : Nat) :
    Pending raw (expire raw elapsed key) := by
  rw [Pending, SymDefer.expire]
  by_cases rest : key.counter = 0
  · have same : raw = key.cooked := not_not.mp fun differs => pending.mpr differs rest
    simp [rest, same]
  · by_cases expired : key.counter ≤ elapsed
    · simp [rest, expired]
    · have left : key.counter - elapsed ≠ 0 := by omega
      simp [expired, left, pending.mp rest]

theorem Pending.restart_eq {raw : Bool} {key : KeyState} (pending : Pending raw key) (time : Nat) :
    restart time raw key = key := by
  obtain ⟨cooked, counter⟩ := key
  rw [restart]
  by_cases same : raw = cooked
  · have rest : counter = 0 := not_not.mp fun runs => pending.mp runs same
    simp [same, rest]
  · simp [same, pending.mpr same]

/-! ## Calls -/

def keyOf (part : UInt8 × Bool) : KeyState := ⟨part.2, part.1.toNat⟩

theorem keyOf_expireBit (elapsed : UInt32) (raw : Bool) (part : UInt8 × Bool) :
    keyOf (expireBit (clip elapsed) raw part) = expire raw elapsed.toNat (keyOf part) := by
  have counter := countDown_clipped elapsed part.1
  have rest : part.1 ≠ debounceElapsed ↔ part.1.toNat ≠ 0 := not_congr UInt8.toNat_inj.symm
  rw [← clip] at counter
  exact congrArg₂ KeyState.mk (if_congr (and_congr rest (le_clip_iff _ _)) rfl rfl) counter

theorem keyOf_startBit (grid : Grid width) (raw : Bool) (part : UInt8 × Bool) :
    keyOf (startBit grid raw part) = restart grid.debounce.toNat raw (keyOf part) := by
  have rest : part.1 = debounceElapsed ↔ part.1.toNat = 0 := UInt8.toNat_inj.symm
  simp only [keyOf, startBit, restart, rest]
  by_cases same : raw = part.2
  · simp [same, debounceElapsed]
  · by_cases stopped : part.1.toNat = 0
    · simp [same, stopped]
    · simp [same, stopped]

/-- What a pass does to the keys, with its flags. -/
abbrev Effect (grid : Grid width) (effect : Nat → Nat → KeyState → KeyState) (p next : Pass UInt8 width) : Prop :=
  PassEffect keyOf (fun key => key.counter ≠ 0) grid effect p next

theorem update_effect (grid : Grid width) (raw : Nat → BitVec width) (elapsed : UInt32)
    {p : Pass UInt8 width} (unchanged : p.cookedChanged = false) :
    Effect grid (fun row col => expire ((raw row).getLsbD col) elapsed.toNat) p
      (updateDebounceCountersAndTransferIfExpired grid raw (clip elapsed) p) := by
  have visits := expireKey_local raw (clip elapsed)
  have part {row col : Nat} (key : grid.Key row col) :=
    visit_part visits key { p with countersNeedUpdate := false }
  constructor
  case key =>
    intro row col key
    rw [updateDebounceCountersAndTransferIfExpired, part key, keyOf_expireBit]
    rfl
  case outside =>
    intro row col outside
    rw [updateDebounceCountersAndTransferIfExpired, visit_part_outside visits outside]
    rfl
  case flagged =>
    intro row col key runs
    have flag := visit_flag grid visits (fun p => p.countersNeedUpdate = true)
      (fun _ part => clip elapsed < part.1) (fun p row col => (expireKey_flags raw _ p row col).1)
    rw [updateDebounceCountersAndTransferIfExpired, part key] at runs
    rw [updateDebounceCountersAndTransferIfExpired, flag]
    refine .inr ⟨row, col, key, UInt8.not_le.mp fun expired => runs ?_⟩
    simp only [keyOf, expireBit, countDown, if_pos expired]
    rfl
  case changed =>
    have flag := visit_flag grid visits (fun p => p.cookedChanged = true)
      (fun key part => (expireBit (clip elapsed) ((raw key.1).getLsbD key.2) part).2 ≠ part.2)
      (fun p row col => (expireKey_flags raw _ p row col).2)
    rw [updateDebounceCountersAndTransferIfExpired, flag, or_iff_right (by simp [unchanged])]
    refine exists_congr fun row => exists_congr fun col => and_congr_right fun key => ?_
    rw [part key]
    rfl

/-- The second pass starts and stops counters, and leaves the cooked matrix alone. -/
theorem start_effect (grid : Grid width) (raw : Nat → BitVec width) {effect : Nat → Nat → KeyState → KeyState}
    {p next : Pass UInt8 width} (before : Effect grid effect p next) :
    Effect grid (fun row col key => restart grid.debounce.toNat ((raw row).getLsbD col) (effect row col key)) p
      (startDebounceCounters grid raw next) := by
  have visits := startVisit_local raw grid
  have part {row col : Nat} (key : grid.Key row col) := visit_part visits key next
  rw [startDebounceCounters_eq]
  constructor
  case key =>
    intro row col key
    rw [part key, keyOf_startBit, before.key row col key]
  case outside =>
    intro row col outside
    rw [visit_part_outside visits outside, before.outside row col outside]
  case flagged =>
    intro row col key runs
    have flag := visit_flag grid visits (fun p => p.countersNeedUpdate = true)
      (fun key part => (raw key.1).getLsbD key.2 ≠ part.2 ∧ part.1 = debounceElapsed) (startVisit_flags raw grid)
    rw [part key, keyOf_startBit, restart] at runs
    rw [flag]
    by_cases rest : (next.part (row, col)).1 = debounceElapsed
    · refine .inr ⟨row, col, key, fun same => runs ?_, rest⟩
      exact if_pos same
    · exact .inl (before.flagged row col key fun zero => rest (UInt8.toNat_inj.mp zero))
  case changed =>
    have kept : (grid.visit (startVisit grid raw) next).cookedChanged = next.cookedChanged :=
      visit_keeps (fun p => p.cookedChanged = next.cookedChanged)
        (fun p row col same => (startVisit_keeps raw grid row p col).2.1.trans same) rfl
    rw [kept, before.changed]
    refine exists_congr fun row => exists_congr fun col => and_congr_right fun key => ?_
    rw [part key]
    rfl

theorem update_lastTime (grid : Grid width) (raw : Nat → BitVec width) (elapsedTime : UInt8)
    (p : Pass UInt8 width) :
    (updateDebounceCountersAndTransferIfExpired grid raw elapsedTime p).lastTime = p.lastTime := by
  refine visit_keeps (fun next => next.lastTime = p.lastTime) (fun next row col same => ?_) rfl
  have step := expireKey_step raw elapsedTime row col next
  generalize expireKey raw elapsedTime row next col = after at step ⊢
  cases step <;> exact same

theorem start_lastTime (grid : Grid width) (raw : Nat → BitVec width) (p : Pass UInt8 width) :
    (startDebounceCounters grid raw p).lastTime = p.lastTime := by
  rw [startDebounceCounters_eq]
  exact visit_keeps (fun next => next.lastTime = p.lastTime)
    (fun next row col same => (startVisit_keeps raw grid row next col).2.2.trans same) rfl

def key (s : Scan UInt8 width) (row col : Nat) : KeyState := keyOf (s.pass.part (row, col))

/-- The invariant of the calls. -/
structure Consistent (grid : Grid width) (s : Scan UInt8 width) : Prop where
  pending : ∀ row col, grid.Key row col → Pending (s.rawBit row col) (key s row col)
  bounded : ∀ row col, grid.Key row col → (key s row col).counter ≤ grid.debounce.toNat
  flagged : ∀ row col, grid.Key row col → (key s row col).counter ≠ 0 → s.pass.countersNeedUpdate = true
  clock : s.pass.countersNeedUpdate = true → s.pass.lastTime = s.now

section

variable {grid : Grid width} {s : Scan UInt8 width} {call : Call width}

/-- The first half of a call counts down, whether or not a counter runs. -/
theorem advance_effect (consistent : Consistent grid s) (raw : Nat → BitVec width) (elapsed : UInt32) :
    let advanced := advance (updateDebounceCountersAndTransferIfExpired grid raw) (s.now + elapsed)
      { s.pass with cookedChanged := false }
    Effect grid (fun row col => expire ((raw row).getLsbD col) elapsed.toNat) s.pass advanced.1 ∧
    (advanced.2 = false → advanced.1.countersNeedUpdate = false) ∧
    (advanced.2 = true → advanced.1.lastTime = s.now + elapsed) := by
  have step := advance_step (updateDebounceCountersAndTransferIfExpired grid raw) elapsed
    (p := { s.pass with cookedChanged := false }) consistent.clock
  intro advanced
  change AdvanceStep _ _ _ _ advanced at step
  generalize advanced = next at step ⊢
  cases step with
  | idle resting =>
    refine ⟨⟨?_, fun _ _ _ => rfl, consistent.flagged, by simp⟩, fun _ => resting, nofun⟩
    intro row col inside
    -- no counter runs
    have rest : (key s row col).counter = 0 := not_not.mp fun runs =>
      Bool.eq_false_iff.mp resting (consistent.flagged row col inside runs)
    exact (expire_rest rest).symm
  | still running zero =>
    refine ⟨⟨?_, fun _ _ _ => rfl, consistent.flagged, ?_⟩, nofun, fun _ => rfl⟩
    · intro row col inside
      rw [zero, expire_zero]
      rfl
    · simp
      exact fun _ _ _ => rfl
  | counts running =>
    have effect := update_effect grid raw elapsed
      (p := { s.pass with cookedChanged := false, lastTime := s.now + elapsed }) rfl
    exact ⟨⟨effect.key, effect.outside, effect.flagged, effect.changed⟩, nofun,
      fun _ => update_lastTime grid raw _ _⟩

/-- A call takes each key through its machine. -/
theorem call_effect (consistent : Consistent grid s) (announced : s.Announced grid call) :
    Effect grid
      (fun row col key => restart grid.debounce.toNat ((call.raw row).getLsbD col)
        (expire ((call.raw row).getLsbD col) call.elapsed.toNat key))
      s.pass (s.call (debounce grid) call).pass ∧
    ((s.call (debounce grid) call).pass.countersNeedUpdate = true →
      (s.call (debounce grid) call).pass.lastTime = s.now + call.elapsed) := by
  obtain ⟨effect, idle, clock⟩ := advance_effect consistent call.raw call.elapsed
  simp only [Scan.call, debounce, deferredCall]
  generalize advance (updateDebounceCountersAndTransferIfExpired grid call.raw) (s.now + call.elapsed)
    { s.pass with cookedChanged := false } = advanced at effect idle clock ⊢
  obtain ⟨next, updatedLast⟩ := advanced
  cases changed : call.changed with
  | true =>
    cases updatedLast with
    | true => exact ⟨start_effect grid call.raw effect, fun _ => (start_lastTime grid call.raw next).trans (clock rfl)⟩
    | false =>
      have timed : Effect grid _ s.pass { next with lastTime := s.now + call.elapsed } :=
        ⟨effect.key, effect.outside, effect.flagged, effect.changed⟩
      exact ⟨start_effect grid call.raw timed, fun _ => start_lastTime grid call.raw _⟩
  | false =>
    refine ⟨⟨fun row col inside => ?_, effect.outside, effect.flagged, effect.changed⟩, fun running => ?_⟩
    · -- the raw matrix is that of the last call, so that no counter has to be started or stopped
      have pending := consistent.pending row col inside
      rw [Scan.rawBit, ← announced.same changed inside.1] at pending
      exact (effect.key row col inside).trans ((pending.expire _).restart_eq _).symm
    · cases updatedLast with
      | true => exact clock rfl
      | false => exact absurd running (Bool.eq_false_iff.mp (idle rfl))

theorem call_key (consistent : Consistent grid s) (announced : s.Announced grid call) {row col : Nat}
    (inside : grid.Key row col) :
    DeferStep grid.debounce.toNat ((call.raw row).getLsbD col) call.elapsed.toNat (key s row col)
      (key (s.call (debounce grid) call) row col) := by
  rw [key, key, (call_effect consistent announced).1.key row col inside]
  exact defer_step _ _ _ _

theorem call_consistent (announced : s.Announced grid call) (consistent : Consistent grid s) :
    Consistent grid (s.call (debounce grid) call) := by
  have step {row col : Nat} (inside : grid.Key row col) := call_key consistent announced inside
  constructor
  case pending =>
    intro row col inside
    have step := step inside
    change Pending ((call.raw row).getLsbD col) _
    generalize key (s.call (debounce grid) call) row col = next at step ⊢
    rw [Pending]
    cases step with
    | agrees same => simp
    | transfers => simp
    | starts differs => simp [differs, Nat.ne_of_gt grid.positive]
    | waits differs later => simp [differs, Nat.ne_of_gt (Nat.sub_pos_of_lt later)]
  case bounded =>
    intro row col inside
    have step := step inside
    have bounded := consistent.bounded row col inside
    generalize key (s.call (debounce grid) call) row col = next at step ⊢
    cases step with
    | agrees same => exact Nat.zero_le _
    | transfers => exact Nat.zero_le _
    | starts differs => exact Nat.le_refl _
    | waits differs later => exact (Nat.sub_le _ _).trans bounded
  case flagged => exact (call_effect consistent announced).1.flagged
  case clock => exact (call_effect consistent announced).2

end

theorem start_consistent (grid : Grid width) (matrix : Nat → BitVec width) (lastTime now : UInt32) :
    Consistent grid (.start resting matrix lastTime now) where
  pending _ _ _ := by
    constructor
    · exact fun runs => absurd rfl runs
    · exact fun differs => absurd rfl differs
  bounded _ _ _ := Nat.zero_le _
  flagged _ _ _ runs := absurd rfl runs
  clock := nofun

/-! ## The contract -/

/-- What the debouncer promises of a sequence of calls. -/
structure Contract (grid : Grid width) (start : Scan UInt8 width) (calls : List (Call width)) : Prop where
  /-- The result of a call tells whether it has changed the cooked matrix. -/
  result : ResultsTell (debounce grid) start calls grid
  /-- A bit changes only if the raw bit has differed for the debounce time. -/
  deferred : ∀ row col, grid.Key row col → ∀ j < calls.length,
    (scanAfter (debounce grid) start calls (j + 1)).cookedBit row col ≠
      (scanAfter (debounce grid) start calls j).cookedBit row col →
    ∃ i ≤ j, grid.debounce.toNat ≤ elapsedBetween calls i j ∧ ∀ n, i ≤ n → n ≤ j →
      (scanAfter (debounce grid) start calls (n + 1)).rawBit row col ≠
        (scanAfter (debounce grid) start calls n).cookedBit row col
  /-- A raw bit that is stable for the debounce time is transferred. -/
  transferred : ∀ row col, grid.Key row col → ∀ i j, i ≤ j → j < calls.length → ∀ bit,
    (∀ n, i ≤ n → n ≤ j → (scanAfter (debounce grid) start calls (n + 1)).rawBit row col = bit) →
    grid.debounce.toNat ≤ elapsedBetween calls i j →
    (scanAfter (debounce grid) start calls (j + 1)).cookedBit row col = bit

section

variable {grid : Grid width} {start : Scan UInt8 width} {calls : List (Call width)}
  (initial : Consistent grid start) (announced : ScansAnnounced (debounce grid) start calls grid)

include initial announced

theorem scanAfter_consistent (n : Nat) : Consistent grid (scanAfter (debounce grid) start calls n) :=
  scanAfter_invariant initial announced (fun _ _ announces => call_consistent announces) n

theorem scanAfter_key {row col : Nat} (inside : grid.Key row col) {n : Nat} (bound : n < calls.length) :
    DeferStep grid.debounce.toNat ((scanAfter (debounce grid) start calls (n + 1)).rawBit row col)
      calls[n].elapsed.toNat (key (scanAfter (debounce grid) start calls n) row col)
      (key (scanAfter (debounce grid) start calls (n + 1)) row col) := by
  rw [scanAfter_succ bound]
  exact call_key (scanAfter_consistent initial announced n) (announced n bound) inside

theorem results_tell : ResultsTell (debounce grid) start calls grid := by
  intro n bound
  have effect := (call_effect (scanAfter_consistent initial announced n) (announced n bound)).1
  rw [scanAfter_succ bound, effect.changed, ← cooked_ne_iff effect.outside]

/-- A counter that runs has been started by a call since which the raw bit has differed. -/
theorem started_since {row col : Nat} (inside : grid.Key row col)
    (rest : (key start row col).counter = 0) {n : Nat} (bound : n < calls.length)
    (runs : (key (scanAfter (debounce grid) start calls (n + 1)) row col).counter ≠ 0) :
    ∃ i ≤ n, grid.debounce.toNat =
        (key (scanAfter (debounce grid) start calls (n + 1)) row col).counter + elapsedBetween calls i n ∧
      ∀ m, i ≤ m → m ≤ n → (scanAfter (debounce grid) start calls (m + 1)).rawBit row col ≠
        (scanAfter (debounce grid) start calls m).cookedBit row col := by
  -- by induction on the calls; a counter that goes on has the same start as before
  induction n with
  | zero =>
    have step := scanAfter_key initial announced inside bound
    generalize key (scanAfter (debounce grid) start calls (0 + 1)) row col = next at step runs ⊢
    cases step with
    | agrees => exact absurd rfl runs
    | transfers => exact absurd rfl runs
    | starts differs =>
      refine ⟨0, Nat.le_refl 0, by rw [elapsedBetween_self]; rfl, fun m _ last => ?_⟩
      obtain rfl := Nat.le_zero.mp last
      exact differs
    | waits differs later => exact absurd (rest ▸ later) (Nat.not_lt_zero _)
  | succ n ih =>
    have step := scanAfter_key initial announced inside bound
    generalize key (scanAfter (debounce grid) start calls (n + 1 + 1)) row col = next at step runs ⊢
    cases step with
    | agrees => exact absurd rfl runs
    | transfers => exact absurd rfl runs
    | starts differs =>
      refine ⟨n + 1, Nat.le_refl _, by rw [elapsedBetween_self]; rfl, fun m first last => ?_⟩
      obtain rfl := Nat.le_antisymm last first
      exact differs
    | waits differs later =>
      obtain ⟨i, order, total, differed⟩ := ih (Nat.lt_of_succ_lt bound) (Nat.ne_of_gt (Nat.zero_lt_of_lt later))
      refine ⟨i, Nat.le_succ_of_le order, ?_, fun m first last => ?_⟩
      · rw [elapsedBetween_succ order bound]
        simp only
        omega
      · rcases Nat.le_succ_iff.mp last with earlier | rfl
        · exact differed m first earlier
        · exact differs

theorem changes_deferred {row col : Nat} (inside : grid.Key row col)
    (rest : (key start row col).counter = 0) {j : Nat} (bound : j < calls.length)
    (changes : (scanAfter (debounce grid) start calls (j + 1)).cookedBit row col ≠
      (scanAfter (debounce grid) start calls j).cookedBit row col) :
    ∃ i ≤ j, grid.debounce.toNat ≤ elapsedBetween calls i j ∧ ∀ n, i ≤ n → n ≤ j →
      (scanAfter (debounce grid) start calls (n + 1)).rawBit row col ≠
        (scanAfter (debounce grid) start calls n).cookedBit row col := by
  have step := scanAfter_key initial announced inside bound
  change (key (scanAfter (debounce grid) start calls (j + 1)) row col).cooked ≠ _ at changes
  generalize key (scanAfter (debounce grid) start calls (j + 1)) row col = next at step changes
  cases step with
  | agrees same => exact absurd same changes
  | starts => exact absurd rfl changes
  | waits => exact absurd rfl changes
  | transfers differs running expired =>
    cases j with
    | zero => exact absurd rest running
    | succ n =>
      obtain ⟨i, order, total, differed⟩ :=
        started_since initial announced inside rest (Nat.lt_of_succ_lt bound) running
      refine ⟨i, Nat.le_succ_of_le order, ?_, fun m first last => ?_⟩
      · rw [elapsedBetween_succ order bound]
        omega
      · rcases Nat.le_succ_iff.mp last with earlier | rfl
        · exact differed m first earlier
        · exact differs

/-- While a stable raw bit has not been transferred, its counter has started at the latest with
the first call. -/
theorem counter_left {row col : Nat} (inside : grid.Key row col) {i j : Nat} (order : i ≤ j)
    (bound : j < calls.length) {bit : Bool}
    (stable : ∀ n, i ≤ n → n ≤ j → (scanAfter (debounce grid) start calls (n + 1)).rawBit row col = bit)
    (waiting : (scanAfter (debounce grid) start calls (j + 1)).cookedBit row col ≠ bit) :
    (key (scanAfter (debounce grid) start calls (j + 1)) row col).counter + elapsedBetween calls i j ≤
      grid.debounce.toNat := by
  induction j, order using Nat.le_induction with
  | base =>
    rw [elapsedBetween_self]
    exact (scanAfter_consistent initial announced (i + 1)).bounded row col inside
  | succ j order ih =>
    have step := scanAfter_key initial announced inside bound
    rw [stable (j + 1) (Nat.le_succ_of_le order) (Nat.le_refl _)] at step
    have earlier := ih (Nat.lt_of_succ_lt bound) fun n first last => stable n first (Nat.le_succ_of_le last)
    change (key (scanAfter (debounce grid) start calls (j + 1 + 1)) row col).cooked ≠ bit at waiting
    generalize key (scanAfter (debounce grid) start calls (j + 1 + 1)) row col = next at step waiting ⊢
    rw [elapsedBetween_succ order bound]
    cases step with
    | agrees => exact absurd rfl waiting
    | transfers => exact absurd rfl waiting
    | starts differs rest =>
      -- the counter runs already, since the raw bit has been the same
      have pending := (scanAfter_consistent initial announced (j + 1)).pending row col inside
      rw [stable j order (Nat.le_succ j)] at pending
      exact absurd rest (pending.mpr differs)
    | waits differs later =>
      have earlier := earlier waiting
      simp only
      omega

theorem stable_transferred {row col : Nat} (inside : grid.Key row col) {i j : Nat} (order : i ≤ j)
    (bound : j < calls.length) {bit : Bool}
    (stable : ∀ n, i ≤ n → n ≤ j → (scanAfter (debounce grid) start calls (n + 1)).rawBit row col = bit)
    (enough : grid.debounce.toNat ≤ elapsedBetween calls i j) :
    (scanAfter (debounce grid) start calls (j + 1)).cookedBit row col = bit := by
  by_contra waiting
  have left := counter_left initial announced inside order bound stable waiting
  have pending := (scanAfter_consistent initial announced (j + 1)).pending row col inside
  rw [stable j order (Nat.le_refl j)] at pending
  have runs := pending.mpr (Ne.symm waiting)
  omega

end

/-- From a state at rest, every sequence of calls that announces the changes of the raw matrix
meets the contract. -/
theorem debounce_deferred (grid : Grid width) (matrix : Nat → BitVec width) (lastTime now : UInt32)
    (calls : List (Call width))
    (announced : ScansAnnounced (debounce grid) (.start resting matrix lastTime now) calls grid) :
    Contract grid (.start resting matrix lastTime now) calls where
  result := results_tell (start_consistent grid matrix lastTime now) announced
  deferred _ _ inside _ bound changes :=
    changes_deferred (start_consistent grid matrix lastTime now) announced inside rfl bound changes
  transferred _ _ inside _ _ order bound _ stable enough :=
    stable_transferred (start_consistent grid matrix lastTime now) announced inside order bound stable enough

/-- The keyboard of the test suite. -/
def testGrid : Grid 16 := ⟨4, 10, 5, show 0 < 5 by decide, Nat.le_add_right 10 6⟩

/-- The key bounces once when it goes down, and is let go early once before it comes up. -/
def oneKeyBounces : List (Call 16) :=
  [⟨oneKey true, 0, true⟩, ⟨oneKey false, 3, true⟩, ⟨oneKey true, 1, true⟩, ⟨oneKey true, 5, false⟩,
    ⟨oneKey false, 1, true⟩, ⟨oneKey true, 4, true⟩, ⟨oneKey false, 1, true⟩, ⟨oneKey false, 9, false⟩]

theorem oneKeyBounces_deferred :
    ((List.range 8).map fun n =>
        (scanAfter (debounce testGrid) (.start resting (fun _ => 0) 0 0) oneKeyBounces (n + 1)).cookedBit 0 1) =
      [false, false, false, true, true, true, true, false] ∧
    ScansAnnounced (debounce testGrid) (.start resting (fun _ => 0) 0 0) oneKeyBounces testGrid ∧
    Contract testGrid (.start resting (fun _ => 0) 0 0) oneKeyBounces := by
  have announced : ScansAnnounced (debounce testGrid) (.start resting (fun _ => 0) 0 0) oneKeyBounces testGrid := by
    decide
  exact ⟨by decide +kernel, announced, debounce_deferred testGrid _ _ _ oneKeyBounces announced⟩

end QmkFirmware.Debounce.SymDefer
