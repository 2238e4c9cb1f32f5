import QmkFirmware.Debounce.Deferral

/-! # Asymmetric debounce per key

A shallow embedding of `quantum/debounce/asym_eager_defer_pk.c`.  A key that goes down is
passed on at once and then locked for the debounce time; a key that comes up is passed on when
it has been up for the debounce time.  Both times are kept in one counter, which has a flag for
the one that it is.
-/

namespace QmkFirmware.Debounce.AsymEagerDefer

open QmkFirmware.Sweep QmkFirmware.Bits

variable {width : Nat}

/-! ## Model -/

/-- A counter has seven bits, and `DEBOUNCE` is at most 127. -/
structure AsymGrid (width : Nat) extends Grid width where
  small : debounce.toNat ≤ 127

structure Counter where
  pressed : Bool
  time : BitVec 7

def AsymGrid.time (grid : AsymGrid width) : BitVec 7 := BitVec.ofNat 7 grid.debounce.toNat

def expireKey (raw : Nat → BitVec width) (elapsedTime : UInt8) (row : Nat) (p : Pass Counter width)
    (col : Nat) : Pass Counter width :=
  let counter := p.debounceCounters row col
  if counter.time ≠ 0#7 then
    if counter.time.toNat ≤ elapsedTime.toNat then
      let p := p.setCounter row col { counter with time := 0#7 }
      -- key-down: eager, key-up: defer
      if counter.pressed then { p with matrixNeedUpdate := true } else p.transferBit raw row col
    else
      let time := counter.time - BitVec.ofNat 7 elapsedTime.toNat
      { p.setCounter row col { counter with time } with countersNeedUpdate := true }
  else p

def updateDebounceCountersAndTransferIfExpired (grid : AsymGrid width) (raw : Nat → BitVec width)
    (elapsedTime : UInt8) (p : Pass Counter width) : Pass Counter width :=
  grid.visit (expireKey raw elapsedTime) { p with countersNeedUpdate := false, matrixNeedUpdate := false }

def transferKey (grid : AsymGrid width) (raw delta : BitVec width) (row : Nat) (p : Pass Counter width)
    (col : Nat) : Pass Counter width :=
  let colMask : BitVec width := BitVec.ofNat width 1 <<< col
  let counter := p.debounceCounters row col
  if delta &&& colMask ≠ 0 then
    if counter.time = 0#7 then
      let pressed : Bool := raw &&& colMask ≠ 0
      let p := { p.setCounter row col ⟨pressed, grid.time⟩ with countersNeedUpdate := true }
      if pressed then { p.setRow row (p.cooked row ^^^ colMask) with cookedChanged := true } else p
    else p
  else if counter.time ≠ 0#7 then
    if !counter.pressed then p.setCounter row col { counter with time := 0#7 } else p
  else p

def transferMatrixValues (grid : AsymGrid width) (raw : Nat → BitVec width) (p : Pass Counter width) :
    Pass Counter width :=
  (List.range grid.numRows).foldl
    (fun p row =>
      let delta := raw row ^^^ p.cooked row
      (List.range grid.matrixCols).foldl (transferKey grid (raw row) delta row) p)
    { p with matrixNeedUpdate := false }

def debounce (grid : AsymGrid width) : Algorithm Counter width := fun now raw changed p =>
  deferredCall (updateDebounceCountersAndTransferIfExpired grid raw) (fun p => p.matrixNeedUpdate)
    (transferMatrixValues grid raw) now changed p

/-- The counters that `debounce_init` leaves; the flags are those of the memory it gets. -/
def resting (pressed : Nat → Nat → Bool) (row col : Nat) : Counter := ⟨pressed row col, 0#7⟩

/-! ## One key -/

structure AsymKey where
  cooked : Bool
  pressed : Bool
  time : Nat

/-- A counter that the time has reached lets a key that comes up pass. -/
def expire (raw : Bool) (elapsed : Nat) (key : AsymKey) : AsymKey where
  cooked := if key.time ≠ 0 ∧ key.time ≤ elapsed ∧ key.pressed = false then raw else key.cooked
  pressed := key.pressed
  time := key.time - elapsed

/-- The counter starts with a difference, and with one key that goes down the bit changes as well;
the counter of a key that comes up stops when the difference is gone. -/
def transfer (time : Nat) (raw : Bool) (key : AsymKey) : AsymKey :=
  if raw ≠ key.cooked then
    if key.time = 0 then ⟨true, raw, time⟩ else key
  else if key.pressed = false then { key with time := 0 } else key

/-- What holds of a key between two calls. -/
structure Settled (raw : Bool) (key : AsymKey) : Prop where
  rest : key.time = 0 → key.cooked = raw
  down : key.time ≠ 0 → key.cooked = true
  releasing : key.time ≠ 0 → key.pressed = false → raw = false

/-- The cases of a call for a key that is settled. -/
inductive AsymStep (time : Nat) (raw : Bool) (elapsed : Nat) (key : AsymKey) : AsymKey → Prop where
  | rests (same : key.cooked = raw) (rest : key.time = 0) : AsymStep time raw elapsed key key
  | presses (up : key.cooked = false) (down : raw = true) : AsymStep time raw elapsed key ⟨true, true, time⟩
  | releases (up : raw = false) (down : key.cooked = true)
      (free : key.time = 0 ∨ key.pressed = true ∧ key.time ≤ elapsed) :
      AsymStep time raw elapsed key ⟨true, false, time⟩
  | locked (pressed : key.pressed = true) (down : key.cooked = true) (later : elapsed < key.time) :
      AsymStep time raw elapsed key ⟨true, true, key.time - elapsed⟩
  | unlocks (pressed : key.pressed = true) (down : raw = true) : AsymStep time raw elapsed key ⟨true, true, 0⟩
  | bounces (pressed : key.pressed = false) (down : raw = true) : AsymStep time raw elapsed key ⟨true, false, 0⟩
  | waits (pressed : key.pressed = false) (up : raw = false) (down : key.cooked = true)
      (later : elapsed < key.time) : AsymStep time raw elapsed key ⟨true, false, key.time - elapsed⟩
  | lifts (pressed : key.pressed = false) (up : raw = false) (running : key.time ≠ 0)
      (expired : key.time ≤ elapsed) : AsymStep time raw elapsed key ⟨false, false, 0⟩

theorem Settled.step {last : Bool} {key : AsymKey} (settled : Settled last key) (time : Nat) (raw : Bool)
    (elapsed : Nat) : AsymStep time raw elapsed key (transfer time raw (expire raw elapsed key)) := by
  obtain ⟨cooked, pressed, left⟩ := key
  obtain ⟨rest, down, releasing⟩ := settled
  by_cases idle : left = 0
  · subst idle
    have same (bit : Bool) : AsymStep time bit elapsed ⟨bit, pressed, 0⟩ _ := .rests rfl rfl
    cases cooked <;> cases raw
    · simpa [transfer, expire] using same false
    · simpa [transfer, expire] using AsymStep.presses rfl rfl
    · simpa [transfer, expire] using AsymStep.releases rfl rfl (.inl rfl)
    · simpa [transfer, expire] using same true
  obtain rfl : cooked = true := down idle
  by_cases later : elapsed < left
  · have some : ¬left - elapsed = 0 := by omega
    have early : ¬left ≤ elapsed := Nat.not_le_of_lt later
    have locked (raw : Bool) : AsymStep time raw elapsed ⟨true, true, left⟩ _ := .locked rfl rfl later
    have waits : AsymStep time false elapsed ⟨true, false, left⟩ _ := .waits rfl rfl rfl later
    cases pressed <;> cases raw
    · simpa [transfer, expire, early, some] using waits
    · simpa [transfer, expire, early, some] using AsymStep.bounces rfl rfl
    · simpa [transfer, expire, early, some] using locked false
    · simpa [transfer, expire, early, some] using locked true
  · have expired : left ≤ elapsed := Nat.le_of_not_lt later
    cases pressed <;> cases raw
    · simpa [transfer, expire, expired, idle] using AsymStep.lifts rfl rfl idle expired
    · simpa [transfer, expire, expired, idle] using AsymStep.bounces rfl rfl
    · simpa [transfer, expire, expired, idle] using AsymStep.releases rfl rfl (.inr ⟨rfl, expired⟩)
    · simpa [transfer, expire, expired, idle] using AsymStep.unlocks rfl rfl

theorem AsymStep.settled {time : Nat} {raw : Bool} {elapsed : Nat} {key next : AsymKey}
    (positive : 0 < time) (step : AsymStep time raw elapsed key next) : Settled raw next := by
  cases step with
  | rests same rest => exact ⟨fun _ => same, fun runs => absurd rest runs, fun runs => absurd rest runs⟩
  | presses up down => exact ⟨fun rest => absurd rest (Nat.ne_of_gt positive), fun _ => rfl, nofun⟩
  | releases up => exact ⟨fun rest => absurd rest (Nat.ne_of_gt positive), fun _ => rfl, fun _ _ => up⟩
  | locked pressed down later =>
    exact ⟨fun rest => absurd rest (Nat.ne_of_gt (Nat.sub_pos_of_lt later)), fun _ => rfl, nofun⟩
  | unlocks pressed down => exact ⟨fun _ => down.symm, fun runs => absurd rfl runs, nofun⟩
  | bounces pressed down => exact ⟨fun _ => down.symm, fun runs => absurd rfl runs, fun runs => absurd rfl runs⟩
  | waits pressed up down later =>
    exact ⟨fun rest => absurd rest (Nat.ne_of_gt (Nat.sub_pos_of_lt later)), fun _ => rfl, fun _ _ => up⟩
  | lifts pressed up => exact ⟨fun _ => up.symm, fun runs => absurd rfl runs, fun _ _ => up⟩

/-- The lock of a key runs out. -/
def Unlocks (elapsed : Nat) (key : AsymKey) : Prop := key.pressed = true ∧ key.time ≠ 0 ∧ key.time ≤ elapsed

/-- With the same raw bit as before nothing is left to transfer, unless the lock has run out. -/
theorem Settled.transfer_eq {raw : Bool} {key : AsymKey} (settled : Settled raw key) (time : Nat) {elapsed : Nat}
    (locked : ¬Unlocks elapsed key) : transfer time raw (expire raw elapsed key) = expire raw elapsed key := by
  obtain ⟨cooked, pressed, left⟩ := key
  obtain ⟨rest, down, releasing⟩ := settled
  by_cases idle : left = 0
  · subst idle
    obtain rfl : cooked = raw := rest rfl
    simp [transfer, expire]
  obtain rfl : cooked = true := down idle
  cases pressed with
  | true =>
    have later : ¬left ≤ elapsed := fun expired => locked ⟨rfl, idle, expired⟩
    have some : ¬left - elapsed = 0 := by omega
    simp [transfer, expire, some]
  | false =>
    obtain rfl : raw = false := releasing idle rfl
    by_cases expired : left ≤ elapsed
    · simp [transfer, expire, idle, expired]
    · have some : ¬left - elapsed = 0 := by omega
      simp [transfer, expire, expired, some]

theorem expire_rest {raw : Bool} {elapsed : Nat} {key : AsymKey} (rest : key.time = 0) :
    expire raw elapsed key = key := by
  obtain ⟨cooked, pressed, left⟩ := key
  subst rest
  simp [expire]

theorem expire_zero (raw : Bool) (key : AsymKey) : expire raw 0 key = key := by
  obtain ⟨cooked, pressed, left⟩ := key
  simp only [expire, Nat.le_zero, Nat.sub_zero, AsymKey.mk.injEq, and_self, and_true, ite_eq_right_iff]
  exact fun expired => absurd expired.2.1 expired.1

/-! ## Passes -/

/-- What the first pass does to a key, given its raw bit. -/
def expireBit (elapsedTime : UInt8) (raw : Bool) (part : Counter × Bool) : Counter × Bool :=
  if part.1.time ≠ 0#7 then
    if part.1.time.toNat ≤ elapsedTime.toNat then
      ({ part.1 with time := 0#7 }, if part.1.pressed then part.2 else raw)
    else ({ part.1 with time := part.1.time - BitVec.ofNat 7 elapsedTime.toNat }, part.2)
  else part

/-- What the second pass does to a key, given its raw bit. -/
def transferBit (grid : AsymGrid width) (raw : Bool) (part : Counter × Bool) : Counter × Bool :=
  if raw ≠ part.2 then
    if part.1.time = 0#7 then (⟨raw, grid.time⟩, true) else part
  else if part.1.time ≠ 0#7 ∧ part.1.pressed = false then ({ part.1 with time := 0#7 }, part.2)
  else part

/-- The cases of a visit in the first pass. -/
inductive ExpireStep (raw : Nat → BitVec width) (elapsedTime : UInt8) (row col : Nat)
    (p : Pass Counter width) : Pass Counter width → Prop where
  | rests (rest : (p.part (row, col)).1.time = 0#7) : ExpireStep raw elapsedTime row col p p
  | unlocks (running : (p.part (row, col)).1.time ≠ 0#7)
      (expired : (p.part (row, col)).1.time.toNat ≤ elapsedTime.toNat)
      (pressed : (p.part (row, col)).1.pressed = true) :
      ExpireStep raw elapsedTime row col p
        { p.setCounter row col { (p.part (row, col)).1 with time := 0#7 } with matrixNeedUpdate := true }
  | lifts (running : (p.part (row, col)).1.time ≠ 0#7)
      (expired : (p.part (row, col)).1.time.toNat ≤ elapsedTime.toNat)
      (pressed : (p.part (row, col)).1.pressed = false) :
      ExpireStep raw elapsedTime row col p
        ((p.setCounter row col { (p.part (row, col)).1 with time := 0#7 }).transferBit raw row col)
  | goesOn (running : (p.part (row, col)).1.time ≠ 0#7)
      (later : ¬(p.part (row, col)).1.time.toNat ≤ elapsedTime.toNat) :
      ExpireStep raw elapsedTime row col p
        { p.setCounter row col
            { (p.part (row, col)).1 with
              time := (p.part (row, col)).1.time - BitVec.ofNat 7 elapsedTime.toNat } with
          countersNeedUpdate := true }

/-- The cases of a visit in the second pass. -/
inductive TransferStep (grid : AsymGrid width) (raw : Nat → BitVec width) (row col : Nat)
    (p : Pass Counter width) : Pass Counter width → Prop where
  | presses (differs : (raw row).getLsbD col ≠ (p.part (row, col)).2)
      (rest : (p.part (row, col)).1.time = 0#7) (down : (raw row).getLsbD col = true) :
      TransferStep grid raw row col p
        { ({ p.setCounter row col ⟨true, grid.time⟩ with countersNeedUpdate := true } :
            Pass Counter width).setRow row (p.cooked row ^^^ BitVec.ofNat width 1 <<< col) with
          cookedChanged := true }
  | releases (differs : (raw row).getLsbD col ≠ (p.part (row, col)).2)
      (rest : (p.part (row, col)).1.time = 0#7) (up : (raw row).getLsbD col = false) :
      TransferStep grid raw row col p
        { p.setCounter row col ⟨false, grid.time⟩ with countersNeedUpdate := true }
  | waits (differs : (raw row).getLsbD col ≠ (p.part (row, col)).2)
      (running : (p.part (row, col)).1.time ≠ 0#7) : TransferStep grid raw row col p p
  | stops (same : (raw row).getLsbD col = (p.part (row, col)).2)
      (running : (p.part (row, col)).1.time ≠ 0#7) (pressed : (p.part (row, col)).1.pressed = false) :
      TransferStep grid raw row col p
        (p.setCounter row col { (p.part (row, col)).1 with time := 0#7 })
  | agrees (same : (raw row).getLsbD col = (p.part (row, col)).2)
      (settled : ¬((p.part (row, col)).1.time ≠ 0#7 ∧ (p.part (row, col)).1.pressed = false)) :
      TransferStep grid raw row col p p

section

variable (raw : Nat → BitVec width)

theorem expireKey_step (elapsedTime : UInt8) (row col : Nat) (p : Pass Counter width) :
    ExpireStep raw elapsedTime row col p (expireKey raw elapsedTime row p col) := by
  simp only [expireKey]
  by_cases running : (p.debounceCounters row col).time ≠ 0#7
  · rw [if_pos running]
    by_cases expired : (p.debounceCounters row col).time.toNat ≤ elapsedTime.toNat
    · rw [if_pos expired]
      by_cases pressed : (p.debounceCounters row col).pressed = true
      · rw [if_pos pressed]
        exact .unlocks running expired pressed
      · rw [if_neg pressed]
        exact .lifts running expired (Bool.eq_false_iff.mpr pressed)
    · rw [if_neg expired]
      exact .goesOn running expired
  · rw [if_neg running]
    exact .rests (not_not.mp running)

theorem expireKey_local (elapsedTime : UInt8) :
    VisitsLocally (expireKey raw elapsedTime)
      (fun key => expireBit elapsedTime ((raw key.1).getLsbD key.2)) where
  own p key := by
    obtain ⟨row, col⟩ := key
    have step := expireKey_step raw elapsedTime row col p
    simp only [expireBit]
    generalize expireKey raw elapsedTime row p col = next at step ⊢
    cases step with
    | rests rest => simp [rest]
    | unlocks running expired pressed => simp [running, expired, pressed]
    | lifts running expired pressed => simp [running, expired, pressed]
    | goesOn running later => simp [running, later]
  other p key other apart := by
    have step := expireKey_step raw elapsedTime key.1 key.2 p
    generalize expireKey raw elapsedTime key.1 p key.2 = next at step ⊢
    cases step with
    | rests => rfl
    | unlocks => simp [apart.symm]
    | lifts => simp [apart.symm]
    | goesOn => simp [apart.symm]

/-- The flags after a visit. -/
theorem expireKey_flags (elapsedTime : UInt8) (p : Pass Counter width) (row col : Nat) :
    ((expireKey raw elapsedTime row p col).countersNeedUpdate = true ↔
      p.countersNeedUpdate = true ∨ elapsedTime.toNat < (p.part (row, col)).1.time.toNat) ∧
    ((expireKey raw elapsedTime row p col).matrixNeedUpdate = true ↔ p.matrixNeedUpdate = true ∨
      (p.part (row, col)).1.time ≠ 0#7 ∧ (p.part (row, col)).1.time.toNat ≤ elapsedTime.toNat ∧
        (p.part (row, col)).1.pressed = true) ∧
    ((expireKey raw elapsedTime row p col).cookedChanged = true ↔ p.cookedChanged = true ∨
      (expireBit elapsedTime ((raw row).getLsbD col) (p.part (row, col))).2 ≠ (p.part (row, col)).2) := by
  have step := expireKey_step raw elapsedTime row col p
  simp only [expireBit]
  generalize expireKey raw elapsedTime row p col = next at step ⊢
  cases step with
  | rests rest => simp [rest]
  | unlocks running expired pressed =>
    simp [running, expired, pressed, Nat.not_lt.mpr expired, setCounter_countersNeedUpdate, setCounter_cookedChanged]
  | lifts running expired pressed =>
    simp [running, expired, pressed, Nat.not_lt.mpr expired, setCounter_countersNeedUpdate,
      setCounter_matrixNeedUpdate, setCounter_cookedChanged, transferBit_countersNeedUpdate,
      transferBit_matrixNeedUpdate]
  | goesOn running later =>
    simp [running, later, Nat.lt_of_not_le later, setCounter_matrixNeedUpdate, setCounter_cookedChanged]

/-- A visit depends on the difference in its own bit. -/
theorem transferKey_congr (grid : AsymGrid width) (row : Nat) (p : Pass Counter width) {col : Nat}
    {delta other : BitVec width} (own : delta.getLsbD col = other.getLsbD col) :
    transferKey grid (raw row) delta row p col = transferKey grid (raw row) other row p col := by
  have differs : delta &&& BitVec.ofNat width 1 <<< col ≠ 0 ↔ other &&& BitVec.ofNat width 1 <<< col ≠ 0 := by
    rw [and_mask_ne_zero, and_mask_ne_zero, own]
  simp only [transferKey, differs]

/-- The second pass, with the difference looked up at each key. -/
def transferVisit (grid : AsymGrid width) (raw : Nat → BitVec width) (row : Nat) (p : Pass Counter width)
    (col : Nat) : Pass Counter width :=
  transferKey grid (raw row) (raw row ^^^ p.cooked row) row p col

theorem transferVisit_step (grid : AsymGrid width) (row col : Nat) (p : Pass Counter width) :
    TransferStep grid raw row col p (transferVisit grid raw row p col) := by
  have differs : (raw row ^^^ p.cooked row) &&& BitVec.ofNat width 1 <<< col ≠ 0 ↔
      (raw row).getLsbD col ≠ (p.part (row, col)).2 := by
    rw [and_mask_ne_zero, BitVec.getLsbD_xor, bne_iff_ne]
    rfl
  simp only [transferVisit, transferKey]
  by_cases changed : (raw row ^^^ p.cooked row) &&& BitVec.ofNat width 1 <<< col ≠ 0
  · rw [if_pos changed]
    by_cases rest : (p.debounceCounters row col).time = 0#7
    · rw [if_pos rest]
      by_cases down : (raw row).getLsbD col = true
      · have set := (and_mask_ne_zero (raw row) col).mpr down
        rw [if_pos (decide_eq_true set), decide_eq_true set]
        exact .presses (differs.mp changed) rest down
      · have clear : ¬raw row &&& BitVec.ofNat width 1 <<< col ≠ 0 :=
          fun set => down ((and_mask_ne_zero (raw row) col).mp set)
        rw [if_neg (fun set => clear (of_decide_eq_true set)), decide_eq_false clear]
        exact .releases (differs.mp changed) rest (Bool.eq_false_iff.mpr down)
    · rw [if_neg rest]
      exact .waits (differs.mp changed) rest
  · have same : (raw row).getLsbD col = (p.part (row, col)).2 :=
      not_not.mp fun other => changed (differs.mpr other)
    rw [if_neg changed]
    by_cases running : (p.debounceCounters row col).time ≠ 0#7
    · rw [if_pos running]
      by_cases pressed : (p.debounceCounters row col).pressed = false
      · rw [if_pos (by rw [pressed]; rfl)]
        exact .stops same running pressed
      · rw [if_neg (by simpa using pressed)]
        exact .agrees same fun releasing => pressed releasing.2
    · rw [if_neg running]
      exact .agrees same fun releasing => running releasing.1

theorem transferVisit_local (grid : AsymGrid width) :
    VisitsLocally (transferVisit grid raw)
      (fun key => transferBit grid ((raw key.1).getLsbD key.2)) where
  own p key := by
    obtain ⟨row, col⟩ := key
    have step := transferVisit_step raw grid row col p
    simp only [transferBit]
    generalize transferVisit grid raw row p col = next at step ⊢
    cases step with
    | presses differs rest down =>
      have bound : col < width := BitVec.lt_of_getLsbD down
      have up : (p.cooked row).getLsbD col = false := by
        rw [down] at differs
        exact Bool.eq_false_iff.mpr differs.symm
      rw [if_pos differs, if_pos rest, part_cookedChanged, part_setRow, getLsbD_flipped _ bound, up, down]
      simp
    | releases differs rest up =>
      have down : (p.part (row, col)).2 = true := by
        rw [up] at differs
        exact Bool.eq_true_of_not_eq_false differs.symm
      rw [if_pos differs, if_pos rest]
      simp [up, down]
    | waits differs running => rw [if_pos differs, if_neg running]
    | stops same running pressed =>
      rw [if_neg (not_not.mpr same), if_pos ⟨running, pressed⟩]
      simp
    | agrees same settled => rw [if_neg (not_not.mpr same), if_neg settled]
  other p key other apart := by
    have step := transferVisit_step raw grid key.1 key.2 p
    generalize transferVisit grid raw key.1 p key.2 = next at step ⊢
    cases step with
    | presses differs rest down =>
      have bound : key.2 < width := BitVec.lt_of_getLsbD down
      rw [part_cookedChanged, part_setRow, getLsbD_flipped _ bound]
      by_cases same : other.1 = key.1
      · have column : other.2 ≠ key.2 := fun column => apart (Prod.ext same column).symm
        simp [same, column, Pass.part, Pass.setCounter]
      · simp [same, apart.symm]
    | releases => simp [apart.symm]
    | waits => rfl
    | stops => simp [apart.symm]
    | agrees => rfl

theorem transferVisit_flags (grid : AsymGrid width) (p : Pass Counter width) (row col : Nat) :
    ((transferVisit grid raw row p col).countersNeedUpdate = true ↔ p.countersNeedUpdate = true ∨
      (raw row).getLsbD col ≠ (p.part (row, col)).2 ∧ (p.part (row, col)).1.time = 0#7) ∧
    ((transferVisit grid raw row p col).cookedChanged = true ↔ p.cookedChanged = true ∨
      (transferBit grid ((raw row).getLsbD col) (p.part (row, col))).2 ≠ (p.part (row, col)).2) := by
  have step := transferVisit_step raw grid row col p
  simp only [transferBit]
  generalize transferVisit grid raw row p col = next at step ⊢
  cases step with
  | presses differs rest down =>
    rw [down] at differs
    have up := Bool.eq_false_iff.mpr differs.symm
    simp [rest, down, up]
    rfl
  | releases differs rest up =>
    rw [up] at differs
    have down := Bool.eq_true_of_not_eq_false differs.symm
    simp [rest, down, up, setCounter_cookedChanged]
  | waits differs running =>
    rw [if_pos differs, if_neg running]
    simp [running]
  | stops same running pressed => simp [same, running, pressed, setCounter_countersNeedUpdate, setCounter_cookedChanged]
  | agrees same settled =>
    rw [if_neg (not_not.mpr same), if_neg settled]
    simp [same]

/-- A visit of the second pass leaves the rest of the state alone. -/
theorem transferVisit_keeps (grid : AsymGrid width) (row : Nat) (p : Pass Counter width) (col : Nat) :
    (transferVisit grid raw row p col).lastTime = p.lastTime ∧
    (transferVisit grid raw row p col).matrixNeedUpdate = p.matrixNeedUpdate := by
  have step := transferVisit_step raw grid row col p
  generalize transferVisit grid raw row p col = next at step ⊢
  cases step <;> exact ⟨rfl, rfl⟩

/-- Each visit changes at most the bit of its own key, so that the difference of a row is the same
for all of its keys. -/
theorem transferMatrixValues_eq (grid : AsymGrid width) (p : Pass Counter width) :
    transferMatrixValues grid raw p = grid.visit (transferVisit grid raw) { p with matrixNeedUpdate := false } := by
  have visits := transferVisit_local raw grid
  have inner (row : Nat) (p : Pass Counter width) :
      (List.range grid.matrixCols).foldl (transferKey grid (raw row) (raw row ^^^ p.cooked row) row) p =
        (List.range grid.matrixCols).foldl (transferVisit grid raw row) p := by
    have columns : Local (transferVisit grid raw row) (fun p col => p.part (row, col))
        (fun col => transferBit grid ((raw row).getLsbD col)) :=
      ⟨fun p col => visits.own p (row, col),
        fun p col other apart => visits.other p (row, col) (row, other) fun same => apart (Prod.ext_iff.mp same).2⟩
    refine columns.foldl_congr List.nodup_range fun q col _ same => ?_
    have bit : (raw row ^^^ p.cooked row).getLsbD col = (raw row ^^^ q.cooked row).getLsbD col := by
      have same : (q.cooked row).getLsbD col = (p.cooked row).getLsbD col := (Prod.ext_iff.mp same).2
      rw [BitVec.getLsbD_xor, BitVec.getLsbD_xor, same]
    exact transferKey_congr raw grid row q bit
  rw [transferMatrixValues, Grid.visit]
  simp only [inner]

end

/-! ## Calls -/

def keyOf (part : Counter × Bool) : AsymKey := ⟨part.2, part.1.pressed, part.1.time.toNat⟩

theorem AsymGrid.time_toNat (grid : AsymGrid width) : grid.time.toNat = grid.debounce.toNat := by
  have small := grid.small
  rw [AsymGrid.time, BitVec.toNat_ofNat]
  omega

theorem time_eq_zero (time : BitVec 7) : time = 0#7 ↔ time.toNat = 0 := BitVec.toNat_inj.symm

theorem keyOf_expireBit (elapsed : UInt32) (raw : Bool) (part : Counter × Bool) :
    keyOf (expireBit (clip elapsed) raw part) = expire raw elapsed.toNat (keyOf part) := by
  obtain ⟨⟨pressed, time⟩, cooked⟩ := part
  have small := time.isLt
  have clipped := clip_toNat elapsed
  rw [expireBit]
  by_cases rest : time = 0#7
  · have zero := (time_eq_zero time).mp rest
    simp [rest, keyOf, expire]
  rw [if_pos rest]
  rw [time_eq_zero] at rest
  by_cases expired : time.toNat ≤ (clip elapsed).toNat
  · have past : time.toNat ≤ elapsed.toNat := by omega
    rw [if_pos expired]
    cases pressed <;> simp [keyOf, expire, rest, past]
  · have left : (time - BitVec.ofNat 7 (clip elapsed).toNat).toNat = time.toNat - elapsed.toNat := by
      have short : (BitVec.ofNat 7 (clip elapsed).toNat).toNat = elapsed.toNat := by
        rw [BitVec.toNat_ofNat]
        omega
      rw [BitVec.toNat_sub_of_le, short]
      rw [BitVec.le_def, short]
      omega
    have early : ¬time.toNat ≤ elapsed.toNat := by omega
    rw [if_neg expired]
    simp [keyOf, expire, early, left]

theorem keyOf_transferBit (grid : AsymGrid width) (raw : Bool) (part : Counter × Bool) :
    keyOf (transferBit grid raw part) = transfer grid.debounce.toNat raw (keyOf part) := by
  obtain ⟨⟨pressed, time⟩, cooked⟩ := part
  by_cases same : raw = cooked
  · by_cases rest : time = 0#7
    · simp [transferBit, transfer, keyOf, same, rest]
    · cases pressed <;> simp [transferBit, transfer, keyOf, same, rest]
  · by_cases rest : time = 0#7
    · simp [transferBit, transfer, keyOf, same, rest, grid.time_toNat]
    · have running := mt (time_eq_zero time).mpr rest
      simp [transferBit, transfer, keyOf, same, rest, running]

abbrev Effect (grid : AsymGrid width) (effect : Nat → Nat → AsymKey → AsymKey) (p next : Pass Counter width) : Prop :=
  PassEffect keyOf (fun key => key.time ≠ 0) grid.toGrid effect p next

theorem update_effect (grid : AsymGrid width) (raw : Nat → BitVec width) (elapsed : UInt32)
    {p : Pass Counter width} (unchanged : p.cookedChanged = false) :
    Effect grid (fun row col => expire ((raw row).getLsbD col) elapsed.toNat) p
      (updateDebounceCountersAndTransferIfExpired grid raw (clip elapsed) p) := by
  have visits := expireKey_local raw (clip elapsed)
  have part {row col : Nat} (key : grid.Key row col) :=
    visit_part visits key { p with countersNeedUpdate := false, matrixNeedUpdate := false }
  constructor
  case key =>
    intro row col key
    rw [updateDebounceCountersAndTransferIfExpired, part key, keyOf_expireBit]
    rfl
  case outside =>
    intro row col outside
    rw [updateDebounceCountersAndTransferIfExpired, visit_part_outside visits outside]
    rfl
  case flagged =>
    intro row col key runs
    have flag := visit_flag grid.toGrid visits (fun p => p.countersNeedUpdate = true)
      (fun _ part => (clip elapsed).toNat < part.1.time.toNat)
      (fun p row col => (expireKey_flags raw _ p row col).1)
    rw [updateDebounceCountersAndTransferIfExpired, part key] at runs
    rw [updateDebounceCountersAndTransferIfExpired, flag]
    refine .inr ⟨row, col, key, Nat.lt_of_not_le fun expired => runs ?_⟩
    rw [keyOf_expireBit, expire]
    have clipped := clip_toNat elapsed
    simp only [keyOf]
    omega
  case changed =>
    have flag := visit_flag grid.toGrid visits (fun p => p.cookedChanged = true)
      (fun key part => (expireBit (clip elapsed) ((raw key.1).getLsbD key.2) part).2 ≠ part.2)
      (fun p row col => (expireKey_flags raw _ p row col).2.2)
    rw [updateDebounceCountersAndTransferIfExpired, flag, or_iff_right (by simp [unchanged])]
    refine exists_congr fun row => exists_congr fun col => and_congr_right fun key => ?_
    rw [part key]
    rfl

/-- The first pass asks for the second one if a lock has run out. -/
theorem update_asks (grid : AsymGrid width) (raw : Nat → BitVec width) (elapsed : UInt32) (p : Pass Counter width) :
    (updateDebounceCountersAndTransferIfExpired grid raw (clip elapsed) p).matrixNeedUpdate = true ↔
      ∃ row col, grid.Key row col ∧ Unlocks elapsed.toNat (keyOf (p.part (row, col))) := by
  have flag := visit_flag grid.toGrid (expireKey_local raw (clip elapsed)) (fun p => p.matrixNeedUpdate = true)
    (fun _ part => part.1.time ≠ 0#7 ∧ part.1.time.toNat ≤ (clip elapsed).toNat ∧ part.1.pressed = true)
    (fun p row col => (expireKey_flags raw _ p row col).2.1)
  rw [updateDebounceCountersAndTransferIfExpired, flag, or_iff_right (by simp)]
  refine exists_congr fun row => exists_congr fun col => and_congr_right fun key => ?_
  have clipped := clip_toNat elapsed
  have small := (p.part (row, col)).1.time.isLt
  change (p.part (row, col)).1.time ≠ 0#7 ∧ (p.part (row, col)).1.time.toNat ≤ _ ∧ _ ↔ _
  rw [Unlocks, keyOf, Ne, time_eq_zero]
  constructor
  · rintro ⟨running, expired, pressed⟩
    exact ⟨pressed, running, expired.trans (clipped.le.trans (Nat.min_le_left _ _))⟩
  · rintro ⟨pressed, running, expired⟩
    exact ⟨running, (le_min expired (small.le.trans (by decide))).trans clipped.ge, pressed⟩

theorem transferBit_same (grid : AsymGrid width) {raw : Bool} {part : Counter × Bool} (same : raw = part.2) :
    (transferBit grid raw part).2 = part.2 := by
  rw [transferBit, if_neg (not_not.mpr same)]
  split <;> rfl

/-- The second pass takes each key on; a key that has changed in the first pass has its raw bit. -/
theorem transfer_effect (grid : AsymGrid width) (raw : Nat → BitVec width)
    {effect : Nat → Nat → AsymKey → AsymKey} {p next : Pass Counter width} (before : Effect grid effect p next)
    (passed : ∀ row col, grid.Key row col → (next.part (row, col)).2 ≠ (p.part (row, col)).2 →
      (raw row).getLsbD col = (next.part (row, col)).2) :
    Effect grid (fun row col key => transfer grid.debounce.toNat ((raw row).getLsbD col) (effect row col key)) p
      (transferMatrixValues grid raw next) := by
  have visits := transferVisit_local raw grid
  have part {row col : Nat} (key : grid.Key row col) : (transferMatrixValues grid raw next).part (row, col) =
      transferBit grid ((raw row).getLsbD col) (next.part (row, col)) := by
    rw [transferMatrixValues_eq]
    exact visit_part visits key { next with matrixNeedUpdate := false }
  constructor
  case key =>
    intro row col key
    rw [part key, keyOf_transferBit, before.key row col key]
  case outside =>
    intro row col outside
    rw [transferMatrixValues_eq, visit_part_outside visits outside]
    exact before.outside row col outside
  case flagged =>
    intro row col key runs
    have flag := visit_flag grid.toGrid visits (fun p => p.countersNeedUpdate = true)
      (fun key part => (raw key.1).getLsbD key.2 ≠ part.2 ∧ part.1.time = 0#7)
      (fun p row col => (transferVisit_flags raw grid p row col).1)
    rw [part key, keyOf_transferBit, transfer] at runs
    rw [transferMatrixValues_eq, flag]
    by_cases running : (keyOf (next.part (row, col))).time ≠ 0
    · exact .inl (before.flagged row col key running)
    · have rest : (keyOf (next.part (row, col))).time = 0 := not_not.mp running
      refine .inr ⟨row, col, key, fun same => runs ?_, (time_eq_zero _).mpr rest⟩
      change (raw row).getLsbD col = (keyOf (next.part (row, col))).cooked at same
      rw [if_neg (not_not.mpr same)]
      split
      · rfl
      · exact rest
  case changed =>
    have flag := visit_flag grid.toGrid visits (fun p => p.cookedChanged = true)
      (fun key part => (transferBit grid ((raw key.1).getLsbD key.2) part).2 ≠ part.2)
      (fun p row col => (transferVisit_flags raw grid p row col).2)
    rw [transferMatrixValues_eq, flag, ← transferMatrixValues_eq]
    constructor
    · rintro (first | ⟨row, col, key, second⟩)
      · obtain ⟨row, col, key, changed⟩ := before.changed.mp first
        refine ⟨row, col, key, ?_⟩
        rwa [part key, transferBit_same grid (passed row col key changed)]
      · have kept : (next.part (row, col)).2 = (p.part (row, col)).2 := by
          by_contra changed
          exact second (transferBit_same grid (passed row col key changed))
        refine ⟨row, col, key, ?_⟩
        rw [part key, ← kept]
        exact second
    · rintro ⟨row, col, key, changed⟩
      by_cases first : (next.part (row, col)).2 = (p.part (row, col)).2
      · refine .inr ⟨row, col, key, ?_⟩
        rw [part key, ← first] at changed
        exact changed
      · exact .inl (before.changed.mpr ⟨row, col, key, first⟩)

theorem update_lastTime (grid : AsymGrid width) (raw : Nat → BitVec width) (elapsedTime : UInt8)
    (p : Pass Counter width) :
    (updateDebounceCountersAndTransferIfExpired grid raw elapsedTime p).lastTime = p.lastTime := by
  refine visit_keeps (fun next => next.lastTime = p.lastTime) (fun next row col same => ?_) rfl
  have step := expireKey_step raw elapsedTime row col next
  generalize expireKey raw elapsedTime row next col = after at step ⊢
  cases step <;> exact same

theorem transfer_keeps (grid : AsymGrid width) (raw : Nat → BitVec width) (p : Pass Counter width) :
    (transferMatrixValues grid raw p).lastTime = p.lastTime ∧
    (transferMatrixValues grid raw p).matrixNeedUpdate = false := by
  rw [transferMatrixValues_eq]
  refine visit_keeps (fun next => next.lastTime = p.lastTime ∧ next.matrixNeedUpdate = false)
    (fun next row col same => ?_) ⟨rfl, rfl⟩
  obtain ⟨time, asks⟩ := transferVisit_keeps raw grid row next col
  exact ⟨time.trans same.1, asks.trans same.2⟩

def key (s : Scan Counter width) (row col : Nat) : AsymKey := keyOf (s.pass.part (row, col))

/-- The invariant of the calls. -/
structure Consistent (grid : AsymGrid width) (s : Scan Counter width) : Prop where
  settled : ∀ row col, grid.Key row col → Settled (s.rawBit row col) (key s row col)
  bounded : ∀ row col, grid.Key row col → (key s row col).time ≤ grid.debounce.toNat
  flagged : ∀ row col, grid.Key row col → (key s row col).time ≠ 0 → s.pass.countersNeedUpdate = true
  clock : s.pass.countersNeedUpdate = true → s.pass.lastTime = s.now
  quiet : s.pass.matrixNeedUpdate = false

section

variable {grid : AsymGrid width} {s : Scan Counter width} {call : Call width}

/-- The first half of a call counts down, and asks for the second one if a lock has run out. -/
theorem advance_effect (consistent : Consistent grid s) (raw : Nat → BitVec width) (elapsed : UInt32) :
    let advanced := advance (updateDebounceCountersAndTransferIfExpired grid raw) (s.now + elapsed)
      { s.pass with cookedChanged := false }
    Effect grid (fun row col => expire ((raw row).getLsbD col) elapsed.toNat) s.pass advanced.1 ∧
    (advanced.2 = false → advanced.1.countersNeedUpdate = false) ∧
    (advanced.2 = true → advanced.1.lastTime = s.now + elapsed) ∧
    (advanced.1.matrixNeedUpdate = true ↔
      ∃ row col, grid.Key row col ∧ Unlocks elapsed.toNat (key s row col)) := by
  have step := advance_step (updateDebounceCountersAndTransferIfExpired grid raw) elapsed
    (p := { s.pass with cookedChanged := false }) consistent.clock
  intro advanced
  change AdvanceStep _ _ _ _ advanced at step
  generalize advanced = next at step ⊢
  cases step with
  | idle resting =>
    -- no counter runs
    have rest {row col : Nat} (inside : grid.Key row col) : (key s row col).time = 0 := not_not.mp fun runs =>
      Bool.eq_false_iff.mp resting (consistent.flagged row col inside runs)
    refine ⟨⟨?_, fun _ _ _ => rfl, consistent.flagged, by simp⟩, fun _ => resting, nofun, ?_⟩
    · intro row col inside
      exact (expire_rest (rest inside)).symm
    · rw [consistent.quiet]
      refine ⟨nofun, fun ⟨row, col, inside, unlocks⟩ => absurd (rest inside) unlocks.2.1⟩
  | still running zero =>
    refine ⟨⟨?_, fun _ _ _ => rfl, consistent.flagged, ?_⟩, nofun, fun _ => rfl, ?_⟩
    · intro row col inside
      rw [zero, expire_zero]
      rfl
    · simp
      exact fun _ _ _ => rfl
    · rw [consistent.quiet, zero]
      refine ⟨nofun, fun ⟨row, col, inside, unlocks⟩ => absurd (Nat.le_zero.mp unlocks.2.2) unlocks.2.1⟩
  | counts running =>
    have effect := update_effect grid raw elapsed
      (p := { s.pass with cookedChanged := false, lastTime := s.now + elapsed }) rfl
    exact ⟨⟨effect.key, effect.outside, effect.flagged, effect.changed⟩, nofun,
      fun _ => update_lastTime grid raw _ _, update_asks grid raw elapsed _⟩

/-- A bit that the first half changes gets its raw value. -/
theorem expire_passed {raw : Bool} {elapsed : Nat} {key : AsymKey}
    (changed : (expire raw elapsed key).cooked ≠ key.cooked) : raw = (expire raw elapsed key).cooked := by
  simp only [expire] at changed ⊢
  split at changed
  · rename_i expired
    rw [if_pos expired]
  · exact absurd rfl changed

/-- A call takes each key through its machine. -/
theorem call_effect (consistent : Consistent grid s) (announced : s.Announced grid.toGrid call) :
    Effect grid
      (fun row col key => transfer grid.debounce.toNat ((call.raw row).getLsbD col)
        (expire ((call.raw row).getLsbD col) call.elapsed.toNat key))
      s.pass (s.call (debounce grid) call).pass ∧
    ((s.call (debounce grid) call).pass.countersNeedUpdate = true →
      (s.call (debounce grid) call).pass.lastTime = s.now + call.elapsed) ∧
    (s.call (debounce grid) call).pass.matrixNeedUpdate = false := by
  obtain ⟨effect, idle, clock, asks⟩ := advance_effect consistent call.raw call.elapsed
  simp only [Scan.call, debounce, deferredCall]
  generalize advance (updateDebounceCountersAndTransferIfExpired grid call.raw) (s.now + call.elapsed)
    { s.pass with cookedChanged := false } = advanced at effect idle clock asks ⊢
  obtain ⟨next, updatedLast⟩ := advanced
  have passed (row col : Nat) (inside : grid.Key row col)
      (changed : (next.part (row, col)).2 ≠ (s.pass.part (row, col)).2) :
      (call.raw row).getLsbD col = (next.part (row, col)).2 := by
    have bit := congrArg AsymKey.cooked (effect.key row col inside)
    change (next.part (row, col)).2 = _ at bit
    rw [bit] at changed ⊢
    exact expire_passed changed
  by_cases second : (call.changed || next.matrixNeedUpdate) = true
  · rw [if_pos second]
    cases updatedLast with
    | true =>
      obtain ⟨time, quiet⟩ := transfer_keeps grid call.raw next
      exact ⟨transfer_effect grid call.raw effect passed, fun _ => time.trans (clock rfl), quiet⟩
    | false =>
      have timed : Effect grid _ s.pass { next with lastTime := s.now + call.elapsed } :=
        ⟨effect.key, effect.outside, effect.flagged, effect.changed⟩
      obtain ⟨time, quiet⟩ := transfer_keeps grid call.raw { next with lastTime := s.now + call.elapsed }
      exact ⟨transfer_effect grid call.raw timed passed, fun _ => time, quiet⟩
  · rw [if_neg second]
    obtain ⟨unchanged, quiet⟩ := Bool.or_eq_false_iff.mp (Bool.eq_false_iff.mpr second)
    refine ⟨⟨fun row col inside => ?_, effect.outside, effect.flagged, effect.changed⟩, fun running => ?_, quiet⟩
    · -- the raw matrix is that of the last call and no lock has run out, so that nothing is to be done
      have settled := consistent.settled row col inside
      rw [Scan.rawBit, ← announced.same unchanged inside.1] at settled
      have locked : ¬Unlocks call.elapsed.toNat (key s row col) := fun unlocks =>
        Bool.eq_false_iff.mp quiet (asks.mpr ⟨row, col, inside, unlocks⟩)
      exact (effect.key row col inside).trans (settled.transfer_eq _ locked).symm
    · cases updatedLast with
      | true => exact clock rfl
      | false => exact absurd running (Bool.eq_false_iff.mp (idle rfl))

theorem call_key (consistent : Consistent grid s) (announced : s.Announced grid.toGrid call) {row col : Nat}
    (inside : grid.Key row col) :
    AsymStep grid.debounce.toNat ((call.raw row).getLsbD col) call.elapsed.toNat (key s row col)
      (key (s.call (debounce grid) call) row col) := by
  rw [key, key, (call_effect consistent announced).1.key row col inside]
  exact (consistent.settled row col inside).step _ _ _

theorem AsymStep.bounded {time : Nat} {raw : Bool} {elapsed : Nat} {key next : AsymKey}
    (step : AsymStep time raw elapsed key next) (bounded : key.time ≤ time) : next.time ≤ time := by
  cases step with
  | rests => exact bounded
  | presses => exact Nat.le_refl _
  | releases => exact Nat.le_refl _
  | locked => exact (Nat.sub_le _ _).trans bounded
  | unlocks => exact Nat.zero_le _
  | bounces => exact Nat.zero_le _
  | waits => exact (Nat.sub_le _ _).trans bounded
  | lifts => exact Nat.zero_le _

theorem call_consistent (announced : s.Announced grid.toGrid call) (consistent : Consistent grid s) :
    Consistent grid (s.call (debounce grid) call) where
  settled _ _ inside := (call_key consistent announced inside).settled grid.positive
  bounded row col inside := (call_key consistent announced inside).bounded (consistent.bounded row col inside)
  flagged := (call_effect consistent announced).1.flagged
  clock := (call_effect consistent announced).2.1
  quiet := (call_effect consistent announced).2.2

end

theorem start_consistent (grid : AsymGrid width) (pressed : Nat → Nat → Bool) (matrix : Nat → BitVec width)
    (lastTime now : UInt32) : Consistent grid (.start (resting pressed) matrix lastTime now) where
  settled _ _ _ := ⟨fun _ => rfl, fun runs => absurd rfl runs, fun runs => absurd rfl runs⟩
  bounded _ _ _ := Nat.zero_le _
  flagged _ _ _ runs := absurd rfl runs
  clock := nofun
  quiet := rfl

/-! ## The contract -/

/-- What the debouncer promises of a sequence of calls. -/
structure Contract (grid : AsymGrid width) (start : Scan Counter width) (calls : List (Call width)) : Prop where
  /-- The result of a call tells whether it has changed the cooked matrix. -/
  result : ResultsTell (debounce grid) start calls grid.toGrid
  /-- A key that goes down is passed on in the same call. -/
  prompt : ∀ row col, grid.Key row col → ∀ n < calls.length,
    (scanAfter (debounce grid) start calls (n + 1)).rawBit row col = true →
    (scanAfter (debounce grid) start calls (n + 1)).cookedBit row col = true
  /-- What has gone down stays down for the debounce time. -/
  kept : ∀ row col, grid.Key row col → ∀ i j, i < j → j < calls.length →
    (scanAfter (debounce grid) start calls i).cookedBit row col = false →
    (scanAfter (debounce grid) start calls (i + 1)).cookedBit row col = true →
    (scanAfter (debounce grid) start calls (j + 1)).cookedBit row col = false →
    grid.debounce.toNat ≤ elapsedBetween calls i j
  /-- A key comes up only if it has been up for the debounce time. -/
  deferred : ∀ row col, grid.Key row col → ∀ j < calls.length,
    (scanAfter (debounce grid) start calls j).cookedBit row col = true →
    (scanAfter (debounce grid) start calls (j + 1)).cookedBit row col = false →
    ∃ i ≤ j, grid.debounce.toNat ≤ elapsedBetween calls i j ∧ ∀ n, i ≤ n → n ≤ j →
      (scanAfter (debounce grid) start calls (n + 1)).rawBit row col = false
  /-- A raw bit that is stable while a lock and then a release can run out is passed on. -/
  reached : ∀ row col, grid.Key row col → ∀ i m j, i ≤ m → m ≤ j → j < calls.length → ∀ bit,
    (∀ n, i ≤ n → n ≤ j → (scanAfter (debounce grid) start calls (n + 1)).rawBit row col = bit) →
    grid.debounce.toNat ≤ elapsedBetween calls i m → grid.debounce.toNat ≤ elapsedBetween calls m j →
    (scanAfter (debounce grid) start calls (j + 1)).cookedBit row col = bit

section

variable {grid : AsymGrid width} {start : Scan Counter width} {calls : List (Call width)}
  (initial : Consistent grid start) (announced : ScansAnnounced (debounce grid) start calls grid.toGrid)

include initial announced

theorem scanAfter_consistent (n : Nat) : Consistent grid (scanAfter (debounce grid) start calls n) :=
  scanAfter_invariant initial announced (fun _ _ announces => call_consistent announces) n

theorem scanAfter_key {row col : Nat} (inside : grid.Key row col) {n : Nat} (bound : n < calls.length) :
    AsymStep grid.debounce.toNat ((scanAfter (debounce grid) start calls (n + 1)).rawBit row col)
      calls[n].elapsed.toNat (key (scanAfter (debounce grid) start calls n) row col)
      (key (scanAfter (debounce grid) start calls (n + 1)) row col) := by
  rw [scanAfter_succ bound]
  exact call_key (scanAfter_consistent initial announced n) (announced n bound) inside

theorem results_tell : ResultsTell (debounce grid) start calls grid.toGrid := by
  intro n bound
  have effect := (call_effect (scanAfter_consistent initial announced n) (announced n bound)).1
  rw [scanAfter_succ bound, effect.changed, ← cooked_ne_iff effect.outside]

theorem press_prompt {row col : Nat} (inside : grid.Key row col) {n : Nat} (bound : n < calls.length)
    (down : (scanAfter (debounce grid) start calls (n + 1)).rawBit row col = true) :
    (scanAfter (debounce grid) start calls (n + 1)).cookedBit row col = true := by
  have step := scanAfter_key initial announced inside bound
  rw [down] at step
  change (key (scanAfter (debounce grid) start calls (n + 1)) row col).cooked = true
  generalize key (scanAfter (debounce grid) start calls (n + 1)) row col = next at step ⊢
  cases step with
  | rests same => exact same
  | presses => rfl
  | releases up => cases up
  | locked => rfl
  | unlocks => rfl
  | bounces => rfl
  | waits _ up => cases up
  | lifts _ up => cases up

/-- A release that is counted has been started by a call since which the key has been up. -/
theorem released_since {row col : Nat} (inside : grid.Key row col) (rest : (key start row col).time = 0)
    {n : Nat} (bound : n < calls.length)
    (runs : (key (scanAfter (debounce grid) start calls (n + 1)) row col).time ≠ 0)
    (releasing : (key (scanAfter (debounce grid) start calls (n + 1)) row col).pressed = false) :
    ∃ i ≤ n, grid.debounce.toNat =
        (key (scanAfter (debounce grid) start calls (n + 1)) row col).time + elapsedBetween calls i n ∧
      ∀ m, i ≤ m → m ≤ n → (scanAfter (debounce grid) start calls (m + 1)).rawBit row col = false := by
  -- by induction on the calls; a release that goes on has the same start as before
  induction n with
  | zero =>
    have step := scanAfter_key initial announced inside bound
    generalize key (scanAfter (debounce grid) start calls (0 + 1)) row col = next at step runs releasing ⊢
    cases step with
    | rests _ zero => exact absurd zero runs
    | presses => cases releasing
    | releases up =>
      refine ⟨0, Nat.le_refl 0, by rw [elapsedBetween_self]; rfl, fun m _ last => ?_⟩
      obtain rfl := Nat.le_zero.mp last
      exact up
    | locked => cases releasing
    | unlocks => exact absurd rfl runs
    | bounces => exact absurd rfl runs
    | waits _ _ _ later => exact absurd (rest ▸ later) (Nat.not_lt_zero _)
    | lifts => exact absurd rfl runs
  | succ n ih =>
    have step := scanAfter_key initial announced inside bound
    generalize key (scanAfter (debounce grid) start calls (n + 1 + 1)) row col = next at step runs releasing ⊢
    cases step with
    | rests _ zero => exact absurd zero runs
    | presses => cases releasing
    | releases up =>
      refine ⟨n + 1, Nat.le_refl _, by rw [elapsedBetween_self]; rfl, fun m first last => ?_⟩
      obtain rfl := Nat.le_antisymm last first
      exact up
    | locked => cases releasing
    | unlocks => exact absurd rfl runs
    | bounces => exact absurd rfl runs
    | waits pressed up _ later =>
      obtain ⟨i, order, total, released⟩ :=
        ih (Nat.lt_of_succ_lt bound) (Nat.ne_of_gt (Nat.zero_lt_of_lt later)) pressed
      refine ⟨i, Nat.le_succ_of_le order, ?_, fun m first last => ?_⟩
      · rw [elapsedBetween_succ order bound]
        simp only
        omega
      · rcases Nat.le_succ_iff.mp last with earlier | rfl
        · exact released m first earlier
        · exact up
    | lifts => exact absurd rfl runs

theorem release_deferred {row col : Nat} (inside : grid.Key row col) (rest : (key start row col).time = 0)
    {j : Nat} (bound : j < calls.length)
    (down : (scanAfter (debounce grid) start calls j).cookedBit row col = true)
    (up : (scanAfter (debounce grid) start calls (j + 1)).cookedBit row col = false) :
    ∃ i ≤ j, grid.debounce.toNat ≤ elapsedBetween calls i j ∧ ∀ n, i ≤ n → n ≤ j →
      (scanAfter (debounce grid) start calls (n + 1)).rawBit row col = false := by
  have step := scanAfter_key initial announced inside bound
  change (key (scanAfter (debounce grid) start calls j) row col).cooked = true at down
  change (key (scanAfter (debounce grid) start calls (j + 1)) row col).cooked = false at up
  generalize key (scanAfter (debounce grid) start calls (j + 1)) row col = next at step up
  cases step with
  | rests => exact absurd (down.symm.trans up) (by decide)
  | presses => cases up
  | releases => cases up
  | locked => cases up
  | unlocks => cases up
  | bounces => cases up
  | waits => cases up
  | lifts pressed released running expired =>
    cases j with
    | zero => exact absurd rest running
    | succ n =>
      obtain ⟨i, order, total, earlier⟩ :=
        released_since initial announced inside rest (Nat.lt_of_succ_lt bound) running pressed
      refine ⟨i, Nat.le_succ_of_le order, ?_, fun m first last => ?_⟩
      · rw [elapsedBetween_succ order bound]
        omega
      · rcases Nat.le_succ_iff.mp last with before | rfl
        · exact earlier m first before
        · exact released

/-- A bit that goes down shows that the key does. -/
theorem press_raw {row col : Nat} (inside : grid.Key row col) {n : Nat} (bound : n < calls.length)
    (up : (scanAfter (debounce grid) start calls n).cookedBit row col = false)
    (down : (scanAfter (debounce grid) start calls (n + 1)).cookedBit row col = true) :
    (scanAfter (debounce grid) start calls (n + 1)).rawBit row col = true := by
  have step := scanAfter_key initial announced inside bound
  change (key (scanAfter (debounce grid) start calls n) row col).cooked = false at up
  change (key (scanAfter (debounce grid) start calls (n + 1)) row col).cooked = true at down
  generalize key (scanAfter (debounce grid) start calls (n + 1)) row col = next at step down
  cases step with
  | rests => exact absurd (up.symm.trans down) (by decide)
  | presses _ raw => exact raw
  | releases _ before => exact absurd (up.symm.trans before) (by decide)
  | locked _ before => exact absurd (up.symm.trans before) (by decide)
  | unlocks _ raw => exact raw
  | bounces _ raw => exact raw
  | waits _ _ before => exact absurd (up.symm.trans before) (by decide)
  | lifts => cases down

/-- The key has been up for the debounce time when its bit comes up, and it was down when the bit
went down. -/
theorem release_after_press {row col : Nat} (inside : grid.Key row col) (rest : (key start row col).time = 0)
    {i j : Nat} (order : i < j) (bound : j < calls.length)
    (pressed : (scanAfter (debounce grid) start calls (i + 1)).rawBit row col = true)
    (held : (scanAfter (debounce grid) start calls j).cookedBit row col = true)
    (undone : (scanAfter (debounce grid) start calls (j + 1)).cookedBit row col = false) :
    grid.debounce.toNat ≤ elapsedBetween calls i j := by
  obtain ⟨k, _, enough, released⟩ := release_deferred initial announced inside rest bound held undone
  have later : i ≤ k := Nat.le_of_not_lt fun earlier =>
    absurd (pressed.symm.trans (released i earlier.le order.le)) (by decide)
  exact enough.trans (elapsedBetween_mono calls later (Nat.le_refl j))

theorem press_kept {row col : Nat} (inside : grid.Key row col) (rest : (key start row col).time = 0)
    {i j : Nat} (order : i < j) (bound : j < calls.length)
    (up : (scanAfter (debounce grid) start calls i).cookedBit row col = false)
    (down : (scanAfter (debounce grid) start calls (i + 1)).cookedBit row col = true)
    (undone : (scanAfter (debounce grid) start calls (j + 1)).cookedBit row col = false) :
    grid.debounce.toNat ≤ elapsedBetween calls i j := by
  have pressed := press_raw initial announced inside (order.trans bound) up down
  induction j, Nat.succ_le_of_lt order using Nat.le_induction with
  | base => exact release_after_press initial announced inside rest order bound pressed down undone
  | succ j since ih =>
    cases held : (scanAfter (debounce grid) start calls (j + 1)).cookedBit row col with
    | false =>
      have earlier := ih since (Nat.lt_of_succ_lt bound) held
      exact earlier.trans (elapsedBetween_mono calls (Nat.le_refl i) (Nat.le_succ j))
    | true => exact release_after_press initial announced inside rest order bound pressed held undone

/-- While a key is up, a lock that still runs has been counted since the first call. -/
theorem lock_left {row col : Nat} (inside : grid.Key row col) {i j : Nat} (order : i ≤ j)
    (bound : j < calls.length)
    (stable : ∀ n, i ≤ n → n ≤ j → (scanAfter (debounce grid) start calls (n + 1)).rawBit row col = false)
    (runs : (key (scanAfter (debounce grid) start calls (j + 1)) row col).time ≠ 0)
    (pressed : (key (scanAfter (debounce grid) start calls (j + 1)) row col).pressed = true) :
    (key (scanAfter (debounce grid) start calls (j + 1)) row col).time + elapsedBetween calls i j ≤
      grid.debounce.toNat := by
  induction j, order using Nat.le_induction with
  | base =>
    rw [elapsedBetween_self]
    exact (scanAfter_consistent initial announced (i + 1)).bounded row col inside
  | succ j order ih =>
    have step := scanAfter_key initial announced inside bound
    rw [stable (j + 1) (Nat.le_succ_of_le order) (Nat.le_refl _)] at step
    have earlier := ih (Nat.lt_of_succ_lt bound) fun n first last => stable n first (Nat.le_succ_of_le last)
    generalize key (scanAfter (debounce grid) start calls (j + 1 + 1)) row col = next at step runs pressed ⊢
    rw [elapsedBetween_succ order bound]
    cases step with
    | rests _ zero => exact absurd zero runs
    | presses _ down => cases down
    | releases => cases pressed
    | unlocks _ down => cases down
    | bounces _ down => cases down
    | locked before _ later =>
      have earlier := earlier (Nat.ne_of_gt (Nat.zero_lt_of_lt later)) before
      simp only
      omega
    | waits => cases pressed
    | lifts => exact absurd rfl runs

/-- While a key is up and its lock does not run, its release has been counted since the first call. -/
theorem release_left {row col : Nat} (inside : grid.Key row col) {i j : Nat} (order : i ≤ j)
    (bound : j < calls.length)
    (stable : ∀ n, i ≤ n → n ≤ j → (scanAfter (debounce grid) start calls (n + 1)).rawBit row col = false)
    (unlocked : (key (scanAfter (debounce grid) start calls (i + 1)) row col).time ≠ 0 →
      (key (scanAfter (debounce grid) start calls (i + 1)) row col).pressed = false)
    (runs : (key (scanAfter (debounce grid) start calls (j + 1)) row col).time ≠ 0) :
    (key (scanAfter (debounce grid) start calls (j + 1)) row col).pressed = false ∧
    (key (scanAfter (debounce grid) start calls (j + 1)) row col).time + elapsedBetween calls i j ≤
      grid.debounce.toNat := by
  induction j, order using Nat.le_induction with
  | base =>
    rw [elapsedBetween_self]
    exact ⟨unlocked runs, (scanAfter_consistent initial announced (i + 1)).bounded row col inside⟩
  | succ j order ih =>
    have step := scanAfter_key initial announced inside bound
    rw [stable (j + 1) (Nat.le_succ_of_le order) (Nat.le_refl _)] at step
    have earlier := ih (Nat.lt_of_succ_lt bound) fun n first last => stable n first (Nat.le_succ_of_le last)
    generalize key (scanAfter (debounce grid) start calls (j + 1 + 1)) row col = next at step runs ⊢
    rw [elapsedBetween_succ order bound]
    cases step with
    | rests _ zero => exact absurd zero runs
    | presses _ down => cases down
    | unlocks _ down => cases down
    | bounces _ down => cases down
    | releases _ down free =>
      -- the bit is down and the key is up, so that a counter runs, and it is that of the release
      have settled := (scanAfter_consistent initial announced (j + 1)).settled row col inside
      rw [stable j order (Nat.le_succ j)] at settled
      have running : (key (scanAfter (debounce grid) start calls (j + 1)) row col).time ≠ 0 := fun zero =>
        absurd (down.symm.trans (settled.rest zero)) (by decide)
      rcases free with zero | ⟨pressed, _⟩
      · exact absurd zero running
      · exact absurd (pressed.symm.trans (earlier running).1) (by decide)
    | locked pressed _ later =>
      have earlier := earlier (Nat.ne_of_gt (Nat.zero_lt_of_lt later))
      exact absurd (pressed.symm.trans earlier.1) (by decide)
    | waits _ _ _ later =>
      have earlier := earlier (Nat.ne_of_gt (Nat.zero_lt_of_lt later))
      refine ⟨rfl, ?_⟩
      simp only
      omega
    | lifts => exact absurd rfl runs

theorem release_reached {row col : Nat} (inside : grid.Key row col) {i m j : Nat} (first : i ≤ m) (second : m ≤ j)
    (bound : j < calls.length)
    (stable : ∀ n, i ≤ n → n ≤ j → (scanAfter (debounce grid) start calls (n + 1)).rawBit row col = false)
    (lock : grid.debounce.toNat ≤ elapsedBetween calls i m)
    (release : grid.debounce.toNat ≤ elapsedBetween calls m j) :
    (scanAfter (debounce grid) start calls (j + 1)).cookedBit row col = false := by
  have unlocked (runs : (key (scanAfter (debounce grid) start calls (m + 1)) row col).time ≠ 0) :
      (key (scanAfter (debounce grid) start calls (m + 1)) row col).pressed = false := by
    by_contra pressed
    have left := lock_left initial announced inside first (Nat.lt_of_le_of_lt second bound)
      (fun n after before => stable n after (before.trans second)) runs (Bool.eq_true_of_not_eq_false pressed)
    omega
  have settled := (scanAfter_consistent initial announced (j + 1)).settled row col inside
  rw [stable j (first.trans second) (Nat.le_refl j)] at settled
  refine settled.rest ?_
  by_contra runs
  have left := release_left initial announced inside second bound
    (fun n after before => stable n (first.trans after) before) unlocked runs
  omega

end

/-- From a state at rest, every sequence of calls that announces the changes of the raw matrix
meets the contract. -/
theorem debounce_asymmetric (grid : AsymGrid width) (pressed : Nat → Nat → Bool) (matrix : Nat → BitVec width)
    (lastTime now : UInt32) (calls : List (Call width))
    (announced : ScansAnnounced (debounce grid) (.start (resting pressed) matrix lastTime now) calls grid.toGrid) :
    Contract grid (.start (resting pressed) matrix lastTime now) calls where
  result := results_tell (start_consistent grid pressed matrix lastTime now) announced
  prompt _ _ inside _ bound down :=
    press_prompt (start_consistent grid pressed matrix lastTime now) announced inside bound down
  kept _ _ inside _ _ order bound up down undone :=
    press_kept (start_consistent grid pressed matrix lastTime now) announced inside rfl order bound up down undone
  deferred _ _ inside _ bound down up :=
    release_deferred (start_consistent grid pressed matrix lastTime now) announced inside rfl bound down up
  reached _ _ inside i m j first second bound bit stable lock release := by
    have initial := start_consistent grid pressed matrix lastTime now
    cases bit with
    | true =>
      exact press_prompt initial announced inside bound (stable j (first.trans second) (Nat.le_refl j))
    | false => exact release_reached initial announced inside first second bound stable lock release

/-- The keyboard of the test suite. -/
def testGrid : AsymGrid 16 := ⟨⟨4, 10, 5, by decide, Nat.le_add_left 10 6⟩, by decide⟩

/-- The key bounces when it goes down, is let go while it is locked, and bounces when it comes up. -/
def oneKeyPressed : List (Call 16) :=
  [⟨oneKey true, 0, true⟩, ⟨oneKey false, 1, true⟩, ⟨oneKey true, 1, true⟩, ⟨oneKey false, 2, true⟩,
    ⟨oneKey false, 6, false⟩, ⟨oneKey true, 4, true⟩, ⟨oneKey false, 1, true⟩, ⟨oneKey false, 5, false⟩]

theorem oneKeyPressed_asymmetric :
    ((List.range 8).map fun n =>
        (scanAfter (debounce testGrid) (.start (resting fun _ _ => true) (fun _ => 0) 0 0) oneKeyPressed
          (n + 1)).cookedBit 0 1) =
      [true, true, true, true, true, true, true, false] ∧
    ScansAnnounced (debounce testGrid) (.start (resting fun _ _ => true) (fun _ => 0) 0 0) oneKeyPressed
      testGrid.toGrid ∧
    Contract testGrid (.start (resting fun _ _ => true) (fun _ => 0) 0 0) oneKeyPressed := by
  have announced : ScansAnnounced (debounce testGrid) (.start (resting fun _ _ => true) (fun _ => 0) 0 0)
      oneKeyPressed testGrid.toGrid := by decide
  exact ⟨by decide +kernel, announced, debounce_asymmetric testGrid _ _ _ _ oneKeyPressed announced⟩

end QmkFirmware.Debounce.AsymEagerDefer
