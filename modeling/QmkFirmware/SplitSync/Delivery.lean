import Mathlib.Logic.Function.Basic
import Mathlib.Data.List.Basic
import QmkFirmware.Foundations.Runs

/-! # Split synchronisation

A shallow embedding of the master handlers of `quantum/split_common/transactions.c` that send with
`send_if_condition` or `send_if_data_mismatch`, over `transport_execute_transaction` of
`quantum/split_common/transport.c` without `USE_I2C`.  The master decides what to send by its own
copy of the shared memory, which the transport has written before it knows that the slave got it.
-/

namespace QmkFirmware.SplitSync

open QmkFirmware.Runs

/-! ## The model -/

abbrev Bytes : Type := List (BitVec 8)

/-- The members of `split_shared_memory_t` that these handlers send. -/
inductive Field where
  | masterMatrix
  | layerState
  | defaultLayerState
  | ledState
  | backlight
  | rgblight
  | ledMatrix
  | rgbMatrix
  | wpm
  | oled
  | st7565
  | haptic
  | activity
  | detectedOs
deriving DecidableEq

/-- `FORCED_SYNC_THROTTLE_MS`, the results of `soft_serial_transaction` and the readings of the timer,
in their order. -/
structure Environment where
  throttle : BitVec 32
  transaction : Nat → Bool
  time : Nat → BitVec 32

structure State where
  /-- What the handler of a field reads from the rest of the firmware. -/
  value : Field → Bytes
  splitShmem : Field → Bytes
  slaveShmem : Field → Bytes
  lastUpdate : Field → BitVec 32
  transactions : Nat
  timeReads : Nat

section Machine

variable (env : Environment)

def timerRead32 (s : State) : BitVec 32 × State :=
  (env.time s.timeReads, { s with timeReads := s.timeReads + 1 })

/-- The shared memory is written first, and then the slave, unless the transaction fails. -/
def transportWrite (field : Field) (source : Bytes) (s : State) : Bool × State :=
  let s := { s with splitShmem := Function.update s.splitShmem field source, transactions := s.transactions + 1 }
  if env.transaction (s.transactions - 1) then
    (true, { s with slaveShmem := Function.update s.slaveShmem field source })
  else (false, s)

def sendIfCondition (field : Field) (condition : Bool) (source : Bytes) (s : State) : Bool × State :=
  let (now, s) := timerRead32 env s
  if env.throttle ≤ now - s.lastUpdate field ∨ condition = true then
    let (okay, s) := transportWrite env field source s
    if okay then
      let (now, s) := timerRead32 env s
      (true, { s with lastUpdate := Function.update s.lastUpdate field now })
    else (false, s)
  else (true, s)

def sendIfDataMismatch (field : Field) (source : Bytes) (s : State) : Bool × State :=
  sendIfCondition env field (source ≠ s.splitShmem field) source s

def masterMatrixHandlersMaster (s : State) : Bool × State :=
  sendIfDataMismatch env .masterMatrix (s.value .masterMatrix) s

def layerStateHandlersMaster (s : State) : Bool × State :=
  let (okay, s) := sendIfCondition env .layerState
    (s.value .layerState ≠ s.splitShmem .layerState) (s.value .layerState) s
  if okay then
    sendIfCondition env .defaultLayerState
      (s.value .defaultLayerState ≠ s.splitShmem .defaultLayerState) (s.value .defaultLayerState) s
  else (false, s)

def ledStateHandlersMaster (s : State) : Bool × State :=
  sendIfDataMismatch env .ledState (s.value .ledState) s

def backlightHandlersMaster (s : State) : Bool × State :=
  sendIfCondition env .backlight (s.value .backlight ≠ s.splitShmem .backlight) (s.value .backlight) s

/-- `status.change_flags` of a `rgblight_syncinfo_t`. -/
def changeFlags (rgblightSync : Bytes) : BitVec 8 := rgblightSync.getD 10 0

def rgblightClearChangeFlags (s : State) : State :=
  { s with value := Function.update s.value .rgblight ((s.value .rgblight).set 10 0) }

def rgblightHandlersMaster (s : State) : Bool × State :=
  let rgblightSync := s.value .rgblight
  let (okay, s) := sendIfCondition env .rgblight (changeFlags rgblightSync ≠ 0) rgblightSync s
  if okay then (true, rgblightClearChangeFlags s) else (false, s)

def ledMatrixHandlersMaster (s : State) : Bool × State :=
  sendIfDataMismatch env .ledMatrix (s.value .ledMatrix) s

def rgbMatrixHandlersMaster (s : State) : Bool × State :=
  sendIfDataMismatch env .rgbMatrix (s.value .rgbMatrix) s

def wpmHandlersMaster (s : State) : Bool × State :=
  sendIfCondition env .wpm (s.value .wpm ≠ s.splitShmem .wpm) (s.value .wpm) s

def oledHandlersMaster (s : State) : Bool × State :=
  sendIfCondition env .oled (s.value .oled ≠ s.splitShmem .oled) (s.value .oled) s

def st7565HandlersMaster (s : State) : Bool × State :=
  sendIfCondition env .st7565 (s.value .st7565 ≠ s.splitShmem .st7565) (s.value .st7565) s

/-- `split_haptic_play = 0xFF`, the byte after the `haptic_config_t`. -/
def forgetHapticPlay (s : State) : State :=
  { s with value := Function.update s.value .haptic ((s.value .haptic).set 4 0xFF) }

def hapticHandlersMaster (s : State) : Bool × State :=
  let (okay, s) := sendIfDataMismatch env .haptic (s.value .haptic) s
  (okay, forgetHapticPlay s)

def activityHandlersMaster (s : State) : Bool × State :=
  sendIfDataMismatch env .activity (s.value .activity) s

def detectedOsHandlersMaster (s : State) : Bool × State :=
  sendIfCondition env .detectedOs (s.value .detectedOs ≠ s.splitShmem .detectedOs) (s.value .detectedOs) s

inductive Handler where
  | masterMatrix
  | layerState
  | ledState
  | backlight
  | rgblight
  | ledMatrix
  | rgbMatrix
  | wpm
  | oled
  | st7565
  | haptic
  | activity
  | detectedOs
deriving DecidableEq

def Handler.master : Handler → State → Bool × State
  | masterMatrix => masterMatrixHandlersMaster env
  | layerState => layerStateHandlersMaster env
  | ledState => ledStateHandlersMaster env
  | backlight => backlightHandlersMaster env
  | rgblight => rgblightHandlersMaster env
  | ledMatrix => ledMatrixHandlersMaster env
  | rgbMatrix => rgbMatrixHandlersMaster env
  | wpm => wpmHandlersMaster env
  | oled => oledHandlersMaster env
  | st7565 => st7565HandlersMaster env
  | haptic => hapticHandlersMaster env
  | activity => activityHandlersMaster env
  | detectedOs => detectedOsHandlersMaster env

/-- The loop of `transaction_handler_master`. -/
def attempts (handler : Handler) : Nat → State → Bool × State
  | 0, s => (false, s)
  | retries + 1, s =>
    let (okay, s) := handler.master env s
    if okay then (true, s) else attempts handler retries s

def transactionHandlerMaster (connected : Bool) (handler : Handler) (s : State) : Bool × State :=
  attempts env handler (if connected then 10 else 1) s

end Machine

/-! ## What is sent -/

def Handler.fields : Handler → List Field
  | masterMatrix => [.masterMatrix]
  | layerState => [.layerState, .defaultLayerState]
  | ledState => [.ledState]
  | backlight => [.backlight]
  | rgblight => [.rgblight]
  | ledMatrix => [.ledMatrix]
  | rgbMatrix => [.rgbMatrix]
  | wpm => [.wpm]
  | oled => [.oled]
  | st7565 => [.st7565]
  | haptic => [.haptic]
  | activity => [.activity]
  | detectedOs => [.detectedOs]

/-- The condition under which the handler of a field sends it at once. -/
def wanted (field : Field) (value copy : Bytes) : Bool :=
  match field with
  | .rgblight => changeFlags value ≠ 0
  | _ => value ≠ copy

section Sends

variable (env : Environment)

/-- The transfer of the field is skipped in this state. -/
def Skipped (field : Field) (s : State) : Prop :=
  env.time s.timeReads - s.lastUpdate field < env.throttle ∧ wanted field (s.value field) (s.splitShmem field) = false

instance (field : Field) (s : State) : Decidable (Skipped env field s) := inferInstanceAs (Decidable (_ ∧ _))

def sendField (field : Field) (s : State) : Bool × State :=
  sendIfCondition env field (wanted field (s.value field) (s.splitShmem field)) (s.value field) s

/-- Sends the fields one after the other as long as nothing fails. -/
def sendFields : List Field → State → Bool × State
  | [], s => (true, s)
  | field :: fields, s =>
    if (sendField env field s).1 then sendFields fields (sendField env field s).2 else sendField env field s

/-- What the handler does after its transfers. -/
def Handler.afterwards : Handler → Bool → State → State
  | rgblight, true, s => rgblightClearChangeFlags s
  | haptic, _, s => forgetHapticPlay s
  | _, _, s => s

variable {env} {s : State}

theorem sendField_skipped {field : Field} (skipped : Skipped env field s) :
    sendField env field s = (true, { s with timeReads := s.timeReads + 1 }) := by
  have idle : ¬ (env.throttle ≤ env.time s.timeReads - s.lastUpdate field ∨ wanted field (s.value field) (s.splitShmem field) = true) := by
    rintro (late | now)
    · exact absurd skipped.1 (BitVec.not_lt.mpr late)
    · rw [skipped.2] at now
      exact Bool.noConfusion now
  exact if_neg idle

theorem due_of_not_skipped {field : Field} (sent : ¬ Skipped env field s) :
    env.throttle ≤ env.time s.timeReads - s.lastUpdate field ∨ wanted field (s.value field) (s.splitShmem field) = true := by
  rw [Skipped, Decidable.not_and_iff_or_not] at sent
  rcases sent with late | now
  · exact Or.inl (BitVec.not_lt.mp late)
  · exact Or.inr ((Bool.not_eq_false _).mp now)

theorem sendField_failed {field : Field} (sent : ¬ Skipped env field s)
    (fails : env.transaction s.transactions = false) :
    sendField env field s = (false, { s with
      splitShmem := Function.update s.splitShmem field (s.value field)
      transactions := s.transactions + 1
      timeReads := s.timeReads + 1 }) := by
  unfold sendField sendIfCondition
  simp [timerRead32, due_of_not_skipped sent, transportWrite, fails]

theorem sendField_okay {field : Field} (sent : ¬ Skipped env field s)
    (okay : env.transaction s.transactions = true) :
    sendField env field s = (true, { s with
      splitShmem := Function.update s.splitShmem field (s.value field)
      slaveShmem := Function.update s.slaveShmem field (s.value field)
      lastUpdate := Function.update s.lastUpdate field (env.time (s.timeReads + 1))
      transactions := s.transactions + 1
      timeReads := s.timeReads + 2 }) := by
  unfold sendField sendIfCondition
  simp [timerRead32, due_of_not_skipped sent, transportWrite, okay]

end Sends

/-! ## Handlers -/

section Handlers

variable (env : Environment)

theorem sendFields_single (field : Field) (s : State) : sendFields env [field] s = sendField env field s := by
  rw [sendFields]
  split_ifs with okay
  · exact Prod.ext okay.symm rfl
  · rfl

theorem Handler.master_eq (handler : Handler) (s : State) :
    handler.master env s =
      ((sendFields env handler.fields s).1,
        handler.afterwards (sendFields env handler.fields s).1 (sendFields env handler.fields s).2) := by
  cases handler with
  | layerState =>
    show layerStateHandlersMaster env s = sendFields env [.layerState, .defaultLayerState] s
    rw [sendFields, sendFields_single]
    show (if (sendField env .layerState s).1 then sendField env .defaultLayerState (sendField env .layerState s).2
      else (false, (sendField env .layerState s).2)) = _
    split_ifs with okay
    · rfl
    · exact Prod.ext ((Bool.not_eq_true _).mp okay).symm rfl
  | rgblight =>
    show (if (sendField env .rgblight s).1 then (true, rgblightClearChangeFlags (sendField env .rgblight s).2)
      else (false, (sendField env .rgblight s).2)) = _
    rw [Handler.fields, sendFields_single]
    cases okay : (sendField env .rgblight s).1 <;> rfl
  | haptic =>
    rw [Handler.fields, sendFields_single]
    rfl
  | masterMatrix | ledState | backlight | ledMatrix | rgbMatrix | wpm | oled | st7565 | activity | detectedOs =>
    rw [Handler.fields, sendFields_single]
    rfl

theorem Handler.afterwards_slave (handler : Handler) (okay : Bool) (s : State) :
    (handler.afterwards okay s).slaveShmem = s.slaveShmem := by
  cases handler <;> cases okay <;> rfl

theorem attempts_eq (handler : Handler) (retries : Nat) (s : State) :
    attempts env handler retries s = retry (handler.master env) retries s := by
  induction retries generalizing s with
  | zero => rfl
  | succ retries ih =>
    show (if (handler.master env s).1 then (true, (handler.master env s).2)
      else attempts env handler retries (handler.master env s).2) = _
    rw [retry, ih]
    split_ifs with okay
    · exact Prod.ext okay.symm rfl
    · rfl

end Handlers

/-! ## One field -/

section OneField

variable (env : Environment) (s : State)

/-- What attempt `k` sends when those before it failed: the play effect is forgotten after the first. -/
def source (field : Field) (k : Nat) : Bytes :=
  match field, k with
  | .haptic, _ + 1 => (s.value .haptic).set 4 0xFF
  | field, _ => s.value field

/-- The master's copy is what the attempt before has sent. -/
def copy (field : Field) : Nat → Bytes
  | 0 => s.splitShmem field
  | k + 1 => source s field k

/-- Attempt `k` makes the transfer. -/
def Due (field : Field) (k : Nat) : Prop :=
  env.throttle ≤ env.time (s.timeReads + k) - s.lastUpdate field ∨
    wanted field (source s field k) (copy s field k) = true

/-- An attempt that is reached and makes no transfer finds the value at the slave; one that makes the
transfer sends the value. -/
def FieldDelivers (field : Field) (retries : Nat) : Prop :=
  EachReached retries (fun k => Due env s field k ∧ env.transaction (s.transactions + k) = false)
    fun k => (¬Due env s field k → s.slaveShmem field = s.value field) ∧
      (Due env s field k → env.transaction (s.transactions + k) = true → source s field k = s.value field)

/-- The state that attempt `k` finds. -/
structure Found (field : Field) (k : Nat) (state : State) : Prop where
  value : state.value field = source s field k
  copy : state.splitShmem field = copy s field k
  slave : state.slaveShmem field = s.slaveShmem field
  lastUpdate : state.lastUpdate field = s.lastUpdate field
  transactions : state.transactions = s.transactions + k
  timeReads : state.timeReads = s.timeReads + k

variable {env s} {field : Field} {k : Nat} {state : State}

theorem Found.skipped_iff (found : Found s field k state) : Skipped env field state ↔ ¬Due env s field k := by
  rw [Skipped, found.value, found.copy, found.lastUpdate, found.timeReads, Due, not_or, BitVec.not_le,
    Bool.not_eq_true]

theorem source_succ (s : State) (field : Field) (k : Nat) :
    source s field (k + 1) = if field = .haptic then (source s field k).set 4 0xFF else source s field k := by
  cases field <;> first | rfl | (cases k <;> simp [source])

/-- Only the play effect of haptic is touched after a failed attempt. -/
theorem Handler.afterwards_failed {handler : Handler} (single : handler.fields = [field]) (state : State) :
    handler.afterwards false state = { state with value := (handler.afterwards false state).value } ∧
      (handler.afterwards false state).value field =
        if field = .haptic then (state.value field).set 4 0xFF else state.value field := by
  cases handler with
  | layerState => cases single
  | haptic =>
    cases single
    exact ⟨rfl, by simp [afterwards, forgetHapticPlay]⟩
  | masterMatrix | ledState | backlight | rgblight | ledMatrix | rgbMatrix | wpm | oled | st7565 | activity
  | detectedOs =>
    cases single
    exact ⟨rfl, rfl⟩

/-- What a failed attempt leaves. -/
theorem Found.next {handler : Handler} (single : handler.fields = [field]) (found : Found s field k state)
    (fails : (handler.master env state).1 = false) :
    (Due env s field k ∧ env.transaction (s.transactions + k) = false) ∧
      Found s field (k + 1) (handler.master env state).2 := by
  rw [handler.master_eq, single, sendFields_single] at fails ⊢
  by_cases skipped : Skipped env field state
  · rw [sendField_skipped skipped] at fails
    cases fails
  · have due : Due env s field k := by
      rw [found.skipped_iff, not_not] at skipped
      exact skipped
    cases result : env.transaction state.transactions with
    | true =>
      rw [sendField_okay skipped result] at fails
      cases fails
    | false =>
      -- the copy is the value that was sent, whether or not it got there
      rw [sendField_failed skipped result]
      rw [found.transactions] at result
      refine ⟨⟨due, result⟩, ?_⟩
      obtain ⟨same, value⟩ := handler.afterwards_failed single { state with
        splitShmem := Function.update state.splitShmem field (state.value field)
        transactions := state.transactions + 1
        timeReads := state.timeReads + 1 }
      constructor
      · rw [value, source_succ, found.value]
      · rw [same]
        exact (Function.update_self _ _ _).trans found.value
      · rw [same]
        exact found.slave
      · rw [same]
        exact found.lastUpdate
      · rw [same, ← Nat.add_assoc, ← found.transactions]
      · rw [same, ← Nat.add_assoc, ← found.timeReads]

theorem Found.last {handler : Handler} (single : handler.fields = [field]) (found : Found s field k state)
    (okay : (handler.master env state).1 = true) :
    ¬(Due env s field k ∧ env.transaction (s.transactions + k) = false) ∧
      (handler.master env state).2.slaveShmem field =
        if Skipped env field state then s.slaveShmem field else source s field k := by
  rw [handler.master_eq, single, sendFields_single] at okay ⊢
  dsimp only at okay ⊢
  rw [Handler.afterwards_slave]
  by_cases skipped : Skipped env field state
  · rw [if_pos skipped, sendField_skipped skipped]
    rw [found.skipped_iff] at skipped
    exact ⟨fun both => skipped both.1, found.slave⟩
  · cases result : env.transaction state.transactions with
    | true =>
      rw [if_neg skipped, sendField_okay skipped result]
      rw [found.transactions] at result
      refine ⟨fun both => ?_, ?_⟩
      · rw [result] at both
        cases both.2
      · simp [found.value]
    | false =>
      rw [sendField_failed skipped result] at okay
      cases okay

theorem oneField_iff {handler : Handler} (single : handler.fields = [field]) (retries : Nat) (s : State) :
    ((attempts env handler retries s).1 = true →
        (attempts env handler retries s).2.slaveShmem field = s.value field) ↔ FieldDelivers env s field retries := by
  rw [attempts_eq, FieldDelivers]
  have failed (k : Nat) (state : State) (found : Found s field k state) (fails : (handler.master env state).1 = false) :
      (Due env s field k ∧ env.transaction (s.transactions + k) = false) ∧
        ((¬Due env s field k → s.slaveShmem field = s.value field) ∧
          (Due env s field k → env.transaction (s.transactions + k) = true → source s field k = s.value field)) ∧
        Found s field (k + 1) (handler.master env state).2 := by
    obtain ⟨⟨due, result⟩, next⟩ := found.next single fails
    refine ⟨⟨due, result⟩, ⟨fun idle => absurd due idle, fun _ okay => ?_⟩, next⟩
    rw [result] at okay
    cases okay
  have succeeded (k : Nat) (state : State) (found : Found s field k state)
      (okay : (handler.master env state).1 = true) :
      ¬(Due env s field k ∧ env.transaction (s.transactions + k) = false) ∧
        ((handler.master env state).2.slaveShmem field = s.value field ↔
          (¬Due env s field k → s.slaveShmem field = s.value field) ∧
            (Due env s field k → env.transaction (s.transactions + k) = true → source s field k = s.value field)) := by
    obtain ⟨through, slave⟩ := found.last single okay
    refine ⟨through, ?_⟩
    rw [slave]
    by_cases due : Due env s field k
    · have result : env.transaction (s.transactions + k) = true := by
        by_contra fails
        exact through ⟨due, (Bool.not_eq_true _).mp fails⟩
      rw [if_neg (by rwa [found.skipped_iff, not_not])]
      simp [due, result]
    · rw [if_pos (found.skipped_iff.mpr due)]
      simp [due]
  have initial : Found s field 0 s := by
    refine ⟨?_, rfl, rfl, rfl, rfl, rfl⟩
    cases field <;> rfl
  exact retry_good_iff (fun state => state.slaveShmem field = s.value field) failed succeeded retries initial

end OneField

/-! ## The two fields of the layer states -/

section Layers

/-- What an attempt finds: how far the readings of the timer and the transactions have come, the master's
copies, and when the layer state was last sent. -/
structure LayerAttempt where
  reading : Nat
  transaction : Nat
  copy : Bytes
  defaultCopy : Bytes
  lastUpdate : BitVec 32

variable (env : Environment) (s : State)

namespace LayerAttempt

variable (a : LayerAttempt)

def due : Bool :=
  decide (env.throttle ≤ env.time a.reading - a.lastUpdate) || wanted .layerState (s.value .layerState) a.copy

def sent : Bool := a.due env s && env.transaction a.transaction

def failed : Bool := a.due env s && !env.transaction a.transaction

def defaultDue : Bool :=
  decide (env.throttle ≤ env.time (a.reading + if a.due env s then 2 else 1) - s.lastUpdate .defaultLayerState) ||
    wanted .defaultLayerState (s.value .defaultLayerState) a.defaultCopy

def defaultFailed : Bool :=
  !a.failed env s && a.defaultDue env s && !env.transaction (a.transaction + if a.due env s then 1 else 0)

/-- What the next attempt finds if this one fails. -/
def next : LayerAttempt :=
  { reading := a.reading + if a.failed env s then 1 else if a.due env s then 3 else 2
    transaction := a.transaction + if a.failed env s then 1 else if a.due env s then 2 else 1
    copy := s.value .layerState
    defaultCopy := if a.failed env s then a.defaultCopy else s.value .defaultLayerState
    lastUpdate := if a.sent env s then env.time (a.reading + 1) else a.lastUpdate }

end LayerAttempt

def layerAttempt : Nat → LayerAttempt
  | 0 =>
    { reading := s.timeReads
      transaction := s.transactions
      copy := s.splitShmem .layerState
      defaultCopy := s.splitShmem .defaultLayerState
      lastUpdate := s.lastUpdate .layerState }
  | k + 1 => (layerAttempt k).next env s

/-- An attempt that is reached and gets through: the layer state was transferred in it or before, or the
slave has it; the default layer state is transferred in it, or the slave has it. -/
def LayersDeliver (retries : Nat) : Prop :=
  EachReached retries
    (fun k => (layerAttempt env s k).failed env s = true ∨ (layerAttempt env s k).defaultFailed env s = true)
    fun k => (layerAttempt env s k).failed env s = false → (layerAttempt env s k).defaultFailed env s = false →
      (s.slaveShmem .layerState = s.value .layerState ∨ ∃ j < k + 1, (layerAttempt env s j).sent env s = true) ∧
        (s.slaveShmem .defaultLayerState = s.value .defaultLayerState ∨ (layerAttempt env s k).defaultDue env s = true)

/-- The state that attempt `k` finds. -/
structure LayersFound (k : Nat) (state : State) : Prop where
  value : state.value = s.value
  copy : state.splitShmem .layerState = (layerAttempt env s k).copy
  defaultCopy : state.splitShmem .defaultLayerState = (layerAttempt env s k).defaultCopy
  slave : state.slaveShmem .layerState = s.value .layerState ↔
    s.slaveShmem .layerState = s.value .layerState ∨ ∃ j < k, (layerAttempt env s j).sent env s = true
  defaultSlave : state.slaveShmem .defaultLayerState = s.slaveShmem .defaultLayerState
  lastUpdate : state.lastUpdate .layerState = (layerAttempt env s k).lastUpdate
  defaultLastUpdate : state.lastUpdate .defaultLayerState = s.lastUpdate .defaultLayerState
  transactions : state.transactions = (layerAttempt env s k).transaction
  timeReads : state.timeReads = (layerAttempt env s k).reading

variable {env s} {k : Nat} {state : State}

theorem LayersFound.skipped_iff (found : LayersFound env s k state) :
    Skipped env .layerState state ↔ (layerAttempt env s k).due env s = false := by
  rw [Skipped, found.value, found.copy, found.lastUpdate, found.timeReads, LayerAttempt.due, Bool.or_eq_false_iff,
    decide_eq_false_iff_not, BitVec.not_le]

/-- The layer state is through: what attempt `k` finds for the default layer state. -/
structure DefaultFound (env : Environment) (s : State) (k : Nat) (state : State) : Prop where
  value : state.value = s.value
  copy : state.splitShmem .layerState = s.value .layerState
  defaultCopy : state.splitShmem .defaultLayerState = (layerAttempt env s k).defaultCopy
  slave : state.slaveShmem .layerState = s.value .layerState ↔
    s.slaveShmem .layerState = s.value .layerState ∨ ∃ j < k + 1, (layerAttempt env s j).sent env s = true
  defaultSlave : state.slaveShmem .defaultLayerState = s.slaveShmem .defaultLayerState
  lastUpdate : state.lastUpdate .layerState = ((layerAttempt env s k).next env s).lastUpdate
  defaultLastUpdate : state.lastUpdate .defaultLayerState = s.lastUpdate .defaultLayerState
  transactions : state.transactions = (layerAttempt env s k).transaction + if (layerAttempt env s k).due env s then 1 else 0
  timeReads : state.timeReads = (layerAttempt env s k).reading + if (layerAttempt env s k).due env s then 2 else 1

theorem LayersFound.layer_failed (found : LayersFound env s k state)
    (failed : (layerAttempt env s k).failed env s = true) :
    ∃ after, sendField env .layerState state = (false, after) ∧ LayersFound env s (k + 1) after := by
  obtain ⟨due, fails⟩ : (layerAttempt env s k).due env s = true ∧
      env.transaction (layerAttempt env s k).transaction = false := by simpa [LayerAttempt.failed] using failed
  have notSkipped : ¬Skipped env .layerState state := by
    rw [found.skipped_iff, due]
    exact Bool.noConfusion
  have unsent : (layerAttempt env s k).sent env s = false := by simp [LayerAttempt.sent, fails]
  refine ⟨_, sendField_failed notSkipped (found.transactions ▸ fails), ?_⟩
  constructor
  · exact found.value
  · simp [layerAttempt, LayerAttempt.next, found.value]
  · simp [layerAttempt, LayerAttempt.next, failed, found.defaultCopy]
  · rw [Nat.exists_lt_succ_right, unsent]
    simpa using found.slave
  · exact found.defaultSlave
  · simp [layerAttempt, LayerAttempt.next, unsent, found.lastUpdate]
  · exact found.defaultLastUpdate
  · simp [layerAttempt, LayerAttempt.next, failed, found.transactions]
  · simp [layerAttempt, LayerAttempt.next, failed, found.timeReads]

/-- It gets through with a transaction, or because it was not due. -/
theorem LayersFound.layer_through (found : LayersFound env s k state)
    (through : (layerAttempt env s k).failed env s = false) :
    ∃ after, sendField env .layerState state = (true, after) ∧ DefaultFound env s k after := by
  by_cases due : (layerAttempt env s k).due env s = true
  · have okay : env.transaction (layerAttempt env s k).transaction = true := by
      simpa [LayerAttempt.failed, due] using through
    have notSkipped : ¬Skipped env .layerState state := by
      rw [found.skipped_iff, due]
      exact Bool.noConfusion
    refine ⟨_, sendField_okay notSkipped (found.transactions ▸ okay), ?_⟩
    have sent : (layerAttempt env s k).sent env s = true := by simp [LayerAttempt.sent, due, okay]
    constructor
    · exact found.value
    · simp [found.value]
    · simp [found.defaultCopy]
    · simp only [Function.update_self, found.value, true_iff]
      exact .inr ⟨k, Nat.lt_succ_self k, sent⟩
    · simp [found.defaultSlave]
    · simp [LayerAttempt.next, sent, found.timeReads]
    · simp [found.defaultLastUpdate]
    · simp [due, found.transactions]
    · simp [due, found.timeReads]
  · have idle : (layerAttempt env s k).due env s = false := (Bool.not_eq_true _).mp due
    refine ⟨_, sendField_skipped (found.skipped_iff.mpr idle), ?_⟩
    have unsent : (layerAttempt env s k).sent env s = false := by simp [LayerAttempt.sent, idle]
    constructor
    · exact found.value
    · -- what is not wanted is in the master's copy already
      have same : wanted .layerState (s.value .layerState) (layerAttempt env s k).copy = false := by
        simp only [LayerAttempt.due, Bool.or_eq_false_iff] at idle
        exact idle.2
      have copied : s.value .layerState = (layerAttempt env s k).copy := by simpa [wanted] using same
      exact found.copy.trans copied.symm
    · exact found.defaultCopy
    · rw [Nat.exists_lt_succ_right, unsent]
      simpa using found.slave
    · exact found.defaultSlave
    · simp [LayerAttempt.next, unsent, found.lastUpdate]
    · exact found.defaultLastUpdate
    · simp [idle, found.transactions]
    · simp [idle, found.timeReads]

theorem DefaultFound.skipped_iff (found : DefaultFound env s k state) :
    Skipped env .defaultLayerState state ↔ (layerAttempt env s k).defaultDue env s = false := by
  rw [Skipped, found.value, found.defaultCopy, found.defaultLastUpdate, found.timeReads, LayerAttempt.defaultDue,
    Bool.or_eq_false_iff, decide_eq_false_iff_not, BitVec.not_le]

/-- The default layer state fails behind the layer state. -/
theorem DefaultFound.next (found : DefaultFound env s k state)
    (through : (layerAttempt env s k).failed env s = false)
    (failed : (layerAttempt env s k).defaultFailed env s = true) :
    ∃ after, sendField env .defaultLayerState state = (false, after) ∧ LayersFound env s (k + 1) after := by
  simp only [LayerAttempt.defaultFailed, Bool.and_eq_true, Bool.not_eq_true'] at failed
  obtain ⟨⟨_, due⟩, fails⟩ := failed
  have notSkipped : ¬Skipped env .defaultLayerState state := by
    rw [found.skipped_iff, due]
    exact Bool.noConfusion
  refine ⟨_, sendField_failed notSkipped (found.transactions ▸ fails), ?_⟩
  constructor
  · exact found.value
  · simp [layerAttempt, LayerAttempt.next, found.copy]
  · simp [layerAttempt, LayerAttempt.next, through, found.value]
  · exact found.slave
  · exact found.defaultSlave
  · exact found.lastUpdate
  · exact found.defaultLastUpdate
  · simp only [found.transactions, layerAttempt, LayerAttempt.next, through]
    split_ifs <;> simp_all
  · simp only [found.timeReads, layerAttempt, LayerAttempt.next, through]
    split_ifs <;> simp_all

theorem DefaultFound.last (found : DefaultFound env s k state)
    (through : (layerAttempt env s k).failed env s = false)
    (okay : (layerAttempt env s k).defaultFailed env s = false) :
    ∃ after, sendField env .defaultLayerState state = (true, after) ∧
      (after.slaveShmem .layerState = s.value .layerState ↔
        s.slaveShmem .layerState = s.value .layerState ∨ ∃ j < k + 1, (layerAttempt env s j).sent env s = true) ∧
      (after.slaveShmem .defaultLayerState = s.value .defaultLayerState ↔
        s.slaveShmem .defaultLayerState = s.value .defaultLayerState ∨
          (layerAttempt env s k).defaultDue env s = true) := by
  by_cases due : (layerAttempt env s k).defaultDue env s = true
  · have notSkipped : ¬Skipped env .defaultLayerState state := by
      rw [found.skipped_iff, due]
      exact Bool.noConfusion
    have result : env.transaction state.transactions = true := by
      rw [found.transactions]
      simpa [LayerAttempt.defaultFailed, through, due] using okay
    refine ⟨_, sendField_okay notSkipped result, ?_, ?_⟩
    · simpa using found.slave
    · simp [due, found.value]
  · have idle : (layerAttempt env s k).defaultDue env s = false := (Bool.not_eq_true _).mp due
    refine ⟨_, sendField_skipped (found.skipped_iff.mpr idle), found.slave, ?_⟩
    simp [idle, found.defaultSlave]

theorem layers_master (env : Environment) (state : State) : Handler.layerState.master env state =
    if (sendField env .layerState state).1 then
      sendField env .defaultLayerState (sendField env .layerState state).2
    else (false, (sendField env .layerState state).2) := rfl

/-- One attempt fails as its transactions do, or delivers what it is due to. -/
theorem LayersFound.attempt (found : LayersFound env s k state) :
    ((layerAttempt env s k).failed env s = true ∨ (layerAttempt env s k).defaultFailed env s = true) ∧
        (Handler.layerState.master env state).1 = false ∧
        LayersFound env s (k + 1) (Handler.layerState.master env state).2 ∨
      ((layerAttempt env s k).failed env s = false ∧ (layerAttempt env s k).defaultFailed env s = false) ∧
        (Handler.layerState.master env state).1 = true ∧
        ((Handler.layerState.master env state).2.slaveShmem .layerState = s.value .layerState ↔
          s.slaveShmem .layerState = s.value .layerState ∨ ∃ j < k + 1, (layerAttempt env s j).sent env s = true) ∧
        ((Handler.layerState.master env state).2.slaveShmem .defaultLayerState = s.value .defaultLayerState ↔
          s.slaveShmem .defaultLayerState = s.value .defaultLayerState ∨
            (layerAttempt env s k).defaultDue env s = true) := by
  rw [layers_master]
  cases layer : (layerAttempt env s k).failed env s with
  | true =>
    obtain ⟨after, result, next⟩ := found.layer_failed layer
    rw [result]
    exact .inl ⟨.inl rfl, rfl, next⟩
  | false =>
    -- only then does the default layer state have its turn
    obtain ⟨between, result, default⟩ := found.layer_through layer
    rw [result]
    cases failed : (layerAttempt env s k).defaultFailed env s with
    | true =>
      obtain ⟨after, result, next⟩ := default.next layer failed
      dsimp only
      rw [if_pos rfl, result]
      exact .inl ⟨.inr rfl, rfl, next⟩
    | false =>
      obtain ⟨after, result, delivered⟩ := default.last layer failed
      dsimp only
      rw [if_pos rfl, result]
      exact .inr ⟨⟨rfl, rfl⟩, rfl, delivered⟩

theorem layers_iff (retries : Nat) (s : State) :
    ((attempts env .layerState retries s).1 = true → ∀ field ∈ Handler.layerState.fields,
        (attempts env .layerState retries s).2.slaveShmem field = s.value field) ↔ LayersDeliver env s retries := by
  have initial : LayersFound env s 0 s := by
    refine ⟨rfl, rfl, rfl, ?_, rfl, rfl, rfl, rfl, rfl⟩
    simp
  rw [attempts_eq]
  refine retry_good_iff (fun state => ∀ field ∈ Handler.layerState.fields, state.slaveShmem field = s.value field)
    ?_ ?_ retries initial
  · intro k state found fails
    rcases found.attempt with ⟨reason, _, next⟩ | ⟨_, okay, _⟩
    · refine ⟨reason, fun layer default => ?_, next⟩
      simp [layer, default] at reason
    · rw [fails] at okay
      cases okay
  · intro k state found okay
    rcases found.attempt with ⟨_, fails, _⟩ | ⟨⟨layer, default⟩, _, first, second⟩
    · rw [okay] at fails
      cases fails
    · refine ⟨by simp [layer, default], ?_⟩
      simp only [Handler.fields, List.forall_mem_cons, List.not_mem_nil, false_imp_iff, implies_true, and_true,
        first, second, layer, default, true_imp_iff]

end Layers

/-! ## Every handler -/

section Handlers

variable (env : Environment)

/-- The condition, on the copies, the times of the last updates, the transactions and the timer at the call,
under which success means delivery. -/
def Delivers (handler : Handler) (retries : Nat) (s : State) : Prop :=
  match handler with
  | .layerState => LayersDeliver env s retries
  | handler => ∀ field ∈ handler.fields, FieldDelivers env s field retries

def readings : Environment where
  throttle := 100
  transaction n := n ≠ 0
  time _ := 50

def capsLock : State where
  value field := if field = .ledState then [2] else []
  splitShmem field := if field = .ledState then [0] else []
  slaveShmem field := if field = .ledState then [0] else []
  lastUpdate _ := 0
  transactions := 0
  timeReads := 0

end Handlers

end QmkFirmware.SplitSync
