import QmkFirmware.SplitSync.Crc8

/-! # Remote calls between the split halves

A shallow embedding of `transaction_register_rpc`, `transaction_rpc_exec`, `slave_rpc_info_callback` and
`slave_rpc_exec_callback` of `quantum/split_common/transactions.c`, with the reaction of the slave to a
transaction from `platforms/chibios/drivers/serial_protocol.c`.  A transfer may leave anything in
`rpc_info`, also one that fails.  The lengths of the block are installed before anything checks them, and
its signed identifier is compared with the end of the table only. -/

namespace QmkFirmware.SplitSync.Rpc

/-! ## The model -/

/-- `slave_callback_t`.  A callback of the keyboard has no access to `split_transaction_table`. -/
inductive Callback where
  | slaveRpcInfo
  | slaveRpcExec
  | registered (number : Nat)
deriving DecidableEq

structure TransactionDesc where
  initiator2targetBufferSize : BitVec 8
  initiator2targetOffset : BitVec 16
  target2initiatorBufferSize : BitVec 8
  target2initiatorOffset : BitVec 16
  slaveCallback : Option Callback
deriving DecidableEq

/-- `rpc_sync_info_t`. -/
structure RpcInfo where
  checksum : BitVec 8
  transactionId : BitVec 8
  m2sLength : BitVec 8
  s2mLength : BitVec 8
deriving DecidableEq

def RpcInfo.payload (info : RpcInfo) : List (BitVec 8) :=
  [info.transactionId, info.m2sLength, info.s2mLength]

/-- `NUM_TOTAL_TRANSACTIONS`, the first of the four identifiers of a remote call, the sizes and places of
the buffers, the options of `crc8` and the other entries of the table. -/
structure Config where
  numTotalTransactions : Nat
  putRpcInfo : Nat
  known : putRpcInfo + 3 < numTotalTransactions
  few : numTotalTransactions ≤ 2 ^ 5
  rpcM2sBufferSize : Nat
  rpcS2mBufferSize : Nat
  rpcInfoOffset : BitVec 16
  rpcM2sBufferOffset : BitVec 16
  rpcS2mBufferOffset : BitVec 16
  crc8UseTable : Bool
  spare : Nat
  others : Nat → TransactionDesc

namespace Config

variable (config : Config)

def putRpcReqData : Nat := config.putRpcInfo + 1
def executeRpc : Nat := config.putRpcInfo + 2
def getRpcRespData : Nat := config.putRpcInfo + 3

def crc8 (data : List (BitVec 8)) : BitVec 8 :=
  if config.crc8UseTable then SplitSync.crc8Table config.spare data else SplitSync.crc8 config.spare data

/-- The initialiser of `split_transaction_table`. -/
def table (id : Nat) : TransactionDesc :=
  if id = config.putRpcInfo then ⟨4, config.rpcInfoOffset, 0, 0, some .slaveRpcInfo⟩
  else if id = config.putRpcReqData then
    ⟨BitVec.ofNat 8 config.rpcM2sBufferSize, config.rpcM2sBufferOffset, 0, 0, none⟩
  else if id = config.executeRpc then ⟨1, config.rpcInfoOffset + 1, 0, 0, some .slaveRpcExec⟩
  else if id = config.getRpcRespData then
    ⟨0, 0, BitVec.ofNat 8 config.rpcS2mBufferSize, config.rpcS2mBufferOffset, none⟩
  else config.others id

end Config

/-- The slave: its table, the block in the shared memory and the callback that is about to run. -/
structure State where
  splitTransactionTable : Nat → TransactionDesc
  rpcInfo : RpcInfo
  callback : Option Callback

section Machine

variable (config : Config)

def start (rpcInfo : RpcInfo) : State :=
  ⟨config.table, rpcInfo, none⟩

/-- An entry of the table, or nothing where the index is outside it. -/
def entry (s : State) (index : Int) : Option TransactionDesc :=
  if 0 ≤ index ∧ index < config.numTotalTransactions then some (s.splitTransactionTable index.toNat) else none

def slaveRpcInfoCallback (s : State) : State :=
  let request := { s.splitTransactionTable config.putRpcReqData with
    initiator2targetBufferSize := s.rpcInfo.m2sLength }
  let table := Function.update s.splitTransactionTable config.putRpcReqData request
  let response := { table config.getRpcRespData with target2initiatorBufferSize := s.rpcInfo.s2mLength }
  { s with splitTransactionTable := Function.update table config.getRpcRespData response, callback := none }

/-- It fails where it reads outside the table.  What it calls runs next. -/
def slaveRpcExecCallback (s : State) : Option State :=
  if config.crc8 s.rpcInfo.payload ≠ s.rpcInfo.checksum then some { s with callback := none }
  else if s.rpcInfo.transactionId.toInt < config.numTotalTransactions then do
    let trans ← entry config s s.rpcInfo.transactionId.toInt
    some { s with callback := trans.slaveCallback }
  else some { s with callback := none }

def runCallback (s : State) : Option State :=
  match s.callback with
  | none => some s
  | some .slaveRpcInfo => some (slaveRpcInfoCallback config s)
  | some .slaveRpcExec => slaveRpcExecCallback config s
  | some (.registered _) => some { s with callback := none }

def transactionRegisterRpc (id : Nat) (callback : Callback) (s : State) : State :=
  if id ≤ config.getRpcRespData then s
  else
    let trans := { s.splitTransactionTable id with
      slaveCallback := some callback
      initiator2targetOffset := config.rpcM2sBufferOffset
      target2initiatorOffset := config.rpcS2mBufferOffset }
    { s with splitTransactionTable := Function.update s.splitTransactionTable id trans }

/-- `react_to_transaction`, up to the callback. -/
def reactToTransaction (id : Nat) (s : State) : State :=
  if id ≥ config.numTotalTransactions then s
  else { s with callback := (s.splitTransactionTable id).slaveCallback }

/-- A transfer into `rpc_info`, the start of a transaction, a step of its callbacks, and a registration
under one of the identifiers of the table. -/
inductive Event where
  | transfer (rpcInfo : RpcInfo)
  | transaction (id : Nat)
  | callback
  | register (id : Fin config.numTotalTransactions) (callback : Callback)

/-- A transaction is not accepted before the callbacks of the last one are done. -/
def step (s : State) : Event config → Option State
  | .transfer rpcInfo => some { s with rpcInfo := rpcInfo }
  | .transaction id => if s.callback.isSome then some s else some (reactToTransaction config id s)
  | .callback => runCallback config s
  | .register id callback => some (transactionRegisterRpc config id callback s)

/-- `transaction_rpc_exec` of a connected master, up to the block that it sends first. -/
def transactionRpcExec (transactionId initiator2targetBufferSize target2initiatorBufferSize : BitVec 8) :
    Option RpcInfo :=
  if transactionId.toInt ≤ config.getRpcRespData then none
  else if initiator2targetBufferSize.toNat > config.rpcM2sBufferSize then none
  else if target2initiatorBufferSize.toNat > config.rpcS2mBufferSize then none
  else
    let info : RpcInfo := ⟨0, transactionId, initiator2targetBufferSize, target2initiatorBufferSize⟩
    some { info with checksum := config.crc8 info.payload }

/-! ## Bounds of a run -/

def Bounded (s : State) : Prop :=
  (s.splitTransactionTable config.putRpcReqData).initiator2targetBufferSize.toNat ≤ config.rpcM2sBufferSize ∧
    (s.splitTransactionTable config.getRpcRespData).target2initiatorBufferSize.toNat ≤ config.rpcS2mBufferSize

/-- In every state the sizes are bounded, and every access is inside the table. -/
def Safe (s : State) : List (Event config) → Prop
  | [] => Bounded config s
  | event :: events => Bounded config s ∧ ∃ next, step config s event = some next ∧ Safe next events

/-- Where the next callback is one of the two, the block in the shared memory is harmless: its lengths
fit when they are to be installed, and its identifier is not negative when its checksum is right. -/
def Harmless (s : State) : Event config → Prop
  | .callback =>
    (s.callback = some .slaveRpcInfo → s.rpcInfo.m2sLength.toNat ≤ config.rpcM2sBufferSize ∧
      s.rpcInfo.s2mLength.toNat ≤ config.rpcS2mBufferSize) ∧
    (s.callback = some .slaveRpcExec →
      config.crc8 s.rpcInfo.payload = s.rpcInfo.checksum → 0 ≤ s.rpcInfo.transactionId.toInt)
  | _ => True

def AllHarmless (s : State) : List (Event config) → Prop
  | [] => True
  | event :: events => Harmless config s event ∧ ∀ next, step config s event = some next → AllHarmless next events

/-! ## One step -/

variable {config}

theorem bounded_start (rpcInfo : RpcInfo) : Bounded config (start config rpcInfo) := by
  constructor
  · simp [start, Config.table, Config.putRpcReqData, Nat.mod_le]
  · simp [start, Config.table, Config.putRpcReqData, Config.executeRpc, Config.getRpcRespData, Nat.mod_le]

theorem bounded_of_table {s next : State} (same : next.splitTransactionTable = s.splitTransactionTable) :
    Bounded config next ↔ Bounded config s := by
  rw [Bounded, Bounded, same]

/-- The installed sizes are the lengths of the block. -/
theorem bounded_info (s : State) : Bounded config (slaveRpcInfoCallback config s) ↔
    s.rpcInfo.m2sLength.toNat ≤ config.rpcM2sBufferSize ∧ s.rpcInfo.s2mLength.toNat ≤ config.rpcS2mBufferSize := by
  have different : config.putRpcReqData ≠ config.getRpcRespData := by
    simp [Config.putRpcReqData, Config.getRpcRespData]
  simp [Bounded, slaveRpcInfoCallback, different]

theorem exec_succeeds (s : State) : (∃ next, slaveRpcExecCallback config s = some next) ↔
    (config.crc8 s.rpcInfo.payload = s.rpcInfo.checksum → 0 ≤ s.rpcInfo.transactionId.toInt) := by
  by_cases checked : config.crc8 s.rpcInfo.payload = s.rpcInfo.checksum
  · by_cases below : s.rpcInfo.transactionId.toInt < config.numTotalTransactions
    · by_cases negative : 0 ≤ s.rpcInfo.transactionId.toInt
      · simp [slaveRpcExecCallback, entry, checked, below, negative]
      · simp [slaveRpcExecCallback, entry, checked, below, negative]
    · have positive : 0 ≤ s.rpcInfo.transactionId.toInt := (Int.natCast_nonneg _).trans (not_lt.mp below)
      simp [slaveRpcExecCallback, below, positive]
  · simp [slaveRpcExecCallback, checked]

theorem exec_table {s next : State} (ran : slaveRpcExecCallback config s = some next) :
    next.splitTransactionTable = s.splitTransactionTable := by
  rw [slaveRpcExecCallback] at ran
  split at ran
  · cases ran
    rfl
  · split at ran
    · obtain ⟨trans, -, rest⟩ := Option.bind_eq_some_iff.mp ran
      cases rest
      rfl
    · cases ran
      rfl

/-- A registration cannot reach the entries of a remote call. -/
theorem bounded_register (id : Nat) (callback : Callback) (s : State) :
    Bounded config (transactionRegisterRpc config id callback s) ↔ Bounded config s := by
  rw [transactionRegisterRpc]
  by_cases core : id ≤ config.getRpcRespData
  · rw [if_pos core]
  · have request : config.putRpcReqData ≠ id := by
      rw [Config.getRpcRespData] at core
      rw [Config.putRpcReqData]
      omega
    have response : config.getRpcRespData ≠ id := fun same => core same.ge
    rw [if_neg core, Bounded, Bounded]
    dsimp only
    rw [Function.update_of_ne request, Function.update_of_ne response]

/-- From bounded sizes, a step stays inside the table and keeps them bounded exactly where the block that
it reads is harmless. -/
theorem harmless_iff {s : State} (bounded : Bounded config s) (event : Event config) :
    Harmless config s event ↔ ∃ next, step config s event = some next ∧ Bounded config next := by
  cases event with
  | transfer rpcInfo => exact ⟨fun _ => ⟨_, rfl, bounded⟩, fun _ => trivial⟩
  | transaction id =>
    refine ⟨fun _ => ?_, fun _ => trivial⟩
    rw [step]
    by_cases busy : s.callback.isSome
    · exact ⟨s, if_pos busy, bounded⟩
    · refine ⟨_, if_neg busy, (bounded_of_table ?_).mpr bounded⟩
      rw [reactToTransaction]
      split <;> rfl
  | register id callback => exact ⟨fun _ => ⟨_, rfl, (bounded_register id callback s).mpr bounded⟩, fun _ => trivial⟩
  | callback =>
    rw [step, runCallback]
    cases running : s.callback with
    | none => simp [Harmless, running, bounded]
    | some callback =>
      cases callback with
      | slaveRpcInfo => simp [Harmless, running, bounded_info]
      | slaveRpcExec =>
        have inside : Harmless config s .callback ↔ ∃ next, slaveRpcExecCallback config s = some next := by
          rw [exec_succeeds]
          simp [Harmless, running]
        rw [inside]
        exact ⟨fun ⟨next, ran⟩ => ⟨next, ran, (bounded_of_table (exec_table ran)).mpr bounded⟩,
          fun ⟨next, ran, _⟩ => ⟨next, ran⟩⟩
      | registered number => simp [Harmless, running, @bounded_of_table config s, bounded]

/-! ## Whole runs -/

theorem safe_iff {s : State} (bounded : Bounded config s) (events : List (Event config)) :
    Safe config s events ↔ AllHarmless config s events := by
  induction events generalizing s with
  | nil => exact ⟨fun _ => trivial, fun _ => bounded⟩
  | cons event events ih =>
    rw [Safe, AllHarmless, harmless_iff bounded]
    constructor
    · rintro ⟨-, next, ran, safe⟩
      have bounded' : Bounded config next := by
        cases events with
        | nil => exact safe
        | cons later events => exact safe.1
      refine ⟨⟨next, ran, bounded'⟩, fun other ran' => ?_⟩
      rw [ran] at ran'
      cases ran'
      exact (ih bounded').mp safe
    · rintro ⟨⟨next, ran, bounded'⟩, later⟩
      exact ⟨bounded, next, ran, (ih bounded').mpr (later next ran)⟩

/-- A run of the slave is safe exactly when each block is harmless at the callback that reads it. -/
theorem rpc_safe_iff (config : Config) (rpcInfo : RpcInfo) (events : List (Event config)) :
    Safe config (start config rpcInfo) events ↔ AllHarmless config (start config rpcInfo) events :=
  safe_iff (bounded_start rpcInfo) events

/-- One call beside the slave matrix, with an identifier of the keyboard. -/
def oneCall : Config where
  numTotalTransactions := 7
  putRpcInfo := 2
  known := Nat.le_add_right 6 1
  few := Nat.le_add_right 7 25
  rpcM2sBufferSize := 32
  rpcS2mBufferSize := 32
  rpcInfoOffset := 6
  rpcM2sBufferOffset := 10
  rpcS2mBufferOffset := 42
  crc8UseTable := false
  spare := 0
  others := fun _ => ⟨0, 0, 0, 0, none⟩

/-- A length of 255 is installed with a wrong checksum, and the identifier -1 is an index with a right one. -/
theorem garbled_block_unsafe :
    ¬ Safe oneCall (start oneCall ⟨0, 0, 0, 0⟩) [.transfer ⟨0, 6, 255, 0⟩, .transaction 2, .callback] ∧
      ¬ Safe oneCall (start oneCall ⟨0, 0, 0, 0⟩)
        [.transfer ⟨oneCall.crc8 [255, 0, 0], 255, 0, 0⟩, .transaction 4, .callback] := by
  have run : ∀ (info : RpcInfo) (id : Nat), id < 7 →
      Safe oneCall (start oneCall ⟨0, 0, 0, 0⟩) [.transfer info, .transaction id, .callback] →
      ∃ next, runCallback oneCall ⟨oneCall.table, info, (oneCall.table id).slaveCallback⟩ = some next ∧
        Bounded oneCall next := by
    rintro info id inside ⟨-, received, arrived, -, reacted, same, -, next, ran, bounded⟩
    cases arrived
    have known : ¬ 7 ≤ id := not_le.mpr inside
    have here : reacted = ⟨oneCall.table, info, (oneCall.table id).slaveCallback⟩ := by
      simpa [step, start, reactToTransaction, oneCall, known] using same.symm
    rw [here] at ran
    exact ⟨next, ran, bounded⟩
  constructor
  · intro safe
    obtain ⟨next, ran, bounded⟩ := run _ _ (by decide) safe
    cases ran
    exact absurd (@bounded_info oneCall _ |>.mp bounded).1 (by decide)
  · intro safe
    obtain ⟨next, ran, -⟩ := run _ _ (by decide) safe
    exact absurd ((exec_succeeds _).mp ⟨next, ran⟩ rfl) (by decide)

/-! ## The blocks of a master -/

structure Fits (config : Config) (info : RpcInfo) : Prop where
  m2s : info.m2sLength.toNat ≤ config.rpcM2sBufferSize
  s2m : info.s2mLength.toNat ≤ config.rpcS2mBufferSize
  id : 0 ≤ info.transactionId.toInt

theorem master_fits {transactionId i2tSize t2iSize : BitVec 8} {info : RpcInfo}
    (sent : transactionRpcExec config transactionId i2tSize t2iSize = some info) : Fits config info := by
  rw [transactionRpcExec] at sent
  split at sent
  · cases sent
  · next known =>
    split at sent
    · cases sent
    · next request =>
      split at sent
      · cases sent
      · next response =>
        cases sent
        exact ⟨not_lt.mp request, not_lt.mp response, (Int.natCast_nonneg _).trans (not_le.mp known).le⟩

theorem Fits.harmless {s : State} (fits : Fits config s.rpcInfo) (event : Event config) : Harmless config s event := by
  cases event with
  | callback => exact ⟨fun _ => ⟨fits.m2s, fits.s2m⟩, fun _ _ => fits.id⟩
  | transfer => trivial
  | transaction => trivial
  | register => trivial

/-- Only a transfer changes the block. -/
theorem step_rpcInfo {s next : State} {event : Event config} (ran : step config s event = some next) :
    next.rpcInfo = s.rpcInfo ∨ event = .transfer next.rpcInfo := by
  cases event with
  | transfer rpcInfo =>
    cases ran
    exact .inr rfl
  | transaction id =>
    left
    rw [step] at ran
    split at ran
    · cases ran
      rfl
    · cases ran
      rw [reactToTransaction]
      split <;> rfl
  | register id callback =>
    left
    cases ran
    rw [transactionRegisterRpc]
    split <;> rfl
  | callback =>
    left
    rw [step, runCallback] at ran
    split at ran
    · cases ran
      rfl
    · cases ran
      rfl
    · rw [slaveRpcExecCallback] at ran
      split at ran
      · cases ran
        rfl
      · split at ran
        · obtain ⟨trans, -, rest⟩ := Option.bind_eq_some_iff.mp ran
          cases rest
          rfl
        · cases ran
          rfl
    · cases ran
      rfl

theorem allHarmless_of_fits {s : State} {events : List (Event config)} (fits : Fits config s.rpcInfo)
    (sent : ∀ info, .transfer info ∈ events → Fits config info) : AllHarmless config s events := by
  induction events generalizing s with
  | nil => trivial
  | cons event events ih =>
    refine ⟨fits.harmless event, fun next ran => ih ?_ fun info member => sent info (List.mem_cons_of_mem _ member)⟩
    rcases step_rpcInfo ran with same | received
    · rw [same]
      exact fits
    · exact sent _ (received ▸ List.mem_cons_self)

/-- As long as every block comes as a master sends it, the slave is safe. -/
theorem master_run_safe (events : List (Event config)) (sent : ∀ info, .transfer info ∈ events →
      ∃ transactionId i2tSize t2iSize, transactionRpcExec config transactionId i2tSize t2iSize = some info) :
    Safe config (start config ⟨0, 0, 0, 0⟩) events := by
  apply (safe_iff (bounded_start _) events).mpr
  refine allHarmless_of_fits ⟨Nat.zero_le _, Nat.zero_le _, le_refl (0 : Int)⟩ fun info member => ?_
  obtain ⟨_, _, _, block⟩ := sent info member
  exact master_fits block

/-- A remote call with eight bytes there and four back. -/
theorem oneCall_safe : Safe oneCall (start oneCall ⟨0, 0, 0, 0⟩)
    [.register ⟨6, by decide⟩ (.registered 0), .transfer ⟨oneCall.crc8 [6, 8, 4], 6, 8, 4⟩, .transaction 2, .callback,
      .transaction 4, .callback, .callback] := by
  refine master_run_safe _ fun info member => ⟨6, 8, 4, ?_⟩
  simp only [List.mem_cons, Event.transfer.injEq, List.not_mem_nil, reduceCtorEq, or_false, false_or] at member
  rw [member]
  rfl

end Machine

end QmkFirmware.SplitSync.Rpc
