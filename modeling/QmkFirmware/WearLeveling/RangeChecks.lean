import QmkFirmware.WearLeveling.StoreBounds

/-! # The range checks of reads and writes

Both calls add the address and the length in 32 bits.  `ranges_checked_iff` says for which requests
the comparison of that sum is the comparison of the range.
-/

namespace QmkFirmware.WearLeveling

open QmkFirmware.Memory

/-! ## What the store leaves alone

Whatever fails, the operations below the cache do not change it. -/

section CacheKept

variable (cfg : Config) (faults : Faults)

theorem wearLevelingUnlock_cache (s : State) : (wearLevelingUnlock faults s).2.cache = s.cache := by
  have performed : (perform faults .unlock s).2.cache = s.cache := rfl
  rw [wearLevelingUnlock]
  generalize perform faults .unlock s = result at performed ⊢
  obtain ⟨ok, next⟩ := result
  split
  · rfl
  · cases ok <;> exact performed

theorem wearLevelingLock_cache (s : State) : (wearLevelingLock faults s).2.cache = s.cache := by
  have performed : (perform faults .lock s).2.cache = s.cache := rfl
  rw [wearLevelingLock]
  generalize perform faults .lock s = result at performed ⊢
  obtain ⟨ok, next⟩ := result
  split
  · cases ok <;> exact performed
  · rfl

theorem backingStoreWriteBulk_cache (words : List (List UInt8)) (address : Nat) (s : State) :
    (backingStoreWriteBulk cfg faults address words s).2.cache = s.cache := by
  induction words generalizing address s with
  | nil => rfl
  | cons word words ih =>
    have performed : (perform faults (.write address word) s).2.cache = s.cache := rfl
    rw [backingStoreWriteBulk, backingStoreWrite]
    generalize perform faults (.write address word) s = result at performed ⊢
    obtain ⟨ok, next⟩ := result
    cases ok with
    | true => exact (ih _ next).trans performed
    | false => exact performed

theorem wearLevelingWriteConsolidated_cache (s : State) :
    (wearLevelingWriteConsolidated cfg faults s).2.cache = s.cache := by
  have opened := wearLevelingUnlock_cache faults s
  rw [wearLevelingWriteConsolidated]
  generalize wearLevelingUnlock faults s = result at opened ⊢
  obtain ⟨lockStatus, s₁⟩ := result
  have data := backingStoreWriteBulk_cache cfg faults
    (chunk cfg.writeSize.bytes (cfg.logicalSize / cfg.writeSize.bytes) (slice s₁.cache 0 cfg.logicalSize)) 0 s₁
  dsimp only
  generalize backingStoreWriteBulk cfg faults 0 _ s₁ = result at data ⊢
  obtain ⟨dataOk, s₂⟩ := result
  have hash := backingStoreWriteBulk_cache cfg faults
    (chunk cfg.writeSize.bytes (8 / cfg.writeSize.bytes) (cacheHash cfg s₂.cache)) cfg.logicalSize s₂
  have written : (if dataOk then
      backingStoreWriteBulk cfg faults cfg.logicalSize
        (chunk cfg.writeSize.bytes (8 / cfg.writeSize.bytes) (cacheHash cfg s₂.cache)) s₂
    else (false, s₂)).2.cache = s₂.cache := by
    cases dataOk with
    | true => exact hash
    | false => rfl
  dsimp only
  generalize (if dataOk then _ else (false, s₂) : Bool × State) = result at written ⊢
  obtain ⟨ok, s₃⟩ := result
  have stored := written.trans (data.trans opened)
  dsimp only
  split
  · exact (wearLevelingLock_cache faults s₃).trans stored
  · exact stored

theorem wearLevelingConsolidateForce_cache (s : State) :
    (wearLevelingConsolidateForce cfg faults s).2.cache = s.cache := by
  have erased : (perform faults .erase s).2.cache = s.cache := rfl
  rw [wearLevelingConsolidateForce]
  generalize perform faults .erase s = result at erased ⊢
  obtain ⟨ok, next⟩ := result
  cases ok with
  | true => exact (wearLevelingWriteConsolidated_cache cfg faults next).trans erased
  | false => exact erased

theorem wearLevelingConsolidateIfNeeded_cache (s : State) :
    (wearLevelingConsolidateIfNeeded cfg faults s).2.cache = s.cache := by
  rw [wearLevelingConsolidateIfNeeded]
  split
  · exact wearLevelingConsolidateForce_cache cfg faults s
  · rfl

theorem wearLevelingAppendRaw_cache (value : List UInt8) (s : State) :
    (wearLevelingAppendRaw cfg faults value s).2.cache = s.cache := by
  have performed : (perform faults (.write s.writeAddress value) s).2.cache = s.cache := rfl
  rw [wearLevelingAppendRaw, backingStoreWrite]
  generalize perform faults (.write s.writeAddress value) s = result at performed ⊢
  obtain ⟨ok, next⟩ := result
  cases ok with
  | true => exact (wearLevelingConsolidateIfNeeded_cache cfg faults _).trans performed
  | false => exact performed

theorem onSuccess_cache {result : Status × State} {next : State → Status × State}
    (kept : (next result.2).2.cache = result.2.cache) : (onSuccess result next).2.cache = result.2.cache := by
  obtain ⟨status, s⟩ := result
  cases status with
  | success => exact kept
  | failed => rfl
  | consolidated => rfl

theorem wearLevelingAppendAll_cache (values : List (List UInt8)) (s : State) :
    (wearLevelingAppendAll cfg faults values s).2.cache = s.cache := by
  induction values generalizing s with
  | nil => rfl
  | cons value values ih => exact (onSuccess_cache (ih _)).trans (wearLevelingAppendRaw_cache cfg faults value s)

theorem wearLevelingWriteRaw_cache (fuel address : Nat) (value : List UInt8) (s : State) :
    (wearLevelingWriteRaw cfg faults fuel address value s).2.cache = s.cache := by
  induction fuel generalizing address value s with
  | zero => rfl
  | succ fuel ih =>
    rw [wearLevelingWriteRaw]
    split
    · rfl
    · split
      · exact (onSuccess_cache (ih _ _ _)).trans (wearLevelingAppendRaw_cache cfg faults _ s)
      · split
        · exact (onSuccess_cache (ih _ _ _)).trans (wearLevelingAppendRaw_cache cfg faults _ s)
        · exact (onSuccess_cache (ih _ _ _)).trans (wearLevelingAppendAll_cache cfg faults _ s)

/-- The end of a write, where the store is locked again. -/
theorem relock_cache (lockStatus : LockStatus) (status : Status) (s : State) :
    (if lockStatus = .success then
      match wearLevelingLock faults s with
      | (.failure, s) => (Status.failed, s)
      | (_, s) => (status, s)
    else (status, s)).2.cache = s.cache := by
  have locked := wearLevelingLock_cache faults s
  split
  · generalize wearLevelingLock faults s = result at locked ⊢
    obtain ⟨relock, next⟩ := result
    cases relock <;> exact locked
  · rfl

/-- Behind the range check a write puts its data into the cache. -/
theorem wearLevelingWrite_cache {address : Nat} {value : List UInt8} (s : State)
    (checked : ¬ (address + value.length) % 2 ^ 32 > cfg.logicalSize) :
    (wearLevelingWrite cfg faults address value s).2.cache = blit s.cache address value := by
  rw [wearLevelingWrite, if_neg checked]
  split
  · rename_i same
    have kept := blit_slice s.cache address value.length
    rw [same] at kept
    exact kept.symm
  · have opened := wearLevelingUnlock_cache faults { s with cache := blit s.cache address value }
    dsimp only
    generalize wearLevelingUnlock faults { s with cache := blit s.cache address value } = result at opened ⊢
    obtain ⟨lockStatus, s₁⟩ := result
    have written : (onSuccess (wearLevelingWriteRaw cfg faults value.length address value s₁)
        (wearLevelingConsolidateIfNeeded cfg faults)).2.cache = s₁.cache :=
      (onSuccess_cache (wearLevelingConsolidateIfNeeded_cache cfg faults _)).trans
        (wearLevelingWriteRaw_cache cfg faults _ _ _ s₁)
    have finished := written.trans opened
    cases lockStatus with
    | failure => exact (wearLevelingLock_cache faults s₁).trans opened
    | unchanged => exact (relock_cache faults .unchanged _ _).trans finished
    | success => exact (relock_cache faults .success _ _).trans finished

end CacheKept

/-! ## The laws -/

section Laws

variable (cfg : Config) (address length : Nat)

/-- A read of a range in the logical space gives its bytes, and another one fails. -/
def ReadChecked : Prop :=
  ∀ s : State, wearLevelingRead cfg address length s =
    if address + length ≤ cfg.logicalSize then (.success, slice s.cache address length) else (.failed, [])

/-- A write to a range in the logical space gets to the cache, and another one fails and changes
nothing, whichever operations of the store fail. -/
def WriteChecked : Prop :=
  ∀ (faults : Faults) (s : State) (value : List UInt8), value.length = length →
    if address + length ≤ cfg.logicalSize then
      (wearLevelingWrite cfg faults address value s).2.cache = blit s.cache address value
    else wearLevelingWrite cfg faults address value s = (.failed, s)

end Laws

variable {cfg : Config} {address length : Nat}

/-- Where the machine's comparison agrees with the mathematical one, the laws hold. -/
theorem checked_of_agrees
    (agrees : (address + length) % 2 ^ 32 > cfg.logicalSize ↔ address + length > cfg.logicalSize) :
    ReadChecked cfg address length ∧ WriteChecked cfg address length := by
  constructor
  · intro s
    rw [wearLevelingRead]
    by_cases inside : address + length ≤ cfg.logicalSize
    · rw [if_pos inside, if_neg (by rw [agrees]; omega)]
    · rw [if_neg inside, if_pos (by rw [agrees]; omega)]
  · rintro faults s value rfl
    split
    · exact wearLevelingWrite_cache cfg faults s (by rw [agrees]; omega)
    · rw [wearLevelingWrite, if_pos (by rw [agrees]; omega)]

/-- A request that passes the machine's comparison only is not refused. -/
theorem unchecked_of_wraps (outside : address + length > cfg.logicalSize)
    (passes : ¬ (address + length) % 2 ^ 32 > cfg.logicalSize) :
    ¬ ReadChecked cfg address length ∧ ¬ WriteChecked cfg address length := by
  constructor
  · intro checked
    have refused := checked ⟨fun _ => 0, 0, false, fun _ => 0, []⟩
    rw [wearLevelingRead, if_neg passes, if_neg (by omega)] at refused
    exact nomatch (Prod.mk.inj refused).1
  · intro checked
    -- the bytes that are there already are written without a look at the store
    have refused := checked noFaults ⟨fun _ => 0, 0, false, fun _ => 0, []⟩ (slice (fun _ => 0) address length)
      (length_slice _ _ _)
    rw [if_neg (by omega), wearLevelingWrite, length_slice, if_neg passes, if_pos rfl] at refused
    exact nomatch (Prod.mk.inj refused).1

/-- The range checks are right unless the sum wraps around to a number in the logical space. -/
theorem ranges_checked_iff (cfg : Config) (address length : UInt32) :
    (ReadChecked cfg address.toNat length.toNat ∧ WriteChecked cfg address.toNat length.toNat) ↔
      ¬ (2 ^ 32 ≤ address.toNat + length.toNat ∧ address.toNat + length.toNat ≤ 2 ^ 32 + cfg.logicalSize) := by
  have small := cfg.addressable
  have twice := cfg.twice
  have addressLt := address.toNat_lt
  have lengthLt := length.toNat_lt
  constructor
  · intro checked wraps
    exact (unchecked_of_wraps (by omega) (by omega)).1 checked.1
  · intro noWrap
    exact checked_of_agrees (by omega)

/-- Two bytes at the last 32-bit address are read and written. -/
theorem wrappedRange_accepted : ¬ ReadChecked smallConfig 0xFFFFFFFF 2 ∧ ¬ WriteChecked smallConfig 0xFFFFFFFF 2 :=
  unchecked_of_wraps (by decide) (by decide)

end QmkFirmware.WearLeveling
