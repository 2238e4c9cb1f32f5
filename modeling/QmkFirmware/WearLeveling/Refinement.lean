import QmkFirmware.Foundations.Runs
import QmkFirmware.WearLeveling.Recovery

/-! # Wear levelling refines a byte array

Runs of requests against a store that does not fail.  `Consistent` is the
invariant of such runs: the log on the store stands for the bytes in the cache.
The main result is `restart_restores_byte_array`: whatever was requested, a
restart finds the bytes and the write address that were there before.
-/

namespace QmkFirmware.WearLeveling

open QmkFirmware.Memory QmkFirmware.Runs

/-! ## Requests and runs -/

/-- The arguments of one `wear_leveling_write`: `value` has `length` bytes. -/
structure WriteCall where
  address : Nat
  value : List UInt8
  sizes : CallSizes address value

/-- The end of the range is an address too, whether or not it lies inside the logical size. -/
def WriteCall.NoWrap (call : WriteCall) : Prop := call.address + call.value.length < 2 ^ 32

instance (call : WriteCall) : Decidable call.NoWrap := inferInstanceAs (Decidable (_ < _))

theorem WriteCall.NoWrap.sum {call : WriteCall} (noWrap : call.NoWrap) :
    (call.address + call.value.length) % 2 ^ 32 = call.address + call.value.length := Nat.mod_eq_of_lt noWrap

inductive Request where
  | write (call : WriteCall)
  | erase
  | init

/-- The range of a write does not wrap. -/
def Request.NoWrap : Request → Prop
  | .write call => call.NoWrap
  | .erase | .init => True

instance : (request : Request) → Decidable request.NoWrap
  | .write call => inferInstanceAs (Decidable call.NoWrap)
  | .erase | .init => .isTrue trivial

def Request.run (cfg : Config) (faults : Faults) (s : State) : Request → Status × State
  | .write call => wearLevelingWrite cfg faults call.address call.value s
  | .erase => wearLevelingErase cfg faults s
  | .init => wearLevelingInit cfg faults s

/-- Power-on with an erased store: the static struct is zeroed. -/
def erasedState : State :=
  { cache := fun _ => 0, writeAddress := 0, unlocked := false, store := fun _ => 0, trace := [] }

/-- The initialised empty store. -/
def startState (cfg : Config) : State := (wearLevelingInit cfg noFaults erasedState).2

/-- The state after a run of requests in which no operation fails. -/
def runRequests (cfg : Config) (requests : List Request) : State :=
  requests.foldl (fun s request => (request.run cfg noFaults s).2) (startState cfg)

/-- The abstract model: a plain byte array of the logical size. -/
def Request.apply (cfg : Config) (bytes : Nat → UInt8) : Request → Nat → UInt8
  | .write call =>
    if call.address + call.value.length ≤ cfg.logicalSize then blit bytes call.address call.value
    else bytes
  | .erase => fun _ => 0
  | .init => bytes

def byteArray (cfg : Config) (requests : List Request) : Nat → UInt8 :=
  requests.foldl (Request.apply cfg) fun _ => 0

/-! ## The invariant -/

/-- The log of `s` is well formed, and ends at the write address. -/
structure Chained (cfg : Config) (s : State) : Prop where
  logged : ∃ outcome, Logged cfg s.store s.writeAddress outcome
  /-- A store too small for any log keeps its write address at the log start. -/
  room : s.writeAddress < cfg.backingSize ∨ s.writeAddress = cfg.logStart

/-- The log of `s` stands for `durable` as well. -/
structure Consistent (cfg : Config) (durable : Nat → UInt8) (s : State) : Prop where
  logged : ∃ outcome, Logged cfg s.store s.writeAddress outcome ∧ Restores cfg durable outcome
  room : s.writeAddress < cfg.backingSize ∨ s.writeAddress = cfg.logStart

section Invariant

variable {cfg : Config} {durable : Nat → UInt8} {s : State}

theorem Config.logStart_bounded (cfg : Config) : cfg.logStart < cfg.logStart + cfg.backingSize := by
  have := cfg.positive
  have := cfg.twice
  omega

theorem Consistent.chained (consistent : Consistent cfg durable s) : Chained cfg s := by
  obtain ⟨outcome, logged, -⟩ := consistent.logged
  exact ⟨⟨outcome, logged⟩, consistent.room⟩

theorem Chained.bounded (chained : Chained cfg s) : s.writeAddress < cfg.logStart + cfg.backingSize := by
  have := cfg.logStart_bounded
  rcases chained.room with room | room <;> omega

theorem Consistent.bounded (consistent : Consistent cfg durable s) :
    s.writeAddress < cfg.logStart + cfg.backingSize := consistent.chained.bounded

theorem Consistent.congr {other : State} (consistent : Consistent cfg durable s)
    (store : other.store = s.store) (address : other.writeAddress = s.writeAddress) :
    Consistent cfg durable other := by
  refine ⟨?_, ?_⟩
  · rw [store, address]
    exact consistent.logged
  · rw [address]
    exact consistent.room

theorem consistent_consolidated (cache : Nat → UInt8) (store : s.store = consolidatedStore cfg cache)
    (start : s.writeAddress = cfg.logStart) : Consistent cfg cache s := by
  refine ⟨⟨_, ?_, fun _ => ⟨_, rfl, consolidatedCache_consolidatedStore cfg cache⟩⟩, .inr start⟩
  rw [store, start]
  exact logged_blank fun _ i h => consolidatedStore_blank cfg cache h

theorem consolidatedCache_erased (cfg : Config) : consolidatedCache cfg (fun _ => 0) = fun _ => 0 := by
  have zero : blit (fun _ => (0 : UInt8)) 0 (slice (fun _ => 0) 0 cfg.logicalSize) = fun _ => 0 :=
    blit_slice _ _ _
  simp only [consolidatedCache, zero, ite_self]

theorem consistent_erased (store : s.store = fun _ => 0) (start : s.writeAddress = cfg.logStart) :
    Consistent cfg (fun _ => 0) s := by
  have logged : Logged cfg (fun _ => 0) cfg.logStart (some (consolidatedCache cfg fun _ => 0)) :=
    logged_blank fun _ _ _ => rfl
  rw [consolidatedCache_erased] at logged
  refine ⟨⟨_, ?_, fun _ => ⟨_, rfl, fun _ _ => rfl⟩⟩, .inr start⟩
  rwa [store, start]

/-- A restart makes its cache what the log stands for. -/
theorem Chained.restart (chained : Chained cfg s) {restart : State} (store : restart.store = s.store) :
    (wearLevelingInit cfg noFaults restart).1 ≠ .failed ∧
      Consistent cfg (wearLevelingInit cfg noFaults restart).2.cache (wearLevelingInit cfg noFaults restart).2 := by
  obtain ⟨outcome, logged⟩ := chained.logged
  have step := wearLevelingInit_of_logged cfg logged chained.bounded restart store
  generalize wearLevelingInit cfg noFaults restart = result at step ⊢
  cases step with
  | resumed mid booted room address =>
    refine ⟨by simp, ⟨some mid.cache, ?_, fun _ => ⟨_, rfl, fun _ _ => rfl⟩⟩, .inl (address.trans_lt room)⟩
    simp only [booted.store, store, address]
    exact logged
  | full mid booted => exact ⟨by simp, consistent_consolidated mid.cache rfl rfl⟩
  | unreadable mid booted => exact ⟨by simp, consistent_consolidated mid.cache rfl rfl⟩

/-- A restart from a consistent store. -/
theorem Consistent.restart (consistent : Consistent cfg durable s) {restart : State}
    (store : restart.store = s.store) :
    (wearLevelingInit cfg noFaults restart).1 ≠ .failed ∧
      Consistent cfg (wearLevelingInit cfg noFaults restart).2.cache
        (wearLevelingInit cfg noFaults restart).2 ∧
      (cfg.logicalSize ≤ 2 ^ 19 →
        (∀ i < cfg.logicalSize, (wearLevelingInit cfg noFaults restart).2.cache i = durable i) ∧
        (wearLevelingInit cfg noFaults restart).2.writeAddress = s.writeAddress) := by
  obtain ⟨works, consistent'⟩ := consistent.chained.restart store
  refine ⟨works, consistent', fun small => ?_⟩
  obtain ⟨outcome, logged, restores⟩ := consistent.logged
  obtain ⟨cache, rfl, bytes⟩ := restores small
  have step := wearLevelingInit_of_logged cfg logged consistent.bounded restart store
  generalize wearLevelingInit cfg noFaults restart = result at step ⊢
  generalize stands : some cache = outcome at step
  cases step with
  | resumed mid booted room address =>
    obtain rfl := Option.some.inj stands
    exact ⟨bytes, address⟩
  | full mid booted full =>
    obtain rfl := Option.some.inj stands
    refine ⟨bytes, ?_⟩
    -- only a store without room for any log is full before a write
    cases consistent.room with
    | inl room => omega
    | inr start => exact start.symm
  | unreadable mid booted => cases stands

/-- A write keeps the log well formed. -/
theorem Chained.write (chained : Chained cfg s) (call : WriteCall) :
    Chained cfg (wearLevelingWrite cfg noFaults call.address call.value s).2 := by
  have step := wearLevelingWrite_step cfg s call.sizes
  generalize wearLevelingWrite cfg noFaults call.address call.value s = result at step ⊢
  cases step with
  | rejected => exact chained
  | unchanged => exact chained
  | logged inside _ room =>
    obtain ⟨outcome, logged⟩ := chained.logged
    obtain ⟨outcome', logged⟩ := logged.append_shapes (writeEntries_recognised call.sizes inside) room
    exact ⟨⟨outcome', logged⟩, .inl room⟩
  | consolidated => exact (consistent_consolidated _ rfl rfl).chained

/-- Unless its range wraps, a write also keeps the store consistent with the cache. -/
theorem Consistent.write (consistent : Consistent cfg s.cache s) {call : WriteCall} (noWrap : call.NoWrap) :
    Consistent cfg (wearLevelingWrite cfg noFaults call.address call.value s).2.cache
      (wearLevelingWrite cfg noFaults call.address call.value s).2 := by
  have step := wearLevelingWrite_step cfg s call.sizes
  generalize wearLevelingWrite cfg noFaults call.address call.value s = result at step ⊢
  cases step with
  | rejected => exact consistent
  | unchanged => exact consistent
  | logged inside _ room =>
    rw [noWrap.sum] at inside
    have splits := logEntries_splits cfg call.value.length call.address call.value (Nat.le_refl _) inside
    obtain ⟨outcome, logged, restores⟩ := consistent.logged
    obtain ⟨outcome', logged, restores⟩ := logged.append_entries splits restores room
    exact ⟨⟨outcome', logged, restores⟩, .inl room⟩
  | consolidated => exact consistent_consolidated _ rfl rfl

theorem Consistent.erase (cfg : Config) (s : State) :
    Consistent cfg (wearLevelingErase cfg noFaults s).2.cache (wearLevelingErase cfg noFaults s).2 := by
  rw [wearLevelingErase_ok cfg onlyWritesFail_noFaults]
  exact consistent_erased rfl rfl

theorem Chained.request (chained : Chained cfg s) (request : Request) :
    Chained cfg (request.run cfg noFaults s).2 := by
  cases request with
  | write call => exact chained.write call
  | erase => exact (Consistent.erase cfg s).chained
  | init => exact (chained.restart rfl).2.chained

theorem Consistent.request (consistent : Consistent cfg s.cache s) {request : Request} (noWrap : request.NoWrap) :
    Consistent cfg (request.run cfg noFaults s).2.cache (request.run cfg noFaults s).2 := by
  cases request with
  | write call => exact consistent.write noWrap
  | erase => exact Consistent.erase cfg s
  | init => exact (consistent.restart rfl).2.1

theorem startState_consistent (cfg : Config) : Consistent cfg (startState cfg).cache (startState cfg) :=
  (consistent_erased (s := { erasedState with writeAddress := cfg.logStart }) rfl rfl).restart rfl |>.2.1

end Invariant

/-! ## Simulation of the byte array -/

section Simulation

variable {cfg : Config} (fits : cfg.logicalSize ≤ 2 ^ 19)

/-- The concrete state represents the abstract byte array. -/
structure Represents (cfg : Config) (s : State) (bytes : Nat → UInt8) : Prop where
  consistent : Consistent cfg s.cache s
  cache : ∀ i < cfg.logicalSize, s.cache i = bytes i

theorem Represents.write {s : State} {bytes : Nat → UInt8} (represents : Represents cfg s bytes)
    {call : WriteCall} (noWrap : call.NoWrap) :
    Represents cfg ((Request.write call).run cfg noFaults s).2 ((Request.write call).apply cfg bytes) := by
  refine ⟨represents.consistent.write noWrap, fun i h => ?_⟩
  have patched := blit_congr (represents.cache i h) call.address call.value
  simp only [Request.run, Request.apply]
  have step := wearLevelingWrite_step cfg s call.sizes
  generalize wearLevelingWrite cfg noFaults call.address call.value s = result at step ⊢
  cases step with
  | rejected outside =>
    rw [noWrap.sum] at outside
    rw [if_neg (Nat.not_le.mpr outside)]
    exact represents.cache i h
  | unchanged inside same =>
    rw [noWrap.sum] at inside
    -- the bytes that are there already may be written once more
    rw [if_pos inside, ← patched]
    conv_rhs => rw [← same]
    rw [blit_slice]
  | logged inside =>
    rw [if_pos (noWrap.sum ▸ inside)]
    exact patched
  | consolidated inside =>
    rw [if_pos (noWrap.sum ▸ inside)]
    exact patched

include fits

theorem Represents.request {s : State} {bytes : Nat → UInt8} (represents : Represents cfg s bytes)
    {request : Request} (noWrap : request.NoWrap) :
    Represents cfg (request.run cfg noFaults s).2 (request.apply cfg bytes) := by
  cases request with
  | write call => exact represents.write noWrap
  | erase =>
    refine ⟨Consistent.erase cfg s, fun i _ => ?_⟩
    simp only [Request.run, wearLevelingErase_ok cfg onlyWritesFail_noFaults, Request.apply]
  | init =>
    obtain ⟨_, consistent, restored⟩ := represents.consistent.restart rfl
    exact ⟨consistent, fun i h => ((restored fits).1 i h).trans (represents.cache i h)⟩

theorem runRequests_represents {requests : List Request} (noWrap : ∀ request ∈ requests, request.NoWrap) :
    Represents cfg (runRequests cfg requests) (byteArray cfg requests) := by
  refine @foldl_simulation_of_mem State (Nat → UInt8) Request
    (fun s request => (request.run cfg noFaults s).2) (Request.apply cfg) (Represents cfg) requests
    (fun request member _ _ represents => Represents.request fits represents (noWrap request member)) _ _
    ⟨startState_consistent cfg, fun i h => ?_⟩
  exact ((consistent_erased (s := { erasedState with writeAddress := cfg.logStart }) rfl rfl).restart
    rfl).2.2 fits |>.1 i h

/-- After any run in which no range wraps the cache is the byte array, and a restart
    on the store the run left behind, from whatever volatile state, finds the same
    cache and the same write address. -/
theorem restart_restores_byte_array (requests : List Request) (noWrap : ∀ request ∈ requests, request.NoWrap)
    (restart : State) (store : restart.store = (runRequests cfg requests).store) :
    (∀ i < cfg.logicalSize, (runRequests cfg requests).cache i = byteArray cfg requests i) ∧
      (wearLevelingInit cfg noFaults restart).1 ≠ .failed ∧
      (∀ i < cfg.logicalSize, (wearLevelingInit cfg noFaults restart).2.cache i =
        (runRequests cfg requests).cache i) ∧
      (wearLevelingInit cfg noFaults restart).2.writeAddress = (runRequests cfg requests).writeAddress := by
  have represents := runRequests_represents fits noWrap
  obtain ⟨works, _, restored⟩ := represents.consistent.restart store
  exact ⟨represents.cache, works, (restored fits).1, (restored fits).2⟩

end Simulation

/-- Two-byte words, 128 logical bytes, 512 bytes of flash. -/
def compactConfig : Config where
  writeSize := .two
  logicalSize := 128
  backingSize := 512
  positive := by decide
  twice := by decide
  aligned := by decide
  multiple := by decide
  addressable := by decide

/-- All three encodings, an erase, a rejected range and a restart in one run. -/
def mixedRequests : List Request :=
  [.write ⟨4, [7, 0], by decide⟩, .erase, .write ⟨62, [1, 0, 9, 8, 7, 6, 5], by decide⟩, .init,
    .write ⟨127, [1, 2], by decide⟩, .write ⟨100, [3], by decide⟩]

theorem restart_restores_mixedRequests :
    compactConfig.logicalSize ≤ 2 ^ 19 ∧
      (∀ i < compactConfig.logicalSize,
        (runRequests compactConfig mixedRequests).cache i = byteArray compactConfig mixedRequests i) ∧
      (wearLevelingInit compactConfig noFaults (runRequests compactConfig mixedRequests)).1 ≠ .failed ∧
      (∀ i < compactConfig.logicalSize,
        (wearLevelingInit compactConfig noFaults (runRequests compactConfig mixedRequests)).2.cache i =
          (runRequests compactConfig mixedRequests).cache i) ∧
      (wearLevelingInit compactConfig noFaults (runRequests compactConfig mixedRequests)).2.writeAddress =
        (runRequests compactConfig mixedRequests).writeAddress := by
  have fits : compactConfig.logicalSize ≤ 2 ^ 19 := by decide
  exact ⟨fits, restart_restores_byte_array fits mixedRequests (by decide) _ rfl⟩

/-- A range whose end wraps to 1, and a write behind it. -/
def wrappedRequests : List Request := [.write ⟨0xFFFFFFFF, [1, 2], by decide⟩, .write ⟨4, [7, 9], by decide⟩]

/-- Playback rejects the entry for the wrapped range, and the later write is gone. -/
theorem restart_loses_wrappedRequests :
    (Request.run compactConfig noFaults (startState compactConfig) (.write ⟨0xFFFFFFFF, [1, 2], by decide⟩)).1 =
        .success ∧
      (runRequests compactConfig wrappedRequests).cache 4 = 7 ∧
      (wearLevelingInit compactConfig noFaults (runRequests compactConfig wrappedRequests)).2.cache 4 = 0 := by
  decide +kernel

end QmkFirmware.WearLeveling
