import QmkFirmware.WearLeveling.LogEntry

/-! # The wear-levelling algorithm

A shallow embedding of `quantum/wear_leveling/wear_leveling.c`.  The backing
store is the flash driver behind `backing_store_*`: a byte memory that reads as
zero after an erase, together with the trace of the operations issued to it.
Which operations fail is decided by a `Faults` oracle, asked with the kind of
the operation and the number of earlier operations of that kind, as the mock
store of the repository's own tests does.
-/

namespace QmkFirmware.WearLeveling

open QmkFirmware.Memory

/-- The compile-time configuration, with what the `_Static_assert`s of
`wear_leveling_internal.h` and the array declaration of the cache demand.
Addresses are `uint32_t`; `addressable` says that none of the additions to an
address below the backing size wraps, so that they can be natural numbers here. -/
structure Config where
  writeSize : WriteSize
  logicalSize : Nat
  backingSize : Nat
  positive : 0 < logicalSize
  twice : logicalSize * 2 ≤ backingSize
  aligned : logicalSize % writeSize.bytes = 0
  multiple : backingSize % logicalSize = 0
  addressable : backingSize + 8 < 2 ^ 32

/-- The first address of the write log: behind the consolidated data and its hash. -/
def Config.logStart (cfg : Config) : Nat := cfg.logicalSize + 8

inductive Status where
  | failed
  | success
  | consolidated
  deriving DecidableEq, Repr

inductive LockStatus where
  | failure
  | success
  | unchanged
  deriving DecidableEq, Repr

/-! ## Backing store -/

inductive Kind where
  | init
  | unlock
  | erase
  | write
  | lock
  | read
  deriving DecidableEq, Repr

/-- One call of the backing-store API with its arguments. -/
inductive Operation where
  | init
  | unlock
  | erase
  | write (address : Nat) (value : List UInt8)
  | lock
  | read (address : Nat)
  deriving DecidableEq, Repr

def Operation.kind : Operation → Kind
  | .init => .init
  | .unlock => .unlock
  | .erase => .erase
  | .write _ _ => .write
  | .lock => .lock
  | .read _ => .read

/-- What a successful operation does to the contents of the store. -/
def Operation.apply : Operation → (Nat → UInt8) → Nat → UInt8
  | .erase, _ => fun _ => 0
  | .write address value, memory => blit memory address value
  | _, memory => memory

structure Event where
  operation : Operation
  ok : Bool
  deriving DecidableEq, Repr

/-- Whether the `n`-th operation of a kind fails. -/
abbrev Faults := Kind → Nat → Bool

def noFaults : Faults := fun _ _ => false

def invokeCount (kind : Kind) (trace : List Event) : Nat :=
  (trace.filter fun event => event.operation.kind = kind).length

/-- The static `wear_leveling` struct together with the backing store.  Only
the first `logicalSize` bytes of `cache` belong to the C array. -/
structure State where
  cache : Nat → UInt8
  writeAddress : Nat
  unlocked : Bool
  store : Nat → UInt8
  trace : List Event

section Algorithm

variable (cfg : Config) (faults : Faults)

/-- Issue one operation: it is recorded, and takes effect unless it fails. -/
def perform (operation : Operation) (s : State) : Bool × State :=
  let ok := !faults operation.kind (invokeCount operation.kind s.trace)
  (ok, { s with
    store := if ok then operation.apply s.store else s.store
    trace := s.trace ++ [⟨operation, ok⟩] })

def backingStoreWrite (address : Nat) (value : List UInt8) (s : State) : Bool × State :=
  perform faults (.write address value) s

def backingStoreRead (address : Nat) (s : State) : Option (List UInt8) × State :=
  match perform faults (.read address) s with
  | (true, s) => (some (slice s.store address cfg.writeSize.bytes), s)
  | (false, s) => (none, s)

/-- The weak `backing_store_write_bulk`: word by word, giving up at the first failure. -/
def backingStoreWriteBulk (address : Nat) : List (List UInt8) → State → Bool × State
  | [], s => (true, s)
  | value :: values, s =>
    match backingStoreWrite faults address value s with
    | (true, s) => backingStoreWriteBulk (address + cfg.writeSize.bytes) values s
    | (false, s) => (false, s)

/-- The weak `backing_store_read_bulk`: the bytes read until the first failure. -/
def backingStoreReadBulk (address : Nat) : Nat → State → Bool × List UInt8 × State
  | 0, s => (true, [], s)
  | count + 1, s =>
    match backingStoreRead cfg faults address s with
    | (some value, s) =>
      match backingStoreReadBulk (address + cfg.writeSize.bytes) count s with
      | (ok, values, s) => (ok, value ++ values, s)
    | (none, s) => (false, [], s)

/-! ## Locking helpers -/

def wearLevelingUnlock (s : State) : LockStatus × State :=
  if s.unlocked then (.unchanged, s)
  else
    match perform faults .unlock s with
    | (true, s) => (.success, { s with unlocked := true })
    | (false, s) => (.failure, s)

def wearLevelingLock (s : State) : LockStatus × State :=
  if s.unlocked then
    match perform faults .lock s with
    | (true, s) => (.success, { s with unlocked := false })
    | (false, s) => (.failure, s)
  else (.unchanged, s)

/-! ## Consolidated data -/

def wearLevelingClearCache (s : State) : State :=
  { s with cache := fun _ => 0, writeAddress := cfg.logStart }

def fnv64Prime : UInt64 := 0x100000001b3

def fnv1a64Init : UInt64 := 0xcbf29ce484222325

/-- `fnv_64a_buf`. -/
def fnv64aBuf (buffer : List UInt8) (hash : UInt64) : UInt64 :=
  buffer.foldl (fun hash octet => (hash ^^^ octet.toUInt64) * fnv64Prime) hash

/-- The bytes of `raw64` in memory order (little endian). -/
def bytesOfRaw64 (value : UInt64) : List UInt8 :=
  (List.range 8).map fun k => (value >>> (8 * k).toUInt64).toUInt8

def cacheHash (cache : Nat → UInt8) : List UInt8 :=
  bytesOfRaw64 (fnv64aBuf (slice cache 0 cfg.logicalSize) fnv1a64Init)

/-- A checksum read that fails leaves its part of the entry unset; unset bytes are zero here. -/
def wearLevelingReadConsolidated (s : State) : Status × State :=
  match backingStoreReadBulk cfg faults 0 (cfg.logicalSize / cfg.writeSize.bytes) s with
  | (false, _, s) => (.failed, wearLevelingClearCache cfg s)
  | (true, cache, s) =>
    let s := { s with cache := blit s.cache 0 cache }
    let expected := cacheHash cfg s.cache
    match backingStoreReadBulk cfg faults cfg.logicalSize (8 / cfg.writeSize.bytes) s with
    | (_, entry, s) =>
      if entry ++ List.replicate (8 - entry.length) 0 = expected then (.success, s)
      else (.success, wearLevelingClearCache cfg s)

/-- The result of `wear_leveling_unlock` is not checked for failure here, as in the source. -/
def wearLevelingWriteConsolidated (s : State) : Status × State :=
  match wearLevelingUnlock faults s with
  | (lockStatus, s) =>
    match backingStoreWriteBulk cfg faults 0
        (chunk cfg.writeSize.bytes (cfg.logicalSize / cfg.writeSize.bytes)
          (slice s.cache 0 cfg.logicalSize)) s with
    | (dataOk, s) =>
      match (if dataOk then
          backingStoreWriteBulk cfg faults cfg.logicalSize
            (chunk cfg.writeSize.bytes (8 / cfg.writeSize.bytes) (cacheHash cfg s.cache)) s
        else (false, s)) with
      | (ok, s) =>
        let s := if lockStatus = .success then (wearLevelingLock faults s).2 else s
        (if ok then .consolidated else .failed, s)

def wearLevelingConsolidateForce (s : State) : Status × State :=
  match perform faults .erase s with
  | (false, s) => (.failed, s)
  | (true, s) =>
    match wearLevelingWriteConsolidated cfg faults s with
    | (status, s) => (status, { s with writeAddress := cfg.logStart })

def wearLevelingConsolidateIfNeeded (s : State) : Status × State :=
  if cfg.backingSize ≤ s.writeAddress then wearLevelingConsolidateForce cfg faults s
  else (.success, s)

/-! ## Writing the log -/

def wearLevelingAppendRaw (value : List UInt8) (s : State) : Status × State :=
  match backingStoreWrite faults s.writeAddress value s with
  | (false, s) => (.failed, s)
  | (true, s) =>
    wearLevelingConsolidateIfNeeded cfg faults
      { s with writeAddress := s.writeAddress + cfg.writeSize.bytes }

/-- `if (status != WEAR_LEVELING_SUCCESS) return status;` between two steps. -/
def onSuccess (result : Status × State) (next : State → Status × State) : Status × State :=
  match result with
  | (.success, s) => next s
  | (status, s) => (status, s)

/-- `wear_leveling_append_raw` for one word after the other. -/
def wearLevelingAppendAll : List (List UInt8) → State → Status × State
  | [], s => (.success, s)
  | value :: values, s =>
    onSuccess (wearLevelingAppendRaw cfg faults value s) (wearLevelingAppendAll values)

/-- The words of a multi-byte entry that get written: how many depends on the
write size and on the number of payload bytes. -/
def multibyteWords (size : WriteSize) (address : Nat) (value : List UInt8) : List (List UInt8) :=
  let log := logEntrySetPayload (logEntryMakeMultibyte address value.length) value
  match size with
  | .two =>
    [rawWord size log 0, rawWord size log 1] ++
      (if value.length > 1 then [rawWord size log 2] else []) ++
      (if value.length > 3 then [rawWord size log 3] else [])
  | .four => [rawWord size log 0] ++ (if value.length > 1 then [rawWord size log 1] else [])
  | .eight => [rawWord size log 0]

def wearLevelingWriteRawMultibyte (address : Nat) (value : List UInt8) (s : State) : Status × State :=
  wearLevelingAppendAll cfg faults (multibyteWords cfg.writeSize address value) s

/-- `((uint16_t)p[1]) << 8 | p[0]`. -/
def leadingWord (p : List UInt8) : Nat := ((p.getD 1 0).toNat <<< 8) ||| (p.getD 0 0).toNat

/-- The loop of `wear_leveling_write_raw`; `address` is a `uint32_t`.  Every round
consumes at least one byte of `p`, so `fuel = p.length` is enough. -/
def wearLevelingWriteRaw : Nat → Nat → List UInt8 → State → Status × State
  | 0, _, _, s => (.success, s)
  | fuel + 1, address, p, s =>
    if p = [] then (.success, s)
    else if cfg.writeSize = .two ∧ 2 ≤ p.length ∧ address % 2 = 0 ∧ address < 16384 ∧
        (leadingWord p = 0 ∨ leadingWord p = 1) then
      onSuccess
        (wearLevelingAppendRaw cfg faults
          (rawWord cfg.writeSize (logEntryMakeWord01 address (leadingWord p)) 0) s)
        (wearLevelingWriteRaw fuel ((address + 2) % 2 ^ 32) (p.drop 2))
    else if cfg.writeSize = .two ∧ address < 64 then
      onSuccess
        (wearLevelingAppendRaw cfg faults
          (rawWord cfg.writeSize (logEntryMakeOptimized64 address (p.getD 0 0)) 0) s)
        (wearLevelingWriteRaw fuel ((address + 1) % 2 ^ 32) (p.drop 1))
    else
      let thisLength := if p.length ≥ logEntryMultibyteMaxBytes then logEntryMultibyteMaxBytes else p.length
      onSuccess (wearLevelingWriteRawMultibyte cfg faults address (p.take thisLength) s)
        (wearLevelingWriteRaw fuel ((address + thisLength) % 2 ^ 32) (p.drop thisLength))

/-! ## Playback -/

/-- The `LOG_ENTRY_TYPE_MULTIBYTE` case of the playback switch, from the word
`value` on; `address` is the address behind that word.  A `false` result is
`cancel_playback` with a failed status. -/
def playbackMultibyte (value : List UInt8) (address : Nat) (s : State) : Bool × Nat × State :=
  -- Two-byte stores hold the address in two words.
  match (if cfg.writeSize = .two then backingStoreRead cfg faults address s
    else (some [], s)) with
  | (none, s) => (false, address, s)
  | (some second, s) =>
    let log := value ++ second
    let address := address + second.length
    let a := logEntryMultibyteGetAddress log
    let l := logEntryMultibyteGetLength log
    if a + l > cfg.logicalSize then (false, address, s)
    else
      match (if cfg.writeSize ≠ .eight ∧ l > 1 then backingStoreRead cfg faults address s
        else (some [], s)) with
      | (none, s) => (false, address, s)
      | (some third, s) =>
        let log := log ++ third
        let address := address + third.length
        match (if cfg.writeSize = .two ∧ l > 3 then backingStoreRead cfg faults address s
          else (some [], s)) with
        | (none, s) => (false, address, s)
        | (some fourth, s) =>
          let log := log ++ fourth
          -- `memcpy(&cache[a], &log.raw8[3], l)`; bytes the union was never given read as zero.
          let payload := (List.range l).map fun k => log.getD (3 + k) 0
          (true, address + fourth.length, { s with cache := blit s.cache a payload })

/-- The loop of `wear_leveling_playback_log`: the final status before
consolidation and the address it stopped at.  Every round moves the address by
at least one word, so `fuel = backingSize` is enough. -/
def playbackLoop : Nat → Nat → State → Status × Nat × State
  | 0, address, s => (.success, address, s)
  | fuel + 1, address, s =>
    if address < cfg.backingSize then
      match backingStoreRead cfg faults address s with
      | (none, s) => (.failed, address, s)
      | (some value, s) =>
        if value.all (· = 0) then (.success, address, s)
        else
          let address := address + cfg.writeSize.bytes
          match logEntryGetType value with
          | .multibyte =>
            match playbackMultibyte cfg faults value address s with
            | (true, address, s) => playbackLoop fuel address s
            | (false, address, s) => (.failed, address, s)
          | .optimized64 =>
            let a := logEntryOptimized64GetAddress value
            if cfg.writeSize ≠ .two ∨ a ≥ cfg.logicalSize then (.failed, address, s)
            else
              playbackLoop fuel address
                { s with cache := blit s.cache a [logEntryOptimized64GetValue value] }
          | .word01 =>
            let a := logEntryWord01GetAddress value
            if cfg.writeSize ≠ .two ∨ a + 1 ≥ cfg.logicalSize then (.failed, address, s)
            else
              playbackLoop fuel address
                { s with cache := blit s.cache a [logEntryWord01GetValue value, 0] }
          | .unknown => (.failed, address, s)
    else (.success, address, s)

def wearLevelingPlaybackLog (s : State) : Status × State :=
  match playbackLoop cfg faults cfg.backingSize cfg.logStart s with
  | (status, address, s) =>
    let s := { s with writeAddress := address }
    if status = .failed then wearLevelingConsolidateForce cfg faults s
    else wearLevelingConsolidateIfNeeded cfg faults s

/-! ## Public API -/

def wearLevelingInit (s : State) : Status × State :=
  let s := wearLevelingClearCache cfg s
  match perform faults .init s with
  | (false, s) => (.failed, wearLevelingClearCache cfg s)
  | (true, s) =>
    match wearLevelingReadConsolidated cfg faults s with
    | (.failed, s) => (.failed, wearLevelingClearCache cfg s)
    | (_, s) =>
      match wearLevelingPlaybackLog cfg faults s with
      | (.failed, s) => (.failed, wearLevelingClearCache cfg s)
      | (status, s) => (status, s)

def wearLevelingErase (s : State) : Status × State :=
  match wearLevelingUnlock faults s with
  | (.failure, s) => (.failed, (wearLevelingLock faults s).2)
  | (lockStatus, s) =>
    match perform faults .erase s with
    | (ok, s) =>
      let s := wearLevelingClearCache cfg s
      if lockStatus = .success then
        match wearLevelingLock faults s with
        | (relock, s) => (if ok ∧ relock ≠ .failure then .success else .failed, s)
      else (if ok then .success else .failed, s)

/-- `address + length` is a sum in the 32-bit `size_t`, so it may wrap.  A range that passes
the check in this way lies outside the array, where C says nothing of `memcmp` and `memcpy`;
here there are cells of their own. -/
def wearLevelingWrite (address : Nat) (value : List UInt8) (s : State) : Status × State :=
  if (address + value.length) % 2 ^ 32 > cfg.logicalSize then (.failed, s)
  else if slice s.cache address value.length = value then (.success, s)
  else
    let s := { s with cache := blit s.cache address value }
    match wearLevelingUnlock faults s with
    | (.failure, s) => (.failed, (wearLevelingLock faults s).2)
    | (lockStatus, s) =>
      match onSuccess (wearLevelingWriteRaw cfg faults value.length address value s)
          (wearLevelingConsolidateIfNeeded cfg faults) with
      | (status, s) =>
        if lockStatus = .success then
          match wearLevelingLock faults s with
          | (.failure, s) => (.failed, s)
          | (_, s) => (status, s)
        else (status, s)

def wearLevelingRead (address length : Nat) (s : State) : Status × List UInt8 :=
  if (address + length) % 2 ^ 32 > cfg.logicalSize then (.failed, [])
  else (.success, slice s.cache address length)

end Algorithm

end QmkFirmware.WearLeveling
