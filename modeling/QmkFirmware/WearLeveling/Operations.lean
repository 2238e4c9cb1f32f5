import QmkFirmware.WearLeveling.Log

/-! # What each operation does when the store does not fail

One specification lemma per function of the algorithm: consolidation, appending
words to the log, and the public calls.  Later modules cite these and do not
unfold the algorithm again.
-/

namespace QmkFirmware.WearLeveling

open QmkFirmware.Memory

/-! ## Configuration arithmetic -/

theorem Config.words_mul (cfg : Config) :
    cfg.logicalSize / cfg.writeSize.bytes * cfg.writeSize.bytes = cfg.logicalSize :=
  Nat.div_mul_cancel (Nat.dvd_of_mod_eq_zero cfg.aligned)

theorem WriteSize.eight_div_mul (size : WriteSize) : 8 / size.bytes * size.bytes = 8 := by
  cases size <;> decide

theorem Config.logStart_aligned (cfg : Config) : cfg.logStart % cfg.writeSize.bytes = 0 := by
  have eight : 8 % cfg.writeSize.bytes = 0 := by cases cfg.writeSize <;> decide
  rw [Config.logStart, Nat.add_mod, cfg.aligned, eight, Nat.add_zero, Nat.zero_mod]

theorem Config.backing_aligned (cfg : Config) : cfg.backingSize % cfg.writeSize.bytes = 0 := by
  have word : cfg.writeSize.bytes ∣ cfg.logicalSize := Nat.dvd_of_mod_eq_zero cfg.aligned
  exact Nat.mod_eq_zero_of_dvd (word.trans (Nat.dvd_of_mod_eq_zero cfg.multiple))

@[simp] theorem length_bytesOfRaw64 (value : UInt64) : (bytesOfRaw64 value).length = 8 := by
  simp [bytesOfRaw64]

@[simp] theorem length_cacheHash (cfg : Config) (cache : Nat → UInt8) : (cacheHash cfg cache).length = 8 := by
  simp [cacheHash]

theorem cacheHash_congr {cfg : Config} {cache other : Nat → UInt8}
    (same : ∀ i < cfg.logicalSize, cache i = other i) : cacheHash cfg cache = cacheHash cfg other := by
  rw [cacheHash, cacheHash, slice_congr fun i _ h => same i (by omega)]

/-! ## Single operations -/

@[simp] theorem kind_init : Operation.init.kind = .init := rfl
@[simp] theorem kind_unlock : Operation.unlock.kind = .unlock := rfl
@[simp] theorem kind_erase : Operation.erase.kind = .erase := rfl
@[simp] theorem kind_lock : Operation.lock.kind = .lock := rfl
@[simp] theorem kind_read (address : Nat) : (Operation.read address).kind = .read := rfl
@[simp] theorem kind_write (address : Nat) (value : List UInt8) :
    (Operation.write address value).kind = .write := rfl

/-- Faults may hit writes only; every other operation succeeds. -/
def OnlyWritesFail (faults : Faults) : Prop := ∀ kind n, kind ≠ .write → faults kind n = false

theorem onlyWritesFail_noFaults : OnlyWritesFail noFaults := fun _ _ _ => rfl

/-- `s` after an operation that succeeded. -/
def State.after (s : State) (operation : Operation) : State :=
  { s with store := operation.apply s.store, trace := s.trace ++ [⟨operation, true⟩] }

theorem perform_ok {faults : Faults} {operation : Operation} {s : State}
    (ok : faults operation.kind (invokeCount operation.kind s.trace) = false) :
    perform faults operation s = (true, s.after operation) := by
  simp [perform, ok, State.after]

/-- The trace of a bulk write. -/
def writeEvents (width : Nat) : Nat → List (List UInt8) → List Event
  | _, [] => []
  | address, word :: words => ⟨.write address word, true⟩ :: writeEvents width (address + width) words

theorem invokeCount_append (kind : Kind) (trace events : List Event) :
    invokeCount kind (trace ++ events) = invokeCount kind trace + invokeCount kind events := by
  simp [invokeCount]

theorem backingStoreWriteBulk_ok (cfg : Config) {faults : Faults} (words : List (List UInt8))
    (sizes : ∀ word ∈ words, word.length = cfg.writeSize.bytes) (address : Nat) (s : State)
    (ok : ∀ k < words.length, faults .write (invokeCount .write s.trace + k) = false) :
    backingStoreWriteBulk cfg faults address words s =
      (true, { s with
        store := blit s.store address words.flatten
        trace := s.trace ++ writeEvents cfg.writeSize.bytes address words }) := by
  induction words generalizing address s with
  | nil => simp [backingStoreWriteBulk, writeEvents]
  | cons word words ih =>
    have first := ok 0 (by simp)
    have wordSize := sizes word (by simp)
    rw [backingStoreWriteBulk, backingStoreWrite, perform_ok (by simpa using first)]
    simp only
    rw [ih (fun w h => sizes w (by simp [h]))]
    · simp [State.after, Operation.apply, writeEvents, blit_append, wordSize]
    · intro k h
      have later := ok (k + 1) (by simp; omega)
      simpa [State.after, invokeCount_append, invokeCount, Nat.add_assoc, Nat.add_comm 1 k] using later

/-! ## Consolidation -/

/-- The store right after consolidating `cache`. -/
def consolidatedStore (cfg : Config) (cache : Nat → UInt8) : Nat → UInt8 :=
  blit (blit (fun _ => 0) 0 (slice cache 0 cfg.logicalSize)) cfg.logicalSize (cacheHash cfg cache)

def dataWords (cfg : Config) (cache : Nat → UInt8) : List (List UInt8) :=
  chunk cfg.writeSize.bytes (cfg.logicalSize / cfg.writeSize.bytes) (slice cache 0 cfg.logicalSize)

def hashWords (cfg : Config) (cache : Nat → UInt8) : List (List UInt8) :=
  chunk cfg.writeSize.bytes (8 / cfg.writeSize.bytes) (cacheHash cfg cache)

/-- The number of words a consolidation writes. -/
def consolidationWrites (cfg : Config) : Nat :=
  cfg.logicalSize / cfg.writeSize.bytes + 8 / cfg.writeSize.bytes

def lockEvents (operation : Operation) (unlocked : Bool) : List Event :=
  if unlocked then [] else [⟨operation, true⟩]

def consolidationEvents (cfg : Config) (s : State) : List Event :=
  [⟨.erase, true⟩] ++ lockEvents .unlock s.unlocked ++
    writeEvents cfg.writeSize.bytes 0 (dataWords cfg s.cache) ++
    writeEvents cfg.writeSize.bytes cfg.logicalSize (hashWords cfg s.cache) ++
    lockEvents .lock s.unlocked

/-- `s` after a consolidation in which nothing failed. -/
def consolidateState (cfg : Config) (s : State) : State :=
  { s with
    writeAddress := cfg.logStart
    store := consolidatedStore cfg s.cache
    trace := s.trace ++ consolidationEvents cfg s }

theorem dataWords_spec (cfg : Config) (cache : Nat → UInt8) :
    (dataWords cfg cache).flatten = slice cache 0 cfg.logicalSize ∧
      ∀ word ∈ dataWords cfg cache, word.length = cfg.writeSize.bytes := by
  have size : (slice cache 0 cfg.logicalSize).length =
      cfg.logicalSize / cfg.writeSize.bytes * cfg.writeSize.bytes := by
    rw [length_slice, cfg.words_mul]
  exact ⟨flatten_chunk size, fun word member => length_of_mem_chunk size member⟩

theorem hashWords_spec (cfg : Config) (cache : Nat → UInt8) :
    (hashWords cfg cache).flatten = cacheHash cfg cache ∧
      ∀ word ∈ hashWords cfg cache, word.length = cfg.writeSize.bytes := by
  have size : (cacheHash cfg cache).length = 8 / cfg.writeSize.bytes * cfg.writeSize.bytes := by
    rw [length_cacheHash, cfg.writeSize.eight_div_mul]
  exact ⟨flatten_chunk size, fun word member => length_of_mem_chunk size member⟩

theorem invokeCount_write_lockEvents {operation : Operation} (unlocked : Bool)
    (kind : operation.kind ≠ .write) : invokeCount .write (lockEvents operation unlocked) = 0 := by
  cases unlocked <;> simp [lockEvents, invokeCount, kind]

theorem invokeCount_writeEvents (width address : Nat) (words : List (List UInt8)) :
    invokeCount .write (writeEvents width address words) = words.length := by
  induction words generalizing address with
  | nil => rfl
  | cons word words ih =>
    have rest := ih (address + width)
    simp only [invokeCount] at rest ⊢
    simp [writeEvents, rest]

theorem wearLevelingUnlock_ok {faults : Faults} (quiet : OnlyWritesFail faults) (s : State) :
    wearLevelingUnlock faults s =
      (if s.unlocked then .unchanged else .success,
        { s with unlocked := true, trace := s.trace ++ lockEvents .unlock s.unlocked }) := by
  unfold wearLevelingUnlock
  split
  next unlocked =>
    cases s
    simp_all [lockEvents]
  next locked =>
    rw [perform_ok (quiet _ _ (by decide))]
    simp [locked, lockEvents, State.after, Operation.apply]

theorem wearLevelingLock_ok {faults : Faults} (quiet : OnlyWritesFail faults) (s : State)
    (unlocked : s.unlocked = true) :
    wearLevelingLock faults s =
      (.success, { s with unlocked := false, trace := s.trace ++ [⟨.lock, true⟩] }) := by
  rw [wearLevelingLock, if_pos unlocked, perform_ok (quiet _ _ (by decide))]
  simp [State.after, Operation.apply]

theorem wearLevelingConsolidateForce_ok (cfg : Config) {faults : Faults}
    (quiet : OnlyWritesFail faults) (s : State)
    (ok : ∀ k < consolidationWrites cfg, faults .write (invokeCount .write s.trace + k) = false) :
    wearLevelingConsolidateForce cfg faults s = (.consolidated, consolidateState cfg s) := by
  obtain ⟨dataFlat, dataSizes⟩ := dataWords_spec cfg s.cache
  obtain ⟨hashFlat, hashSizes⟩ := hashWords_spec cfg s.cache
  have dataCount : (dataWords cfg s.cache).length = cfg.logicalSize / cfg.writeSize.bytes := by
    simp [dataWords]
  have hashCount : (hashWords cfg s.cache).length = 8 / cfg.writeSize.bytes := by simp [hashWords]
  have unlocked := invokeCount_write_lockEvents s.unlocked (by decide : Operation.unlock.kind ≠ .write)
  have erased : invokeCount .write [⟨.erase, true⟩] = 0 := rfl
  have dataEvents := invokeCount_writeEvents cfg.writeSize.bytes 0 (dataWords cfg s.cache)
  simp only [consolidationWrites] at ok
  -- erase, unlock, two bulk writes and lock: each bulk write is applied to the state before it
  let opened : State := { s with
    unlocked := true
    store := fun _ => 0
    trace := s.trace ++ [⟨.erase, true⟩] ++ lockEvents .unlock s.unlocked }
  have first := backingStoreWriteBulk_ok cfg (dataWords cfg s.cache) dataSizes 0 opened
    (fun k h => by
      simpa only [opened, invokeCount_append, erased, unlocked, Nat.add_zero] using ok k (by omega))
  let filled : State := { opened with
    store := blit opened.store 0 (dataWords cfg s.cache).flatten
    trace := opened.trace ++ writeEvents cfg.writeSize.bytes 0 (dataWords cfg s.cache) }
  have second := backingStoreWriteBulk_ok cfg (hashWords cfg s.cache) hashSizes cfg.logicalSize filled
    (fun k h => by
      simpa only [filled, opened, invokeCount_append, erased, unlocked, Nat.add_zero, dataEvents,
        dataCount, Nat.add_assoc] using ok (cfg.logicalSize / cfg.writeSize.bytes + k) (by omega))
  rw [wearLevelingConsolidateForce, perform_ok (quiet _ _ (by decide))]
  simp only [wearLevelingWriteConsolidated, wearLevelingUnlock_ok quiet, State.after, Operation.apply]
  simp only [dataWords, hashWords, opened, filled] at first second dataFlat hashFlat
  simp only [first, if_true, second]
  cases locked : s.unlocked with
  | true =>
    simp [consolidateState, consolidationEvents, consolidatedStore, locked, lockEvents, dataFlat,
      hashFlat, dataWords, hashWords]
  | false =>
    simp [consolidateState, consolidationEvents, consolidatedStore, locked, lockEvents, dataFlat,
      hashFlat, dataWords, hashWords, wearLevelingLock_ok quiet]

/-! ## Appending to the log -/

/-- `s` with `words` appended to its log, without consolidation. -/
def State.appended (cfg : Config) (s : State) (words : List (List UInt8)) : State :=
  { s with
    writeAddress := s.writeAddress + words.length * cfg.writeSize.bytes
    store := blit s.store s.writeAddress words.flatten
    trace := s.trace ++ writeEvents cfg.writeSize.bytes s.writeAddress words }

theorem State.appended_cons (cfg : Config) (s : State) {word : List UInt8} (words : List (List UInt8))
    (size : word.length = cfg.writeSize.bytes) :
    s.appended cfg (word :: words) = (s.appended cfg [word]).appended cfg words := by
  have address : s.writeAddress + (words.length + 1) * cfg.writeSize.bytes =
      s.writeAddress + cfg.writeSize.bytes + words.length * cfg.writeSize.bytes := by
    rw [Nat.succ_mul]
    omega
  simp only [State.appended, List.length_cons, List.length_nil, List.flatten_cons, List.flatten_nil,
    List.append_nil, blit_append, writeEvents, size, address, Nat.zero_add, Nat.one_mul,
    List.append_assoc, List.cons_append, List.nil_append]

theorem wearLevelingAppendRaw_ok (cfg : Config) {faults : Faults} (word : List UInt8) (s : State)
    (ok : faults .write (invokeCount .write s.trace) = false) :
    wearLevelingAppendRaw cfg faults word s =
      wearLevelingConsolidateIfNeeded cfg faults (s.appended cfg [word]) := by
  rw [wearLevelingAppendRaw, backingStoreWrite, perform_ok (by simpa using ok)]
  simp [State.after, State.appended, Operation.apply, writeEvents]

theorem wearLevelingAppendRaw_failed (cfg : Config) {faults : Faults} (word : List UInt8) (s : State)
    (fails : faults .write (invokeCount .write s.trace) = true) :
    wearLevelingAppendRaw cfg faults word s =
      (.failed, { s with trace := s.trace ++ [⟨.write s.writeAddress word, false⟩] }) := by
  simp [wearLevelingAppendRaw, backingStoreWrite, perform, fails]

theorem invokeCount_appended (cfg : Config) (s : State) (words : List (List UInt8)) :
    invokeCount .write (s.appended cfg words).trace = invokeCount .write s.trace + words.length := by
  rw [State.appended, invokeCount_append, invokeCount_writeEvents]

/-- As long as the log has room, appending just appends. -/
theorem wearLevelingAppendAll_fits (cfg : Config) {faults : Faults} (words : List (List UInt8))
    (sizes : ∀ word ∈ words, word.length = cfg.writeSize.bytes) (s : State)
    (room : s.writeAddress + words.length * cfg.writeSize.bytes < cfg.backingSize)
    (ok : ∀ k < words.length, faults .write (invokeCount .write s.trace + k) = false) :
    wearLevelingAppendAll cfg faults words s = (.success, s.appended cfg words) := by
  induction words generalizing s with
  | nil => simp [wearLevelingAppendAll, State.appended, writeEvents]
  | cons word words ih =>
    rw [List.length_cons, Nat.succ_mul] at room
    -- `wear_leveling_append_raw` asks after each word whether the log is full
    have here : ¬ cfg.backingSize ≤ (s.appended cfg [word]).writeAddress := by
      simp only [State.appended, List.length_singleton, Nat.one_mul]
      omega
    rw [wearLevelingAppendAll, wearLevelingAppendRaw_ok cfg word s (ok 0 (by simp)),
      wearLevelingConsolidateIfNeeded, if_neg here, onSuccess,
      State.appended_cons cfg s words (sizes word (by simp))]
    apply ih (fun w h => sizes w (by simp [h]))
    · simp only [State.appended, List.length_singleton, Nat.one_mul]
      omega
    · intro k h
      rw [invokeCount_appended, List.length_singleton, Nat.add_assoc, Nat.add_comm 1 k]
      exact ok (k + 1) (by simp; omega)

/-- The number of words, at least one, until the log is full. -/
def wordsToFill (cfg : Config) (address : Nat) : Nat :=
  max 1 ((cfg.backingSize - address + (cfg.writeSize.bytes - 1)) / cfg.writeSize.bytes)

theorem wordsToFill_last {cfg : Config} {address : Nat}
    (full : cfg.backingSize ≤ address + cfg.writeSize.bytes) : wordsToFill cfg address = 1 := by
  have wordPos := writeSize_bytes_pos cfg.writeSize
  have small : (cfg.backingSize - address + (cfg.writeSize.bytes - 1)) / cfg.writeSize.bytes < 2 := by
    rw [Nat.div_lt_iff_lt_mul wordPos]
    omega
  rw [wordsToFill]
  omega

theorem wordsToFill_step {cfg : Config} {address : Nat}
    (room : ¬ cfg.backingSize ≤ address + cfg.writeSize.bytes) :
    wordsToFill cfg address = wordsToFill cfg (address + cfg.writeSize.bytes) + 1 := by
  have wordPos := writeSize_bytes_pos cfg.writeSize
  have shift : cfg.backingSize - address + (cfg.writeSize.bytes - 1) =
      cfg.backingSize - (address + cfg.writeSize.bytes) + (cfg.writeSize.bytes - 1) +
        cfg.writeSize.bytes := by
    omega
  have positive : 0 < (cfg.backingSize - (address + cfg.writeSize.bytes) + (cfg.writeSize.bytes - 1)) /
      cfg.writeSize.bytes := Nat.div_pos (by omega) wordPos
  rw [wordsToFill, wordsToFill, shift, Nat.add_div_right _ wordPos]
  omega

/-- When the log has no room for all words, it is consolidated right after the
    word that fills it. -/
theorem wearLevelingAppendAll_full (cfg : Config) {faults : Faults} (quiet : OnlyWritesFail faults)
    (words : List (List UInt8)) (nonempty : words ≠ [])
    (sizes : ∀ word ∈ words, word.length = cfg.writeSize.bytes) (s : State)
    (full : cfg.backingSize ≤ s.writeAddress + words.length * cfg.writeSize.bytes)
    (ok : ∀ k < wordsToFill cfg s.writeAddress + consolidationWrites cfg,
      faults .write (invokeCount .write s.trace + k) = false) :
    wordsToFill cfg s.writeAddress ≤ words.length ∧
      wearLevelingAppendAll cfg faults words s =
        (.consolidated,
          consolidateState cfg (s.appended cfg (words.take (wordsToFill cfg s.writeAddress)))) := by
  induction words generalizing s with
  | nil => exact absurd rfl nonempty
  | cons word words ih =>
    have address : (s.appended cfg [word]).writeAddress = s.writeAddress + cfg.writeSize.bytes := by
      simp only [State.appended, List.length_singleton, Nat.one_mul]
    have count : invokeCount .write (s.appended cfg [word]).trace = invokeCount .write s.trace + 1 :=
      invokeCount_appended cfg s [word]
    have wordsPos : 0 < wordsToFill cfg s.writeAddress := by
      rw [wordsToFill]
      omega
    rw [wearLevelingAppendAll, wearLevelingAppendRaw_ok cfg word s (ok 0 (by omega)),
      wearLevelingConsolidateIfNeeded, address]
    by_cases here : cfg.backingSize ≤ s.writeAddress + cfg.writeSize.bytes
    · -- this word fills the log, and the words behind it are dropped
      have last := wordsToFill_last here
      rw [last] at ok ⊢
      refine ⟨by simp, ?_⟩
      rw [if_pos here, wearLevelingConsolidateForce_ok cfg quiet _ fun k h => ?_]
      · rfl
      · rw [count, Nat.add_assoc]
        exact ok (1 + k) (by omega)
    · rw [if_neg here, onSuccess]
      rw [List.length_cons, Nat.succ_mul] at full
      have step := wordsToFill_step here
      have remaining : words ≠ [] := by
        rintro rfl
        simp at full
        omega
      obtain ⟨bound, result⟩ := ih remaining (fun w h => sizes w (by simp [h])) (s.appended cfg [word])
        (by rw [address]; omega)
        (fun k h => by
          rw [count, Nat.add_assoc]
          exact ok (1 + k) (by rw [address] at h; omega))
      rw [address] at bound result
      refine ⟨by rw [step, List.length_cons]; omega, ?_⟩
      rw [result, step, List.take_succ_cons, ← State.appended_cons cfg s _ (sizes word (by simp))]

/-! ## Public calls -/

/-- `s` inside a write: the cache is updated and the store unlocked. -/
def State.opened (s : State) (address : Nat) (value : List UInt8) : State :=
  { s with
    cache := blit s.cache address value
    unlocked := true
    trace := s.trace ++ lockEvents .unlock s.unlocked }

/-- `s` after the lock state on entry is restored. -/
def State.relocked (s : State) (unlocked : Bool) : State :=
  { s with unlocked := unlocked, trace := s.trace ++ lockEvents .lock unlocked }

theorem wearLevelingWrite_eq (cfg : Config) {faults : Faults} (quiet : OnlyWritesFail faults)
    {address : Nat} {value : List UInt8} {s next : State} {status : Status}
    (inside : (address + value.length) % 2 ^ 32 ≤ cfg.logicalSize)
    (changed : slice s.cache address value.length ≠ value)
    (appended : wearLevelingAppendAll cfg faults
      (logWords cfg.writeSize (logEntries cfg.writeSize value.length address value))
      (s.opened address value) = (status, next))
    (unlocked : next.unlocked = true)
    (room : status = .success → next.writeAddress < cfg.backingSize) :
    wearLevelingWrite cfg faults address value s = (status, next.relocked s.unlocked) := by
  -- the final check has nothing left to do: `wear_leveling_append_raw` has made it already
  have finish : onSuccess (status, next) (wearLevelingConsolidateIfNeeded cfg faults) = (status, next) := by
    cases status with
    | success =>
      rw [onSuccess, wearLevelingConsolidateIfNeeded, if_neg (Nat.not_le.mpr (room rfl))]
    | failed | consolidated => rfl
  rw [wearLevelingWrite, if_neg (Nat.not_lt.mpr inside), if_neg changed]
  simp only [wearLevelingUnlock_ok quiet]
  rw [State.opened] at appended
  cases locked : s.unlocked with
  | true =>
    simp only [locked, lockEvents, if_true, List.append_nil] at appended
    have unmoved : next.relocked true = next := by
      cases next
      simp_all [State.relocked, lockEvents]
    simp [wearLevelingWriteRaw_eq, lockEvents, appended, finish, unmoved]
  | false =>
    simp only [locked, lockEvents, Bool.false_eq_true, if_false] at appended
    simp [wearLevelingWriteRaw_eq, appended, finish, State.relocked, lockEvents,
      wearLevelingLock_ok quiet next unlocked]

/-- All words that a write of `value` at `address` appends to the log. -/
def writeWords (cfg : Config) (address : Nat) (value : List UInt8) : List (List UInt8) :=
  logWords cfg.writeSize (logEntries cfg.writeSize value.length address value)

/-- An address is a `uint32_t`, and no object has more than `PTRDIFF_MAX` bytes. -/
def CallSizes (address : Nat) (value : List UInt8) : Prop := address < 2 ^ 32 ∧ value.length < 2 ^ 31

instance (address : Nat) (value : List UInt8) : Decidable (CallSizes address value) :=
  inferInstanceAs (Decidable (_ ∧ _))

/-- A range that passes the check of `wear_leveling_write` only has entries that are recognised. -/
theorem writeEntries_recognised {cfg : Config} {address : Nat} {value : List UInt8} (sizes : CallSizes address value)
    (inside : (address + value.length) % 2 ^ 32 ≤ cfg.logicalSize) :
    ∀ entry ∈ logEntries cfg.writeSize value.length address value, ∃ target, entry.Recognised cfg target := by
  apply logEntries_recognised
  obtain ⟨small, short⟩ := sizes
  rw [EntryAddress]
  omega

theorem writeWords_sizes {cfg : Config} {address : Nat} {value : List UInt8} (sizes : CallSizes address value)
    (inside : (address + value.length) % 2 ^ 32 ≤ cfg.logicalSize) :
    ∀ word ∈ writeWords cfg address value, word.length = cfg.writeSize.bytes :=
  words_sizes (writeEntries_recognised sizes inside)

/-- Everything a write can do while the store does not fail: reject the range,
    find nothing to change, append to the log, or fill the log and consolidate. -/
inductive WriteStep (cfg : Config) (address : Nat) (value : List UInt8) (s : State) :
    Status × State → Prop where
  | rejected (outside : cfg.logicalSize < (address + value.length) % 2 ^ 32) :
      WriteStep cfg address value s (.failed, s)
  | unchanged (inside : (address + value.length) % 2 ^ 32 ≤ cfg.logicalSize)
      (same : slice s.cache address value.length = value) :
      WriteStep cfg address value s (.success, s)
  | logged (inside : (address + value.length) % 2 ^ 32 ≤ cfg.logicalSize)
      (changed : slice s.cache address value.length ≠ value)
      (room : s.writeAddress + (writeWords cfg address value).length * cfg.writeSize.bytes <
        cfg.backingSize) :
      WriteStep cfg address value s
        (.success, ((s.opened address value).appended cfg (writeWords cfg address value)).relocked
          s.unlocked)
  | consolidated (inside : (address + value.length) % 2 ^ 32 ≤ cfg.logicalSize)
      (changed : slice s.cache address value.length ≠ value)
      (full : wordsToFill cfg s.writeAddress ≤ (writeWords cfg address value).length) :
      WriteStep cfg address value s
        (.consolidated, (consolidateState cfg ((s.opened address value).appended cfg
          ((writeWords cfg address value).take (wordsToFill cfg s.writeAddress)))).relocked s.unlocked)

theorem wearLevelingWrite_step (cfg : Config) {address : Nat} {value : List UInt8} (s : State)
    (sizes : CallSizes address value) :
    WriteStep cfg address value s (wearLevelingWrite cfg noFaults address value s) := by
  by_cases inside : (address + value.length) % 2 ^ 32 ≤ cfg.logicalSize
  · by_cases changed : slice s.cache address value.length = value
    · rw [wearLevelingWrite, if_neg (Nat.not_lt.mpr inside), if_pos changed]
      exact .unchanged inside changed
    · have recognised := writeEntries_recognised sizes inside
      have nonempty : value ≠ [] := by
        rintro rfl
        exact changed rfl
      by_cases room : s.writeAddress + (writeWords cfg address value).length * cfg.writeSize.bytes <
          cfg.backingSize
      · have appended : wearLevelingAppendAll cfg noFaults (writeWords cfg address value)
            (s.opened address value) =
              (.success, (s.opened address value).appended cfg (writeWords cfg address value)) :=
          wearLevelingAppendAll_fits cfg (writeWords cfg address value) (words_sizes recognised)
            (s.opened address value) room fun _ _ => rfl
        rw [wearLevelingWrite_eq cfg onlyWritesFail_noFaults inside changed appended rfl fun _ => room]
        exact .logged inside changed room
      · -- the word that reaches the end of the store is the last one, the rest is consolidated
        obtain ⟨bound, appended⟩ := wearLevelingAppendAll_full cfg onlyWritesFail_noFaults
          (writeWords cfg address value) (words_ne_nil recognised (logEntries_ne_nil cfg.writeSize address nonempty))
          (words_sizes recognised)
          (s.opened address value) (Nat.not_lt.mp room) fun _ _ => rfl
        rw [wearLevelingWrite_eq cfg onlyWritesFail_noFaults inside changed appended rfl
          (fun impossible => by cases impossible)]
        exact .consolidated inside changed bound
  · rw [wearLevelingWrite, if_pos (Nat.lt_of_not_le inside)]
    exact .rejected (Nat.lt_of_not_le inside)

theorem wearLevelingErase_ok (cfg : Config) {faults : Faults} (quiet : OnlyWritesFail faults) (s : State) :
    wearLevelingErase cfg faults s =
      (.success, { s with
        cache := fun _ => 0
        writeAddress := cfg.logStart
        store := fun _ => 0
        trace := s.trace ++ lockEvents .unlock s.unlocked ++ [⟨.erase, true⟩] ++
          lockEvents .lock s.unlocked }) := by
  have erased : ∀ s', perform faults .erase s' = (true, s'.after .erase) :=
    fun s' => perform_ok (quiet _ _ (by decide))
  rw [wearLevelingErase, wearLevelingUnlock_ok quiet]
  cases locked : s.unlocked with
  | true =>
    simp [erased, State.after, Operation.apply, wearLevelingClearCache, lockEvents]
  | false =>
    simp [erased, State.after, Operation.apply, wearLevelingClearCache, lockEvents,
      wearLevelingLock_ok quiet]

end QmkFirmware.WearLeveling
