import QmkFirmware.Foundations.Traced
import QmkFirmware.WearLeveling.StoreBounds

/-! # The bounds of playback

What a restart reads of the backing store, and which bytes of the entry union and of the cache it
touches.  The functions of a restart are written once more as computations that record these
accesses; `watchedInit_run` says that they compute the same.
-/

namespace QmkFirmware.WearLeveling

open QmkFirmware.Memory QmkFirmware.Traced

/-! ## Watched functions -/

/-- A word read from the backing store, a byte of `write_log_entry_t`, a byte of the cache that is written. -/
inductive Access where
  | read (address : Nat)
  | raw8 (index : Nat)
  | cache (index : Nat)
deriving DecidableEq

abbrev Watched := Traced Access State

def watch {α : Type} (f : State → α × State) : Watched α := fun s => ⟨(f s).1, (f s).2, []⟩

section Watch

variable (cfg : Config) (faults : Faults)

def watchedRead (address : Nat) : Watched (Option (List UInt8)) := do
  record (.read address)
  watch (backingStoreRead cfg faults address)

/-- `backing_store_read_bulk` into an array of which `target` gives the bytes. -/
def watchedReadBulk (target : Nat → Access) (address : Nat) : (count index : Nat) → Watched (Bool × List UInt8)
  | 0, _ => pure (true, [])
  | count + 1, index => do
    loop (fun k => record (target k)) cfg.writeSize.bytes index
    let value ← watchedRead cfg faults address
    match value with
    | some value => do
      let result ← watchedReadBulk target (address + cfg.writeSize.bytes) count (index + cfg.writeSize.bytes)
      pure (result.1, value ++ result.2)
    | none => pure (false, [])

def watchedClearCache : Watched Unit := do
  loop (fun i => record (.cache i)) cfg.logicalSize 0
  update (wearLevelingClearCache cfg)

def watchedReadConsolidated : Watched Status := do
  let data ← watchedReadBulk cfg faults .cache 0 (cfg.logicalSize / cfg.writeSize.bytes) 0
  if data.1 then do
    update fun s => { s with cache := blit s.cache 0 data.2 }
    let s ← Traced.read
    let checksum ← watchedReadBulk cfg faults .raw8 cfg.logicalSize (8 / cfg.writeSize.bytes) 0
    let entry := checksum.2
    if entry ++ List.replicate (8 - entry.length) 0 = cacheHash cfg s.cache then pure .success
    else do
      watchedClearCache cfg
      pure .success
  else do
    watchedClearCache cfg
    pure .failed

/-- A further word of an entry. -/
def watchedWord (needed : Prop) [Decidable needed] (address : Nat) : Watched (Option (List UInt8)) :=
  if needed then watchedRead cfg faults address else pure (some [])

/-- `memcpy(&cache[a], &log.raw8[3], l)`. -/
def watchedCopy (log : List UInt8) (a l : Nat) : Watched Unit := do
  loop (fun k => do
    record (.raw8 (3 + k))
    record (.cache (a + k))) l 0
  update fun s => { s with cache := blit s.cache a ((List.range l).map fun k => log.getD (3 + k) 0) }

/-- The first word holds the type, and the first three bytes the length and the address. -/
def watchedHeader : Watched Unit := loop (fun k => record (.raw8 k)) 3 0

/-- The words behind the header of a multi-byte entry, and the copy of its bytes. -/
def watchedPayload (log : List UInt8) (address a l : Nat) : Watched (Bool × Nat) := do
  let third ← watchedWord cfg faults (cfg.writeSize ≠ .eight ∧ l > 1) address
  match third with
  | none => pure (false, address)
  | some third => do
    let address := address + third.length
    let fourth ← watchedWord cfg faults (cfg.writeSize = .two ∧ l > 3) address
    match fourth with
    | none => pure (false, address)
    | some fourth => do
      watchedCopy (log ++ third ++ fourth) a l
      pure (true, address + fourth.length)

def watchedMultibyte (value : List UInt8) (address : Nat) : Watched (Bool × Nat) := do
  let second ← watchedWord cfg faults (cfg.writeSize = .two) address
  match second with
  | none => pure (false, address)
  | some second => do
    let log := value ++ second
    let address := address + second.length
    let a := logEntryMultibyteGetAddress log
    let l := logEntryMultibyteGetLength log
    watchedHeader
    if a + l > cfg.logicalSize then pure (false, address) else watchedPayload cfg faults log address a l

/-- An entry in one word of two bytes. -/
def watchedShort (a : Nat) (bytes : List UInt8) : Watched Unit := do
  loop (fun k => record (.raw8 k)) 2 0
  loop (fun k => record (.cache k)) bytes.length a
  update fun s => { s with cache := blit s.cache a bytes }

def watchedLoop : (fuel address : Nat) → Watched (Status × Nat)
  | 0, address => pure (.success, address)
  | fuel + 1, address =>
    if address < cfg.backingSize then do
      let value ← watchedRead cfg faults address
      match value with
      | none => pure (.failed, address)
      | some value =>
        if value.all (· = 0) then pure (.success, address)
        else
          let next := address + cfg.writeSize.bytes
          match logEntryGetType value with
          | .multibyte => do
            let played ← watchedMultibyte cfg faults value next
            if played.1 then watchedLoop fuel played.2 else pure (.failed, played.2)
          | .optimized64 =>
            let a := logEntryOptimized64GetAddress value
            if cfg.writeSize ≠ .two ∨ a ≥ cfg.logicalSize then pure (.failed, next)
            else do
              watchedShort a [logEntryOptimized64GetValue value]
              watchedLoop fuel next
          | .word01 =>
            let a := logEntryWord01GetAddress value
            if cfg.writeSize ≠ .two ∨ a + 1 ≥ cfg.logicalSize then pure (.failed, next)
            else do
              watchedShort a [logEntryWord01GetValue value, 0]
              watchedLoop fuel next
          | .unknown => pure (.failed, next)
    else pure (.success, address)

def watchedPlaybackLog : Watched Status := do
  let played ← watchedLoop cfg faults cfg.backingSize cfg.logStart
  update fun s => { s with writeAddress := played.2 }
  if played.1 = .failed then watch (wearLevelingConsolidateForce cfg faults)
  else watch (wearLevelingConsolidateIfNeeded cfg faults)

/-- The cache is cleared when a step of the restart fails. -/
def watchedOutcome (status : Status) (next : Watched Status) : Watched Status :=
  if status = .failed then do
    watchedClearCache cfg
    pure .failed
  else next

def watchedInit : Watched Status := do
  watchedClearCache cfg
  let ok ← watch (perform faults .init)
  if ok then do
    let found ← watchedReadConsolidated cfg faults
    watchedOutcome cfg found do
      let status ← watchedPlaybackLog cfg faults
      watchedOutcome cfg status (pure status)
  else do
    watchedClearCache cfg
    pure .failed

end Watch

/-! ## Watching changes nothing -/

section Erasure

variable {cfg : Config} {faults : Faults} {s : State}

/-- What a computation computes, without what it records. -/
def erase {α : Type} (program : Watched α) (s : State) : α × State := ((program s).value, (program s).state)

theorem erase_bind {α β : Type} (first : Watched α) (next : α → Watched β) (s : State) :
    erase (first >>= next) s = erase (next (erase first s).1) (erase first s).2 := rfl

theorem erase_pure {α : Type} (value : α) (s : State) : erase (pure value) s = (value, s) := rfl

theorem erase_update (change : State → State) (s : State) : erase (update change) s = ((), change s) := rfl

theorem erase_read (s : State) : erase (Traced.read : Watched State) s = (s, s) := rfl

theorem erase_watch {α : Type} (f : State → α × State) (s : State) : erase (watch f) s = f s := rfl

/-- Loops that only record. -/
theorem erase_loop {body : Nat → Watched Unit} (silent : ∀ k s, erase (body k) s = ((), s)) (count start : Nat)
    (s : State) : erase (loop body count start) s = ((), s) := by
  induction count generalizing start with
  | zero => rfl
  | succ count ih => rw [loop, erase_bind, silent, ih]

theorem erase_ite {α : Type} (condition : Prop) [Decidable condition] (yes no : Watched α) (s : State) :
    erase (if condition then yes else no) s = if condition then erase yes s else erase no s := by
  split <;> rfl

theorem watchedRead_run (address : Nat) :
    erase (watchedRead cfg faults address) s = backingStoreRead cfg faults address s := rfl

theorem watchedReadBulk_run (target : Nat → Access) (address count index : Nat) :
    erase (watchedReadBulk cfg faults target address count index) s
      = (((backingStoreReadBulk cfg faults address count s).1, (backingStoreReadBulk cfg faults address count s).2.1),
          (backingStoreReadBulk cfg faults address count s).2.2) := by
  induction count generalizing address index s with
  | zero => rfl
  | succ count ih =>
    rw [watchedReadBulk, erase_bind, erase_loop fun _ _ => rfl, erase_bind, watchedRead_run, backingStoreReadBulk]
    rcases backingStoreRead cfg faults address s with ⟨_ | value, s₁⟩
    · rfl
    · show erase (watchedReadBulk cfg faults target (address + cfg.writeSize.bytes) count
        (index + cfg.writeSize.bytes) >>= fun result => pure (result.1, value ++ result.2)) s₁ = _
      rw [erase_bind, ih, erase_pure]

theorem watchedClearCache_run : erase (watchedClearCache cfg) s = ((), wearLevelingClearCache cfg s) := by
  rw [watchedClearCache, erase_bind, erase_loop fun _ _ => rfl, erase_update]

theorem watchedReadConsolidated_run :
    erase (watchedReadConsolidated cfg faults) s = wearLevelingReadConsolidated cfg faults s := by
  rw [watchedReadConsolidated, erase_bind, watchedReadBulk_run, wearLevelingReadConsolidated]
  rcases backingStoreReadBulk cfg faults 0 (cfg.logicalSize / cfg.writeSize.bytes) s with ⟨_ | _, cache, s₁⟩
  · dsimp only
    rw [if_neg Bool.false_ne_true, erase_bind, watchedClearCache_run, erase_pure]
  · dsimp only
    rw [if_pos rfl, erase_bind, erase_update, erase_bind, erase_read, erase_bind, watchedReadBulk_run]
    rcases backingStoreReadBulk cfg faults cfg.logicalSize (8 / cfg.writeSize.bytes)
      { s₁ with cache := blit s₁.cache 0 cache } with ⟨ok, entry, s₂⟩
    dsimp only
    rw [erase_ite, erase_bind, watchedClearCache_run, erase_pure, erase_pure]

theorem watchedWord_run (needed : Prop) [Decidable needed] (address : Nat) :
    erase (watchedWord cfg faults needed address) s
      = if needed then backingStoreRead cfg faults address s else (some [], s) := by
  rw [watchedWord, erase_ite]
  rfl

theorem watchedCopy_run (log : List UInt8) (a l : Nat) :
    erase (watchedCopy log a l) s
      = ((), { s with cache := blit s.cache a ((List.range l).map fun k => log.getD (3 + k) 0) }) := by
  rw [watchedCopy, erase_bind, erase_loop fun _ _ => rfl, erase_update]

theorem watchedShort_run (a : Nat) (bytes : List UInt8) :
    erase (watchedShort a bytes) s = ((), { s with cache := blit s.cache a bytes }) := by
  rw [watchedShort, erase_bind, erase_loop fun _ _ => rfl, erase_bind, erase_loop fun _ _ => rfl, erase_update]

theorem watchedHeader_run : erase watchedHeader s = ((), s) := erase_loop (fun _ _ => rfl) 3 0 s

theorem watchedMultibyte_run (value : List UInt8) (address : Nat) :
    erase (watchedMultibyte cfg faults value address) s
      = (((playbackMultibyte cfg faults value address s).1, (playbackMultibyte cfg faults value address s).2.1),
          (playbackMultibyte cfg faults value address s).2.2) := by
  rw [watchedMultibyte, erase_bind, watchedWord_run, playbackMultibyte]
  generalize (if cfg.writeSize = .two then backingStoreRead cfg faults address s else (some [], s)) = first
  rcases first with ⟨_ | second, s₁⟩
  · rfl
  dsimp only
  rw [erase_bind, watchedHeader_run]
  by_cases overrun : logEntryMultibyteGetAddress (value ++ second) + logEntryMultibyteGetLength (value ++ second)
      > cfg.logicalSize
  · rw [if_pos overrun, if_pos overrun]
    rfl
  rw [if_neg overrun, if_neg overrun, watchedPayload, erase_bind, watchedWord_run]
  dsimp only
  generalize (if cfg.writeSize ≠ .eight ∧ logEntryMultibyteGetLength (value ++ second) > 1 then
    backingStoreRead cfg faults (address + second.length) s₁ else (some [], s₁)) = next
  rcases next with ⟨_ | third, s₂⟩
  · rfl
  dsimp only
  rw [erase_bind, watchedWord_run]
  generalize (if cfg.writeSize = .two ∧ logEntryMultibyteGetLength (value ++ second) > 3 then
    backingStoreRead cfg faults (address + second.length + third.length) s₂ else (some [], s₂)) = last
  rcases last with ⟨_ | fourth, s₃⟩
  · rfl
  dsimp only
  rw [erase_bind, watchedCopy_run, erase_pure]

theorem watchedLoop_run (fuel address : Nat) :
    erase (watchedLoop cfg faults fuel address) s
      = (((playbackLoop cfg faults fuel address s).1, (playbackLoop cfg faults fuel address s).2.1),
          (playbackLoop cfg faults fuel address s).2.2) := by
  induction fuel generalizing address s with
  | zero => rfl
  | succ fuel ih =>
    rw [watchedLoop, playbackLoop]
    by_cases inside : address < cfg.backingSize
    · rw [if_pos inside, if_pos inside, erase_bind, watchedRead_run]
      rcases backingStoreRead cfg faults address s with ⟨_ | value, s₁⟩
      · rfl
      dsimp only
      by_cases zero : value.all (· = 0) = true
      · rw [if_pos zero, if_pos zero]
        rfl
      rw [if_neg zero, if_neg zero]
      cases logEntryGetType value with
      | multibyte =>
        dsimp only
        rw [erase_bind, watchedMultibyte_run]
        rcases playbackMultibyte cfg faults value (address + cfg.writeSize.bytes) s₁ with ⟨_ | _, next, s₂⟩
        · rfl
        · exact ih next
      | optimized64 =>
        dsimp only
        by_cases overrun : cfg.writeSize ≠ .two ∨ logEntryOptimized64GetAddress value ≥ cfg.logicalSize
        · rw [if_pos overrun, if_pos overrun]
          rfl
        · rw [if_neg overrun, if_neg overrun, erase_bind, watchedShort_run, ih]
      | word01 =>
        dsimp only
        by_cases overrun : cfg.writeSize ≠ .two ∨ logEntryWord01GetAddress value + 1 ≥ cfg.logicalSize
        · rw [if_pos overrun, if_pos overrun]
          rfl
        · rw [if_neg overrun, if_neg overrun, erase_bind, watchedShort_run, ih]
      | unknown => rfl
    · rw [if_neg inside, if_neg inside]
      rfl

theorem watchedPlaybackLog_run :
    erase (watchedPlaybackLog cfg faults) s = wearLevelingPlaybackLog cfg faults s := by
  rw [watchedPlaybackLog, erase_bind, watchedLoop_run, wearLevelingPlaybackLog]
  rcases playbackLoop cfg faults cfg.backingSize cfg.logStart s with ⟨status, address, s₁⟩
  dsimp only
  rw [erase_bind, erase_update, erase_ite]
  rfl

theorem watchedOutcome_run (status : Status) (next : Watched Status) :
    erase (watchedOutcome cfg status next) s
      = if status = .failed then (.failed, wearLevelingClearCache cfg s) else erase next s := by
  rw [watchedOutcome, erase_ite, erase_bind, watchedClearCache_run, erase_pure]

/-- Watching a restart changes nothing. -/
theorem watchedInit_run : erase (watchedInit cfg faults) s = wearLevelingInit cfg faults s := by
  rw [watchedInit, erase_bind, watchedClearCache_run, erase_bind, erase_watch, wearLevelingInit]
  rcases perform faults .init (wearLevelingClearCache cfg s) with ⟨_ | _, s₁⟩
  · dsimp only
    rw [if_neg Bool.false_ne_true, erase_bind, watchedClearCache_run, erase_pure]
  dsimp only
  rw [if_pos rfl, erase_bind, watchedReadConsolidated_run, watchedOutcome_run]
  rcases wearLevelingReadConsolidated cfg faults s₁ with ⟨status, s₂⟩
  cases status with
  | failed => rfl
  | success =>
    dsimp only
    rw [if_neg (by simp), erase_bind, watchedPlaybackLog_run, watchedOutcome_run]
    rcases wearLevelingPlaybackLog cfg faults s₂ with ⟨status, s₃⟩
    cases status <;> rfl
  | consolidated =>
    dsimp only
    rw [if_neg (by simp), erase_bind, watchedPlaybackLog_run, watchedOutcome_run]
    rcases wearLevelingPlaybackLog cfg faults s₂ with ⟨status, s₃⟩
    cases status <;> rfl

end Erasure

/-! ## Accesses inside -/

def Access.Inside (cfg : Config) : Access → Prop
  | .read address => address + cfg.writeSize.bytes ≤ cfg.backingSize
  | .raw8 index => index < 8
  | .cache index => index < cfg.logicalSize

/-- The entry at the address, if its first word makes it a multi-byte entry, lies in the store, and so
do its bytes in the union. -/
def Fits (cfg : Config) (memory : Nat → UInt8) (address : Nat) : Prop :=
  let log := slice memory address 8
  let l := logEntryMultibyteGetLength log
  if logEntryMultibyteGetAddress log + l > cfg.logicalSize then address + headerSize cfg.writeSize ≤ cfg.backingSize
  else address + multibyteSize cfg.writeSize l ≤ cfg.backingSize ∧ l ≤ logEntryMultibyteMaxBytes

section Bounds

variable {cfg : Config} {faults : Faults} {s : State}

abbrev Bounded {α : Type} (cfg : Config) (program : Watched α) (s : State) : Prop := Always (Access.Inside cfg) program s

theorem bounded_bind {α β : Type} {first : Watched α} {next : α → Watched β} :
    Bounded cfg (first >>= next) s ↔ Bounded cfg first s ∧ Bounded cfg (next (erase first s).1) (erase first s).2 :=
  always_bind _ first next s

theorem bounded_watch {α : Type} (f : State → α × State) : Bounded cfg (watch f) s := nofun

theorem bounded_read {address : Nat} :
    Bounded cfg (watchedRead cfg faults address) s ↔ address + cfg.writeSize.bytes ≤ cfg.backingSize := by
  rw [watchedRead, bounded_bind]
  exact (and_iff_left (bounded_watch _)).trans (always_record _ _ _)

/-- A read either fails or gives what the store holds. -/
theorem backingStoreRead_cases (cfg : Config) (faults : Faults) (address : Nat) (s : State) :
    ∃ next, next.store = s.store ∧
      (backingStoreRead cfg faults address s = (some (slice s.store address cfg.writeSize.bytes), next) ∨
        backingStoreRead cfg faults address s = (none, next) ∧ ∃ n, faults .read n = true) := by
  refine ⟨(backingStoreRead cfg faults address s).2, (backingStoreRead_reads cfg faults address s).store, ?_⟩
  unfold backingStoreRead perform
  cases h : faults (Operation.read address).kind (invokeCount (Operation.read address).kind s.trace) with
  | false => exact .inl rfl
  | true => exact .inr ⟨rfl, _, h⟩

theorem word_cases (cfg : Config) (faults : Faults) (needed : Prop) [Decidable needed] (address : Nat) (s : State) :
    ∃ next, next.store = s.store ∧
      (erase (watchedWord cfg faults needed address) s
          = (some (slice s.store address (if needed then cfg.writeSize.bytes else 0)), next) ∨
        erase (watchedWord cfg faults needed address) s = (none, next) ∧ ∃ n, faults .read n = true) := by
  rw [watchedWord_run]
  by_cases yes : needed
  · rw [if_pos yes, if_pos yes]
    exact backingStoreRead_cases cfg faults address s
  · rw [if_neg yes, if_neg yes]
    exact ⟨s, rfl, .inl rfl⟩

theorem bounded_word {needed : Prop} [Decidable needed] {address : Nat} :
    Bounded cfg (watchedWord cfg faults needed address) s ↔
      (needed → address + cfg.writeSize.bytes ≤ cfg.backingSize) := by
  rw [watchedWord, Bounded, always_ite]
  exact (and_iff_left fun _ => nofun).trans (imp_congr_right fun _ => bounded_read)

theorem bounded_header : Bounded cfg watchedHeader s := by
  refine always_loop _ (fun i _ high s => ?_) s
  exact (always_record _ _ _).mpr (show i < 8 by omega)

theorem bounded_copy {log : List UInt8} {a l : Nat} (fits : a + l ≤ cfg.logicalSize) :
    Bounded cfg (watchedCopy log a l) s ↔ l ≤ logEntryMultibyteMaxBytes := by
  rw [watchedCopy, bounded_bind]
  refine (and_iff_left ((always_update _ _ _).mpr trivial)).trans ?_
  rw [Bounded, always_loop_iff (Access.Inside cfg) (fun i s => by rw [always_bind, always_record, always_record])]
  unfold logEntryMultibyteMaxBytes
  constructor
  · intro all
    by_contra long
    have last := (all (l - 1) (by omega) (by omega)).1
    exact absurd last (show ¬ 3 + (l - 1) < 8 by omega)
  · exact fun short i _ high => ⟨show 3 + i < 8 by omega, show a + i < cfg.logicalSize by omega⟩

theorem bounded_short {a : Nat} {bytes : List UInt8} (fits : a + bytes.length ≤ cfg.logicalSize) :
    Bounded cfg (watchedShort a bytes) s := by
  rw [watchedShort, bounded_bind, bounded_bind]
  refine ⟨?_, ?_, (always_update _ _ _).mpr trivial⟩
  · exact always_loop _ (fun i _ high s => (always_record _ _ _).mpr (show i < 8 by omega)) s
  · exact always_loop _ (fun i _ high s => (always_record _ _ _).mpr (show i < cfg.logicalSize by omega)) _

theorem bounded_clearCache : Bounded cfg (watchedClearCache cfg) s := by
  rw [watchedClearCache, bounded_bind]
  refine ⟨?_, (always_update _ _ _).mpr trivial⟩
  exact always_loop _ (fun i _ high s => (always_record _ _ _).mpr (show i < cfg.logicalSize by omega)) s

/-- Reading a block is bounded when it lies in the store and in the array. -/
theorem bounded_readBulk {target : Nat → Access} {address count index : Nat}
    (store : address + count * cfg.writeSize.bytes ≤ cfg.backingSize)
    (array : ∀ k < index + count * cfg.writeSize.bytes, (target k).Inside cfg) :
    Bounded cfg (watchedReadBulk cfg faults target address count index) s := by
  induction count generalizing address index s with
  | zero => exact nofun
  | succ count ih =>
    rw [Nat.succ_mul] at store array
    rw [watchedReadBulk, bounded_bind, bounded_bind, watchedRead_run, bounded_read]
    refine ⟨always_loop _ (fun i _ high s => (always_record _ _ _).mpr (array i (by omega))) s, by omega, ?_⟩
    rcases backingStoreRead cfg faults address _ with ⟨_ | value, s₁⟩
    · exact nofun
    · rw [bounded_bind]
      exact ⟨ih (by omega) (fun k bound => array k (by omega)), nofun⟩

/-- A block that is read without a failure lies in the store. -/
theorem readBulk_within (reads : ∀ n, faults .read n = false) {target : Nat → Access} {address count index : Nat}
    (some : 0 < count) (bounded : Bounded cfg (watchedReadBulk cfg faults target address count index) s) :
    address + count * cfg.writeSize.bytes ≤ cfg.backingSize := by
  induction count generalizing address index s with
  | zero => exact absurd some (Nat.lt_irrefl 0)
  | succ count ih =>
    rw [watchedReadBulk, bounded_bind, bounded_bind, watchedRead_run, bounded_read] at bounded
    obtain ⟨-, first, others⟩ := bounded
    rw [Nat.succ_mul]
    by_cases last : count = 0
    · rw [last]
      omega
    · obtain ⟨next, read, -⟩ := backingStoreRead_ok cfg reads address
        (erase (loop (fun k => record (target k)) cfg.writeSize.bytes index) s).2
      rw [read, bounded_bind] at others
      have rest := ih (Nat.pos_of_ne_zero last) others.1
      omega

/-! ## One entry -/

theorem Fits.header {memory : Nat → UInt8} {address : Nat} (fits : Fits cfg memory address) :
    address + headerSize cfg.writeSize ≤ cfg.backingSize := by
  unfold Fits at fits
  dsimp only at fits
  have least := headerSize_le_multibyteSize cfg.writeSize (logEntryMultibyteGetLength (slice memory address 8))
  split at fits <;> omega

/-- The words of an entry. -/
theorem words_eq (size : WriteSize) (l : Nat) :
    headerSize size + (if size ≠ .eight ∧ l > 1 then size.bytes else 0) +
      (if size = .two ∧ l > 3 then size.bytes else 0) = multibyteSize size l := by
  cases size <;> simp [headerSize, multibyteSize, WriteSize.bytes]

/-- The end of an entry is the end of its last word. -/
theorem multibyteSize_le_iff (size : WriteSize) (address l limit : Nat) (header : address + headerSize size ≤ limit) :
    address + multibyteSize size l ≤ limit ↔
      (size ≠ .eight ∧ l > 1 → address + headerSize size + size.bytes ≤ limit) ∧
        (size = .two ∧ l > 3 →
          address + headerSize size + (if size ≠ .eight ∧ l > 1 then size.bytes else 0) + size.bytes ≤ limit) := by
  unfold multibyteSize
  unfold headerSize at header ⊢
  cases size with
  | two =>
    have wide : WriteSize.bytes .two = 2 := rfl
    by_cases long : l > 1 <;> by_cases longer : l > 3 <;> simp [wide, long, longer] <;> omega
  | four =>
    have wide : WriteSize.bytes .four = 4 := rfl
    by_cases long : l > 1 <;> simp [wide, long]
    exact header
  | eight => exact ⟨fun _ => ⟨fun no => absurd rfl no.1, nofun⟩, fun _ => header⟩

theorem bounded_payload (log : List UInt8) (address a l : Nat) (s : State) (fits : a + l ≤ cfg.logicalSize)
    (header : address + headerSize cfg.writeSize ≤ cfg.backingSize) :
    (address + multibyteSize cfg.writeSize l ≤ cfg.backingSize ∧ l ≤ logEntryMultibyteMaxBytes →
        Bounded cfg (watchedPayload cfg faults log (address + headerSize cfg.writeSize) a l) s) ∧
      ((∀ n, faults .read n = false) →
        Bounded cfg (watchedPayload cfg faults log (address + headerSize cfg.writeSize) a l) s →
          address + multibyteSize cfg.writeSize l ≤ cfg.backingSize ∧ l ≤ logEntryMultibyteMaxBytes) := by
  rw [multibyteSize_le_iff _ _ _ _ header, watchedPayload, bounded_bind, bounded_word]
  obtain ⟨s₁, -, read | ⟨failed, n, fault⟩⟩ :=
    word_cases cfg faults (cfg.writeSize ≠ .eight ∧ l > 1) (address + headerSize cfg.writeSize) s
  · rw [read]
    dsimp only
    rw [length_slice, bounded_bind, bounded_word]
    obtain ⟨s₂, -, read' | ⟨failed', n, fault⟩⟩ :=
      word_cases cfg faults (cfg.writeSize = .two ∧ l > 3) (address + headerSize cfg.writeSize +
        if cfg.writeSize ≠ .eight ∧ l > 1 then cfg.writeSize.bytes else 0) s₁
    · rw [read']
      dsimp only
      rw [bounded_bind, bounded_copy fits, and_assoc]
      exact ⟨fun ⟨third, fourth, short⟩ => ⟨third, fourth, short, nofun⟩,
        fun _ ⟨third, fourth, short, _⟩ => ⟨third, fourth, short⟩⟩
    · rw [failed']
      exact ⟨fun ⟨⟨third, fourth⟩, _⟩ => ⟨third, fourth, nofun⟩,
        fun reads => absurd (reads n) (by rw [fault]; decide)⟩
  · rw [failed]
    exact ⟨fun ⟨⟨third, _⟩, _⟩ => ⟨third, nofun⟩, fun reads => absurd (reads n) (by rw [fault]; decide)⟩

theorem headerSize_eq (size : WriteSize) : size.bytes + (if size = .two then size.bytes else 0) = headerSize size := by
  cases size <;> decide

theorem bounded_multibyte (cfg : Config) (faults : Faults) (address : Nat) (s : State) (inside : address + cfg.writeSize.bytes ≤ cfg.backingSize) :
    (Fits cfg s.store address →
        Bounded cfg (watchedMultibyte cfg faults (slice s.store address cfg.writeSize.bytes)
          (address + cfg.writeSize.bytes)) s) ∧
      ((∀ n, faults .read n = false) →
        Bounded cfg (watchedMultibyte cfg faults (slice s.store address cfg.writeSize.bytes)
          (address + cfg.writeSize.bytes)) s → Fits cfg s.store address) := by
  have second : (cfg.writeSize = .two → address + cfg.writeSize.bytes + cfg.writeSize.bytes ≤ cfg.backingSize) ↔
      address + headerSize cfg.writeSize ≤ cfg.backingSize := by
    rw [← headerSize_eq]
    split_ifs with two
    · rw [Nat.add_assoc]
      exact imp_iff_right two
    · exact ⟨fun _ => inside, fun _ yes => absurd yes two⟩
  have headerLe := le_headerSize cfg.writeSize
  rw [watchedMultibyte, bounded_bind, bounded_word, second]
  obtain ⟨s₁, store₁, read | ⟨failed, n, fault⟩⟩ :=
    word_cases cfg faults (cfg.writeSize = .two) (address + cfg.writeSize.bytes) s
  · rw [read]
    dsimp only
    rw [← slice_add, length_slice, Nat.add_assoc address, headerSize_eq, bounded_bind, watchedHeader_run]
    obtain ⟨addressOf, lengthOf⟩ := multibyteHeader_slice s.store address (by omega : 3 ≤ headerSize cfg.writeSize)
    rw [addressOf, lengthOf]
    unfold Fits
    dsimp only
    split_ifs with overrun
    · exact ⟨fun header => ⟨header, bounded_header, nofun⟩, fun _ both => both.1⟩
    · constructor
      · intro fits
        have header : address + headerSize cfg.writeSize ≤ cfg.backingSize := by
          have least := headerSize_le_multibyteSize cfg.writeSize
            (logEntryMultibyteGetLength (slice s.store address 8))
          omega
        exact ⟨header, bounded_header, (bounded_payload _ _ _ _ _ (by omega) header).1 fits⟩
      · intro reads ⟨header, _, rest⟩
        exact (bounded_payload _ _ _ _ _ (by omega) header).2 reads rest
  · rw [failed]
    exact ⟨fun fits => ⟨fits.header, nofun⟩, fun reads => absurd (reads n) (by rw [fault]; decide)⟩

end Bounds

/-! ## The entries of the log -/

/-- Playback goes on behind an entry that it accepts. -/
def Follows (cfg : Config) (memory : Nat → UInt8) (address next : Nat) : Prop :=
  address < cfg.backingSize ∧
    ∃ target payload size, entryAt cfg memory address = .patch target payload size ∧ next = address + size

/-- The addresses of the entries that playback comes to. -/
abbrev Reached (cfg : Config) (memory : Nat → UInt8) : Nat → Nat → Prop := Relation.ReflTransGen (Follows cfg memory)

/-- A multi-byte entry whose words or bytes go too far. -/
def Overruns (cfg : Config) (memory : Nat → UInt8) (address : Nat) : Prop :=
  ¬ (slice memory address cfg.writeSize.bytes).all (· = 0) ∧
    logEntryGetType (slice memory address 8) = .multibyte ∧ ¬ Fits cfg memory address

section Rounds

variable {cfg : Config} {faults : Faults} {s : State}

/-- With the header and the words behind it read, the payload follows, unless a read fails. -/
theorem payload_cases (cfg : Config) (faults : Faults) (log : List UInt8) (address a l : Nat) (s : State) :
    ∃ next, next.store = s.store ∧
      (erase (watchedPayload cfg faults log (address + headerSize cfg.writeSize) a l) s
          = ((true, address + multibyteSize cfg.writeSize l), next) ∨
        (∃ stop, erase (watchedPayload cfg faults log (address + headerSize cfg.writeSize) a l) s
            = ((false, stop), next)) ∧ ∃ n, faults .read n = true) := by
  rw [watchedPayload, erase_bind]
  obtain ⟨s₁, store₁, read | ⟨failed, fault⟩⟩ :=
    word_cases cfg faults (cfg.writeSize ≠ .eight ∧ l > 1) (address + headerSize cfg.writeSize) s
  · rw [read]
    dsimp only
    rw [length_slice, erase_bind]
    obtain ⟨s₂, store₂, read' | ⟨failed', fault⟩⟩ :=
      word_cases cfg faults (cfg.writeSize = .two ∧ l > 3) (address + headerSize cfg.writeSize +
        if cfg.writeSize ≠ .eight ∧ l > 1 then cfg.writeSize.bytes else 0) s₁
    · rw [read']
      dsimp only
      rw [length_slice, erase_bind, watchedCopy_run, erase_pure]
      rw [Nat.add_assoc, Nat.add_assoc, ← Nat.add_assoc (headerSize _), words_eq]
      refine ⟨_, ?_, .inl rfl⟩
      exact store₂.trans store₁
    · rw [failed']
      exact ⟨s₂, store₂.trans store₁, .inr ⟨⟨_, rfl⟩, fault⟩⟩
  · rw [failed]
    exact ⟨s₁, store₁, .inr ⟨⟨_, rfl⟩, fault⟩⟩

theorem multibyte_cases (cfg : Config) (faults : Faults) (address : Nat) (s : State) :
    ∃ next, next.store = s.store ∧
      ((logEntryMultibyteGetAddress (slice s.store address 8) + logEntryMultibyteGetLength (slice s.store address 8)
            ≤ cfg.logicalSize ∧
          erase (watchedMultibyte cfg faults (slice s.store address cfg.writeSize.bytes)
              (address + cfg.writeSize.bytes)) s
            = ((true, address + multibyteSize cfg.writeSize (logEntryMultibyteGetLength (slice s.store address 8))),
                next)) ∨
        (∃ stop, erase (watchedMultibyte cfg faults (slice s.store address cfg.writeSize.bytes)
            (address + cfg.writeSize.bytes)) s = ((false, stop), next)) ∧
          ((∃ n, faults .read n = true) ∨
            logEntryMultibyteGetAddress (slice s.store address 8) +
              logEntryMultibyteGetLength (slice s.store address 8) > cfg.logicalSize)) := by
  have headerLe := le_headerSize cfg.writeSize
  rw [watchedMultibyte, erase_bind]
  obtain ⟨s₁, store₁, read | ⟨failed, fault⟩⟩ :=
    word_cases cfg faults (cfg.writeSize = .two) (address + cfg.writeSize.bytes) s
  · rw [read]
    dsimp only
    rw [← slice_add, length_slice, Nat.add_assoc address, headerSize_eq, erase_bind, watchedHeader_run]
    obtain ⟨addressOf, lengthOf⟩ := multibyteHeader_slice s.store address (by omega : 3 ≤ headerSize cfg.writeSize)
    rw [addressOf, lengthOf]
    split_ifs with overrun
    · exact ⟨s₁, store₁, .inr ⟨⟨_, rfl⟩, .inr overrun⟩⟩
    · obtain ⟨s₂, store₂, played | ⟨stopped, fault⟩⟩ := payload_cases cfg faults
        (slice s.store address (headerSize cfg.writeSize)) address
        (logEntryMultibyteGetAddress (slice s.store address 8)) (logEntryMultibyteGetLength (slice s.store address 8)) s₁
      · exact ⟨s₂, store₂.trans store₁, .inl ⟨by omega, played⟩⟩
      · exact ⟨s₂, store₂.trans store₁, .inr ⟨stopped, .inl fault⟩⟩
  · rw [failed]
    exact ⟨s₁, store₁, .inr ⟨⟨_, rfl⟩, .inl fault⟩⟩

/-- What follows an entry, by the kind of the entry. -/
theorem follows_iff (cfg : Config) (memory : Nat → UInt8) (address next : Nat) (inside : address < cfg.backingSize) :
    Follows cfg memory address next ↔
      ¬ (slice memory address cfg.writeSize.bytes).all (· = 0) ∧
        match logEntryGetType (slice memory address 8) with
        | .multibyte =>
          logEntryMultibyteGetAddress (slice memory address 8) + logEntryMultibyteGetLength (slice memory address 8)
              ≤ cfg.logicalSize ∧
            next = address + multibyteSize cfg.writeSize (logEntryMultibyteGetLength (slice memory address 8))
        | .optimized64 =>
          ¬ (cfg.writeSize ≠ .two ∨ logEntryOptimized64GetAddress (slice memory address 8) ≥ cfg.logicalSize) ∧
            next = address + 2
        | .word01 =>
          ¬ (cfg.writeSize ≠ .two ∨ logEntryWord01GetAddress (slice memory address 8) + 1 ≥ cfg.logicalSize) ∧
            next = address + 2
        | .unknown => False := by
  unfold Follows entryAt decodeEntry
  rw [take_slice _ _ (writeSize_bytes_le cfg.writeSize), and_iff_right inside]
  by_cases zero : (slice memory address cfg.writeSize.bytes).all (· = 0)
  · simp [zero]
  rw [if_neg zero, and_iff_right zero]
  cases logEntryGetType (slice memory address 8) with
  | multibyte =>
    dsimp only
    split_ifs with overrun
    · simp [overrun]
    · simp [Nat.le_of_not_gt overrun]
  | optimized64 =>
    dsimp only
    split_ifs with overrun
    · simp [overrun]
    · simp [overrun]
  | word01 =>
    dsimp only
    split_ifs with overrun
    · simp [overrun]
    · simp [overrun]
  | unknown => simp

/-- An entry in one word of two bytes, checked before it is played. -/
theorem bounded_shortRound {overrun : Prop} [Decidable overrun] {a : Nat} {bytes : List UInt8} {stop : Status × Nat}
    {rest : Watched (Status × Nat)} (fits : ¬ overrun → a + bytes.length ≤ cfg.logicalSize) :
    Bounded cfg (if overrun then pure stop else do watchedShort a bytes; rest) s ↔
      (¬ overrun → Bounded cfg rest { s with cache := blit s.cache a bytes }) := by
  split_ifs with stops
  · exact ⟨fun _ yes => absurd stops yes, fun _ => nofun⟩
  · rw [bounded_bind, watchedShort_run, and_iff_right (bounded_short (fits stops))]
    exact ⟨fun later _ => later, fun later => later stops⟩

/-- The addresses in entries of two bytes are in their first word. -/
theorem shortAddress_slice (memory : Nat → UInt8) (address : Nat) (size : WriteSize) :
    logEntryOptimized64GetAddress (slice memory address size.bytes) =
        logEntryOptimized64GetAddress (slice memory address 8) ∧
      logEntryWord01GetAddress (slice memory address size.bytes) =
        logEntryWord01GetAddress (slice memory address 8) := by
  have wide : 1 < size.bytes := by cases size <;> decide
  simp only [logEntryOptimized64GetAddress, logEntryWord01GetAddress, raw8_slice (by omega : 0 < size.bytes),
    raw8_slice wide, raw8_slice (by decide : 0 < 8), raw8_slice (by decide : 1 < 8), and_self]

/-- Behind an accepted entry of one word: only words of two bytes have these entries. -/
theorem bounded_shortNext (cfg : Config) (faults : Faults) (fuel address : Nat) (overrun : Prop)
    (cache : Nat → UInt8) {memory : Nat → UInt8} {s : State} (store : s.store = memory) :
    ((∀ next s', ¬ (cfg.writeSize ≠ .two ∨ overrun) ∧ next = address + 2 → s'.store = memory →
        Bounded cfg (watchedLoop cfg faults fuel next) s') →
      ¬ (cfg.writeSize ≠ .two ∨ overrun) →
        Bounded cfg (watchedLoop cfg faults fuel (address + cfg.writeSize.bytes)) { s with cache }) ∧
    ((¬ (cfg.writeSize ≠ .two ∨ overrun) →
        Bounded cfg (watchedLoop cfg faults fuel (address + cfg.writeSize.bytes)) { s with cache }) →
      ∀ next, ¬ (cfg.writeSize ≠ .two ∨ overrun) ∧ next = address + 2 →
        ∃ s', s'.store = memory ∧ Bounded cfg (watchedLoop cfg faults fuel next) s') := by
  have wide (accepted : ¬ (cfg.writeSize ≠ .two ∨ overrun)) : address + cfg.writeSize.bytes = address + 2 := by
    rw [not_not.mp (not_or.mp accepted).1]
    rfl
  constructor
  · intro all accepted
    exact all _ { s with cache } ⟨accepted, wide accepted⟩ store
  · intro later next ⟨accepted, behind⟩
    rw [behind, ← wide accepted]
    exact ⟨{ s with cache }, store, later accepted⟩

/-- One round of playback. -/
theorem bounded_round (fuel address : Nat) (s : State) (inside : address + cfg.writeSize.bytes ≤ cfg.backingSize) :
    (¬ Overruns cfg s.store address →
        (∀ next s', Follows cfg s.store address next → s'.store = s.store →
          Bounded cfg (watchedLoop cfg faults fuel next) s') →
        Bounded cfg (watchedLoop cfg faults (fuel + 1) address) s) ∧
      ((∀ n, faults .read n = false) → Bounded cfg (watchedLoop cfg faults (fuel + 1) address) s →
        ¬ Overruns cfg s.store address ∧ ∀ next, Follows cfg s.store address next →
          ∃ s', s'.store = s.store ∧ Bounded cfg (watchedLoop cfg faults fuel next) s') := by
  have wordPos := writeSize_bytes_pos cfg.writeSize
  have before : address < cfg.backingSize := by omega
  have typeOf : logEntryGetType (slice s.store address cfg.writeSize.bytes) =
      logEntryGetType (slice s.store address 8) := logEntryGetType_slice wordPos
  have same := shortAddress_slice s.store address cfg.writeSize
  simp only [follows_iff cfg s.store address _ before]
  unfold Overruns
  rw [watchedLoop, if_pos before, bounded_bind, bounded_read, watchedRead_run, and_iff_right inside]
  obtain ⟨s₁, store₁, read | ⟨failed, n, fault⟩⟩ := backingStoreRead_cases cfg faults address s
  · rw [read]
    dsimp only
    by_cases zero : (slice s.store address cfg.writeSize.bytes).all (· = 0) = true
    · rw [if_pos zero]
      exact ⟨fun _ _ => nofun, fun _ _ => ⟨fun long => long.1 zero, fun _ follows => absurd zero follows.1⟩⟩
    rw [if_neg zero, typeOf]
    simp only [and_iff_right zero]
    cases kind : logEntryGetType (slice s.store address 8) with
    | multibyte =>
      dsimp only
      rw [bounded_bind, ← store₁]
      obtain ⟨fit, fitting⟩ := bounded_multibyte cfg faults address s₁ inside
      obtain ⟨s₂, store₂, ⟨accepted, played⟩ | ⟨⟨stop, stopped⟩, reason⟩⟩ :=
        multibyte_cases cfg faults address s₁
      · rw [played, if_pos rfl]
        constructor
        · intro short rest
          exact ⟨fit (by_contra fun long => short ⟨rfl, long⟩), rest _ s₂ ⟨accepted, rfl⟩ store₂⟩
        · intro reads ⟨now, later⟩
          refine ⟨fun long => long.2 (fitting reads now), fun next follows => ⟨s₂, store₂, ?_⟩⟩
          rw [follows.2]
          exact later
      · rw [stopped, if_neg Bool.false_ne_true]
        constructor
        · intro short _
          exact ⟨fit (by_contra fun long => short ⟨rfl, long⟩), nofun⟩
        · intro reads ⟨now, _⟩
          refine ⟨fun long => long.2 (fitting reads now), fun next follows => ?_⟩
          cases reason with
          | inl fault => exact absurd (reads fault.choose) (by rw [fault.choose_spec]; decide)
          | inr overrun => exact absurd follows.1 (Nat.not_le_of_gt overrun)
    | optimized64 =>
      dsimp only
      rw [bounded_shortRound fun accepted => Nat.lt_of_not_ge (not_or.mp accepted).2]
      rw [same.1]
      exact ⟨fun _ => (bounded_shortNext cfg faults fuel address _ _ store₁).1, fun _ later =>
        ⟨fun long => (nomatch long.1), (bounded_shortNext cfg faults fuel address _ _ store₁).2 later⟩⟩
    | word01 =>
      dsimp only
      rw [bounded_shortRound fun accepted => Nat.lt_of_not_ge (not_or.mp accepted).2]
      rw [same.2]
      exact ⟨fun _ => (bounded_shortNext cfg faults fuel address _ _ store₁).1, fun _ later =>
        ⟨fun long => (nomatch long.1), (bounded_shortNext cfg faults fuel address _ _ store₁).2 later⟩⟩
    | unknown => exact ⟨fun _ _ => nofun, fun _ _ => ⟨fun long => (nomatch long.1), fun _ => False.elim⟩⟩
  · rw [failed]
    exact ⟨fun _ _ => nofun, fun reads => absurd (reads n) (by rw [fault]; decide)⟩

/-- Words do not cross the end of the store. -/
theorem word_inside {address : Nat} (aligned : address % cfg.writeSize.bytes = 0) (inside : address < cfg.backingSize) :
    address + cfg.writeSize.bytes ≤ cfg.backingSize := by
  obtain ⟨a, rfl⟩ := Nat.dvd_of_mod_eq_zero aligned
  obtain ⟨b, size⟩ := Nat.dvd_of_mod_eq_zero cfg.backing_aligned
  rw [size] at inside ⊢
  rw [← Nat.mul_succ]
  exact Nat.mul_le_mul_left _ (Nat.lt_of_mul_lt_mul_left inside)

theorem multibyteSize_mod (size : WriteSize) (l : Nat) : multibyteSize size l % size.bytes = 0 := by
  rw [← words_eq, ← headerSize_eq]
  split_ifs <;> cases size <;> rfl

theorem Follows.aligned {memory : Nat → UInt8} {address next : Nat} (follows : Follows cfg memory address next)
    (aligned : address % cfg.writeSize.bytes = 0) : next % cfg.writeSize.bytes = 0 := by
  obtain ⟨-, behind⟩ := (follows_iff cfg memory address next follows.1).mp follows
  cases kind : logEntryGetType (slice memory address 8) with
  | multibyte =>
    rw [kind] at behind
    rw [behind.2, Nat.add_mod, aligned, multibyteSize_mod]
    rfl
  | optimized64 | word01 =>
    rw [kind] at behind
    have two : cfg.writeSize = .two := not_not.mp (not_or.mp behind.1).1
    rw [two] at aligned ⊢
    rw [behind.2, Nat.add_mod, aligned]
    rfl
  | unknown => rw [kind] at behind; exact behind.elim

theorem Follows.lt {memory : Nat → UInt8} {address next : Nat} (follows : Follows cfg memory address next) :
    address < next := by
  obtain ⟨-, _, _, size, decoded, rfl⟩ := follows
  have positive := decodeEntry_size decoded
  omega

theorem Reached.le {memory : Nat → UInt8} {address next : Nat} (reached : Reached cfg memory address next) :
    address ≤ next := by
  induction reached with
  | refl => exact Nat.le_refl address
  | tail _ follows ih => exact Nat.le_trans ih (Nat.le_of_lt follows.lt)

/-- Playback stays inside as long as no entry that it comes to goes too far. -/
theorem bounded_loop (fuel address : Nat) (s : State) (aligned : address % cfg.writeSize.bytes = 0)
    (short : ∀ reached < cfg.backingSize, Reached cfg s.store address reached → ¬ Overruns cfg s.store reached) :
    Bounded cfg (watchedLoop cfg faults fuel address) s := by
  induction fuel generalizing address s with
  | zero => exact nofun
  | succ fuel ih =>
    by_cases inside : address < cfg.backingSize
    · refine (bounded_round fuel address s (word_inside aligned inside)).1 (short address inside .refl) ?_
      intro next s' follows store
      refine ih next s' (follows.aligned aligned) fun reached bound path => ?_
      rw [store] at path ⊢
      exact short reached bound (.head follows path)
    · rw [watchedLoop, if_neg inside]
      exact nofun

/-- With all reads successful, playback comes to every entry. -/
theorem short_of_bounded_loop (reads : ∀ n, faults .read n = false) (fuel address : Nat) (s : State)
    (enough : cfg.backingSize ≤ address + fuel) (aligned : address % cfg.writeSize.bytes = 0)
    (bounded : Bounded cfg (watchedLoop cfg faults fuel address) s) {reached : Nat} (inside : reached < cfg.backingSize)
    (path : Reached cfg s.store address reached) : ¬ Overruns cfg s.store reached := by
  induction fuel generalizing address s with
  | zero => exact absurd path.le (by omega)
  | succ fuel ih =>
    have before : address < cfg.backingSize := Nat.lt_of_le_of_lt path.le inside
    obtain ⟨now, later⟩ := (bounded_round fuel address s (word_inside aligned before)).2 reads bounded
    rcases path.cases_head with here | ⟨next, follows, rest⟩
    · exact here ▸ now
    · obtain ⟨s', store, bounded'⟩ := later next follows
      have behind := follows.lt
      rw [← store] at rest ⊢
      exact ih next s' (by omega) (follows.aligned aligned) bounded' rest

/-! ## Termination -/

theorem playbackMultibyte_le (cfg : Config) (faults : Faults) (value : List UInt8) (address : Nat) (s : State) :
    address ≤ (playbackMultibyte cfg faults value address s).2.1 := by
  rw [playbackMultibyte]
  split
  · exact Nat.le_refl address
  · dsimp only
    split
    · exact Nat.le_add_right _ _
    · split
      · exact Nat.le_add_right _ _
      · split <;> dsimp only <;> omega

/-- Every round moves the address, so the loop ends by itself. -/
theorem playbackLoop_fuel (fuel extra address : Nat) (s : State) (enough : cfg.backingSize ≤ address + fuel) :
    playbackLoop cfg faults (fuel + extra) address s = playbackLoop cfg faults fuel address s := by
  have wordPos := writeSize_bytes_pos cfg.writeSize
  induction fuel generalizing address s with
  | zero =>
    have outside : ¬ address < cfg.backingSize := by omega
    cases extra with
    | zero => rfl
    | succ extra =>
      rw [Nat.zero_add, playbackLoop, playbackLoop, if_neg outside]
  | succ fuel ih =>
    rw [Nat.add_right_comm, playbackLoop, playbackLoop]
    by_cases inside : address < cfg.backingSize
    · rw [if_pos inside, if_pos inside]
      rcases backingStoreRead cfg faults address s with ⟨_ | value, s₁⟩
      · rfl
      dsimp only
      split
      · rfl
      cases logEntryGetType value with
      | multibyte =>
        have moved := playbackMultibyte_le cfg faults value (address + cfg.writeSize.bytes) s₁
        dsimp only
        generalize playbackMultibyte cfg faults value (address + cfg.writeSize.bytes) s₁ = played at moved ⊢
        obtain ⟨_ | _, next, s₂⟩ := played
        · rfl
        · have further : address + cfg.writeSize.bytes ≤ next := moved
          exact ih next s₂ (by omega)
      | optimized64 | word01 =>
        dsimp only
        split
        · rfl
        · exact ih _ _ (by omega)
      | unknown => rfl
    · rw [if_neg inside, if_neg inside]

end Rounds

/-! ## A restart -/

/-- A restart ends, whichever operations of the store fail, with all its accesses inside. -/
def Robust (cfg : Config) (s : State) : Prop :=
  ∀ faults : Faults,
    (∀ extra s', playbackLoop cfg faults (cfg.backingSize + extra) cfg.logStart s' =
      playbackLoop cfg faults cfg.backingSize cfg.logStart s') ∧
    Bounded cfg (watchedInit cfg faults) s

section Restart

variable {cfg : Config} {faults : Faults} {s : State}

theorem bounded_playbackLog :
    Bounded cfg (watchedPlaybackLog cfg faults) s ↔ Bounded cfg (watchedLoop cfg faults cfg.backingSize cfg.logStart) s := by
  rw [watchedPlaybackLog, bounded_bind, bounded_bind, Bounded, Bounded, Bounded, always_update, always_ite]
  exact and_iff_left ⟨trivial, fun _ => bounded_watch _, fun _ => bounded_watch _⟩

theorem bounded_outcome (status : Status) (next : Watched Status) :
    Bounded cfg (watchedOutcome cfg status next) s ↔ (status ≠ .failed → Bounded cfg next s) := by
  rw [watchedOutcome, Bounded, always_ite]
  refine and_iff_right fun _ => ?_
  rw [always_bind]
  exact ⟨bounded_clearCache, (always_pure _ _ _).mpr trivial⟩

/-- The consolidated data lies in the store, and its checksum behind it. -/
theorem bounded_readConsolidated (room : cfg.logStart ≤ cfg.backingSize) :
    Bounded cfg (watchedReadConsolidated cfg faults) s := by
  have twice := cfg.twice
  have size := cfg.words_mul
  have hashSize := cfg.writeSize.eight_div_mul
  rw [watchedReadConsolidated, bounded_bind]
  refine ⟨bounded_readBulk (by omega) fun k inside => ?_, ?_⟩
  · exact show k < cfg.logicalSize by omega
  rw [Bounded, always_ite]
  refine ⟨fun _ => ?_, fun _ => ?_⟩
  · rw [always_bind, always_bind, always_bind]
    refine ⟨(always_update _ _ _).mpr trivial, (always_read _ _).mpr trivial, ?_, ?_⟩
    · exact bounded_readBulk (by rw [Config.logStart] at room; omega) fun k inside => show k < 8 by omega
    · rw [always_ite]
      refine ⟨fun _ => (always_pure _ _ _).mpr trivial, fun _ => ?_⟩
      rw [always_bind]
      exact ⟨bounded_clearCache, (always_pure _ _ _).mpr trivial⟩
  · rw [always_bind]
    exact ⟨bounded_clearCache, (always_pure _ _ _).mpr trivial⟩

theorem readBulk_run_ok (cfg : Config) (s : State) (reads : ∀ n, faults .read n = false) (target : Nat → Access) (address count index : Nat) :
    ∃ next, erase (watchedReadBulk cfg faults target address count index) s
        = ((true, slice s.store address (count * cfg.writeSize.bytes)), next) ∧ OnlyRead s next := by
  obtain ⟨next, read, only⟩ := backingStoreReadBulk_ok cfg reads address count s
  rw [watchedReadBulk_run, read]
  exact ⟨next, rfl, only⟩

/-- With all reads successful, the checksum is read. -/
theorem room_of_bounded_readConsolidated (reads : ∀ n, faults .read n = false)
    (bounded : Bounded cfg (watchedReadConsolidated cfg faults) s) : cfg.logStart ≤ cfg.backingSize := by
  have hashSize := cfg.writeSize.eight_div_mul
  rw [watchedReadConsolidated, bounded_bind] at bounded
  obtain ⟨next, read, -⟩ := 
    readBulk_run_ok cfg s reads .cache 0 (cfg.logicalSize / cfg.writeSize.bytes) 0
  rw [read, if_pos rfl, bounded_bind, bounded_bind, bounded_bind] at bounded
  have within := readBulk_within reads (by cases cfg.writeSize <;> decide) bounded.2.2.2.1
  rw [Config.logStart]
  omega

/-- A read that is cut short by nothing is no failure. -/
theorem readConsolidated_status (reads : ∀ n, faults .read n = false) :
    (wearLevelingReadConsolidated cfg faults s).1 ≠ .failed := by
  obtain ⟨next, data, -⟩ := backingStoreReadBulk_ok cfg reads 0 (cfg.logicalSize / cfg.writeSize.bytes) s
  rw [wearLevelingReadConsolidated, data]
  dsimp only
  split <;> simp

theorem bounded_init_of (room : cfg.logStart ≤ cfg.backingSize)
    (short : ∀ address < cfg.backingSize, Reached cfg s.store cfg.logStart address → ¬ Overruns cfg s.store address) :
    Bounded cfg (watchedInit cfg faults) s := by
  rw [watchedInit, bounded_bind, bounded_bind, watchedClearCache_run, erase_watch]
  refine ⟨bounded_clearCache, bounded_watch _, ?_⟩
  have kept : (perform faults .init (wearLevelingClearCache cfg s)).2.store = s.store := by
    rw [perform]
    dsimp only
    split <;> rfl
  rw [Bounded, always_ite]
  refine ⟨fun _ => ?_, fun _ => ?_⟩
  · rw [always_bind]
    refine ⟨bounded_readConsolidated room, ?_⟩
    show Bounded cfg (watchedOutcome cfg _ _) (erase (watchedReadConsolidated cfg faults) _).2
    rw [bounded_outcome, watchedReadConsolidated_run]
    intro _
    rw [bounded_bind, bounded_playbackLog]
    refine ⟨?_, (bounded_outcome _ _).mpr fun _ => (always_pure _ _ _).mpr trivial⟩
    refine bounded_loop _ _ _ cfg.logStart_aligned ?_
    rw [(wearLevelingReadConsolidated_reads cfg faults _).store, kept]
    exact short
  · rw [always_bind]
    exact ⟨bounded_clearCache, (always_pure _ _ _).mpr trivial⟩

theorem of_bounded_init (reads : ∀ n, faults .read n = false) (starts : ∀ n, faults .init n = false)
    (bounded : Bounded cfg (watchedInit cfg faults) s) :
    cfg.logStart ≤ cfg.backingSize ∧
      ∀ address < cfg.backingSize, Reached cfg s.store cfg.logStart address → ¬ Overruns cfg s.store address := by
  have opened : perform faults .init (wearLevelingClearCache cfg s) =
      (true, (perform faults .init (wearLevelingClearCache cfg s)).2) := by
    rw [perform, show faults (Operation.init).kind _ = false from starts _]
    rfl
  have kept : (perform faults .init (wearLevelingClearCache cfg s)).2.store = s.store := by
    rw [perform]
    dsimp only
    split <;> rfl
  rw [watchedInit, bounded_bind, bounded_bind, watchedClearCache_run, erase_watch] at bounded
  obtain ⟨-, -, main⟩ := bounded
  rw [opened, if_pos rfl, bounded_bind, bounded_outcome, watchedReadConsolidated_run] at main
  obtain ⟨consolidated, rest⟩ := main
  refine ⟨room_of_bounded_readConsolidated reads consolidated, fun address inside path => ?_⟩
  have played := (bounded_bind.mp (rest (readConsolidated_status reads))).1
  rw [bounded_playbackLog] at played
  have store := (wearLevelingReadConsolidated_reads cfg faults
    (perform faults .init (wearLevelingClearCache cfg s)).2).store.trans kept
  rw [← store] at path ⊢
  exact short_of_bounded_loop reads _ _ _ (by omega) cfg.logStart_aligned played inside path

end Restart

/-- Playback stays inside the store, the union and the cache, whatever fails, if and only if no
multi-byte entry that it comes to goes too far. -/
theorem init_robust_iff (cfg : Config) (s : State) :
    Robust cfg s ↔
      cfg.logicalSize + 8 ≤ cfg.backingSize ∧
        ∀ address < cfg.backingSize, Reached cfg s.store (cfg.logicalSize + 8) address →
          ¬ Overruns cfg s.store address := by
  constructor
  · intro robust
    exact of_bounded_init (fun _ => rfl) (fun _ => rfl) (robust noFaults).2
  · rintro ⟨room, short⟩ faults
    exact ⟨fun extra s' => playbackLoop_fuel _ extra _ s' (Nat.le_add_left _ _), bounded_init_of room short⟩

/-- Words of four bytes, with room for two of them behind the checksum. -/
def twoSlots : Config where
  writeSize := .four
  logicalSize := 8
  backingSize := 24
  positive := oneWordConfig.positive
  twice := oneWordConfig.twice
  aligned := by decide
  multiple := oneWordConfig.multiple
  addressable := oneWordConfig.addressable

/-- A log that is cut off within the entry that begins in its last slot. -/
def cutOff : State where
  cache _ := 0
  writeAddress := 0
  unlocked := false
  store i := if i = 16 then 0x08 else if i = 20 then 0x10 else 0
  trace := []

/-- Its one entry has the length seven. -/
def longEntry : State := { cutOff with store := fun i => if i = 16 then 0x38 else 0 }

/-- Playback reads behind the store, and behind the union. -/
theorem playback_overruns : ¬ Robust twoSlots cutOff ∧ ¬ Robust twoSlots longEntry := by
  constructor
  · intro robust
    exact absurd ((robust noFaults).2 (.read 24) (by decide +kernel)) (show ¬ 24 + 4 ≤ 24 by decide)
  · intro robust
    exact absurd ((robust noFaults).2 (.raw8 9) (by decide +kernel)) (show ¬ 9 < 8 by decide)

end QmkFirmware.WearLeveling
