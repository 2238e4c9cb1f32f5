import QmkFirmware.WearLeveling.Operations

/-! # Recovery from the store

`Logged` says what a store looks like whose log is well formed: a chain of
entries behind the consolidated area, then nothing.  It is kept by appending an
entry, whole or torn, and by a consolidation; `wearLevelingInit_of_logged` says
what a restart makes of such a store.
-/

namespace QmkFirmware.WearLeveling

open QmkFirmware.Memory

/-- What `wear_leveling_read_consolidated` leaves in a cleared cache. -/
def consolidatedCache (cfg : Config) (store : Nat → UInt8) : Nat → UInt8 :=
  let cache := blit (fun _ => 0) 0 (slice store 0 cfg.logicalSize)
  if slice store cfg.logicalSize 8 = cacheHash cfg cache then cache else fun _ => 0

/-- The log of `store` is a chain of entries that ends at `stop`, and nothing is
    written from there on.  The outcome is the cache it stands for, or `none`
    when playback rejects one of the entries. -/
structure Logged (cfg : Config) (store : Nat → UInt8) (stop : Nat)
    (outcome : Option (Nat → UInt8)) : Prop where
  aligned : stop % cfg.writeSize.bytes = 0
  chain : Replays cfg store cfg.logStart (consolidatedCache cfg store) stop outcome
  blank : stop < cfg.backingSize → ∀ i, stop ≤ i → store i = 0

section Store

variable {cfg : Config} {store : Nat → UInt8} {stop : Nat} {outcome : Option (Nat → UInt8)}

/-! ## The consolidated area -/

theorem consolidatedCache_congr {other : Nat → UInt8} (same : ∀ i < cfg.logStart, other i = store i) :
    consolidatedCache cfg other = consolidatedCache cfg store := by
  have data : slice other 0 cfg.logicalSize = slice store 0 cfg.logicalSize :=
    slice_congr fun i _ h => same i (by rw [Config.logStart]; omega)
  have hash : slice other cfg.logicalSize 8 = slice store cfg.logicalSize 8 :=
    slice_congr fun i _ h => same i (by rw [Config.logStart]; omega)
  simp only [consolidatedCache, data, hash]

/-- A consolidated cache is read back. -/
theorem consolidatedCache_consolidatedStore (cfg : Config) (cache : Nat → UInt8) :
    ∀ i < cfg.logicalSize, consolidatedCache cfg (consolidatedStore cfg cache) i = cache i := by
  have dataLength := length_slice cache 0 cfg.logicalSize
  have hash : slice (consolidatedStore cfg cache) cfg.logicalSize 8 = cacheHash cfg cache := by
    rw [consolidatedStore, ← length_cacheHash cfg cache]
    exact slice_blit _ _ _
  have data : slice (consolidatedStore cfg cache) 0 cfg.logicalSize = slice cache 0 cfg.logicalSize := by
    rw [consolidatedStore, slice_blit_of_disjoint (by omega)]
    have whole := slice_blit (fun _ => 0) 0 (slice cache 0 cfg.logicalSize)
    rwa [dataLength] at whole
  have bytes : ∀ i < cfg.logicalSize,
      blit (fun _ => 0) 0 (slice cache 0 cfg.logicalSize) i = cache i := by
    intro i h
    rw [blit_inside 0 (by omega) (by omega), getD_slice 0 (by omega)]
    simp
  intro i h
  rw [consolidatedCache]
  simp only [data, hash]
  -- the checksum is that of the cache itself, so that the data is accepted
  rw [if_pos (cacheHash_congr fun j below => (bytes j below).symm), bytes i h]

theorem consolidatedStore_blank (cfg : Config) (cache : Nat → UInt8) {i : Nat} (h : cfg.logStart ≤ i) :
    consolidatedStore cfg cache i = 0 := by
  rw [Config.logStart] at h
  rw [consolidatedStore, blit_of_ge (by rw [length_cacheHash]; omega),
    blit_of_ge (by rw [length_slice]; omega)]

/-! ## Building logs -/

/-- A store with nothing behind the consolidated area, or without room there, has an empty log. -/
theorem logged_blank (blank : cfg.logStart < cfg.backingSize → ∀ i, cfg.logStart ≤ i → store i = 0) :
    Logged cfg store cfg.logStart (some (consolidatedCache cfg store)) :=
  ⟨cfg.logStart_aligned, .done _ _, blank⟩

theorem entryAt_blank {address : Nat} (blank : ∀ i, address ≤ i → store i = 0) :
    entryAt cfg store address = .empty := by
  have zeros : slice store address 8 = List.replicate 8 0 := by
    rw [← slice_const (0 : UInt8) address 8]
    exact slice_congr fun i low _ => blank i low
  rw [entryAt, zeros, decodeEntry, if_pos]
  cases cfg.writeSize <;> decide

/-- The eight bytes that playback sees when only `data` of an entry was written. -/
def paddedEntry (data : List UInt8) : List UInt8 := slice (blit (fun _ => 0) 0 data) 0 8

@[simp] theorem length_paddedEntry (data : List UInt8) : (paddedEntry data).length = 8 :=
  length_slice _ _ _

theorem getD_paddedEntry (data : List UInt8) {k : Nat} (h : k < 8) :
    (paddedEntry data).getD k 0 = data.getD k 0 := by
  rw [paddedEntry, getD_slice 0 h]
  by_cases inside : k < data.length
  · rw [blit_inside 0 (by omega) (by omega)]
    simp
  · rw [blit_of_ge (by omega), List.getD_eq_getElem?_getD, List.getElem?_eq_none (by omega)]
    rfl

theorem entryAt_written {address : Nat} {data : List UInt8}
    (blank : ∀ i, address ≤ i → store i = 0) :
    entryAt cfg (blit store address data) address = decodeEntry cfg (paddedEntry data) := by
  have bytes : slice (blit store address data) address 8 = paddedEntry data := by
    apply List.ext_getElem?
    intro k
    by_cases h : k < 8
    · rw [getElem?_slice h, paddedEntry, getElem?_slice h]
      by_cases inside : k < data.length
      · rw [blit_inside 0 (by omega) (by omega), blit_inside 0 (by omega) (by omega)]
        simp
      · rw [blit_of_ge (by omega), blit_of_ge (by omega), blank _ (by omega)]
    · rw [List.getElem?_eq_none (by simp; omega), List.getElem?_eq_none (by simp [paddedEntry]; omega)]
  rw [entryAt, bytes]

/-- Bytes written behind the log do not disturb what is in it. -/
theorem Logged.chain_written (logged : Logged cfg store stop outcome) (data : List UInt8) :
    Replays cfg (blit store stop data) cfg.logStart (consolidatedCache cfg (blit store stop data))
      stop outcome := by
  have start := logged.chain.le
  rw [consolidatedCache_congr fun i h => blit_of_lt (by omega)]
  exact logged.chain.congr fun i _ h => blit_of_lt h

/-- Write `data` behind a log: an entry that decodes to a patch is added to it. -/
theorem Logged.write_patch {cache : Nat → UInt8} {target size : Nat} {data payload : List UInt8}
    (logged : Logged cfg store stop (some cache)) (inside : stop < cfg.backingSize)
    (decoded : decodeEntry cfg (paddedEntry data) = .patch target payload size)
    (covered : data.length ≤ size) (words : size % cfg.writeSize.bytes = 0) :
    Logged cfg (blit store stop data) (stop + size) (some (blit cache target payload)) := by
  refine ⟨?_, ?_, ?_⟩
  · rw [Nat.add_mod, logged.aligned, words, Nat.add_zero, Nat.zero_mod]
  · refine (logged.chain_written data).trans (.patch inside ?_ (.done _ _))
    rw [entryAt_written (logged.blank inside), decoded]
  · intro _ i h
    rw [blit_of_ge (by omega), logged.blank inside i (by omega)]

theorem Logged.write_corrupt {cache : Nat → UInt8} {data : List UInt8}
    (logged : Logged cfg store stop (some cache)) (inside : stop < cfg.backingSize)
    (decoded : decodeEntry cfg (paddedEntry data) = .corrupt)
    (covered : headerSize cfg.writeSize ≤ data.length) (words : data.length % cfg.writeSize.bytes = 0) :
    Logged cfg (blit store stop data) (stop + data.length) none := by
  refine ⟨?_, ?_, ?_⟩
  · rw [Nat.add_mod, logged.aligned, words, Nat.add_zero, Nat.zero_mod]
  · refine (logged.chain_written data).trans (.corrupt inside (by omega) ?_)
    rw [entryAt_written (logged.blank inside), decoded]
  · intro _ i h
    rw [blit_of_ge h, logged.blank inside i (by omega)]

theorem Logged.write_rejected {data : List UInt8} (logged : Logged cfg store stop none)
    (words : data.length % cfg.writeSize.bytes = 0) :
    Logged cfg (blit store stop data) (stop + data.length) none := by
  refine ⟨?_, (logged.chain_written data).extend (by omega), ?_⟩
  · rw [Nat.add_mod, logged.aligned, words, Nat.add_zero, Nat.zero_mod]
  · intro inside i h
    rw [blit_of_ge h, logged.blank (by omega) i (by omega)]

/-- The bytes of an entry's words. -/
theorem LoggedEntry.Recognised.flatten_words {entry : LoggedEntry} {target : Nat}
    (shape : entry.Recognised cfg target) :
    (entry.words cfg.writeSize).flatten = entry.log.take (entry.count * cfg.writeSize.bytes) ∧
      (entry.words cfg.writeSize).flatten.length = entry.count * cfg.writeSize.bytes := by
  have flat := WearLeveling.flatten_words cfg.writeSize entry.log entry.count
  refine ⟨flat, ?_⟩
  rw [LoggedEntry.words, flat, List.length_take, shape.logLength]
  exact Nat.min_eq_left shape.size

theorem LoggedEntry.Recognised.decode_written {entry : LoggedEntry} {target : Nat}
    (shape : entry.Recognised cfg target) :
    decodeEntry cfg (paddedEntry (entry.words cfg.writeSize).flatten) = decodeEntry cfg entry.log := by
  obtain ⟨flat, _⟩ := shape.flatten_words
  apply decodeEntry_congr shape.logLength (length_paddedEntry _) (n := entry.count * cfg.writeSize.bytes)
  · intro k h
    have bound := shape.size
    rw [getD_paddedEntry _ (by omega), flat, List.getD_eq_getElem?_getD, List.getElem?_take_of_lt h,
      List.getD_eq_getElem?_getD]
  · rcases shape.recognised with ⟨corrupt, header⟩ | ⟨place, patch⟩
    · rwa [corrupt]
    · rw [patch]
      exact Nat.le_refl _

/-- What an outcome promises about the logical bytes.  Without the bound the
    19 address bits of an entry cannot name every logical byte. -/
def Restores (cfg : Config) (durable : Nat → UInt8) (outcome : Option (Nat → UInt8)) : Prop :=
  cfg.logicalSize ≤ 2 ^ 19 → ∃ cache, outcome = some cache ∧ ∀ i < cfg.logicalSize, cache i = durable i

/-- Appending a whole entry: the log stays well formed, and a valid entry patches the bytes that
it stands for. -/
theorem Logged.append_recognised {entry : LoggedEntry} {target : Nat} (logged : Logged cfg store stop outcome)
    (inside : stop < cfg.backingSize) (shape : entry.Recognised cfg target) :
    ∃ outcome', Logged cfg (blit store stop (entry.words cfg.writeSize).flatten)
        (stop + entry.count * cfg.writeSize.bytes) outcome' ∧
      ∀ durable, entry.Valid cfg target → Restores cfg durable outcome →
        Restores cfg (blit durable target entry.payload) outcome' := by
  obtain ⟨flat, length⟩ := shape.flatten_words
  have words : entry.count * cfg.writeSize.bytes % cfg.writeSize.bytes = 0 := Nat.mul_mod_left _ _
  have decoded := shape.decode_written
  cases outcome with
  | none =>
    refine ⟨none, length ▸ logged.write_rejected (length ▸ words), fun durable valid restores small => ?_⟩
    obtain ⟨_, impossible, _⟩ := restores small
    cases impossible
  | some cache =>
    rcases shape.recognised with ⟨corrupt, header⟩ | ⟨place, patch⟩
    · refine ⟨none, length ▸ logged.write_corrupt inside (decoded.trans corrupt)
        (length ▸ header) (length ▸ words), fun durable valid restores small => ?_⟩
      -- an entry is only rejected when its address does not fit the 19 bits
      rw [valid.restores small] at corrupt
      cases corrupt
    · refine ⟨_, logged.write_patch inside (decoded.trans patch) (Nat.le_of_eq length) words,
        fun durable valid restores small => ⟨_, rfl, ?_⟩⟩
      have placed : place = target := by
        have both := (valid.restores small).symm.trans patch
        cases both
        rfl
      obtain ⟨_, same, bytes⟩ := restores small
      cases same
      intro i h
      rw [placed]
      exact blit_congr (bytes i h) _ _

theorem Logged.append_entry {entry : LoggedEntry} {target : Nat} {durable : Nat → UInt8}
    (logged : Logged cfg store stop outcome) (restores : Restores cfg durable outcome)
    (inside : stop < cfg.backingSize) (valid : entry.Valid cfg target) :
    ∃ outcome', Logged cfg (blit store stop (entry.words cfg.writeSize).flatten)
        (stop + entry.count * cfg.writeSize.bytes) outcome' ∧
      Restores cfg (blit durable target entry.payload) outcome' := by
  obtain ⟨outcome', logged, patches⟩ := logged.append_recognised inside valid.toRecognised
  exact ⟨outcome', logged, patches durable valid restores⟩

/-- The words of a first entry, and of the others. -/
theorem logWords_cons (size : WriteSize) (entry : LoggedEntry) (entries : List LoggedEntry) :
    (logWords size (entry :: entries)).flatten =
        (entry.words size).flatten ++ (logWords size entries).flatten ∧
      (logWords size (entry :: entries)).length * size.bytes =
        entry.count * size.bytes + (logWords size entries).length * size.bytes := by
  constructor
  · simp only [logWords, List.flatMap_cons, List.flatten_append]
  · simp only [logWords, List.flatMap_cons, List.length_append, length_words, Nat.add_mul]

/-- Appending recognised entries keeps the log well formed. -/
theorem Logged.append_shapes {entries : List LoggedEntry}
    (shapes : ∀ entry ∈ entries, ∃ target, entry.Recognised cfg target) (logged : Logged cfg store stop outcome)
    (room : stop + (logWords cfg.writeSize entries).length * cfg.writeSize.bytes < cfg.backingSize) :
    ∃ outcome', Logged cfg (blit store stop (logWords cfg.writeSize entries).flatten)
      (stop + (logWords cfg.writeSize entries).length * cfg.writeSize.bytes) outcome' := by
  induction entries generalizing store stop outcome with
  | nil => exact ⟨outcome, by simpa [logWords] using logged⟩
  | cons entry entries ih =>
    obtain ⟨flat, total⟩ := logWords_cons cfg.writeSize entry entries
    obtain ⟨⟨target, shape⟩, others⟩ := List.forall_mem_cons.mp shapes
    obtain ⟨mid, logged, -⟩ := logged.append_recognised (by omega) shape
    obtain ⟨final, logged⟩ := ih others logged (by omega)
    refine ⟨final, ?_⟩
    rw [total, ← Nat.add_assoc]
    rwa [flat, blit_append, shape.flatten_words.2]

/-- Appending all entries of a write patches its bytes. -/
theorem Logged.append_entries {address : Nat} {p : List UInt8} {entries : List LoggedEntry}
    (splits : Splits cfg address p entries) {durable : Nat → UInt8}
    (logged : Logged cfg store stop outcome) (restores : Restores cfg durable outcome)
    (room : stop + (logWords cfg.writeSize entries).length * cfg.writeSize.bytes < cfg.backingSize) :
    ∃ outcome', Logged cfg (blit store stop (logWords cfg.writeSize entries).flatten)
        (stop + (logWords cfg.writeSize entries).length * cfg.writeSize.bytes) outcome' ∧
      Restores cfg (blit durable address p) outcome' := by
  induction splits generalizing store stop outcome durable with
  | nil => exact ⟨outcome, by simpa [logWords] using logged, by simpa using restores⟩
  | @cons address rest entry entries valid tail ih =>
    obtain ⟨flat, total⟩ := logWords_cons cfg.writeSize entry entries
    obtain ⟨mid, logged, restores⟩ := logged.append_entry restores (by omega) valid
    obtain ⟨final, logged, restores⟩ := ih logged restores (by omega)
    refine ⟨final, ?_, ?_⟩
    · rw [total, ← Nat.add_assoc]
      rwa [flat, blit_append, valid.flatten_words.2]
    · rwa [blit_append]

end Store

/-! ## Restarting -/

/-- Operations that leave the contents of the store alone. -/
def Passive (events : List Event) : Prop :=
  ∀ event ∈ events, event.operation.kind ≠ .write ∧ event.operation.kind ≠ .erase

/-- `next` was reached from `s` by passive operations; cache and write address may differ. -/
structure Booted (s next : State) : Prop where
  store : next.store = s.store
  unlocked : next.unlocked = s.unlocked
  trace : ∃ events, next.trace = s.trace ++ events ∧ Passive events

theorem Passive.append {first second : List Event} (head : Passive first) (tail : Passive second) :
    Passive (first ++ second) := by
  intro event member
  cases List.mem_append.mp member with
  | inl member => exact head event member
  | inr member => exact tail event member

theorem Booted.trans {s mid next : State} (first : Booted s mid) (second : Booted mid next) :
    Booted s next := by
  obtain ⟨events, firstTrace, firstPassive⟩ := first.trace
  obtain ⟨events', secondTrace, secondPassive⟩ := second.trace
  refine ⟨second.store.trans first.store, second.unlocked.trans first.unlocked, events ++ events', ?_,
    firstPassive.append secondPassive⟩
  rw [secondTrace, firstTrace, List.append_assoc]

theorem OnlyRead.booted {s next : State} (only : OnlyRead s next) : Booted s next := by
  obtain ⟨events, trace, read⟩ := only.trace
  refine ⟨only.store, only.unlocked, events, trace, fun event member => ?_⟩
  rw [read event member]
  decide

/-- Changing cache and write address keeps a state booted. -/
theorem Booted.volatile {s next : State} (booted : Booted s next) (cache : Nat → UInt8) (address : Nat) :
    Booted s { next with cache := cache, writeAddress := address } :=
  ⟨booted.store, booted.unlocked, booted.trace⟩

section Restart

variable (cfg : Config)

theorem noReadFaults : ∀ n, noFaults .read n = false := fun _ => rfl

theorem wearLevelingReadConsolidated_ok (s : State) (cleared : s.cache = fun _ => 0)
    (start : s.writeAddress = cfg.logStart) :
    ∃ next, wearLevelingReadConsolidated cfg noFaults s = (.success, next) ∧
      next.cache = consolidatedCache cfg s.store ∧ next.writeAddress = cfg.logStart ∧ Booted s next := by
  obtain ⟨s₁, read₁, only₁⟩ := backingStoreReadBulk_ok cfg noReadFaults 0
    (cfg.logicalSize / cfg.writeSize.bytes) s
  rw [cfg.words_mul] at read₁
  -- first the data, then the checksum behind it
  let filled : State := { s₁ with cache := blit s₁.cache 0 (slice s.store 0 cfg.logicalSize) }
  have booted₁ : Booted s filled := only₁.booted.volatile _ _
  obtain ⟨s₂, read₂, only₂⟩ := backingStoreReadBulk_ok cfg noReadFaults cfg.logicalSize
    (8 / cfg.writeSize.bytes) filled
  have zero : s₁.cache = fun _ => 0 := only₁.cache.trans cleared
  rw [cfg.writeSize.eight_div_mul, booted₁.store] at read₂
  have booted := booted₁.trans only₂.booted
  simp only [filled, zero] at read₂
  simp only [wearLevelingReadConsolidated, read₁, zero, read₂, length_slice, Nat.sub_self,
    List.replicate_zero, List.append_nil, consolidatedCache]
  split
  next =>
    refine ⟨s₂, rfl, ?_, ?_, booted⟩
    · rw [only₂.cache]
      simp only [filled, zero]
    · rw [only₂.writeAddress]
      exact only₁.writeAddress.trans start
  next => exact ⟨wearLevelingClearCache cfg s₂, rfl, rfl, rfl, booted.volatile _ _⟩

/-- The outcome of a restart is that of the playback, unless the playback failed. -/
theorem wearLevelingInit_of_playback {faults : Faults} {s cleared loaded final : State}
    {status : Status} (performed : perform faults .init (wearLevelingClearCache cfg s) = (true, cleared))
    (read : wearLevelingReadConsolidated cfg faults cleared = (.success, loaded))
    (played : wearLevelingPlaybackLog cfg faults loaded = (status, final)) (works : status ≠ .failed) :
    wearLevelingInit cfg faults s = (status, final) := by
  cases status with
  | failed => exact absurd rfl works
  | success => simp only [wearLevelingInit, performed, read, played]
  | consolidated => simp only [wearLevelingInit, performed, read, played]

/-- What a restart does with a log that plays back to `outcome`: it continues behind the log,
    or, when the log is full or unreadable, consolidates what it has read so far. -/
inductive InitStep (cfg : Config) (s : State) (stop : Nat) :
    Option (Nat → UInt8) → Status × State → Prop where
  | resumed (mid : State) (booted : Booted s mid) (room : stop < cfg.backingSize)
      (address : mid.writeAddress = stop) : InitStep cfg s stop (some mid.cache) (.success, mid)
  | full (mid : State) (booted : Booted s mid) (full : cfg.backingSize ≤ stop) :
      InitStep cfg s stop (some mid.cache) (.consolidated, consolidateState cfg mid)
  | unreadable (mid : State) (booted : Booted s mid) :
      InitStep cfg s stop none (.consolidated, consolidateState cfg mid)

theorem wearLevelingInit_of_logged {store : Nat → UInt8} {stop : Nat}
    {outcome : Option (Nat → UInt8)} (logged : Logged cfg store stop outcome)
    (bounded : stop < cfg.logStart + cfg.backingSize) (s : State) (stored : s.store = store) :
    InitStep cfg s stop outcome (wearLevelingInit cfg noFaults s) := by
  subst stored
  let cleared : State := { wearLevelingClearCache cfg s with trace := s.trace ++ [⟨.init, true⟩] }
  have boot : Booted s cleared := ⟨rfl, rfl, [⟨.init, true⟩], rfl, by simp [Passive, Operation.kind]⟩
  obtain ⟨loaded, read, cache, start, booted₁⟩ := wearLevelingReadConsolidated_ok cfg cleared rfl rfl
  have booted₁ := boot.trans booted₁
  obtain ⟨next, only, played⟩ := playbackLoop_of_replays noReadFaults logged.chain
    (fun inside => entryAt_blank (logged.blank inside)) cfg.backingSize bounded loaded booted₁.store cache
  have booted₂ := booted₁.trans only.booted
  have performed : perform noFaults .init (wearLevelingClearCache cfg s) = (true, cleared) := rfl
  have forced : ∀ mid, wearLevelingConsolidateForce cfg noFaults mid =
      (.consolidated, consolidateState cfg mid) :=
    fun mid => wearLevelingConsolidateForce_ok cfg onlyWritesFail_noFaults mid fun _ _ => rfl
  cases outcome with
  | none =>
    obtain ⟨stop', played⟩ := played
    have settled : wearLevelingPlaybackLog cfg noFaults loaded =
        (.consolidated, consolidateState cfg { next with writeAddress := stop' }) := by
      rw [wearLevelingPlaybackLog, played]
      exact (if_pos rfl).trans (forced _)
    rw [wearLevelingInit_of_playback cfg performed read settled (by decide)]
    exact .unreadable _ (booted₂.volatile _ _)
  | some final =>
    obtain ⟨played, rfl⟩ := played
    have booted := booted₂.volatile next.cache stop
    have settled : wearLevelingPlaybackLog cfg noFaults loaded =
        wearLevelingConsolidateIfNeeded cfg noFaults { next with writeAddress := stop } := by
      rw [wearLevelingPlaybackLog, played]
      exact if_neg (by decide)
    by_cases room : stop < cfg.backingSize
    · have resumed := settled.trans (if_neg (Nat.not_le.mpr room))
      rw [wearLevelingInit_of_playback cfg performed read resumed (by decide)]
      exact .resumed { next with writeAddress := stop } booted room rfl
    · -- a log that has reached the end of the store is consolidated before the first write
      have full : cfg.backingSize ≤ stop := Nat.not_lt.mp room
      have consolidated := settled.trans ((if_pos full).trans (forced _))
      rw [wearLevelingInit_of_playback cfg performed read consolidated (by decide)]
      exact .full { next with writeAddress := stop } booted full

end Restart

end QmkFirmware.WearLeveling
