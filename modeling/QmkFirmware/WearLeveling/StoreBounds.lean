import QmkFirmware.WearLeveling.Durability

/-! # The bounds of a store that fails

Any operation of the store may fail here.  A consolidation that cannot erase the store leaves
the write address behind its end, and the next write goes there; `writes_inside_iff` says that
this is the only way to leave the store.
-/

namespace QmkFirmware.WearLeveling

open QmkFirmware.Memory QmkFirmware.Runs

/-! ## Traces -/

/-- A write is below the limit; other operations have no address to bound. -/
def Event.Below (limit : Nat) (event : Event) : Prop :=
  match event.operation with
  | .write address _ => address < limit
  | _ => True

instance (limit : Nat) (event : Event) : Decidable (event.Below limit) := by
  unfold Event.Below
  split <;> infer_instance

def WritesBelow (limit : Nat) (events : List Event) : Prop := ∀ event ∈ events, event.Below limit

instance (limit : Nat) (events : List Event) : Decidable (WritesBelow limit events) :=
  inferInstanceAs (Decidable (∀ event ∈ events, event.Below limit))

/-- The second trace continues the first one with writes below the limit. -/
def Continues (limit : Nat) (before after : List Event) : Prop :=
  ∃ events, after = before ++ events ∧ WritesBelow limit events

section

variable {limit : Nat} {first second third : List Event}

theorem writesBelow_append : WritesBelow limit (first ++ second) ↔ WritesBelow limit first ∧ WritesBelow limit second := by
  simp only [WritesBelow, List.mem_append, or_imp, forall_and]

theorem Continues.refl (limit : Nat) (trace : List Event) : Continues limit trace trace :=
  ⟨[], (List.append_nil trace).symm, nofun⟩

theorem Continues.trans (before : Continues limit first second) (after : Continues limit second third) :
    Continues limit first third := by
  obtain ⟨events, rfl, below⟩ := before
  obtain ⟨events', rfl, below'⟩ := after
  exact ⟨events ++ events', List.append_assoc _ _ _, writesBelow_append.mpr ⟨below, below'⟩⟩

theorem Continues.below_iff (continues : Continues limit first second) :
    WritesBelow limit second ↔ WritesBelow limit first := by
  obtain ⟨events, rfl, below⟩ := continues
  rw [writesBelow_append, and_iff_left below]

end

/-! ## Operations -/

/-- Only the trace has changed, by writes below the limit, and perhaps cache, store and lock. -/
structure Keeps (limit : Nat) (s next : State) : Prop where
  trace : Continues limit s.trace next.trace
  writeAddress : next.writeAddress = s.writeAddress

theorem Keeps.refl (limit : Nat) (s : State) : Keeps limit s s := ⟨.refl limit s.trace, rfl⟩

theorem Keeps.trans {limit : Nat} {s mid next : State} (first : Keeps limit s mid) (second : Keeps limit mid next) :
    Keeps limit s next :=
  ⟨first.trace.trans second.trace, second.writeAddress.trans first.writeAddress⟩

section

variable (cfg : Config) (faults : Faults) (limit : Nat)

theorem perform_keeps (operation : Operation) (s : State)
    (below : ∀ ok, Event.Below limit ⟨operation, ok⟩) : Keeps limit s (perform faults operation s).2 := by
  refine ⟨⟨_, rfl, fun event member => ?_⟩, rfl⟩
  rw [List.mem_singleton.mp member]
  exact below _

theorem wearLevelingUnlock_keeps (s : State) : Keeps limit s (wearLevelingUnlock faults s).2 := by
  have performed := perform_keeps faults limit .unlock s fun _ => trivial
  rw [wearLevelingUnlock]
  generalize perform faults .unlock s = result at performed ⊢
  obtain ⟨ok, next⟩ := result
  cases s.unlocked with
  | true => exact .refl limit s
  | false =>
    cases ok with
    | true => exact ⟨performed.trace, performed.writeAddress⟩
    | false => exact performed

theorem wearLevelingLock_keeps (s : State) : Keeps limit s (wearLevelingLock faults s).2 := by
  have performed := perform_keeps faults limit .lock s fun _ => trivial
  rw [wearLevelingLock]
  generalize perform faults .lock s = result at performed ⊢
  obtain ⟨ok, next⟩ := result
  cases s.unlocked with
  | true =>
    cases ok with
    | true => exact ⟨performed.trace, performed.writeAddress⟩
    | false => exact performed
  | false => exact .refl limit s

theorem backingStoreWriteBulk_keeps (words : List (List UInt8)) (address : Nat) (s : State)
    (inside : address + words.length * cfg.writeSize.bytes ≤ limit) :
    Keeps limit s (backingStoreWriteBulk cfg faults address words s).2 := by
  have wordPos := writeSize_bytes_pos cfg.writeSize
  induction words generalizing address s with
  | nil => exact .refl limit s
  | cons word words ih =>
    rw [List.length_cons, Nat.succ_mul] at inside
    have first := perform_keeps faults limit (.write address word) s fun _ => show address < limit by omega
    rw [backingStoreWriteBulk, backingStoreWrite]
    generalize perform faults (.write address word) s = result at first ⊢
    obtain ⟨ok, mid⟩ := result
    cases ok with
    | true => exact first.trans (ih (address + cfg.writeSize.bytes) mid (by omega))
    | false => exact first

/-- The consolidated data and their checksum lie in front of the log. -/
theorem wearLevelingWriteConsolidated_keeps (s : State) (room : cfg.logStart ≤ limit) :
    Keeps limit s (wearLevelingWriteConsolidated cfg faults s).2 ∧
    (wearLevelingWriteConsolidated cfg faults s).1 ≠ .success := by
  have size := cfg.words_mul
  have hashSize := cfg.writeSize.eight_div_mul
  rw [Config.logStart] at room
  rw [wearLevelingWriteConsolidated]
  have opened := wearLevelingUnlock_keeps faults limit s
  generalize wearLevelingUnlock faults s = result at opened ⊢
  obtain ⟨lockStatus, s₁⟩ := result
  have data := backingStoreWriteBulk_keeps cfg faults limit
    (chunk cfg.writeSize.bytes (cfg.logicalSize / cfg.writeSize.bytes) (slice s₁.cache 0 cfg.logicalSize)) 0 s₁
    (by rw [length_chunk]; omega)
  simp only
  generalize backingStoreWriteBulk cfg faults 0 _ s₁ = result at data ⊢
  obtain ⟨dataOk, s₂⟩ := result
  have hash := backingStoreWriteBulk_keeps cfg faults limit
    (chunk cfg.writeSize.bytes (8 / cfg.writeSize.bytes) (cacheHash cfg s₂.cache)) cfg.logicalSize s₂
    (by rw [length_chunk]; omega)
  have written : Keeps limit s₂ (if dataOk then
      backingStoreWriteBulk cfg faults cfg.logicalSize
        (chunk cfg.writeSize.bytes (8 / cfg.writeSize.bytes) (cacheHash cfg s₂.cache)) s₂
    else (false, s₂)).2 := by
    cases dataOk with
    | true => exact hash
    | false => exact .refl limit s₂
  simp only
  generalize (if dataOk then _ else (false, s₂) : Bool × State) = result at written ⊢
  obtain ⟨ok, s₃⟩ := result
  have stored := (opened.trans data).trans written
  constructor
  · simp only
    split
    · exact stored.trans (wearLevelingLock_keeps faults limit s₃)
    · exact stored
  · cases ok <;> simp

/-- A consolidation starts the log over, unless the store cannot be erased. -/
theorem wearLevelingConsolidateForce_continues (s : State) (room : cfg.logStart ≤ limit) :
    Continues limit s.trace (wearLevelingConsolidateForce cfg faults s).2.trace ∧
    (wearLevelingConsolidateForce cfg faults s).1 ≠ .success := by
  rw [wearLevelingConsolidateForce]
  have erased := perform_keeps faults limit .erase s fun _ => trivial
  generalize perform faults .erase s = result at erased ⊢
  obtain ⟨ok, s₁⟩ := result
  cases ok with
  | false => exact ⟨erased.trace, by simp⟩
  | true =>
    have written := wearLevelingWriteConsolidated_keeps cfg faults limit s₁ room
    simp only
    generalize wearLevelingWriteConsolidated cfg faults s₁ = result at written ⊢
    obtain ⟨status, s₂⟩ := result
    exact ⟨erased.trace.trans written.1.trace, written.2⟩

/-- A log that goes on has room. -/
theorem wearLevelingConsolidateIfNeeded_continues (s : State) (room : cfg.logStart ≤ limit) :
    Continues limit s.trace (wearLevelingConsolidateIfNeeded cfg faults s).2.trace ∧
    ((wearLevelingConsolidateIfNeeded cfg faults s).1 = .success →
      (wearLevelingConsolidateIfNeeded cfg faults s).2.writeAddress < cfg.backingSize) := by
  rw [wearLevelingConsolidateIfNeeded]
  split
  · obtain ⟨continues, status⟩ := wearLevelingConsolidateForce_continues cfg faults limit s room
    exact ⟨continues, fun success => absurd success status⟩
  · rename_i fits
    exact ⟨.refl limit s.trace, fun _ => Nat.lt_of_not_le fits⟩

/-- A word is written at the write address, and then a consolidation may follow. -/
theorem wearLevelingAppendRaw_continues (value : List UInt8) (s : State) (room : cfg.logStart ≤ limit) :
    (∃ ok, Continues limit (s.trace ++ [⟨.write s.writeAddress value, ok⟩])
      (wearLevelingAppendRaw cfg faults value s).2.trace) ∧
    ((wearLevelingAppendRaw cfg faults value s).1 = .success →
      (wearLevelingAppendRaw cfg faults value s).2.writeAddress < cfg.backingSize) := by
  rw [wearLevelingAppendRaw, backingStoreWrite]
  have written : ∃ ok, (perform faults (.write s.writeAddress value) s).2.trace =
      s.trace ++ [⟨.write s.writeAddress value, ok⟩] := ⟨_, rfl⟩
  generalize perform faults (.write s.writeAddress value) s = result at written ⊢
  obtain ⟨done, next⟩ := result
  obtain ⟨ok, written⟩ := written
  cases done with
  | false => exact ⟨⟨ok, written ▸ .refl limit _⟩, by simp⟩
  | true =>
    obtain ⟨continues, success⟩ := wearLevelingConsolidateIfNeeded_continues cfg faults limit
      { next with writeAddress := next.writeAddress + cfg.writeSize.bytes } room
    exact ⟨⟨ok, written ▸ continues⟩, success⟩

/-- Of the words of an entry only the first one can miss the store. -/
theorem wearLevelingAppendAll_continues (room : cfg.logStart ≤ cfg.backingSize) (value : List UInt8)
    (values : List (List UInt8)) (s : State) :
    (∃ ok, Continues cfg.backingSize (s.trace ++ [⟨.write s.writeAddress value, ok⟩])
      (wearLevelingAppendAll cfg faults (value :: values) s).2.trace) ∧
    ((wearLevelingAppendAll cfg faults (value :: values) s).1 = .success →
      (wearLevelingAppendAll cfg faults (value :: values) s).2.writeAddress < cfg.backingSize) := by
  induction values generalizing value s with
  | nil =>
    rw [wearLevelingAppendAll_singleton]
    exact wearLevelingAppendRaw_continues cfg faults cfg.backingSize value s room
  | cons next values ih =>
    obtain ⟨⟨ok, first⟩, inside⟩ := wearLevelingAppendRaw_continues cfg faults cfg.backingSize value s room
    rw [wearLevelingAppendAll]
    generalize wearLevelingAppendRaw cfg faults value s = result at first inside ⊢
    obtain ⟨status, mid⟩ := result
    cases status with
    | success =>
      obtain ⟨⟨ok', second⟩, success⟩ := ih next mid
      have written : Continues cfg.backingSize mid.trace
          (mid.trace ++ [⟨.write mid.writeAddress next, ok'⟩]) := by
        refine ⟨_, rfl, fun event member => ?_⟩
        rw [List.mem_singleton.mp member]
        exact inside rfl
      exact ⟨⟨ok, first.trans (written.trans second)⟩, success⟩
    | failed => exact ⟨⟨ok, first⟩, fun success => by cases success⟩
    | consolidated => exact ⟨⟨ok, first⟩, fun success => by cases success⟩

theorem writeRaw_continues (room : cfg.logStart ≤ cfg.backingSize) {address : Nat} {value : List UInt8}
    (nonempty : value ≠ []) (sizes : CallSizes address value)
    (inside : (address + value.length) % 2 ^ 32 ≤ cfg.logicalSize) (s : State) :
    (∃ word ok, Continues cfg.backingSize (s.trace ++ [⟨.write s.writeAddress word, ok⟩])
      (wearLevelingWriteRaw cfg faults value.length address value s).2.trace) ∧
    ((wearLevelingWriteRaw cfg faults value.length address value s).1 = .success →
      (wearLevelingWriteRaw cfg faults value.length address value s).2.writeAddress < cfg.backingSize) := by
  obtain ⟨word, words, eq⟩ := List.exists_cons_of_ne_nil (words_ne_nil (writeEntries_recognised sizes inside)
    (logEntries_ne_nil cfg.writeSize address nonempty))
  rw [wearLevelingWriteRaw_eq, eq]
  obtain ⟨⟨ok, continues⟩, success⟩ := wearLevelingAppendAll_continues cfg faults room word words s
  exact ⟨⟨word, ok, continues⟩, success⟩

/-- The store is unlocked, or can be. -/
def Unlockable (s : State) : Prop :=
  s.unlocked = true ∨ faults .unlock (invokeCount .unlock s.trace) = false

instance (s : State) : Decidable (Unlockable faults s) := by
  unfold Unlockable
  infer_instance

theorem wearLevelingUnlock_fails_iff (s : State) :
    (wearLevelingUnlock faults s).1 = .failure ↔ ¬Unlockable faults s := by
  rw [wearLevelingUnlock, Unlockable]
  have performed : (perform faults .unlock s).1 = !faults .unlock (invokeCount .unlock s.trace) := rfl
  generalize perform faults .unlock s = result at performed ⊢
  obtain ⟨ok, next⟩ := result
  cases s.unlocked with
  | true => simp
  | false =>
    cases ok with
    | true =>
      have works : faults .unlock (invokeCount .unlock s.trace) = false := by simpa using performed.symm
      simp [works]
    | false =>
      have fails : faults .unlock (invokeCount .unlock s.trace) = true := by simpa using performed.symm
      simp [fails]

/-- The end of a write: the store is locked again if the write has unlocked it. -/
theorem relock_continues (lockStatus : LockStatus) (status : Status) (s : State) :
    Continues limit s.trace
      (if lockStatus = .success then
        match wearLevelingLock faults s with
        | (.failure, s) => (Status.failed, s)
        | (_, s) => (status, s)
      else (status, s)).2.trace := by
  have locked := wearLevelingLock_keeps faults limit s
  split
  · generalize wearLevelingLock faults s = result at locked ⊢
    obtain ⟨relock, next⟩ := result
    cases relock <;> exact locked.trace
  · exact .refl limit s.trace

/-- A write that gets to the log begins at the write address. -/
theorem wearLevelingWrite_logging (room : cfg.logStart ≤ cfg.backingSize) {s : State} {call : WriteCall}
    (logs : call.Logs cfg s) (unlockable : Unlockable faults s) :
    ∃ mid word ok, Continues cfg.backingSize s.trace mid ∧
      Continues cfg.backingSize (mid ++ [⟨.write s.writeAddress word, ok⟩])
        (wearLevelingWrite cfg faults call.address call.value s).2.trace := by
  obtain ⟨inside, changed⟩ := logs
  have nonempty : call.value ≠ [] := fun empty => changed (by rw [empty]; rfl)
  rw [wearLevelingWrite, if_neg (Nat.not_lt.mpr inside), if_neg changed]
  have opened := wearLevelingUnlock_keeps faults cfg.backingSize
    { s with cache := blit s.cache call.address call.value }
  have failed := wearLevelingUnlock_fails_iff faults { s with cache := blit s.cache call.address call.value }
  simp only
  generalize wearLevelingUnlock faults { s with cache := blit s.cache call.address call.value } = result
    at opened failed ⊢
  obtain ⟨lockStatus, mid⟩ := result
  have works : lockStatus ≠ .failure := fun fails => failed.mp fails unlockable
  obtain ⟨⟨word, ok, logged⟩, _⟩ := writeRaw_continues cfg faults room nonempty call.sizes inside mid
  have address : mid.writeAddress = s.writeAddress := opened.writeAddress
  have finished (written : Status × State) : Continues cfg.backingSize written.2.trace
      (onSuccess written (wearLevelingConsolidateIfNeeded cfg faults)).2.trace := by
    obtain ⟨status, next⟩ := written
    cases status with
    | success => exact (wearLevelingConsolidateIfNeeded_continues cfg faults cfg.backingSize next room).1
    | failed => exact .refl _ _
    | consolidated => exact .refl _ _
  rw [address] at logged
  refine ⟨mid.trace, word, ok, opened.trace, (logged.trans (finished _)).trans ?_⟩
  cases lockStatus with
  | failure => exact absurd rfl works
  | success => exact relock_continues faults cfg.backingSize .success _ _
  | unchanged => exact relock_continues faults cfg.backingSize .unchanged _ _

theorem wearLevelingWrite_quiet {s : State} {call : WriteCall}
    (quiet : ¬(call.Logs cfg s ∧ Unlockable faults s)) :
    Continues limit s.trace (wearLevelingWrite cfg faults call.address call.value s).2.trace := by
  rw [wearLevelingWrite]
  split
  · exact .refl limit s.trace
  rename_i inside
  split
  · exact .refl limit s.trace
  rename_i changed
  -- the range is valid and there is something to write, so that the store cannot be unlocked
  have opened := wearLevelingUnlock_keeps faults limit { s with cache := blit s.cache call.address call.value }
  have failed := wearLevelingUnlock_fails_iff faults { s with cache := blit s.cache call.address call.value }
  have locked : ¬Unlockable faults s := fun unlockable => quiet ⟨⟨Nat.le_of_not_lt inside, changed⟩, unlockable⟩
  simp only
  generalize wearLevelingUnlock faults { s with cache := blit s.cache call.address call.value } = result
    at opened failed ⊢
  obtain ⟨lockStatus, mid⟩ := result
  obtain rfl : lockStatus = .failure := failed.mpr locked
  exact opened.trace.trans (wearLevelingLock_keeps faults limit mid).trace

theorem wearLevelingErase_continues (s : State) :
    Continues limit s.trace (wearLevelingErase cfg faults s).2.trace := by
  rw [wearLevelingErase]
  have opened := wearLevelingUnlock_keeps faults limit s
  generalize wearLevelingUnlock faults s = result at opened ⊢
  obtain ⟨lockStatus, s₁⟩ := result
  have erased := perform_keeps faults limit .erase s₁ fun _ => trivial
  generalize eq : perform faults .erase s₁ = result at erased ⊢
  obtain ⟨ok, s₂⟩ := result
  have both := opened.trace.trans erased.trace
  have locked := wearLevelingLock_keeps faults limit (wearLevelingClearCache cfg s₂)
  cases lockStatus with
  | failure => exact opened.trace.trans (wearLevelingLock_keeps faults limit s₁).trace
  | unchanged =>
    simp only [eq]
    exact both
  | success =>
    simp only [eq]
    generalize wearLevelingLock faults (wearLevelingClearCache cfg s₂) = result at locked ⊢
    exact both.trans locked.trace

/-! ## Restarting -/

/-- The store has only been read; cache and write address may differ. -/
structure JustReads (s next : State) : Prop where
  store : next.store = s.store
  unlocked : next.unlocked = s.unlocked
  trace : ∃ events, next.trace = s.trace ++ events ∧ ∀ event ∈ events, event.operation.kind = .read

omit cfg faults limit in
theorem JustReads.refl (s : State) : JustReads s s :=
  ⟨rfl, rfl, [], (List.append_nil _).symm, nofun⟩

omit cfg faults limit in
theorem JustReads.trans {s mid next : State} (first : JustReads s mid) (second : JustReads mid next) :
    JustReads s next := by
  obtain ⟨events, trace, reads⟩ := first.trace
  obtain ⟨events', trace', reads'⟩ := second.trace
  refine ⟨second.store.trans first.store, second.unlocked.trans first.unlocked, events ++ events', ?_, ?_⟩
  · rw [trace', trace, List.append_assoc]
  · intro event member
    rcases List.mem_append.mp member with member | member
    · exact reads event member
    · exact reads' event member

omit cfg faults in
theorem JustReads.continues {s next : State} (reads : JustReads s next) : Continues limit s.trace next.trace := by
  obtain ⟨events, trace, kinds⟩ := reads.trace
  refine ⟨events, trace, fun event member => ?_⟩
  obtain ⟨operation, ok⟩ := event
  have kind := kinds _ member
  cases operation with
  | read => trivial
  | init | unlock | erase | write | lock => cases kind

theorem backingStoreRead_reads (address : Nat) (s : State) :
    JustReads s (backingStoreRead cfg faults address s).2 := by
  have performed : JustReads s (perform faults (.read address) s).2 := by
    refine ⟨?_, rfl, _, rfl, fun event member => ?_⟩
    · simp [perform, Operation.apply]
    · rw [List.mem_singleton.mp member]
      rfl
  rw [backingStoreRead]
  generalize perform faults (.read address) s = result at performed ⊢
  obtain ⟨ok, next⟩ := result
  cases ok <;> exact performed

theorem backingStoreReadBulk_reads (address count : Nat) (s : State) :
    JustReads s (backingStoreReadBulk cfg faults address count s).2.2 := by
  induction count generalizing address s with
  | zero => exact .refl s
  | succ count ih =>
    have first := backingStoreRead_reads cfg faults address s
    rw [backingStoreReadBulk]
    generalize backingStoreRead cfg faults address s = result at first ⊢
    obtain ⟨value, mid⟩ := result
    cases value with
    | none => exact first
    | some value => exact first.trans (ih (address + cfg.writeSize.bytes) mid)

theorem wearLevelingReadConsolidated_reads (s : State) :
    JustReads s (wearLevelingReadConsolidated cfg faults s).2 := by
  have data := backingStoreReadBulk_reads cfg faults 0 (cfg.logicalSize / cfg.writeSize.bytes) s
  rw [wearLevelingReadConsolidated]
  generalize backingStoreReadBulk cfg faults 0 (cfg.logicalSize / cfg.writeSize.bytes) s = result at data ⊢
  obtain ⟨ok, cache, s₁⟩ := result
  cases ok with
  | false => exact ⟨data.store, data.unlocked, data.trace⟩
  | true =>
    have filled : JustReads s { s₁ with cache := blit s₁.cache 0 cache } := ⟨data.store, data.unlocked, data.trace⟩
    have both := filled.trans (backingStoreReadBulk_reads cfg faults cfg.logicalSize (8 / cfg.writeSize.bytes) _)
    simp only
    split
    · exact both
    · exact ⟨both.store, both.unlocked, both.trace⟩

/-- One of the optional reads of an entry. -/
theorem optionalRead_reads (needed : Prop) [Decidable needed] (address : Nat) (s : State) :
    JustReads s (if needed then backingStoreRead cfg faults address s else (some [], s)).2 := by
  split
  · exact backingStoreRead_reads cfg faults address s
  · exact .refl s

theorem playbackMultibyte_reads (value : List UInt8) (address : Nat) (s : State) :
    JustReads s (playbackMultibyte cfg faults value address s).2.2 := by
  rw [playbackMultibyte]
  have first := optionalRead_reads cfg faults (cfg.writeSize = .two) address s
  generalize (if cfg.writeSize = .two then backingStoreRead cfg faults address s else (some [], s)) = result
    at first ⊢
  obtain ⟨word, s₁⟩ := result
  cases word with
  | none => exact first
  | some second =>
    let log := value ++ second
    have third := optionalRead_reads cfg faults
      (cfg.writeSize ≠ .eight ∧ logEntryMultibyteGetLength log > 1) (address + second.length) s₁
    simp only
    split
    · exact first
    split
    · rename_i read
      rw [read] at third
      exact first.trans third
    · rename_i third' s₂ read
      rw [read] at third
      have fourth := optionalRead_reads cfg faults
        (cfg.writeSize = .two ∧ logEntryMultibyteGetLength log > 3) (address + second.length + third'.length) s₂
      split
      · rename_i read
        rw [read] at fourth
        exact (first.trans third).trans fourth
      · rename_i read
        rw [read] at fourth
        have all := (first.trans third).trans fourth
        exact ⟨all.store, all.unlocked, all.trace⟩

theorem playbackLoop_reads (fuel address : Nat) (s : State) :
    JustReads s (playbackLoop cfg faults fuel address s).2.2 := by
  induction fuel generalizing address s with
  | zero => exact .refl s
  | succ fuel ih =>
    rw [playbackLoop]
    split
    · have first := backingStoreRead_reads cfg faults address s
      generalize backingStoreRead cfg faults address s = result at first ⊢
      obtain ⟨value, s₁⟩ := result
      have patched (cache : Nat → UInt8) : JustReads s { s₁ with cache } :=
        ⟨first.store, first.unlocked, first.trace⟩
      cases value with
      | none => exact first
      | some value =>
        simp only
        split
        · exact first
        split
        · -- a multi-byte entry, of which the further words are read
          have entry := playbackMultibyte_reads cfg faults value (address + cfg.writeSize.bytes) s₁
          generalize playbackMultibyte cfg faults value (address + cfg.writeSize.bytes) s₁ = result at entry ⊢
          obtain ⟨ok, stop, s₂⟩ := result
          cases ok with
          | true => exact (first.trans entry).trans (ih stop s₂)
          | false => exact first.trans entry
        · split
          · exact first
          · exact (patched _).trans (ih _ _)
        · split
          · exact first
          · exact (patched _).trans (ih _ _)
        · exact first
    · exact .refl s

theorem wearLevelingPlaybackLog_continues (s : State) (room : cfg.logStart ≤ limit) :
    Continues limit s.trace (wearLevelingPlaybackLog cfg faults s).2.trace := by
  have played := (playbackLoop_reads cfg faults cfg.backingSize cfg.logStart s).continues limit
  rw [wearLevelingPlaybackLog]
  generalize playbackLoop cfg faults cfg.backingSize cfg.logStart s = result at played ⊢
  obtain ⟨status, address, next⟩ := result
  simp only
  split
  · exact played.trans
      (wearLevelingConsolidateForce_continues cfg faults limit { next with writeAddress := address } room).1
  · exact played.trans
      (wearLevelingConsolidateIfNeeded_continues cfg faults limit { next with writeAddress := address } room).1

theorem wearLevelingInit_continues (s : State) (room : cfg.logStart ≤ limit) :
    Continues limit s.trace (wearLevelingInit cfg faults s).2.trace := by
  have started := (perform_keeps faults limit .init (wearLevelingClearCache cfg s) fun _ => trivial).trace
  rw [wearLevelingInit]
  generalize perform faults .init (wearLevelingClearCache cfg s) = result at started ⊢
  obtain ⟨ok, s₁⟩ := result
  cases ok with
  | false => exact started
  | true =>
    have read := (wearLevelingReadConsolidated_reads cfg faults s₁).continues limit
    simp only
    generalize wearLevelingReadConsolidated cfg faults s₁ = result at read ⊢
    obtain ⟨status, s₂⟩ := result
    have played := wearLevelingPlaybackLog_continues cfg faults limit s₂ room
    have both : Continues limit s.trace (wearLevelingPlaybackLog cfg faults s₂).2.trace :=
      (started.trans read).trans played
    cases status with
    | failed => exact started.trans read
    | success | consolidated =>
      dsimp only
      generalize wearLevelingPlaybackLog cfg faults s₂ = result at both ⊢
      obtain ⟨status, s₃⟩ := result
      cases status <;> exact both

end

/-! ## Runs -/

/-- A write that gets to the log finds room there. -/
def Request.FindsRoom (cfg : Config) (faults : Faults) (s : State) : Request → Prop
  | .write call => call.Logs cfg s → Unlockable faults s → s.writeAddress < cfg.backingSize
  | .erase => True
  | .init => True

instance (cfg : Config) (faults : Faults) (s : State) (request : Request) :
    Decidable (request.FindsRoom cfg faults s) := by
  cases request <;> unfold Request.FindsRoom <;> infer_instance

def Request.step (cfg : Config) (faults : Faults) (s : State) (request : Request) : State :=
  (request.run cfg faults s).2

theorem step_writesBelow_iff {cfg : Config} (room : cfg.logStart ≤ cfg.backingSize) (faults : Faults) {s : State}
    (before : WritesBelow cfg.backingSize s.trace) (request : Request) :
    WritesBelow cfg.backingSize (request.step cfg faults s).trace ↔ request.FindsRoom cfg faults s := by
  cases request with
  | write call =>
    by_cases logging : call.Logs cfg s ∧ Unlockable faults s
    · obtain ⟨mid, word, ok, opened, logged⟩ := wearLevelingWrite_logging cfg faults room logging.1 logging.2
      have first : WritesBelow cfg.backingSize [⟨.write s.writeAddress word, ok⟩] ↔ s.writeAddress < cfg.backingSize := by
        simp [WritesBelow, Event.Below]
      rw [Request.step, Request.run, logged.below_iff, writesBelow_append, first,
        and_iff_right (opened.below_iff.mpr before), Request.FindsRoom]
      exact ⟨fun inside _ _ => inside, fun finds => finds logging.1 logging.2⟩
    · have quiet := wearLevelingWrite_quiet cfg faults cfg.backingSize logging
      rw [Request.step, Request.run, quiet.below_iff]
      exact iff_of_true before fun logs unlockable => absurd ⟨logs, unlockable⟩ logging
  | erase =>
    rw [Request.step, Request.run, (wearLevelingErase_continues cfg faults cfg.backingSize s).below_iff]
    exact iff_of_true before trivial
  | init =>
    rw [Request.step, Request.run, (wearLevelingInit_continues cfg faults cfg.backingSize s room).below_iff]
    exact iff_of_true before trivial

/-- Whatever fails, all writes of a run stay inside the store exactly if each of its writes that
gets to the log finds room there. -/
theorem writes_inside_iff {cfg : Config} (room : cfg.logStart ≤ cfg.backingSize) (faults : Faults) {start : State}
    (fresh : start.trace = []) (requests : List Request) :
    (∀ n, WritesBelow cfg.backingSize ((requests.take n).foldl (Request.step cfg faults) start).trace) ↔
      EveryStep (fun earlier request =>
        request.FindsRoom cfg faults (earlier.foldl (Request.step cfg faults) start)) requests := by
  refine forall_take_iff_everyStep (fun _ => True) (fun s => WritesBelow cfg.backingSize s.trace)
    (fun s request => request.FindsRoom cfg faults s) trivial ?_ (fun _ _ _ => trivial) ?_ requests
  · rw [fresh]
    exact nofun
  · intro s request _ before
    exact step_writesBelow_iff room faults before request

/-- The log has room for one word. -/
def oneWordConfig : Config where
  writeSize := .eight
  logicalSize := 8
  backingSize := 24
  positive := Nat.succ_pos _
  twice := by decide
  aligned := by decide
  multiple := by decide
  addressable := by decide

def eraseFails : Faults := fun kind _ => decide (kind = .erase)

/-- The restart after the failed consolidation sets the write address back. -/
def restartedRequests : List Request := [.init, .write ⟨0, [1], by decide⟩, .init, .write ⟨0, [2], by decide⟩]

theorem restartedRequests_inside :
    EveryStep (fun earlier request =>
      request.FindsRoom oneWordConfig eraseFails (earlier.foldl (Request.step oneWordConfig eraseFails) erasedState))
        restartedRequests ∧
    ∀ n, WritesBelow oneWordConfig.backingSize
      ((restartedRequests.take n).foldl (Request.step oneWordConfig eraseFails) erasedState).trace := by
  have every : EveryStep (fun earlier request =>
      request.FindsRoom oneWordConfig eraseFails (earlier.foldl (Request.step oneWordConfig eraseFails) erasedState))
        restartedRequests := by decide +kernel
  exact ⟨every, (writes_inside_iff (by decide) eraseFails rfl restartedRequests).mpr every⟩

/-- Without it, the second write goes to the end of the store. -/
theorem second_write_outside :
    ¬WritesBelow oneWordConfig.backingSize
      ([.init, .write ⟨0, [1], by decide⟩, .write ⟨0, [2], by decide⟩].foldl
        (Request.step oneWordConfig eraseFails) erasedState).trace := by
  decide +kernel

end QmkFirmware.WearLeveling
