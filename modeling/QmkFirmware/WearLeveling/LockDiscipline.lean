import QmkFirmware.WearLeveling.StoreBounds

/-! # Lock discipline

The lock of the store as the trace shows it.  Every public call leaves the lock as it was, and
unlocks the store before it erases or writes, with one exception: a restart that consolidates
erases first.  `lock_discipline_iff` says when that happens.
-/

namespace QmkFirmware.WearLeveling

open QmkFirmware.Memory QmkFirmware.Runs

/-! ## The rule -/

/-- The lock after an operation. -/
def lockStep (unlocked : Bool) (event : Event) : Bool :=
  match event.operation with
  | .unlock => unlocked || event.ok
  | .lock => unlocked && !event.ok
  | _ => unlocked

def unlockedAfter (unlocked : Bool) (events : List Event) : Bool := events.foldl lockStep unlocked

/-- Every erase and every write finds the store unlocked. -/
def Guarded : Bool → List Event → Prop
  | _, [] => True
  | unlocked, event :: events =>
    (event.operation.kind = .erase ∨ event.operation.kind = .write → unlocked = true) ∧
      Guarded (lockStep unlocked event) events

def Guarded.decide : (unlocked : Bool) → (events : List Event) → Decidable (Guarded unlocked events)
  | _, [] => isTrue trivial
  | unlocked, event :: events =>
    have := Guarded.decide (lockStep unlocked event) events
    inferInstanceAs (Decidable ((_ ∨ _ → _) ∧ _))

instance (unlocked : Bool) (events : List Event) : Decidable (Guarded unlocked events) :=
  Guarded.decide unlocked events

section

variable {unlocked : Bool} {first second events : List Event}

theorem unlockedAfter_append :
    unlockedAfter unlocked (first ++ second) = unlockedAfter (unlockedAfter unlocked first) second :=
  List.foldl_append

theorem guarded_append :
    Guarded unlocked (first ++ second) ↔ Guarded unlocked first ∧ Guarded (unlockedAfter unlocked first) second := by
  induction first generalizing unlocked with
  | nil => exact (and_iff_right trivial).symm
  | cons event first ih =>
    rw [List.cons_append, Guarded, Guarded, ih, and_assoc]
    rfl

/-- None of the events touches the lock. -/
def KeepLock (events : List Event) : Prop :=
  ∀ event ∈ events, event.operation.kind ≠ .unlock ∧ event.operation.kind ≠ .lock

theorem KeepLock.append (head : KeepLock first) (tail : KeepLock second) : KeepLock (first ++ second) := by
  intro event member
  rcases List.mem_append.mp member with member | member
  · exact head event member
  · exact tail event member

theorem KeepLock.cons_iff {event : Event} :
    KeepLock (event :: events) ↔
      (event.operation.kind ≠ .unlock ∧ event.operation.kind ≠ .lock) ∧ KeepLock events :=
  List.forall_mem_cons

theorem lockStep_of_kind {event : Event}
    (kind : event.operation.kind ≠ .unlock ∧ event.operation.kind ≠ .lock) (unlocked : Bool) :
    lockStep unlocked event = unlocked := by
  obtain ⟨operation, ok⟩ := event
  cases operation with
  | unlock => exact absurd rfl kind.1
  | lock => exact absurd rfl kind.2
  | init | erase | write | read => rfl

theorem KeepLock.unlockedAfter (keep : KeepLock events) (unlocked : Bool) :
    unlockedAfter unlocked events = unlocked := by
  induction events with
  | nil => rfl
  | cons event events ih =>
    obtain ⟨kind, keep⟩ := KeepLock.cons_iff.mp keep
    rw [WearLeveling.unlockedAfter, List.foldl_cons, lockStep_of_kind kind]
    exact ih keep

/-- Once the store is unlocked, whatever leaves the lock alone is allowed. -/
theorem KeepLock.guarded (keep : KeepLock events) : Guarded true events := by
  induction events with
  | nil => trivial
  | cons event events ih =>
    obtain ⟨kind, keep⟩ := KeepLock.cons_iff.mp keep
    rw [Guarded, lockStep_of_kind kind]
    exact ⟨fun _ => rfl, ih keep⟩

/-- Nothing is asked for where nothing is written or erased. -/
theorem guarded_of_passive (passive : Passive events) (unlocked : Bool) : Guarded unlocked events := by
  induction events generalizing unlocked with
  | nil => trivial
  | cons event events ih =>
    obtain ⟨⟨write, erase⟩, rest⟩ := List.forall_mem_cons.mp passive
    exact ⟨fun kind => (kind.elim erase write).elim, ih rest _⟩

/-- A call that unlocks the store if it has to, and locks it again. -/
theorem guarded_session (keep : KeepLock events) (unlocked : Bool) :
    Guarded unlocked (lockEvents .unlock unlocked ++ events ++ lockEvents .lock unlocked) ∧
    unlockedAfter unlocked (lockEvents .unlock unlocked ++ events ++ lockEvents .lock unlocked) = unlocked := by
  have opened : unlockedAfter unlocked (lockEvents .unlock unlocked) = true := by cases unlocked <;> rfl
  have closed : unlockedAfter true (lockEvents .lock unlocked) = unlocked := by cases unlocked <;> rfl
  have before : Guarded unlocked (lockEvents .unlock unlocked) := by cases unlocked <;> decide
  have after : Guarded true (lockEvents .lock unlocked) := by cases unlocked <;> decide
  simp only [guarded_append, unlockedAfter_append, opened, keep.unlockedAfter, closed]
  exact ⟨⟨⟨before, keep.guarded⟩, after⟩, trivial⟩

theorem keepLock_writeEvents (width address : Nat) (words : List (List UInt8)) :
    KeepLock (writeEvents width address words) := by
  induction words generalizing address with
  | nil => exact List.forall_mem_nil _
  | cons word words ih =>
    rw [writeEvents, KeepLock.cons_iff]
    exact ⟨by simp [Operation.kind], ih (address + width)⟩

end

section

variable (cfg : Config) (s : State)

theorem keepLock_consolidation (unlocked : s.unlocked = true) : KeepLock (consolidationEvents cfg s) := by
  have erase : KeepLock [⟨.erase, true⟩] := by simp [KeepLock, Operation.kind]
  have none (operation : Operation) : KeepLock (lockEvents operation true) := by simp [KeepLock, lockEvents]
  rw [consolidationEvents, unlocked]
  refine (((erase.append (none _)).append ?_).append ?_).append (none _)
  · exact keepLock_writeEvents _ _ _
  · exact keepLock_writeEvents _ _ _

/-- A consolidation erases the store before it unlocks it. -/
theorem guarded_consolidation_iff :
    (Guarded s.unlocked (consolidationEvents cfg s) ↔ s.unlocked = true) ∧
    unlockedAfter s.unlocked (consolidationEvents cfg s) = s.unlocked := by
  have words : KeepLock (writeEvents cfg.writeSize.bytes 0 (dataWords cfg s.cache) ++
      writeEvents cfg.writeSize.bytes cfg.logicalSize (hashWords cfg s.cache)) :=
    (keepLock_writeEvents _ _ _).append (keepLock_writeEvents _ _ _)
  obtain ⟨guarded, after⟩ := guarded_session words s.unlocked
  have parts : consolidationEvents cfg s = [⟨.erase, true⟩] ++ (lockEvents .unlock s.unlocked ++
      (writeEvents cfg.writeSize.bytes 0 (dataWords cfg s.cache) ++
        writeEvents cfg.writeSize.bytes cfg.logicalSize (hashWords cfg s.cache)) ++ lockEvents .lock s.unlocked) := by
    simp only [consolidationEvents, List.append_assoc]
  have erase : Guarded s.unlocked [⟨.erase, true⟩] ↔ s.unlocked = true := by
    simp [Guarded, Operation.kind]
  rw [parts, guarded_append, unlockedAfter_append]
  exact ⟨(and_iff_left guarded).trans erase, after⟩

/-! ## Public calls -/

/-- The events of a call leave the lock as it was, and keep to the rule exactly if `safe`. -/
structure LockStep (safe : Prop) (s next : State) : Prop where
  unlocked : next.unlocked = s.unlocked
  trace : ∃ events, next.trace = s.trace ++ events ∧ unlockedAfter s.unlocked events = s.unlocked ∧
    (Guarded s.unlocked events ↔ safe)

theorem LockStep.refl (s : State) : LockStep True s s :=
  ⟨rfl, [], (List.append_nil _).symm, rfl, Iff.rfl⟩

theorem wearLevelingErase_lockStep : LockStep True s (wearLevelingErase cfg noFaults s).2 := by
  have erase : KeepLock [⟨.erase, true⟩] := by simp [KeepLock, Operation.kind]
  obtain ⟨guarded, after⟩ := guarded_session erase s.unlocked
  rw [wearLevelingErase_ok cfg onlyWritesFail_noFaults]
  refine ⟨rfl, _, ?_, after, iff_of_true guarded trivial⟩
  simp only [List.append_assoc]

theorem wearLevelingWrite_lockStep (call : WriteCall) :
    LockStep True s (wearLevelingWrite cfg noFaults call.address call.value s).2 := by
  have step := wearLevelingWrite_step cfg s call.sizes
  generalize wearLevelingWrite cfg noFaults call.address call.value s = result at step ⊢
  cases step with
  | rejected => exact .refl s
  | unchanged => exact .refl s
  | logged =>
    obtain ⟨guarded, after⟩ := guarded_session (keepLock_writeEvents cfg.writeSize.bytes s.writeAddress
      (writeWords cfg call.address call.value)) s.unlocked
    refine ⟨rfl, _, ?_, after, iff_of_true guarded trivial⟩
    simp only [State.relocked, State.appended, State.opened, List.append_assoc]
  | consolidated =>
    let filled := (s.opened call.address call.value).appended cfg
      ((writeWords cfg call.address call.value).take (wordsToFill cfg s.writeAddress))
    obtain ⟨guarded, after⟩ := guarded_session ((keepLock_writeEvents cfg.writeSize.bytes s.writeAddress
      ((writeWords cfg call.address call.value).take (wordsToFill cfg s.writeAddress))).append
        (keepLock_consolidation cfg filled rfl)) s.unlocked
    refine ⟨rfl, _, ?_, after, iff_of_true guarded trivial⟩
    simp only [State.relocked, consolidateState, filled, State.appended, State.opened, List.append_assoc]

end

/-! ## Restarting -/

/-- Where the log behind an address ends, unless one of its entries is rejected. -/
def logEnd (cfg : Config) (store : Nat → UInt8) : Nat → Nat → Option Nat
  | 0, address => some address
  | fuel + 1, address =>
    if address < cfg.backingSize then
      match entryAt cfg store address with
      | .empty => some address
      | .corrupt => none
      | .patch _ _ size => logEnd cfg store fuel (address + size)
    else some address

/-- The log is intact and ends before the end of the store. -/
def LogHasRoom (cfg : Config) (store : Nat → UInt8) : Prop :=
  ∃ stop < cfg.backingSize, logEnd cfg store cfg.backingSize cfg.logStart = some stop

instance (cfg : Config) (store : Nat → UInt8) : Decidable (LogHasRoom cfg store) :=
  inferInstanceAs (Decidable (∃ stop < cfg.backingSize, _))

section

variable (cfg : Config)

theorem playbackLoop_logEnd (fuel address : Nat) {s : State} {store : Nat → UInt8} (stored : s.store = store) :
    match logEnd cfg store fuel address with
    | some stop =>
      (playbackLoop cfg noFaults fuel address s).1 = .success ∧ (playbackLoop cfg noFaults fuel address s).2.1 = stop
    | none => (playbackLoop cfg noFaults fuel address s).1 = .failed := by
  induction fuel generalizing address s with
  | zero => exact ⟨rfl, rfl⟩
  | succ fuel ih =>
    rw [logEnd]
    by_cases inside : address < cfg.backingSize
    · rw [if_pos inside]
      obtain ⟨next, only, round⟩ := playbackLoop_step cfg noReadFaults fuel address s inside
      rw [stored] at round
      cases entry : entryAt cfg store address with
      | empty =>
        rw [entry] at round
        rw [round]
        exact ⟨rfl, rfl⟩
      | corrupt =>
        rw [entry] at round
        obtain ⟨stop, round⟩ := round
        rw [round]
      | patch target payload size =>
        rw [entry] at round
        rw [round]
        exact ih (address + size) (only.store.trans stored)
    · rw [if_neg inside, playbackLoop, if_neg inside]
      exact ⟨rfl, rfl⟩

/-- A restart takes up an intact log with room left, and consolidates any other. -/
inductive RestartStep (s : State) : State → Prop where
  | resumed {mid : State} (reads : JustReads (s.after .init) mid) (room : LogHasRoom cfg s.store) :
      RestartStep s mid
  | consolidated {mid : State} (reads : JustReads (s.after .init) mid) (noRoom : ¬LogHasRoom cfg s.store) :
      RestartStep s (consolidateState cfg mid)

theorem wearLevelingInit_restart (s : State) : RestartStep cfg s (wearLevelingInit cfg noFaults s).2 := by
  have performed : perform noFaults .init (wearLevelingClearCache cfg s) =
      (true, (wearLevelingClearCache cfg s).after .init) := rfl
  obtain ⟨loaded, read, _, _, _⟩ :=
    wearLevelingReadConsolidated_ok cfg ((wearLevelingClearCache cfg s).after .init) rfl rfl
  have reads := wearLevelingReadConsolidated_reads cfg noFaults ((wearLevelingClearCache cfg s).after .init)
  rw [read] at reads
  have forced (mid : State) : wearLevelingConsolidateForce cfg noFaults mid =
      (.consolidated, consolidateState cfg mid) :=
    wearLevelingConsolidateForce_ok cfg onlyWritesFail_noFaults mid fun _ _ => rfl
  have played := playbackLoop_logEnd cfg cfg.backingSize cfg.logStart reads.store
  have only := reads.trans (playbackLoop_reads cfg noFaults cfg.backingSize cfg.logStart loaded)
  generalize eq : playbackLoop cfg noFaults cfg.backingSize cfg.logStart loaded = result at played only
  obtain ⟨status, stop, next⟩ := result
  have finished : JustReads (s.after .init) { next with writeAddress := stop } :=
    ⟨only.store, only.unlocked, only.trace⟩
  have force (rejected : status = .failed ∨ cfg.backingSize ≤ stop) :
      (wearLevelingInit cfg noFaults s).2 = consolidateState cfg { next with writeAddress := stop } := by
    have settled : wearLevelingPlaybackLog cfg noFaults loaded =
        (.consolidated, consolidateState cfg { next with writeAddress := stop }) := by
      rw [wearLevelingPlaybackLog, eq]
      by_cases failed : status = .failed
      · exact (if_pos failed).trans (forced _)
      · exact (if_neg failed).trans ((if_pos (rejected.resolve_left failed)).trans (forced _))
    rw [wearLevelingInit_of_playback cfg performed read settled (by decide)]
  cases log : logEnd cfg s.store cfg.backingSize cfg.logStart with
  | none =>
    rw [show ((wearLevelingClearCache cfg s).after .init).store = s.store from rfl, log] at played
    rw [force (.inl played)]
    refine .consolidated finished ?_
    rintro ⟨stop, _, intact⟩
    cases log.symm.trans intact
  | some last =>
    rw [show ((wearLevelingClearCache cfg s).after .init).store = s.store from rfl, log] at played
    obtain ⟨rfl, rfl⟩ := played
    by_cases room : stop < cfg.backingSize
    · have settled : wearLevelingPlaybackLog cfg noFaults loaded = (.success, { next with writeAddress := stop }) := by
        rw [wearLevelingPlaybackLog, eq]
        exact (if_neg (by decide)).trans (if_neg (Nat.not_le.mpr room))
      rw [wearLevelingInit_of_playback cfg performed read settled (by decide)]
      exact .resumed finished ⟨stop, room, log⟩
    · rw [force (.inr (Nat.le_of_not_lt room))]
      refine .consolidated finished ?_
      rintro ⟨other, below, intact⟩
      obtain rfl : stop = other := Option.some.inj (log.symm.trans intact)
      exact room below

/-- A restart keeps to the rule if it has nothing to consolidate, or finds the store unlocked. -/
theorem wearLevelingInit_lockStep (s : State) :
    LockStep (s.unlocked = true ∨ LogHasRoom cfg s.store) s (wearLevelingInit cfg noFaults s).2 := by
  have step := wearLevelingInit_restart cfg s
  have reading {mid : State} (reads : JustReads (s.after .init) mid) :
      ∃ events, mid.trace = s.trace ++ events ∧ KeepLock events ∧ Guarded s.unlocked events := by
    obtain ⟨events, trace, kinds⟩ := reads.trace
    have init : (s.after .init).trace = s.trace ++ [⟨.init, true⟩] := rfl
    have harmless : ∀ event ∈ ⟨.init, true⟩ :: events,
        event.operation.kind = .init ∨ event.operation.kind = .read := by
      intro event member
      rcases List.mem_cons.mp member with rfl | member
      · exact .inl rfl
      · exact .inr (kinds event member)
    refine ⟨⟨.init, true⟩ :: events, by rw [trace, init, List.append_assoc]; rfl, ?_, guarded_of_passive ?_ _⟩
    · intro event member
      rcases harmless event member with kind | kind <;> rw [kind] <;> decide
    · intro event member
      rcases harmless event member with kind | kind <;> rw [kind] <;> decide
  generalize (wearLevelingInit cfg noFaults s).2 = next at step ⊢
  cases step with
  | resumed reads room =>
    obtain ⟨events, trace, keep, guarded⟩ := reading reads
    exact ⟨reads.unlocked, events, trace, keep.unlockedAfter _, iff_of_true guarded (.inr room)⟩
  | @consolidated mid reads noRoom =>
    obtain ⟨events, trace, keep, guarded⟩ := reading reads
    have unlocked : mid.unlocked = s.unlocked := reads.unlocked
    obtain ⟨rule, after⟩ := guarded_consolidation_iff cfg mid
    rw [unlocked] at rule after
    refine ⟨unlocked, events ++ consolidationEvents cfg mid, ?_, ?_, ?_⟩
    · rw [consolidateState, trace, List.append_assoc]
    · rw [unlockedAfter_append, keep.unlockedAfter, after]
    · rw [guarded_append, keep.unlockedAfter, and_iff_right guarded, rule, or_iff_left noRoom]

end

/-! ## Runs -/

/-- The calls of the public interface. -/
inductive PublicCall where
  | request (asked : Request)
  | read (address length : Nat)

/-- `wear_leveling_read` copies from the cache, and changes nothing. -/
def PublicCall.step (cfg : Config) (s : State) : PublicCall → State
  | .request asked => (asked.run cfg noFaults s).2
  | .read _ _ => s

/-- A restart finds the store unlocked, or an intact log with room left. -/
def PublicCall.NeedsNoErase (cfg : Config) (s : State) : PublicCall → Prop
  | .request (.write _) => True
  | .request .erase => True
  | .request .init => s.unlocked = true ∨ LogHasRoom cfg s.store
  | .read _ _ => True

instance (cfg : Config) (s : State) (call : PublicCall) : Decidable (call.NeedsNoErase cfg s) := by
  unfold PublicCall.NeedsNoErase
  split <;> infer_instance

theorem PublicCall.lockStep (cfg : Config) (s : State) (call : PublicCall) :
    LockStep (call.NeedsNoErase cfg s) s (call.step cfg s) := by
  cases call with
  | read => exact .refl s
  | request asked =>
    cases asked with
    | write call => exact wearLevelingWrite_lockStep cfg s call
    | erase => exact wearLevelingErase_lockStep cfg s
    | init => exact wearLevelingInit_lockStep cfg s

/-- In every run on a store with any contents, the rule is kept and every call leaves the lock as
it was, exactly if no restart has to erase a locked store. -/
theorem lock_discipline_iff (cfg : Config) {start : State} (fresh : start.trace = []) (calls : List PublicCall) :
    (∀ n, Guarded start.unlocked ((calls.take n).foldl (PublicCall.step cfg) start).trace ∧
      unlockedAfter start.unlocked ((calls.take n).foldl (PublicCall.step cfg) start).trace = start.unlocked) ↔
      EveryStep (fun earlier call => call.NeedsNoErase cfg (earlier.foldl (PublicCall.step cfg) start)) calls := by
  refine forall_take_iff_everyStep
    (fun s => s.unlocked = start.unlocked ∧ unlockedAfter start.unlocked s.trace = start.unlocked)
    (fun s => Guarded start.unlocked s.trace ∧ unlockedAfter start.unlocked s.trace = start.unlocked)
    (fun s call => call.NeedsNoErase cfg s) ?_ ?_ ?_ ?_ calls
  · rw [fresh]
    exact ⟨rfl, rfl⟩
  · rw [fresh]
    exact ⟨trivial, rfl⟩
  · rintro s call ⟨unlocked, after⟩
    obtain ⟨same, events, trace, kept, _⟩ := call.lockStep cfg s
    refine ⟨same.trans unlocked, ?_⟩
    rw [trace, unlockedAfter_append, after, ← unlocked, kept]
  · rintro s call ⟨unlocked, after⟩ ⟨guarded, _⟩
    obtain ⟨_, events, trace, kept, rule⟩ := call.lockStep cfg s
    rw [unlocked] at kept rule
    rw [trace, unlockedAfter_append, guarded_append, after, kept, and_iff_right guarded, rule]
    exact and_iff_left rfl

/-- A full log is consolidated by the write that fills it, and a restart finds room again. -/
def consolidatingCalls : List PublicCall :=
  [.request .init, .request (.write ⟨0, [1], show 0 < 2 ^ 32 ∧ 1 < 2 ^ 31 by decide⟩), .read 0 1,
    .request (.write ⟨0, [2], show 0 < 2 ^ 32 ∧ 1 < 2 ^ 31 by decide⟩), .request .init, .request .erase]

theorem consolidatingCalls_disciplined :
    EveryStep (fun earlier call =>
      call.NeedsNoErase oneWordConfig (earlier.foldl (PublicCall.step oneWordConfig) erasedState)) consolidatingCalls ∧
    ∀ n, Guarded false ((consolidatingCalls.take n).foldl (PublicCall.step oneWordConfig) erasedState).trace ∧
      unlockedAfter false ((consolidatingCalls.take n).foldl (PublicCall.step oneWordConfig) erasedState).trace =
        false := by
  have every : EveryStep (fun earlier call =>
      call.NeedsNoErase oneWordConfig (earlier.foldl (PublicCall.step oneWordConfig) erasedState))
        consolidatingCalls := by decide +kernel
  exact ⟨every, (lock_discipline_iff oneWordConfig rfl consolidatingCalls).mpr every⟩

/-- A word that is no entry stands at the start of the log. -/
def corruptState : State := { erasedState with store := fun i => if i = 16 then 255 else 0 }

theorem restart_erases_locked_store :
    ¬Guarded false ([.request .init].foldl (PublicCall.step oneWordConfig) corruptState).trace := by
  decide +kernel

end QmkFirmware.WearLeveling
