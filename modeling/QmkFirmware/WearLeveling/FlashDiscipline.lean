import QmkFirmware.WearLeveling.Refinement

/-! # Flash discipline

A flash word can be written once between two erases.  `Flash` follows a trace
of backing-store operations and notes every write that breaks this rule, misses
the alignment or leaves the store.  `disciplined_iff_room_for_log`: the rule is
kept by every run exactly when the configuration leaves room for the log.
-/

namespace QmkFirmware.WearLeveling

open QmkFirmware.Memory QmkFirmware.Runs

/-! ## The rule -/

/-- The words written since the last erase, and whether every write so far was allowed. -/
structure Flash where
  written : List Nat
  clean : Bool
  deriving DecidableEq, Repr

/-- A write is allowed on an aligned, unwritten word inside the store. -/
def Flash.Allows (cfg : Config) (flash : Flash) (address : Nat) (value : List UInt8) : Prop :=
  value.length = cfg.writeSize.bytes ∧ address % cfg.writeSize.bytes = 0 ∧
    address + cfg.writeSize.bytes ≤ cfg.backingSize ∧ address ∉ flash.written

instance (cfg : Config) (flash : Flash) (address : Nat) (value : List UInt8) :
    Decidable (flash.Allows cfg address value) := by
  unfold Flash.Allows
  infer_instance

def Flash.step (cfg : Config) (flash : Flash) (event : Event) : Flash :=
  match event.operation with
  | .erase => if event.ok then { flash with written := [] } else flash
  | .write address value =>
    { written := address :: flash.written
      clean := flash.clean && decide (flash.Allows cfg address value) }
  | _ => flash

def flashAfter (cfg : Config) (trace : List Event) : Flash :=
  trace.foldl (Flash.step cfg) ⟨[], true⟩

/-- Every write of the trace was allowed when it was issued. -/
def Disciplined (cfg : Config) (trace : List Event) : Prop := (flashAfter cfg trace).clean = true

instance (cfg : Config) (trace : List Event) : Decidable (Disciplined cfg trace) := by
  unfold Disciplined
  infer_instance

section Flash

variable {cfg : Config}

theorem flashAfter_append (trace events : List Event) :
    flashAfter cfg (trace ++ events) = events.foldl (Flash.step cfg) (flashAfter cfg trace) := by
  rw [flashAfter, List.foldl_append, flashAfter]

theorem foldl_step_passive {events : List Event} (passive : Passive events) (flash : Flash) :
    events.foldl (Flash.step cfg) flash = flash := by
  induction events with
  | nil => rfl
  | cons event events ih =>
    have neither := passive event (by simp)
    have unchanged : flash.step cfg event = flash := by
      obtain ⟨operation, ok⟩ := event
      cases operation <;> first | rfl | exact absurd rfl neither.1 | exact absurd rfl neither.2
    rw [List.foldl_cons, unchanged]
    exact ih fun other member => passive other (by simp [member])

theorem passive_lockEvents {operation : Operation} (write : operation.kind ≠ .write)
    (erase : operation.kind ≠ .erase) (unlocked : Bool) : Passive (lockEvents operation unlocked) := by
  cases unlocked <;> simp [Passive, lockEvents, write, erase]

/-- A trace stays bad once it is bad. -/
theorem foldl_step_clean {events : List Event} {flash : Flash}
    (clean : (events.foldl (Flash.step cfg) flash).clean = true) : flash.clean = true := by
  induction events generalizing flash with
  | nil => exact clean
  | cons event events ih =>
    have after : (flash.step cfg event).clean = true := ih clean
    obtain ⟨operation, ok⟩ := event
    cases operation with
    | erase => cases ok <;> exact after
    | write address value => exact (Bool.and_eq_true_iff.mp after).1
    | init | unlock | lock | read => exact after

/-- Every write of a disciplined trace lies inside the store. -/
theorem Disciplined.inside {before events : List Event} {address : Nat} {value : List UInt8} {ok : Bool}
    (disciplined : Disciplined cfg (before ++ ⟨.write address value, ok⟩ :: events)) :
    address + cfg.writeSize.bytes ≤ cfg.backingSize := by
  rw [Disciplined, flashAfter_append, List.foldl_cons] at disciplined
  have allowed := (Bool.and_eq_true_iff.mp (foldl_step_clean disciplined)).2
  exact (of_decide_eq_true allowed).2.2.1

/-- Only words below `limit` are written, and every write was allowed. -/
def Flash.CleanBelow (flash : Flash) (limit : Nat) : Prop :=
  flash.clean = true ∧ ∀ address ∈ flash.written, address < limit

theorem Flash.CleanBelow.writes {flash : Flash} {address : Nat} (below : flash.CleanBelow address)
    (words : List (List UInt8)) (sizes : ∀ word ∈ words, word.length = cfg.writeSize.bytes)
    (aligned : address % cfg.writeSize.bytes = 0)
    (room : address + words.length * cfg.writeSize.bytes ≤ cfg.backingSize) :
    ((writeEvents cfg.writeSize.bytes address words).foldl (Flash.step cfg) flash).CleanBelow
      (address + words.length * cfg.writeSize.bytes) := by
  induction words generalizing flash address with
  | nil => simpa [writeEvents] using below
  | cons word words ih =>
    have wordPos := writeSize_bytes_pos cfg.writeSize
    rw [List.length_cons, Nat.succ_mul] at room ⊢
    have fresh : address ∉ flash.written := fun member => Nat.lt_irrefl _ (below.2 address member)
    have allowed : flash.Allows cfg address word := ⟨sizes word (by simp), aligned, by omega, fresh⟩
    have next : (flash.step cfg ⟨.write address word, true⟩).CleanBelow (address + cfg.writeSize.bytes) := by
      refine ⟨by simp [Flash.step, below.1, allowed], ?_⟩
      intro other member
      rcases List.mem_cons.mp member with rfl | member
      · omega
      · have := below.2 other member
        omega
    have rest := ih next (fun w h => sizes w (by simp [h]))
      (by rw [Nat.add_mod, aligned, Nat.mod_self, Nat.add_zero, Nat.zero_mod]) (by omega)
    rw [writeEvents, List.foldl_cons]
    rwa [Nat.add_assoc, Nat.add_comm cfg.writeSize.bytes] at rest

/-- Consolidation starts over with an erased store and fills its front. -/
theorem Flash.CleanBelow.consolidation {flash : Flash} (clean : flash.clean = true)
    (roomy : cfg.logStart ≤ cfg.backingSize) (s : State) :
    ((consolidationEvents cfg s).foldl (Flash.step cfg) flash).CleanBelow cfg.logStart := by
  obtain ⟨_, dataSizes⟩ := dataWords_spec cfg s.cache
  obtain ⟨_, hashSizes⟩ := hashWords_spec cfg s.cache
  have dataCount : (dataWords cfg s.cache).length * cfg.writeSize.bytes = cfg.logicalSize := by
    rw [dataWords, length_chunk, cfg.words_mul]
  have hashCount : (hashWords cfg s.cache).length * cfg.writeSize.bytes = 8 := by
    rw [hashWords, length_chunk, cfg.writeSize.eight_div_mul]
  rw [Config.logStart] at roomy ⊢
  have erased : (flash.step cfg ⟨.erase, true⟩).CleanBelow 0 :=
    ⟨clean, fun address member => by simp [Flash.step] at member⟩
  have data := erased.writes (dataWords cfg s.cache) dataSizes (Nat.zero_mod _) (by omega)
  rw [dataCount, Nat.zero_add] at data
  have hash := data.writes (hashWords cfg s.cache) hashSizes cfg.aligned (by omega)
  rw [hashCount] at hash
  simp only [consolidationEvents, List.foldl_append, List.foldl_cons, List.foldl_nil,
    foldl_step_passive (passive_lockEvents (by decide : Operation.unlock.kind ≠ .write) (by decide) _),
    foldl_step_passive (passive_lockEvents (by decide : Operation.lock.kind ≠ .write) (by decide) _)]
  exact hash

end Flash

/-! ## Runs keep the rule -/

section Runs

variable {cfg : Config} (roomy : cfg.logStart < cfg.backingSize)

/-- Every written word lies below the write address. -/
def Tidy (cfg : Config) (s : State) : Prop := (flashAfter cfg s.trace).CleanBelow s.writeAddress

theorem Tidy.extend {s next : State} {events : List Event} (trace : next.trace = s.trace ++ events)
    (after : (events.foldl (Flash.step cfg) (flashAfter cfg s.trace)).CleanBelow next.writeAddress) :
    Tidy cfg next := by
  rwa [Tidy, trace, flashAfter_append]

/-- Passive operations do not matter, as long as the write address stays. -/
theorem Tidy.passive {s next : State} (tidy : Tidy cfg s) {events : List Event}
    (trace : next.trace = s.trace ++ events) (passive : Passive events)
    (address : next.writeAddress = s.writeAddress) : Tidy cfg next := by
  refine Tidy.extend trace ?_
  rw [foldl_step_passive passive, address]
  exact tidy

theorem Tidy.opened {s : State} (tidy : Tidy cfg s) (address : Nat) (value : List UInt8) :
    Tidy cfg (s.opened address value) :=
  tidy.passive rfl (passive_lockEvents (by decide) (by decide) _) rfl

theorem Tidy.relocked {s : State} (tidy : Tidy cfg s) (unlocked : Bool) : Tidy cfg (s.relocked unlocked) :=
  tidy.passive rfl (passive_lockEvents (by decide) (by decide) _) rfl

theorem Tidy.appended {s : State} (tidy : Tidy cfg s) {words : List (List UInt8)}
    (sizes : ∀ word ∈ words, word.length = cfg.writeSize.bytes)
    (aligned : s.writeAddress % cfg.writeSize.bytes = 0)
    (room : s.writeAddress + words.length * cfg.writeSize.bytes ≤ cfg.backingSize) :
    Tidy cfg (s.appended cfg words) :=
  Tidy.extend rfl (Flash.CleanBelow.writes tidy words sizes aligned room)

include roomy

theorem Tidy.consolidated {s : State} (clean : (flashAfter cfg s.trace).clean = true) :
    Tidy cfg (consolidateState cfg s) :=
  Tidy.extend rfl (Flash.CleanBelow.consolidation clean (Nat.le_of_lt roomy) s)

omit roomy in
/-- The words that fill the log up end at its end: both are multiples of the word size. -/
theorem wordsToFill_inside {address : Nat} (aligned : address % cfg.writeSize.bytes = 0)
    (inside : address < cfg.backingSize) :
    address + wordsToFill cfg address * cfg.writeSize.bytes ≤ cfg.backingSize := by
  have wordPos := writeSize_bytes_pos cfg.writeSize
  obtain ⟨a, rfl⟩ := Nat.dvd_of_mod_eq_zero aligned
  obtain ⟨b, size⟩ := Nat.dvd_of_mod_eq_zero cfg.backing_aligned
  rw [size] at inside
  have count : a < b := Nat.lt_of_mul_lt_mul_left inside
  have fill : wordsToFill cfg (cfg.writeSize.bytes * a) = b - a := by
    rw [wordsToFill, size, ← Nat.mul_sub, Nat.mul_comm, Nat.add_comm,
      Nat.add_mul_div_right _ _ wordPos, Nat.div_eq_of_lt (by omega)]
    omega
  rw [fill, size, Nat.mul_comm (b - a), ← Nat.mul_add, Nat.add_sub_cancel' (Nat.le_of_lt count)]

theorem Tidy.write {s : State} (tidy : Tidy cfg s) (chained : Chained cfg s)
    (call : WriteCall) : Tidy cfg (wearLevelingWrite cfg noFaults call.address call.value s).2 := by
  obtain ⟨_, logged⟩ := chained.logged
  have inside : s.writeAddress < cfg.backingSize := by
    rcases chained.room with room | room <;> omega
  have step := wearLevelingWrite_step cfg s call.sizes
  generalize wearLevelingWrite cfg noFaults call.address call.value s = result at step ⊢
  cases step with
  | rejected => exact tidy
  | unchanged => exact tidy
  | logged within _ room =>
    exact ((tidy.opened _ _).appended (writeWords_sizes call.sizes within) logged.aligned (Nat.le_of_lt room)).relocked _
  | consolidated within _ bound =>
    have filled := wordsToFill_inside logged.aligned inside
    have count : ((writeWords cfg call.address call.value).take (wordsToFill cfg s.writeAddress)).length =
        wordsToFill cfg s.writeAddress := by
      rw [List.length_take, Nat.min_eq_left bound]
    have sizes : ∀ word ∈ (writeWords cfg call.address call.value).take (wordsToFill cfg s.writeAddress),
        word.length = cfg.writeSize.bytes :=
      fun word member => writeWords_sizes call.sizes within word (List.mem_of_mem_take member)
    have appended := (tidy.opened call.address call.value).appended sizes logged.aligned
      (by rw [count]; exact filled)
    exact (Tidy.consolidated roomy appended.1).relocked _

omit roomy in
theorem Tidy.erase {s : State} (tidy : Tidy cfg s) : Tidy cfg (wearLevelingErase cfg noFaults s).2 := by
  rw [wearLevelingErase_ok cfg onlyWritesFail_noFaults]
  refine Tidy.extend (by simp only [List.append_assoc]; rfl) ?_
  simp only [List.foldl_append, List.foldl_cons, List.foldl_nil,
    foldl_step_passive (passive_lockEvents (by decide : Operation.unlock.kind ≠ .write) (by decide) _),
    foldl_step_passive (passive_lockEvents (by decide : Operation.lock.kind ≠ .write) (by decide) _)]
  exact ⟨tidy.1, fun address member => by simp [Flash.step] at member⟩

theorem Tidy.restart {s restart : State} (tidy : Tidy cfg s) (store : restart.store = s.store)
    (issued : restart.trace = s.trace) (chained : Chained cfg s) :
    Tidy cfg (wearLevelingInit cfg noFaults restart).2 := by
  obtain ⟨outcome, logged⟩ := chained.logged
  have flash : ∀ {mid : State}, Booted restart mid → flashAfter cfg mid.trace = flashAfter cfg s.trace := by
    intro mid booted
    obtain ⟨events, trace, passive⟩ := booted.trace
    rw [trace, issued, flashAfter_append, foldl_step_passive passive]
  have step := wearLevelingInit_of_logged cfg logged chained.bounded restart store
  generalize wearLevelingInit cfg noFaults restart = result at step ⊢
  cases step with
  | resumed mid booted room address =>
    show (flashAfter cfg mid.trace).CleanBelow mid.writeAddress
    rw [flash booted, address]
    exact tidy
  | full mid booted => exact Tidy.consolidated roomy (flash booted ▸ tidy.1)
  | unreadable mid booted => exact Tidy.consolidated roomy (flash booted ▸ tidy.1)

/-- The invariant of all runs of a configuration with room for the log. -/
theorem runRequests_tidy (requests : List Request) :
    Tidy cfg (runRequests cfg requests) := by
  have both : Chained cfg (runRequests cfg requests) ∧ Tidy cfg (runRequests cfg requests) := by
    refine @foldl_invariant State Request _ (fun s => Chained cfg s ∧ Tidy cfg s)
      (fun s request both => ?_) _ ⟨(startState_consistent cfg).chained, ?_⟩ requests
    · refine ⟨both.1.request request, ?_⟩
      cases request with
      | write call => exact both.2.write roomy both.1 call
      | erase => exact both.2.erase
      | init => exact both.2.restart roomy rfl rfl both.1
    · have fresh : Tidy cfg { erasedState with writeAddress := cfg.logStart } :=
        ⟨rfl, fun address member => by cases member⟩
      exact fresh.restart roomy rfl rfl (consistent_erased rfl rfl).chained
  exact both.2

omit roomy in
/-- Without room for the log, the very first word that a write logs leaves the store. -/
theorem not_disciplined_of_no_room (full : cfg.backingSize ≤ cfg.logStart) :
    ¬ Disciplined cfg (runRequests cfg [.write ⟨0, [1], by decide⟩]).trace := by
  have logged : Logged cfg (fun _ => 0) cfg.logStart (some (consolidatedCache cfg fun _ => 0)) :=
    logged_blank fun _ _ _ => rfl
  rw [consolidatedCache_erased] at logged
  obtain ⟨mid, zeros, start⟩ : ∃ mid : State, mid.cache = (fun _ => 0) ∧
      startState cfg = consolidateState cfg mid := by
    have step := wearLevelingInit_of_logged cfg logged cfg.logStart_bounded erasedState rfl
    rw [startState]
    generalize wearLevelingInit cfg noFaults erasedState = result at step ⊢
    generalize (fun _ => 0 : Nat → UInt8) = zeros at step ⊢
    cases step with
    | resumed mid _ room => omega
    | full mid => exact ⟨mid, rfl, rfl⟩
  intro disciplined
  have run : (runRequests cfg [.write ⟨0, [1], by decide⟩]) =
      (wearLevelingWrite cfg noFaults 0 [1] (consolidateState cfg mid)).2 := by
    simp only [runRequests, List.foldl_cons, List.foldl_nil, start, Request.run]
  rw [run] at disciplined
  have positive := cfg.positive
  have sizes : CallSizes 0 [1] := by decide
  have step := wearLevelingWrite_step cfg (consolidateState cfg mid) sizes
  generalize wearLevelingWrite cfg noFaults 0 [1] (consolidateState cfg mid) = result at step disciplined
  cases step with
  | rejected outside =>
    simp at outside
    omega
  | unchanged _ same => simp [consolidateState, zeros, slice] at same
  | logged _ _ room =>
    simp only [consolidateState] at room
    omega
  | consolidated _ _ bound =>
    have address : (consolidateState cfg mid).writeAddress = cfg.logStart := rfl
    rw [address, wordsToFill_last (by omega)] at bound disciplined
    obtain ⟨word, words, cons⟩ := List.exists_cons_of_ne_nil (List.ne_nil_of_length_pos bound)
    rw [cons, List.take_succ_cons] at disciplined
    -- the log starts at or behind the end of the store, and so does its first word
    have inside : cfg.logStart + cfg.writeSize.bytes ≤ cfg.backingSize := by
      apply Disciplined.inside
      simp only [State.relocked, consolidateState, State.appended, State.opened, writeEvents,
        List.append_assoc, List.cons_append] at disciplined
      simpa only [← List.append_assoc] using disciplined
    have := writeSize_bytes_pos cfg.writeSize
    omega

omit roomy in
/-- Every write of every run is allowed exactly when there is room for the log
    behind the consolidated data and its checksum. -/
theorem disciplined_iff_room_for_log (cfg : Config) :
    (∀ requests, Disciplined cfg (runRequests cfg requests).trace) ↔
      cfg.logicalSize + 8 < cfg.backingSize := by
  constructor
  · intro disciplined
    by_contra full
    exact not_disciplined_of_no_room (Nat.not_lt.mp full) (disciplined _)
  · intro roomy requests
    exact (runRequests_tidy roomy requests).1

end Runs

/-- The smallest store the static assertions accept for 8 logical bytes. -/
def fullConfig : Config where
  writeSize := .two
  logicalSize := 8
  backingSize := 16
  positive := by decide
  twice := by decide
  aligned := by decide
  multiple := by decide
  addressable := by decide

theorem fullConfig_not_disciplined :
    ¬ Disciplined fullConfig (runRequests fullConfig [.write ⟨0, [1], by decide⟩]).trace :=
  not_disciplined_of_no_room (by decide)

end QmkFirmware.WearLeveling
