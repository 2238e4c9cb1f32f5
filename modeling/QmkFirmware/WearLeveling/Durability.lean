import QmkFirmware.WearLeveling.Refinement

/-! # Reported success and durability

Runs of writes against a store whose individual word writes may fail.  A write
updates the cache first, so after a failure the cache is ahead of the store;
`Session.unsaved` is the ghost record of the bytes for which that may be so.
`success_is_durable`: as long as no entry is torn, no consolidation breaks off
and no unsaved byte is answered from the cache, what a call reported as written
is there after a restart.
-/

namespace QmkFirmware.WearLeveling

open QmkFirmware.Memory QmkFirmware.Runs

/-- The faults of a store in which only word writes fail: `fails n` says whether
    the `n`-th one does. -/
def writeFaults (fails : Nat → Bool) : Faults := fun kind n => decide (kind = .write) && fails n

theorem writeFaults_quiet (fails : Nat → Bool) : OnlyWritesFail (writeFaults fails) := by
  intro kind n other
  simp [writeFaults, other]

@[simp] theorem writeFaults_write (fails : Nat → Bool) (n : Nat) :
    writeFaults fails .write n = fails n := by
  simp [writeFaults]

/-! ## Sessions -/

/-- The program state with the ghost set of bytes whose last write was not logged. -/
structure Session where
  state : State
  unsaved : Nat → Bool

section Definitions

variable (cfg : Config) (fails : Nat → Bool)

/-- The payload bytes logged before the first failing write, when the next write is number `index`. -/
def loggedBytes : Nat → List LoggedEntry → Nat
  | _, [] => 0
  | index, entry :: entries =>
    if fails index then 0 else entry.payload.length + loggedBytes (index + entry.count) entries

/-- A failing write hits the first word of an entry, if any: no entry is left
    half written, and no consolidation is left unfinished. -/
def Untorn : Nat → Nat → List LoggedEntry → Prop
  | _, _, [] => True
  | address, index, entry :: entries =>
    fails index = true ∨
      if address + entry.count * cfg.writeSize.bytes < cfg.backingSize then
        (∀ k < entry.count, fails (index + k) = false) ∧
          Untorn (address + entry.count * cfg.writeSize.bytes) (index + entry.count) entries
      else ∀ k < wordsToFill cfg address + consolidationWrites cfg, fails (index + k) = false

/-- The entries a call would append. -/
def WriteCall.entries (call : WriteCall) : List LoggedEntry :=
  logEntries cfg.writeSize call.value.length call.address call.value

/-- The byte `i` is in the range of the call. -/
def WriteCall.Covers (call : WriteCall) (i : Nat) : Prop :=
  call.address ≤ i ∧ i < call.address + call.value.length

instance (call : WriteCall) (i : Nat) : Decidable (call.Covers i) :=
  inferInstanceAs (Decidable (_ ∧ _))

/-- The call gets as far as the log: its range is valid and its data is not in the cache. -/
def WriteCall.Logs (s : State) (call : WriteCall) : Prop :=
  (call.address + call.value.length) % 2 ^ 32 ≤ cfg.logicalSize ∧
    slice s.cache call.address call.value.length ≠ call.value

instance (s : State) (call : WriteCall) : Decidable (call.Logs cfg s) :=
  inferInstanceAs (Decidable (_ ∧ _))

def Session.write (session : Session) (call : WriteCall) : Status × Session :=
  let result := wearLevelingWrite cfg (writeFaults fails) call.address call.value session.state
  let logged := loggedBytes fails (invokeCount .write session.state.trace) (call.entries cfg)
  (result.1,
    { state := result.2
      unsaved := fun i =>
        if result.1 = .consolidated then false
        else if call.Logs cfg session.state ∧ call.Covers i then decide (call.address + logged ≤ i)
        else session.unsaved i })

def Session.run (session : Session) (calls : List WriteCall) : Session :=
  calls.foldl (fun session call => (session.write cfg fails call).2) session

def runSession (calls : List WriteCall) : Session :=
  Session.run cfg fails ⟨startState cfg, fun _ => false⟩ calls

/-- What must be true of a call for the store to keep up with what is reported:
    a call that is logged meets no fault but on first words of entries, and a
    call that is answered from the cache has no unsaved byte. -/
def Safe (session : Session) (call : WriteCall) : Prop :=
  call.address + call.value.length ≤ cfg.logicalSize →
    if slice session.state.cache call.address call.value.length = call.value then
      ∀ k < call.value.length, session.unsaved (call.address + k) = false
    else
      Untorn cfg fails session.state.writeAddress (invokeCount .write session.state.trace)
        (call.entries cfg)

/-- Every call of the run is safe in the state it is made in. -/
def Session.SafeRun (session : Session) : List WriteCall → Prop
  | [] => True
  | call :: calls => Safe cfg fails session call ∧ ((session.write cfg fails call).2).SafeRun calls

def SafeRun (calls : List WriteCall) : Prop :=
  Session.SafeRun cfg fails ⟨startState cfg, fun _ => false⟩ calls

instance decidableUntorn :
    ∀ address index entries, Decidable (Untorn cfg fails address index entries)
  | _, _, [] => .isTrue trivial
  | address, index, entry :: entries =>
    have := decidableUntorn (address + entry.count * cfg.writeSize.bytes) (index + entry.count) entries
    inferInstanceAs (Decidable (_ ∨ ite _ _ _))

instance (session : Session) (call : WriteCall) : Decidable (Safe cfg fails session call) :=
  inferInstanceAs (Decidable (_ → ite _ _ _))

instance decidableSafeRun :
    ∀ session calls, Decidable (Session.SafeRun cfg fails session calls)
  | _, [] => .isTrue trivial
  | session, call :: calls =>
    have := decidableSafeRun (session.write cfg fails call).2 calls
    inferInstanceAs (Decidable (_ ∧ _))

instance (calls : List WriteCall) : Decidable (SafeRun cfg fails calls) :=
  decidableSafeRun cfg fails _ calls

end Definitions

/-! ## One call -/

section Call

variable {cfg : Config} {fails : Nat → Bool}

/-- Outside the ghost set, store and cache agree. -/
def Saved (cfg : Config) (session : Session) : Prop :=
  ∃ durable, Consistent cfg durable session.state ∧
    ∀ i, session.unsaved i = false → durable i = session.state.cache i

/-- The outcome of appending entries without tearing one. -/
structure Appended (cfg : Config) (durable : Nat → UInt8) (address : Nat) (p : List UInt8)
    (logged : Nat) (entries : List LoggedEntry) (s : State) (status : Status) (next : State)
    (durable' : Nat → UInt8) : Prop where
  cache : next.cache = s.cache
  unlocked : next.unlocked = s.unlocked
  consistent : Consistent cfg durable' next
  room : status = .success → entries = [] ∨ next.writeAddress < cfg.backingSize
  consolidated : status = .consolidated → durable' = s.cache
  patched : status ≠ .consolidated → durable' = blit durable address (p.take logged)
  complete : status = .success → logged = p.length

section Entry

variable {address : Nat} {rest : List UInt8} {entry : LoggedEntry} {entries : List LoggedEntry} {s : State}
  {durable : Nat → UInt8}

/-- The first word fails: nothing of the entry reaches the store. -/
theorem append_broken (whole : Splits cfg address (entry.payload ++ rest) (entry :: entries))
    (consistent : Consistent cfg durable s)
    (broken : fails (invokeCount .write s.trace) = true) :
    ∃ status next durable', wearLevelingAppendAll cfg (writeFaults fails)
        (logWords cfg.writeSize (entry :: entries)) s = (status, next) ∧
      Appended cfg durable address (entry.payload ++ rest)
        (loggedBytes fails (invokeCount .write s.trace) (entry :: entries)) (entry :: entries) s status next durable' := by
  obtain ⟨word, others, cons⟩ := List.exists_cons_of_ne_nil (words_ne_nil whole.recognised (List.cons_ne_nil entry entries))
  refine ⟨.failed, { s with trace := s.trace ++ [⟨.write s.writeAddress word, false⟩] }, durable, ?_,
    rfl, rfl, consistent.congr rfl rfl, ?_, ?_, ?_, ?_⟩
  · rw [cons, wearLevelingAppendAll, wearLevelingAppendRaw_failed cfg word s (by simpa using broken)]
    rfl
  · intro impossible
    cases impossible
  · intro impossible
    cases impossible
  · intro _
    simp [loggedBytes, broken]
  · intro impossible
    cases impossible

/-- The words of an entry that fits are logged, and the store stays in step. -/
theorem append_entry (valid : entry.Valid cfg address) (consistent : Consistent cfg durable s)
    (fits : s.writeAddress + entry.count * cfg.writeSize.bytes < cfg.backingSize)
    (ok : ∀ k < entry.count, fails (invokeCount .write s.trace + k) = false) :
    wearLevelingAppendAll cfg (writeFaults fails) (entry.words cfg.writeSize) s =
        (.success, s.appended cfg (entry.words cfg.writeSize)) ∧
      Consistent cfg (blit durable address entry.payload) (s.appended cfg (entry.words cfg.writeSize)) := by
  have sizes : ∀ word ∈ entry.words cfg.writeSize, word.length = cfg.writeSize.bytes :=
    fun word member => length_of_mem_words (by rw [valid.logLength]; exact valid.size) member
  have written : ∀ k < (entry.words cfg.writeSize).length,
      writeFaults fails .write (invokeCount .write s.trace + k) = false := by
    intro k h
    simpa using ok k (by rwa [length_words] at h)
  refine ⟨wearLevelingAppendAll_fits cfg (entry.words cfg.writeSize) sizes s (by rwa [length_words]) written, ?_⟩
  obtain ⟨outcome, logged, restores⟩ := consistent.logged
  obtain ⟨outcome', logged, restores⟩ := logged.append_entry restores (by omega) valid
  have address' : (s.appended cfg (entry.words cfg.writeSize)).writeAddress =
      s.writeAddress + entry.count * cfg.writeSize.bytes := by
    simp [State.appended]
  refine ⟨⟨outcome', ?_, restores⟩, .inl (by rwa [address'])⟩
  rw [address']
  exact logged

/-- The log fills up within the entry and is consolidated. -/
theorem append_full (whole : Splits cfg address (entry.payload ++ rest) (entry :: entries))
    (full : ¬s.writeAddress + entry.count * cfg.writeSize.bytes < cfg.backingSize)
    (ok : ∀ k < wordsToFill cfg s.writeAddress + consolidationWrites cfg,
      fails (invokeCount .write s.trace + k) = false) :
    ∃ status next durable', wearLevelingAppendAll cfg (writeFaults fails)
        (logWords cfg.writeSize (entry :: entries)) s = (status, next) ∧
      Appended cfg durable address (entry.payload ++ rest)
        (loggedBytes fails (invokeCount .write s.trace) (entry :: entries)) (entry :: entries) s status next durable' := by
  have words : logWords cfg.writeSize (entry :: entries) =
      entry.words cfg.writeSize ++ logWords cfg.writeSize entries := rfl
  have total : s.writeAddress + entry.count * cfg.writeSize.bytes ≤
      s.writeAddress + (logWords cfg.writeSize (entry :: entries)).length * cfg.writeSize.bytes := by
    rw [words, List.length_append, length_words, Nat.add_mul]
    omega
  obtain ⟨_, result⟩ := wearLevelingAppendAll_full cfg (writeFaults_quiet fails)
    (logWords cfg.writeSize (entry :: entries))
    (words_ne_nil whole.recognised (List.cons_ne_nil entry entries)) (words_sizes whole.recognised) s (by omega) (fun k h => by simpa using ok k h)
  refine ⟨_, _, s.cache, result, rfl, rfl, consistent_consolidated _ rfl rfl, ?_, fun _ => rfl, ?_, ?_⟩
  · intro impossible
    cases impossible
  · intro other
    exact absurd rfl other
  · intro impossible
    cases impossible

end Entry

theorem wearLevelingAppendAll_untorn {address : Nat} {p : List UInt8} {entries : List LoggedEntry}
    (splits : Splits cfg address p entries) {s : State} {durable : Nat → UInt8}
    (consistent : Consistent cfg durable s)
    (untorn : Untorn cfg fails s.writeAddress (invokeCount .write s.trace) entries) :
    ∃ status next durable', wearLevelingAppendAll cfg (writeFaults fails)
        (logWords cfg.writeSize entries) s = (status, next) ∧
      Appended cfg durable address p (loggedBytes fails (invokeCount .write s.trace) entries) entries s
        status next durable' := by
  induction splits generalizing s durable with
  | nil address =>
    refine ⟨.success, s, durable, rfl, rfl, rfl, consistent, fun _ => .inl rfl, ?_, ?_, fun _ => rfl⟩
    · intro impossible
      cases impossible
    · intro _
      simp
  | @cons address rest entry entries valid tail ih =>
    have whole := Splits.cons valid tail
    rw [Untorn] at untorn
    cases untorn with
    | inl broken => exact append_broken whole consistent broken
    | inr untorn =>
      split at untorn
      next fits =>
        -- The whole entry is logged, and the rest follows by induction.
        obtain ⟨ok, untorn⟩ := untorn
        have first : fails (invokeCount .write s.trace) = false := ok 0 valid.countPos
        obtain ⟨appended, consistent'⟩ := append_entry valid consistent fits ok
        have words : logWords cfg.writeSize (entry :: entries) =
            entry.words cfg.writeSize ++ logWords cfg.writeSize entries := rfl
        have address' : (s.appended cfg (entry.words cfg.writeSize)).writeAddress =
            s.writeAddress + entry.count * cfg.writeSize.bytes := by
          simp [State.appended]
        have count : invokeCount .write (s.appended cfg (entry.words cfg.writeSize)).trace =
            invokeCount .write s.trace + entry.count := by
          rw [invokeCount_appended, length_words]
        rw [← address', ← count] at untorn
        obtain ⟨status, next, durable', result, spec⟩ := ih consistent' untorn
        rw [count] at spec
        refine ⟨status, next, durable', ?_, spec.cache, spec.unlocked, spec.consistent, ?_,
          spec.consolidated, ?_, ?_⟩
        · rw [words, wearLevelingAppendAll_append, appended, onSuccess, result]
        · intro success
          refine .inr ?_
          rcases spec.room success with rfl | room
          · cases result
            rwa [address']
          · exact room
        · intro other
          rw [spec.patched other, loggedBytes, first, if_neg (by decide), List.take_length_add_append,
            blit_append]
        · intro success
          rw [loggedBytes, first, if_neg (by decide), spec.complete success, List.length_append]
      next full => exact append_full whole full untorn

/-- What a safe call does to a session whose store is in step with it. -/
structure Kept (cfg : Config) (session : Session) (call : WriteCall) (status : Status)
    (next : Session) : Prop where
  saved : Saved cfg next
  /-- Other bytes keep their value and stay saved. -/
  frame : ∀ i, ¬ call.Covers i → next.state.cache i = session.state.cache i ∧
    (session.unsaved i = false → next.unsaved i = false)
  /-- When the call reports success, its bytes are in the cache and saved. -/
  reported : status ≠ .failed → ∀ i, call.Covers i → i < cfg.logicalSize ∧
    next.state.cache i = call.value.getD (i - call.address) 0 ∧ next.unsaved i = false

/-- A call that changes nothing: its range is invalid, or its data is already cached. -/
theorem Session.write_unlogged (session : Session) {call : WriteCall} (noWrap : call.NoWrap)
    (unlogged : ¬ call.Logs cfg session.state) :
    session.write cfg fails call =
      (if call.address + call.value.length ≤ cfg.logicalSize then .success else .failed, session) := by
  rw [WriteCall.Logs, noWrap.sum] at unlogged
  have result : wearLevelingWrite cfg (writeFaults fails) call.address call.value session.state =
      (if call.address + call.value.length ≤ cfg.logicalSize then .success else .failed, session.state) := by
    rw [wearLevelingWrite, noWrap.sum]
    by_cases inside : call.address + call.value.length ≤ cfg.logicalSize
    · have same : slice session.state.cache call.address call.value.length = call.value :=
        Classical.not_not.mp fun changed => unlogged ⟨inside, changed⟩
      rw [if_neg (by omega), if_pos same, if_pos inside]
    · rw [if_pos (by omega), if_neg inside]
  rw [Session.write, result]
  simp only [WriteCall.Logs, noWrap.sum, unlogged, false_and, if_false]
  split <;> simp

theorem Session.write_logged (session : Session) {call : WriteCall} (noWrap : call.NoWrap) (saved : Saved cfg session)
    (logs : call.Logs cfg session.state)
    (untorn : Untorn cfg fails session.state.writeAddress (invokeCount .write session.state.trace)
      (call.entries cfg)) :
    Kept cfg session call (session.write cfg fails call).1 (session.write cfg fails call).2 := by
  obtain ⟨passes, changed⟩ := logs
  have inside : call.address + call.value.length ≤ cfg.logicalSize := noWrap.sum ▸ passes
  obtain ⟨durable, consistent, agree⟩ := saved
  have splits : Splits cfg call.address call.value (call.entries cfg) :=
    logEntries_splits cfg call.value.length call.address call.value (Nat.le_refl _) inside
  have nonempty : call.entries cfg ≠ [] := by
    intro empty
    exact logEntries_ne_nil cfg.writeSize call.address (by rintro equal; rw [equal] at changed; exact changed rfl) empty
  have count : invokeCount .write (session.state.opened call.address call.value).trace =
      invokeCount .write session.state.trace := by
    rw [State.opened, invokeCount_append, invokeCount_write_lockEvents _ (by decide), Nat.add_zero]
  have opened : Consistent cfg durable (session.state.opened call.address call.value) :=
    consistent.congr rfl rfl
  obtain ⟨status, next, durable', appended, spec⟩ := wearLevelingAppendAll_untorn splits opened
    (by rw [count]; exact untorn)
  have result := wearLevelingWrite_eq cfg (writeFaults_quiet fails) passes changed appended
    (by rw [spec.unlocked]; rfl) (fun success => (spec.room success).resolve_left nonempty)
  rw [count] at spec
  have cache : (next.relocked session.state.unlocked).cache =
      blit session.state.cache call.address call.value := spec.cache
  have covered : ∀ i, call.Covers i →
      blit session.state.cache call.address call.value i = call.value.getD (i - call.address) 0 :=
    fun i covers => blit_inside 0 covers.1 covers.2
  have outside : ∀ i, ¬ call.Covers i →
      blit session.state.cache call.address call.value i = session.state.cache i :=
    fun i covers => blit_outside covers
  rw [Session.write, result]
  simp only [WriteCall.Logs, passes, changed, not_false_eq_true, true_and, ne_eq]
  refine ⟨⟨durable', spec.consistent.congr rfl rfl, fun i clean => ?_⟩, fun i covers => ⟨?_, ?_⟩,
    fun success i covers => ⟨Nat.lt_of_lt_of_le covers.2 inside, ?_, ?_⟩⟩
  · simp only [cache]
    by_cases consolidated : status = .consolidated
    · rw [spec.consolidated consolidated]
      rfl
    · simp only [consolidated, if_false] at clean
      rw [spec.patched consolidated]
      by_cases covers : call.Covers i
      · simp only [covers, if_true, decide_eq_false_iff_not] at clean
        rw [blit_take (Nat.not_le.mp clean), blit_inside 0 covers.1 covers.2, covered i covers]
      · simp only [covers, if_false] at clean
        rw [outside i covers, ← agree i clean]
        refine blit_outside fun within => covers ⟨within.1, ?_⟩
        exact Nat.lt_of_lt_of_le within.2 (Nat.add_le_add_left (List.length_take_le' _ _) _)
  · rw [cache, outside i covers]
  · intro clean
    simp only [covers, if_false, clean, ite_self]
  · rw [cache, covered i covers]
  · by_cases consolidated : status = .consolidated
    · simp [consolidated]
    · have complete : status = .success := by
        cases status <;> simp_all
      have logged := spec.complete complete
      have bound := covers.2
      simp only [consolidated, covers, if_true, if_false, decide_eq_false_iff_not, logged]
      omega

theorem Session.write_kept (session : Session) {call : WriteCall} (noWrap : call.NoWrap) (saved : Saved cfg session)
    (safe : Safe cfg fails session call) :
    Kept cfg session call (session.write cfg fails call).1 (session.write cfg fails call).2 := by
  by_cases logs : call.Logs cfg session.state
  · have untorn := safe (noWrap.sum ▸ logs.1)
    rw [if_neg logs.2] at untorn
    exact session.write_logged noWrap saved logs untorn
  · rw [session.write_unlogged noWrap logs]
    refine ⟨saved, fun i _ => ⟨rfl, id⟩, fun success i covers => ?_⟩
    have inside : call.address + call.value.length ≤ cfg.logicalSize := by
      by_contra outside
      simp [outside] at success
    have same : slice session.state.cache call.address call.value.length = call.value :=
      Classical.not_not.mp fun changed => logs ⟨noWrap.sum.symm ▸ inside, changed⟩
    have clean := safe inside
    rw [if_pos same] at clean
    obtain ⟨k, rfl⟩ := Nat.exists_eq_add_of_le covers.1
    have bound : k < call.value.length := by
      have := covers.2
      omega
    refine ⟨by omega, ?_, clean k bound⟩
    conv_rhs => rw [← same]
    rw [Nat.add_sub_cancel_left, getD_slice 0 bound]

end Call

/-! ## Whole runs -/

section Run

variable {cfg : Config} {fails : Nat → Bool}

theorem runSession_append (cfg : Config) (fails : Nat → Bool) (before : List WriteCall) (call : WriteCall) :
    runSession cfg fails (before ++ [call]) = ((runSession cfg fails before).write cfg fails call).2 := by
  simp [runSession, Session.run]

theorem Session.safeRun_append (session : Session) (before after : List WriteCall) :
    session.SafeRun cfg fails (before ++ after) ↔
      session.SafeRun cfg fails before ∧ (session.run cfg fails before).SafeRun cfg fails after := by
  induction before generalizing session with
  | nil => simp [Session.SafeRun, Session.run]
  | cons call before ih =>
    simp only [List.cons_append, Session.SafeRun, ih, and_assoc]
    rfl

theorem SafeRun.initial {before after : List WriteCall} (safe : SafeRun cfg fails (before ++ after)) :
    SafeRun cfg fails before :=
  ((Session.safeRun_append _ before after).mp safe).1

theorem SafeRun.call {before after : List WriteCall} {call : WriteCall}
    (safe : SafeRun cfg fails (before ++ call :: after)) :
    Safe cfg fails (runSession cfg fails before) call :=
  ((Session.safeRun_append _ before (call :: after)).mp safe).2.1

/-- The store keeps up with the cache along every safe run. -/
theorem SafeRun.saved {calls : List WriteCall} (noWrap : ∀ call ∈ calls, call.NoWrap) (safe : SafeRun cfg fails calls) :
    Saved cfg (runSession cfg fails calls) := by
  induction calls using List.reverseRecOn with
  | nil => exact ⟨_, startState_consistent cfg, fun _ _ => rfl⟩
  | append_singleton before call ih =>
    rw [runSession_append]
    exact (Session.write_kept _ (noWrap call (by simp))
      (ih (fun earlier member => noWrap earlier (List.mem_append_left _ member)) safe.initial) safe.call).saved

/-- A byte that is saved stays so, with its value, until a call covers it. -/
theorem SafeRun.stays {before after : List WriteCall} (noWrap : ∀ call ∈ before ++ after, call.NoWrap)
    (safe : SafeRun cfg fails (before ++ after)) {i : Nat} (untouched : ∀ later ∈ after, ¬ later.Covers i)
    (clean : (runSession cfg fails before).unsaved i = false) :
    (runSession cfg fails (before ++ after)).unsaved i = false ∧
      (runSession cfg fails (before ++ after)).state.cache i =
        (runSession cfg fails before).state.cache i := by
  induction after using List.reverseRecOn with
  | nil => simpa using clean
  | append_singleton after call ih =>
    rw [← List.append_assoc] at safe noWrap ⊢
    have earlier : ∀ call ∈ before ++ after, call.NoWrap := fun call member => noWrap call (List.mem_append_left _ member)
    obtain ⟨unsaved, cache⟩ := ih earlier safe.initial fun later member => untouched later (by simp [member])
    have kept := Session.write_kept _ (noWrap call (by simp)) (safe.initial.saved earlier) safe.call
    obtain ⟨same, stillClean⟩ := kept.frame i (untouched call (by simp))
    rw [runSession_append]
    exact ⟨stillClean unsaved, same.trans cache⟩

/-- What a call of the run reported as written and no later call covers is
    restored by a restart on the store the run left behind. -/
def Durable (cfg : Config) (fails : Nat → Bool) (calls : List WriteCall) : Prop :=
  ∀ before call after, calls = before ++ call :: after →
    ((runSession cfg fails before).write cfg fails call).1 ≠ .failed →
    (∀ later ∈ after, ∀ i, call.Covers i → ¬ later.Covers i) →
    ∀ restart : State, restart.store = (runSession cfg fails calls).state.store →
    ∀ i, call.Covers i →
      (wearLevelingInit cfg noFaults restart).2.cache i = call.value.getD (i - call.address) 0

/-- Reported success is durable in every safe run in which no range wraps. -/
theorem success_is_durable (fits : cfg.logicalSize ≤ 2 ^ 19) {calls : List WriteCall}
    (noWrap : ∀ call ∈ calls, call.NoWrap) (safe : SafeRun cfg fails calls) : Durable cfg fails calls := by
  rintro before call after rfl reported apart restart store i covers
  have kept := Session.write_kept _ (noWrap call (by simp))
    (safe.initial.saved fun earlier member => noWrap earlier (List.mem_append_left _ member)) safe.call
  have split : before ++ call :: after = (before ++ [call]) ++ after := by simp
  rw [split] at safe store noWrap
  obtain ⟨inside, written, clean⟩ := kept.reported reported i covers
  rw [← runSession_append] at written clean
  obtain ⟨clean, cache⟩ := safe.stays noWrap (fun later member => apart later member i covers) clean
  obtain ⟨durable, consistent, agree⟩ := safe.saved noWrap
  rw [(((consistent.restart store).2.2 fits).1 i inside), agree i clean, cache, written]

end Run

/-- Two-byte words with the sizes of the repository's own test build. -/
def smallConfig : Config where
  writeSize := .two
  logicalSize := 16
  backingSize := 48
  positive := by decide
  twice := by decide
  aligned := by decide
  multiple := by decide
  addressable := by decide

/-- The second of three calls fails before its only word is logged. -/
theorem success_is_durable_despite_failure :
    SafeRun smallConfig (fun n => n = 1)
        [⟨0, [5], by decide⟩, ⟨4, [6], by decide⟩, ⟨7, [1, 2], by decide⟩] ∧
      Durable smallConfig (fun n => n = 1)
        [⟨0, [5], by decide⟩, ⟨4, [6], by decide⟩, ⟨7, [1, 2], by decide⟩] := by
  have safe : SafeRun smallConfig (fun n => n = 1)
      [⟨0, [5], by decide⟩, ⟨4, [6], by decide⟩, ⟨7, [1, 2], by decide⟩] := by
    decide +kernel
  exact ⟨safe, success_is_durable (by decide) (by decide) safe⟩

/-- A call whose only word fails, made twice: the second call is answered from
    the cache and reports success, and a restart finds the byte zero. -/
theorem retry_not_durable :
    ¬ Durable smallConfig (fun n => n = 0) [⟨0, [5], by decide⟩, ⟨0, [5], by decide⟩] := by
  intro durable
  have restored := durable [⟨0, [5], by decide⟩] ⟨0, [5], by decide⟩ [] rfl (by decide +kernel) (by simp)
    _ rfl 0 (by decide)
  revert restored
  decide +kernel

end QmkFirmware.WearLeveling
