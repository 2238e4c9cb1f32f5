import QmkFirmware.WearLeveling.Durability
import QmkFirmware.WearLeveling.FlashDiscipline

/-! # Power loss in the middle of a write

A write is cut off after some of its words.  When the cut falls inside an entry
of several words, playback takes the missing words for zeros: it clears the
payload bytes that were not written, and in a two-byte store that only received
the first word it also loses the low address byte.  `power_loss_contained_iff`
says exactly which cuts stay within the range of the write, as long as no range
wraps in 32 bits.
-/

namespace QmkFirmware.WearLeveling

open QmkFirmware.Memory

/-! ## Torn entries -/

/-- Where playback puts a multi-byte entry of which only `written` bytes reached the store. -/
def tornTarget (target written : Nat) : Nat := if written < 3 then target - target % 256 else target

/-- What playback puts there: the bytes that were not written read as zero. -/
def tornPayload (payload : List UInt8) (written : Nat) : List UInt8 :=
  (List.range payload.length).map fun k => if 3 + k < written then payload.getD k 0 else 0

/-- The entry that `k` words of a write break into: its target, itself, and how many of its words
    were written. -/
def tornEntry (target : Nat) : List LoggedEntry → Nat → Option (Nat × LoggedEntry × Nat)
  | [], _ => none
  | entry :: entries, k =>
    if k = 0 then none
    else if k < entry.count then some (target, entry, k)
    else tornEntry (target + entry.payload.length) entries (k - entry.count)

/-- The payload bytes of the entries that `k` words of a write complete. -/
def completeBytes : List LoggedEntry → Nat → Nat
  | [], _ => 0
  | entry :: entries, k =>
    if k < entry.count then 0 else entry.payload.length + completeBytes entries (k - entry.count)

/-- The cache that playback restores after `k` words of a write of `p` at `address`. -/
def interruptedCache (cfg : Config) (cache : Nat → UInt8) (address : Nat) (p : List UInt8)
    (entries : List LoggedEntry) (k : Nat) : Nat → UInt8 :=
  let complete := blit cache address (p.take (completeBytes entries k))
  match tornEntry address entries k with
  | none => complete
  | some (target, entry, words) =>
    blit complete (tornTarget target (words * cfg.writeSize.bytes))
      (tornPayload entry.payload (words * cfg.writeSize.bytes))

section Torn

variable {cfg : Config} (fits : cfg.logicalSize ≤ 2 ^ 19)

@[simp] theorem length_tornPayload (payload : List UInt8) (written : Nat) :
    (tornPayload payload written).length = payload.length := by
  simp [tornPayload]

theorem getD_tornPayload (payload : List UInt8) (written : Nat) {k : Nat} (h : k < payload.length) :
    (tornPayload payload written).getD k 0 = if 3 + k < written then payload.getD k 0 else 0 := by
  simp [tornPayload, List.getD_eq_getElem?_getD, h]

theorem two_le_mul_bytes (size : WriteSize) {j : Nat} (positive : 0 < j) : 2 ≤ j * size.bytes := by
  have two : 2 ≤ size.bytes := by cases size <;> decide
  exact Nat.le_trans two (Nat.le_mul_of_pos_left _ positive)

include fits

/-- Playback of an entry that was cut off after `j` of its words. -/
theorem LoggedEntry.Valid.decode_torn {entry : LoggedEntry} {target : Nat}
    (valid : entry.Valid cfg target) (inside : target + entry.payload.length ≤ cfg.logicalSize)
    {j : Nat} (positive : 0 < j) (short : j < entry.count) :
    decodeEntry cfg (paddedEntry (entry.log.take (j * cfg.writeSize.bytes))) =
      .patch (tornTarget target (j * cfg.writeSize.bytes))
        (tornPayload entry.payload (j * cfg.writeSize.bytes)) (entry.count * cfg.writeSize.bytes) := by
  obtain ⟨five, log, size⟩ := valid.several (by omega)
  have payloadPos := valid.payloadPos
  have written := two_le_mul_bytes cfg.writeSize positive
  generalize j * cfg.writeSize.bytes = n at written ⊢
  -- what was not written reads as zero, header bytes included
  have bytes : ∀ k < 8, (paddedEntry (entry.log.take n)).getD k 0 =
      if k < n then
        if k < 3 then (logEntryMakeMultibyte target entry.payload.length).getD k 0
        else entry.payload.getD (k - 3) 0
      else 0 := by
    intro k bound
    rw [getD_paddedEntry _ bound, List.getD_eq_getElem?_getD, List.getElem?_take]
    split
    · rw [← List.getD_eq_getElem?_getD, log, getD_setPayload]
    · rfl
  have header : (paddedEntry (entry.log.take n)).getD 0 0 =
      (logEntryMakeMultibyte target entry.payload.length).getD 0 0 := by
    rw [bytes 0 (by omega), if_pos (by omega), if_pos (by omega)]
  have mid : raw8 (paddedEntry (entry.log.take n)) 1 = target / 256 % 256 := by
    rw [raw8, bytes 1 (by omega), if_pos (by omega), if_pos (by omega)]
    exact makeMultibyte_raw8_one target entry.payload.length
  have low : raw8 (paddedEntry (entry.log.take n)) 2 = if n < 3 then 0 else target % 256 := by
    rw [raw8, bytes 2 (by omega)]
    by_cases cut : n < 3
    · rw [if_neg (by omega), if_pos cut]
      rfl
    · rw [if_pos (by omega), if_pos (by omega), if_neg cut]
      exact makeMultibyte_raw8_two target entry.payload.length
  have place : target / 65536 % 8 * 65536 + target / 256 % 256 * 256 + (if n < 3 then 0 else target % 256) =
      tornTarget target n := by
    rw [tornTarget]
    split <;> omega
  have payload : ((List.range entry.payload.length).map fun k =>
      (paddedEntry (entry.log.take n)).getD (3 + k) 0) = tornPayload entry.payload n := by
    apply List.map_congr_left
    intro k member
    have bound := List.mem_range.mp member
    rw [bytes (3 + k) (by omega), if_neg (by omega : ¬ 3 + k < 3), Nat.add_sub_cancel_left]
  have before : tornTarget target n ≤ target := by
    rw [tornTarget]
    split <;> omega
  rw [decodeEntry_multibyte cfg _ target entry.payload.length payloadPos (by omega) header]
  simp only [mid, low, place, payload]
  rw [if_neg (by omega), size]

omit fits in
theorem LoggedEntry.flatten_take_words (size : WriteSize) (entry : LoggedEntry) {k : Nat}
    (short : k ≤ entry.count) :
    ((entry.words size).take k).flatten = entry.log.take (k * size.bytes) := by
  rw [LoggedEntry.words, ← List.map_take, List.take_range, Nat.min_eq_left short, flatten_words]

omit fits in
theorem interruptedCache_later (cache : Nat → UInt8) (address : Nat) {entry : LoggedEntry}
    (rest : List UInt8) (entries : List LoggedEntry) {k : Nat} (positive : k ≠ 0)
    (whole : entry.count ≤ k) :
    interruptedCache cfg cache address (entry.payload ++ rest) (entry :: entries) k =
      interruptedCache cfg (blit cache address entry.payload) (address + entry.payload.length) rest entries
        (k - entry.count) := by
  simp only [interruptedCache, completeBytes, tornEntry, if_neg positive, if_neg (Nat.not_lt.mpr whole),
    List.take_length_add_append, blit_append]

/-- The log after the first `k` words of a write. -/
theorem Logged.append_words {address : Nat} {p : List UInt8} {entries : List LoggedEntry}
    (splits : Splits cfg address p entries) (inside : address + p.length ≤ cfg.logicalSize)
    {store cache : Nat → UInt8} {stop k : Nat} (logged : Logged cfg store stop (some cache))
    (room : ∀ m < k, m < (logWords cfg.writeSize entries).length →
      stop + m * cfg.writeSize.bytes < cfg.backingSize) :
    ∃ stop', Logged cfg (blit store stop ((logWords cfg.writeSize entries).take k).flatten) stop'
        (some (interruptedCache cfg cache address p entries k)) ∧
      (stop' = stop ∨ stop' < cfg.backingSize + 8) := by
  induction splits generalizing store cache stop k with
  | nil => exact ⟨stop, by simpa [logWords, interruptedCache, tornEntry] using logged, .inl rfl⟩
  | @cons address rest entry entries valid tail ih =>
    have words : logWords cfg.writeSize (entry :: entries) =
        entry.words cfg.writeSize ++ logWords cfg.writeSize entries := rfl
    have countPos := valid.countPos
    have size := valid.size
    have wordLe := writeSize_bytes_le cfg.writeSize
    rw [List.length_append] at inside
    rw [words, List.length_append, length_words] at room
    rw [words]
    by_cases none : k = 0
    · subst none
      refine ⟨stop, ?_, .inl rfl⟩
      simpa [interruptedCache, tornEntry, completeBytes, countPos] using logged
    · have start := room 0 (by omega) (by omega)
      rw [Nat.zero_mul, Nat.add_zero] at start
      by_cases torn : k < entry.count
      · -- The cut falls into this entry.
        have flat := entry.flatten_take_words cfg.writeSize (Nat.le_of_lt torn)
        have decoded := valid.decode_torn fits (by omega) (by omega) torn
        have covered : (entry.log.take (k * cfg.writeSize.bytes)).length ≤ entry.count * cfg.writeSize.bytes := by
          rw [List.length_take]
          exact Nat.le_trans (Nat.min_le_left _ _) (Nat.mul_le_mul_right _ (Nat.le_of_lt torn))
        have logged := logged.write_patch start decoded covered (Nat.mul_mod_left _ _)
        refine ⟨stop + entry.count * cfg.writeSize.bytes, ?_, .inr (by omega)⟩
        rw [List.take_append_of_le_length (by rw [length_words]; omega), flat]
        simpa [interruptedCache, tornEntry, completeBytes, none, torn] using logged
      · -- This entry is complete, and the cut falls behind it.
        obtain ⟨flat, length⟩ := valid.flatten_words
        have logged := logged.write_patch start (valid.decode_written.trans (valid.restores fits))
          (Nat.le_of_eq length) (Nat.mul_mod_left _ _)
        obtain ⟨stop', logged, bound⟩ := ih (by omega) (k := k - entry.count) logged
          (fun m h bound => by
            have later := room (entry.count + m) (by omega) (by omega)
            rwa [Nat.add_mul, ← Nat.add_assoc] at later)
        refine ⟨stop', ?_, .inr ?_⟩
        · rw [List.take_append, length_words, List.take_of_length_le (by rw [length_words]; omega),
            List.flatten_append, blit_append, length,
            interruptedCache_later cache address rest entries none (Nat.not_lt.mp torn)]
          exact logged
        · cases bound with
          | inl same =>
            have last := room (entry.count - 1) (by omega) (by omega)
            rw [Nat.sub_mul, Nat.one_mul] at last
            omega
          | inr bound => exact bound

end Torn

/-! ## Reachable states -/

/-- The store after the given operations. -/
def applyEvents (store : Nat → UInt8) (events : List Event) : Nat → UInt8 :=
  events.foldl (fun store event => if event.ok then event.operation.apply store else store) store

/-- The operations issued on the way from `s` to `next`. -/
def issued (s next : State) : List Event := next.trace.drop s.trace.length

/-- The device is off, with some contents of the store, or running. -/
inductive Phase where
  | off (store : Nat → UInt8)
  | on (s : State)

/-- What can be reached from an erased store by requests of the given kind, power
    losses after any of the operations a request or a restart issues, and restarts. -/
inductive Reachable (cfg : Config) (kind : Request → Prop) : Phase → Prop where
  | erased : Reachable cfg kind (.off fun _ => 0)
  | boot (restart : State) (off : Reachable cfg kind (.off restart.store)) :
      Reachable cfg kind (.on (wearLevelingInit cfg noFaults restart).2)
  | request {s : State} (request : Request) (isKind : kind request) (on : Reachable cfg kind (.on s)) :
      Reachable cfg kind (.on (request.run cfg noFaults s).2)
  | cut {s : State} (request : Request) (isKind : kind request) (n : Nat) (on : Reachable cfg kind (.on s)) :
      Reachable cfg kind (.off (applyEvents s.store ((issued s (request.run cfg noFaults s).2).take n)))
  | cutBoot (restart : State) (n : Nat) (off : Reachable cfg kind (.off restart.store)) :
      Reachable cfg kind (.off (applyEvents restart.store
        ((issued restart (wearLevelingInit cfg noFaults restart).2).take n)))

/-- A restart can make sense of the store. -/
def Survives (cfg : Config) (store : Nat → UInt8) : Prop :=
  ∃ stop cache, Logged cfg store stop (some cache) ∧ stop < cfg.logStart + cfg.backingSize

def Phase.Sound (cfg : Config) : Phase → Prop
  | .off store => Survives cfg store
  | .on s => Consistent cfg s.cache s

section Cuts

variable {cfg : Config} {holds : (Nat → UInt8) → Prop}

/-- `holds` is true of the store wherever the operations are cut off. -/
def AllCuts (holds : (Nat → UInt8) → Prop) (store : Nat → UInt8) (events : List Event) : Prop :=
  ∀ n, holds (applyEvents store (events.take n))

theorem issued_append {s next : State} {events : List Event} (trace : next.trace = s.trace ++ events) :
    issued s next = events := by
  rw [issued, trace, List.drop_left]

theorem applyEvents_append (store : Nat → UInt8) (first second : List Event) :
    applyEvents store (first ++ second) = applyEvents (applyEvents store first) second :=
  List.foldl_append

theorem AllCuts.append {store : Nat → UInt8} {first second : List Event}
    (head : AllCuts holds store first) (tail : AllCuts holds (applyEvents store first) second) :
    AllCuts holds store (first ++ second) := by
  intro n
  rw [List.take_append]
  by_cases short : n ≤ first.length
  · rw [Nat.sub_eq_zero_of_le short, List.take_zero, List.append_nil]
    exact head n
  · rw [List.take_of_length_le (by omega), applyEvents_append]
    exact tail _

theorem AllCuts.all {store : Nat → UInt8} {events : List Event} (cuts : AllCuts holds store events) :
    holds (applyEvents store events) := by
  have whole := cuts events.length
  rwa [List.take_length] at whole

theorem applyEvents_passive {events : List Event} (passive : Passive events) (store : Nat → UInt8) :
    applyEvents store events = store := by
  induction events with
  | nil => rfl
  | cons event events ih =>
    have neither := passive event (by simp)
    have unchanged : (if event.ok then event.operation.apply store else store) = store := by
      obtain ⟨operation, ok⟩ := event
      cases operation <;>
        first | exact ite_self _ | exact absurd rfl neither.1 | exact absurd rfl neither.2
    rw [applyEvents, List.foldl_cons, unchanged]
    exact ih fun other member => passive other (by simp [member])

theorem allCuts_passive {events : List Event} (passive : Passive events) {store : Nat → UInt8}
    (here : holds store) : AllCuts holds store events := by
  intro n
  rwa [applyEvents_passive fun event member => passive event (List.mem_of_mem_take member)]

theorem take_writeEvents (width address n : Nat) (words : List (List UInt8)) :
    (writeEvents width address words).take n = writeEvents width address (words.take n) := by
  induction words generalizing address n with
  | nil => simp [writeEvents]
  | cons word words ih =>
    cases n with
    | zero => rfl
    | succ n => simp only [writeEvents, List.take_succ_cons, ih]

theorem applyEvents_writeEvents {width : Nat} (words : List (List UInt8))
    (sizes : ∀ word ∈ words, word.length = width) (address : Nat) (store : Nat → UInt8) :
    applyEvents store (writeEvents width address words) = blit store address words.flatten := by
  induction words generalizing address store with
  | nil => simp [writeEvents, applyEvents]
  | cons word words ih =>
    have rest := ih (fun w h => sizes w (by simp [h])) (address + width) (blit store address word)
    rw [List.flatten_cons, blit_append, sizes word (by simp), ← rest]
    rfl

theorem allCuts_writeEvents {width address : Nat} {words : List (List UInt8)}
    (sizes : ∀ word ∈ words, word.length = width) {store : Nat → UInt8}
    (here : ∀ k ≤ words.length, holds (blit store address (words.take k).flatten)) :
    AllCuts holds store (writeEvents width address words) := by
  intro n
  have member : ∀ word ∈ words.take n, word.length = width :=
    fun word member => sizes word (List.mem_of_mem_take member)
  rw [take_writeEvents, applyEvents_writeEvents _ member]
  cases Nat.le_total n words.length with
  | inl short => exact here n short
  | inr long =>
    rw [List.take_of_length_le long]
    have all := here words.length (Nat.le_refl _)
    rwa [List.take_length] at all

/-- The operation does not write behind the consolidated area. -/
def InFront (cfg : Config) (event : Event) : Prop :=
  match event.operation with
  | .write address value => address + value.length ≤ cfg.logStart
  | _ => True

theorem inFront_writeEvents {address limit : Nat} {words : List (List UInt8)}
    (sizes : ∀ word ∈ words, word.length = cfg.writeSize.bytes)
    (inside : address + words.length * cfg.writeSize.bytes ≤ limit) (below : limit ≤ cfg.logStart) :
    ∀ event ∈ writeEvents cfg.writeSize.bytes address words, InFront cfg event := by
  induction words generalizing address with
  | nil => simp [writeEvents]
  | cons word words ih =>
    rw [List.length_cons, Nat.succ_mul] at inside
    intro event member
    rcases List.mem_cons.mp member with rfl | member
    · show address + word.length ≤ cfg.logStart
      rw [sizes word (by simp)]
      omega
    · exact ih (fun w h => sizes w (by simp [h])) (by omega) event member

theorem inFront_lockEvents {operation : Operation} (write : operation.kind ≠ .write) (unlocked : Bool) :
    ∀ event ∈ lockEvents operation unlocked, InFront cfg event := by
  intro event member
  cases unlocked with
  | true => simp [lockEvents] at member
  | false =>
    rw [lockEvents, if_neg (by decide), List.mem_singleton] at member
    subst member
    cases operation <;> trivial

theorem applyEvents_blank {events : List Event} (front : ∀ event ∈ events, InFront cfg event)
    {store : Nat → UInt8} (blank : ∀ i, cfg.logStart ≤ i → store i = 0) :
    ∀ i, cfg.logStart ≤ i → applyEvents store events i = 0 := by
  induction events generalizing store with
  | nil => exact blank
  | cons event events ih =>
    refine ih (fun other member => front other (by simp [member])) ?_
    intro i h
    have inFront := front event (by simp)
    obtain ⟨operation, ok⟩ := event
    cases ok with
    | false => exact blank i h
    | true =>
      cases operation with
      | write address value => exact (blit_of_ge (Nat.le_trans inFront h)).trans (blank i h)
      | erase => rfl
      | init | unlock | lock | read => exact blank i h

/-- A consolidation first erases the store and then only writes in front of the log. -/
theorem allCuts_consolidation {s : State} {store : Nat → UInt8} (here : holds store)
    (front : ∀ store', (∀ i, cfg.logStart ≤ i → store' i = 0) → holds store') :
    AllCuts holds store (consolidationEvents cfg s) := by
  have dataCount : (dataWords cfg s.cache).length * cfg.writeSize.bytes = cfg.logicalSize := by
    rw [dataWords, length_chunk, cfg.words_mul]
  have hashCount : (hashWords cfg s.cache).length * cfg.writeSize.bytes = 8 := by
    rw [hashWords, length_chunk, cfg.writeSize.eight_div_mul]
  have inFront : ∀ event ∈ consolidationEvents cfg s, InFront cfg event := by
    simp only [consolidationEvents, List.forall_mem_append, List.forall_mem_singleton]
    refine ⟨⟨⟨⟨trivial, inFront_lockEvents (by decide) _⟩, ?_⟩, ?_⟩, inFront_lockEvents (by decide) _⟩
    · exact inFront_writeEvents (dataWords_spec cfg s.cache).2 (Nat.le_of_eq (by omega))
        (Nat.le_add_right cfg.logicalSize 8)
    · exact inFront_writeEvents (hashWords_spec cfg s.cache).2 (Nat.le_of_eq (by rw [hashCount, Config.logStart]))
        (Nat.le_refl _)
  intro n
  cases n with
  | zero => exact here
  | succ n =>
    -- from the first operation on the old log is gone, and nothing else reaches behind the checksum
    have cons : consolidationEvents cfg s = ⟨.erase, true⟩ :: (consolidationEvents cfg s).tail := by
      simp [consolidationEvents]
    rw [cons, List.take_succ_cons]
    apply front
    show ∀ i, cfg.logStart ≤ i → applyEvents (fun _ => 0) _ i = 0
    exact applyEvents_blank
      (fun event member => inFront event (List.mem_of_mem_tail (List.mem_of_mem_take member)))
      fun _ _ => rfl

end Cuts

section Soundness

variable {cfg : Config} (fits : cfg.logicalSize ≤ 2 ^ 19)

theorem survives_blank {store : Nat → UInt8} (blank : ∀ i, cfg.logStart ≤ i → store i = 0) :
    Survives cfg store :=
  ⟨_, _, logged_blank fun _ => blank, cfg.logStart_bounded⟩

/-- The log of a running device, with the cache it stands for. -/
theorem Consistent.logged_some {s : State} {durable : Nat → UInt8} (fits : cfg.logicalSize ≤ 2 ^ 19)
    (consistent : Consistent cfg durable s) :
    ∃ cache, Logged cfg s.store s.writeAddress (some cache) ∧ ∀ i < cfg.logicalSize, cache i = durable i := by
  obtain ⟨outcome, logged, restores⟩ := consistent.logged
  obtain ⟨cache, rfl, bytes⟩ := restores fits
  exact ⟨cache, logged, bytes⟩

theorem Consistent.survives {s : State} {durable : Nat → UInt8} (fits : cfg.logicalSize ≤ 2 ^ 19)
    (consistent : Consistent cfg durable s) : Survives cfg s.store := by
  obtain ⟨cache, logged, _⟩ := consistent.logged_some fits
  exact ⟨_, cache, logged, consistent.bounded⟩

theorem Survives.boot {restart : State} (survives : Survives cfg restart.store) :
    Consistent cfg (wearLevelingInit cfg noFaults restart).2.cache
      (wearLevelingInit cfg noFaults restart).2 := by
  obtain ⟨stop, cache, logged, bounded⟩ := survives
  have step := wearLevelingInit_of_logged cfg logged bounded restart rfl
  generalize wearLevelingInit cfg noFaults restart = result at step ⊢
  cases step with
  | resumed mid booted room address =>
    refine ⟨⟨some mid.cache, ?_, fun _ => ⟨_, rfl, fun _ _ => rfl⟩⟩, .inl (address.trans_lt room)⟩
    rw [booted.store, address]
    exact logged
  | full mid => exact consistent_consolidated mid.cache rfl rfl

theorem Survives.cutBoot {restart : State} (survives : Survives cfg restart.store) :
    AllCuts (Survives cfg) restart.store (issued restart (wearLevelingInit cfg noFaults restart).2) := by
  obtain ⟨stop, cache, logged, bounded⟩ := id survives
  have step := wearLevelingInit_of_logged cfg logged bounded restart rfl
  generalize wearLevelingInit cfg noFaults restart = result at step ⊢
  cases step with
  | resumed mid booted =>
    obtain ⟨events, trace, passive⟩ := booted.trace
    rw [issued_append trace]
    exact allCuts_passive passive survives
  | full mid booted =>
    obtain ⟨events, trace, passive⟩ := booted.trace
    have longer : (consolidateState cfg mid).trace =
        restart.trace ++ (events ++ consolidationEvents cfg mid) := by
      rw [consolidateState, trace, List.append_assoc]
    rw [issued_append longer]
    refine (allCuts_passive passive survives).append ?_
    rw [applyEvents_passive passive]
    exact allCuts_consolidation survives fun _ => survives_blank

theorem wordsToFill_room {address m : Nat} (inside : address < cfg.backingSize)
    (h : m < wordsToFill cfg address) : address + m * cfg.writeSize.bytes < cfg.backingSize := by
  have wordPos := writeSize_bytes_pos cfg.writeSize
  rw [wordsToFill] at h
  by_cases first : m = 0
  · subst first
    omega
  · have below : m + 1 ≤ (cfg.backingSize - address + (cfg.writeSize.bytes - 1)) / cfg.writeSize.bytes := by
      omega
    rw [Nat.le_div_iff_mul_le wordPos, Nat.succ_mul] at below
    omega

include fits

/-- A write may be cut off anywhere before it consolidates. -/
theorem Consistent.cutWords {s : State} (consistent : Consistent cfg s.cache s) {address : Nat}
    {value : List UInt8} (inside : address + value.length ≤ cfg.logicalSize) (k : Nat)
    (room : s.writeAddress < cfg.backingSize → ∀ m < k,
      s.writeAddress + m * cfg.writeSize.bytes < cfg.backingSize) :
    Survives cfg (blit s.store s.writeAddress ((writeWords cfg address value).take k).flatten) := by
  obtain ⟨cache, logged, _⟩ := consistent.logged_some fits
  have splits := logEntries_splits cfg value.length address value (Nat.le_refl _) inside
  have positive := cfg.positive
  have twice := cfg.twice
  by_cases open' : s.writeAddress < cfg.backingSize
  · obtain ⟨stop, logged, bound⟩ := logged.append_words fits splits inside fun m h _ => room open' m h
    refine ⟨stop, _, logged, ?_⟩
    have := consistent.bounded
    rw [Config.logStart] at *
    rcases bound with rfl | bound <;> omega
  · -- Without room for a log, playback never looks at these words.
    have start : s.writeAddress = cfg.logStart := consistent.room.resolve_left open'
    exact ⟨cfg.logStart, _, logged_blank fun roomy => absurd (start ▸ roomy) open', cfg.logStart_bounded⟩

theorem Consistent.cutWrite {s : State} (consistent : Consistent cfg s.cache s) {call : WriteCall}
    (noWrap : call.NoWrap) :
    AllCuts (Survives cfg) s.store
      (issued s (wearLevelingWrite cfg noFaults call.address call.value s).2) := by
  have unlock : Passive (lockEvents .unlock s.unlocked) := passive_lockEvents (by decide) (by decide) _
  have lock : Passive (lockEvents .lock s.unlocked) := passive_lockEvents (by decide) (by decide) _
  have here := consistent.survives fits
  have step := wearLevelingWrite_step cfg s call.sizes
  generalize wearLevelingWrite cfg noFaults call.address call.value s = result at step ⊢
  cases step with
  | rejected =>
    rw [issued_append (List.append_nil _).symm]
    exact allCuts_passive (fun _ member => by cases member) here
  | unchanged =>
    rw [issued_append (List.append_nil _).symm]
    exact allCuts_passive (fun _ member => by cases member) here
  | logged inside _ room =>
    have trace : (((s.opened call.address call.value).appended cfg
        (writeWords cfg call.address call.value)).relocked s.unlocked).trace =
          s.trace ++ (lockEvents .unlock s.unlocked ++
            (writeEvents cfg.writeSize.bytes s.writeAddress (writeWords cfg call.address call.value) ++
              lockEvents .lock s.unlocked)) := by
      simp [State.relocked, State.appended, State.opened]
    have words : AllCuts (Survives cfg) s.store
        (writeEvents cfg.writeSize.bytes s.writeAddress (writeWords cfg call.address call.value)) := by
      refine allCuts_writeEvents (writeWords_sizes call.sizes inside) fun k short =>
        consistent.cutWords fits (noWrap.sum ▸ inside) k fun _ m h => ?_
      have := Nat.mul_le_mul_right cfg.writeSize.bytes
        (by omega : m ≤ (writeWords cfg call.address call.value).length)
      omega
    rw [issued_append trace]
    refine (allCuts_passive unlock here).append ?_
    rw [applyEvents_passive unlock]
    exact words.append (allCuts_passive lock words.all)
  | consolidated inside =>
    -- the words that fill the log come first, then the consolidation of the whole cache
    let filling := (writeWords cfg call.address call.value).take (wordsToFill cfg s.writeAddress)
    let full := (s.opened call.address call.value).appended cfg filling
    have trace : ((consolidateState cfg full).relocked s.unlocked).trace =
          s.trace ++ (lockEvents .unlock s.unlocked ++
            (writeEvents cfg.writeSize.bytes s.writeAddress filling ++
              (consolidationEvents cfg full ++ lockEvents .lock s.unlocked))) := by
      simp [full, State.relocked, consolidateState, State.appended, State.opened]
    have words : AllCuts (Survives cfg) s.store
        (writeEvents cfg.writeSize.bytes s.writeAddress filling) := by
      refine allCuts_writeEvents
        (fun word member => writeWords_sizes call.sizes inside word (List.mem_of_mem_take member)) fun k short => ?_
      rw [List.take_take]
      refine consistent.cutWords fits (noWrap.sum ▸ inside) _ ?_
      intro open' m h
      exact wordsToFill_room open' (Nat.lt_of_lt_of_le h (Nat.min_le_right _ _))
    have rest := allCuts_consolidation (s := full) words.all fun _ => survives_blank
    rw [issued_append trace]
    refine (allCuts_passive unlock here).append ?_
    rw [applyEvents_passive unlock]
    exact words.append (rest.append (allCuts_passive lock rest.all))

theorem Consistent.cutErase {s : State} (consistent : Consistent cfg s.cache s) :
    AllCuts (Survives cfg) s.store (issued s (wearLevelingErase cfg noFaults s).2) := by
  have unlock : Passive (lockEvents .unlock s.unlocked) := passive_lockEvents (by decide) (by decide) _
  have lock : Passive (lockEvents .lock s.unlocked) := passive_lockEvents (by decide) (by decide) _
  have here := consistent.survives fits
  have erased : AllCuts (Survives cfg) s.store [⟨.erase, true⟩] := by
    intro n
    cases n with
    | zero => exact here
    | succ n => exact survives_blank fun _ _ => by simp [applyEvents, Operation.apply]
  have trace : (wearLevelingErase cfg noFaults s).2.trace =
      s.trace ++ (lockEvents .unlock s.unlocked ++ ([⟨.erase, true⟩] ++ lockEvents .lock s.unlocked)) := by
    simp [wearLevelingErase_ok cfg onlyWritesFail_noFaults]
  rw [issued_append trace]
  refine (allCuts_passive unlock here).append ?_
  rw [applyEvents_passive unlock]
  exact erased.append (allCuts_passive lock erased.all)

/-- As long as no range wraps, the store stays readable and a running cache stays in step with it. -/
theorem Reachable.sound {phase : Phase} (reachable : Reachable cfg Request.NoWrap phase) : phase.Sound cfg := by
  induction reachable with
  | erased => exact survives_blank fun _ _ => rfl
  | boot restart _ ih => exact Survives.boot ih
  | request request noWrap _ ih => exact Consistent.request ih noWrap
  | cut request noWrap n _ ih =>
    cases request with
    | write call => exact Consistent.cutWrite fits ih noWrap n
    | erase => exact Consistent.cutErase fits ih n
    | init => exact (Consistent.survives fits ih).cutBoot n
  | cutBoot restart n _ ih => exact Survives.cutBoot ih n

end Soundness

/-! ## Containment -/

/-- The store when execution stops after the first `k` `backing_store_write`s of a call. -/
def interruptedStore (cfg : Config) (s : State) (call : WriteCall) (k : Nat) : Nat → UInt8 :=
  applyEvents s.store
    (((issued s (wearLevelingWrite cfg noFaults call.address call.value s).2).filter
      fun event => event.operation.kind = .write).take k)

/-- Bytes outside the range of the call are old, bytes inside are old or new. -/
def Contained (cfg : Config) (old : Nat → UInt8) (call : WriteCall) (restored : Nat → UInt8) : Prop :=
  ∀ i < cfg.logicalSize,
    if call.Covers i then restored i = old i ∨ restored i = call.value.getD (i - call.address) 0
    else restored i = old i

/-- The cut tears no entry, or every byte that playback of the torn entry clears
    was zero before or is a zero of the new data. -/
def Harmless (cfg : Config) (old : Nat → UInt8) (call : WriteCall) (k : Nat) : Prop :=
  match tornEntry call.address (call.entries cfg) k with
  | none => True
  | some (target, entry, words) =>
    ∀ m < entry.payload.length, words * cfg.writeSize.bytes ≤ 3 + m →
      old (tornTarget target (words * cfg.writeSize.bytes) + m) = 0 ∨
        call.Covers (tornTarget target (words * cfg.writeSize.bytes) + m) ∧
          call.value.getD (tornTarget target (words * cfg.writeSize.bytes) + m - call.address) 0 = 0

section Containment

variable {cfg : Config}

/-- The torn entry holds the part of the data that follows the complete entries. -/
theorem tornEntry_spec {address : Nat} {p : List UInt8} {entries : List LoggedEntry}
    (splits : Splits cfg address p entries) {k target words : Nat} {entry : LoggedEntry}
    (torn : tornEntry address entries k = some (target, entry, words)) :
    address ≤ target ∧ target + entry.payload.length ≤ address + p.length ∧
      ∀ m < entry.payload.length, p.getD (target + m - address) 0 = entry.payload.getD m 0 := by
  induction splits generalizing k with
  | nil => cases torn
  | @cons address rest first entries valid tail ih =>
    rw [List.length_append]
    rw [tornEntry] at torn
    split at torn
    next => cases torn
    next =>
      split at torn
      next =>
        cases torn
        refine ⟨Nat.le_refl _, by omega, fun m h => ?_⟩
        rw [Nat.add_sub_cancel_left, List.getD_eq_getElem?_getD, List.getElem?_append_left h,
          List.getD_eq_getElem?_getD]
      next =>
        obtain ⟨before, inside, bytes⟩ := ih torn
        refine ⟨by omega, by omega, fun m h => ?_⟩
        rw [← bytes m h, List.getD_eq_getElem?_getD, List.getElem?_append_right (by omega),
          List.getD_eq_getElem?_getD, Nat.sub_sub, Nat.add_comm address, Nat.add_comm first.payload.length,
          Nat.add_comm address]

/-- Outside of the torn entry every byte is old or new. -/
theorem complete_contained (cache : Nat → UInt8) (call : WriteCall) (n i : Nat) :
    if call.Covers i then
      blit cache call.address (call.value.take n) i = cache i ∨
        blit cache call.address (call.value.take n) i = call.value.getD (i - call.address) 0
    else blit cache call.address (call.value.take n) i = cache i := by
  have short := List.length_take_le' n call.value
  split
  next covers =>
    by_cases reached : i < call.address + n
    · rw [blit_take reached]
      exact .inr (blit_inside 0 covers.1 covers.2)
    · refine .inl (blit_of_ge ?_)
      have := List.length_take_le n call.value
      omega
  next apart =>
    refine blit_outside fun within => apart ⟨within.1, ?_⟩
    omega

theorem interruptedCache_contained_iff {call : WriteCall}
    (inside : call.address + call.value.length ≤ cfg.logicalSize) (cache : Nat → UInt8) (k : Nat) :
    Contained cfg cache call
        (interruptedCache cfg cache call.address call.value (call.entries cfg) k) ↔
      Harmless cfg cache call k := by
  have splits : Splits cfg call.address call.value (call.entries cfg) :=
    logEntries_splits cfg call.value.length call.address call.value (Nat.le_refl _) inside
  have others := complete_contained cache call (completeBytes (call.entries cfg) k)
  rw [Harmless, Contained]
  simp only [interruptedCache]
  cases torn : tornEntry call.address (call.entries cfg) k with
  | none => exact iff_of_true (fun i _ => others i) trivial
  | some cut =>
    obtain ⟨target, entry, words⟩ := cut
    obtain ⟨before, bound, bytes⟩ := tornEntry_spec splits torn
    simp only
    generalize words * cfg.writeSize.bytes = written
    have place : tornTarget target written ≤ target := by
      rw [tornTarget]
      split <;> omega
    -- of the complete entries only `complete_contained` is needed
    generalize complete : blit cache call.address (call.value.take (completeBytes (call.entries cfg) k)) = base
    rw [complete] at others
    have patched : ∀ m < entry.payload.length,
        blit base (tornTarget target written) (tornPayload entry.payload written)
          (tornTarget target written + m) = if 3 + m < written then entry.payload.getD m 0 else 0 := by
      intro m h
      rw [blit_inside 0 (by omega) (by rw [length_tornPayload]; omega), Nat.add_sub_cancel_left,
        getD_tornPayload _ _ h]
    constructor
    · intro contained m h cleared
      -- a cleared byte is old or new, so one of the two is zero
      have byte := contained (tornTarget target written + m) (by omega)
      have zero := (patched m h).trans (if_neg (by omega))
      rw [zero] at byte
      split at byte
      next covers =>
        cases byte with
        | inl old => exact .inl old.symm
        | inr new => exact .inr ⟨covers, new.symm⟩
      next => exact .inl byte.symm
    · intro harmless i h
      by_cases within : tornTarget target written ≤ i ∧ i < tornTarget target written + entry.payload.length
      · obtain ⟨m, rfl⟩ := Nat.exists_eq_add_of_le within.1
        have short : m < entry.payload.length := by omega
        rw [patched m short]
        by_cases kept : 3 + m < written
        · -- This payload byte was written, so the address is complete as well.
          have whole : tornTarget target written = target := by
            rw [tornTarget, if_neg (by omega)]
          have covers : call.Covers (tornTarget target written + m) := ⟨by omega, by omega⟩
          rw [if_pos kept, if_pos covers, whole, bytes m short]
          exact .inr rfl
        · rw [if_neg kept]
          split
          next covers =>
            rcases harmless m short (by omega) with old | ⟨_, new⟩
            · exact .inl old.symm
            · exact .inr new.symm
          next apart =>
            rcases harmless m short (by omega) with old | ⟨covers, _⟩
            · exact old.symm
            · exact absurd covers apart
      · rw [blit_outside (by rw [length_tornPayload]; exact within)]
        exact others i

theorem contained_congr {old other : Nat → UInt8} (same : ∀ i < cfg.logicalSize, old i = other i)
    (call : WriteCall) (restored : Nat → UInt8) :
    Contained cfg old call restored ↔ Contained cfg other call restored := by
  refine forall₂_congr fun i h => ?_
  rw [same i h]

theorem harmless_congr {call : WriteCall} (inside : call.address + call.value.length ≤ cfg.logicalSize)
    {old other : Nat → UInt8} (same : ∀ i < cfg.logicalSize, old i = other i) (k : Nat) :
    Harmless cfg old call k ↔ Harmless cfg other call k := by
  have splits : Splits cfg call.address call.value (call.entries cfg) :=
    logEntries_splits cfg call.value.length call.address call.value (Nat.le_refl _) inside
  rw [Harmless, Harmless]
  cases torn : tornEntry call.address (call.entries cfg) k with
  | none => exact Iff.rfl
  | some cut =>
    obtain ⟨target, entry, words⟩ := cut
    obtain ⟨_, bound, _⟩ := tornEntry_spec splits torn
    -- a torn entry only looks at logical bytes, where both caches agree
    have place : tornTarget target (words * cfg.writeSize.bytes) ≤ target := by
      rw [tornTarget]
      split <;> omega
    refine forall₂_congr fun m h => ?_
    rw [same _ (by omega)]

theorem filter_writeEvents (width address : Nat) (words : List (List UInt8)) :
    (writeEvents width address words).filter (fun event => event.operation.kind = .write) =
      writeEvents width address words := by
  induction words generalizing address with
  | nil => rfl
  | cons word words ih => simp [writeEvents, ih]

theorem filter_passive {events : List Event} (passive : Passive events) :
    events.filter (fun event => event.operation.kind = .write) = [] := by
  rw [List.filter_eq_nil_iff]
  intro event member
  simpa using (passive event member).1

/-- A call that is cut off while it appends to the log. -/
theorem interruptedStore_logs {s : State} {call : WriteCall} (logs : call.Logs cfg s)
    (unconsolidated : (wearLevelingWrite cfg noFaults call.address call.value s).1 ≠ .consolidated)
    (k : Nat) :
    interruptedStore cfg s call k =
        blit s.store s.writeAddress ((writeWords cfg call.address call.value).take k).flatten ∧
      s.writeAddress + (writeWords cfg call.address call.value).length * cfg.writeSize.bytes <
        cfg.backingSize := by
  obtain ⟨inside, changed⟩ := logs
  have step := wearLevelingWrite_step cfg s call.sizes
  rw [interruptedStore]
  generalize wearLevelingWrite cfg noFaults call.address call.value s = result at step unconsolidated ⊢
  cases step with
  | rejected outside => omega
  | unchanged _ same => exact absurd same changed
  | logged _ _ room =>
    refine ⟨?_, room⟩
    have trace : (((s.opened call.address call.value).appended cfg
        (writeWords cfg call.address call.value)).relocked s.unlocked).trace =
        s.trace ++ (lockEvents .unlock s.unlocked ++
          (writeEvents cfg.writeSize.bytes s.writeAddress (writeWords cfg call.address call.value) ++
            lockEvents .lock s.unlocked)) := by
      simp [State.relocked, State.appended, State.opened]
    rw [issued_append trace, List.filter_append, List.filter_append,
      filter_writeEvents, filter_passive (passive_lockEvents (by decide) (by decide) _),
      filter_passive (passive_lockEvents (by decide) (by decide) _), List.nil_append, List.append_nil,
      take_writeEvents]
    exact applyEvents_writeEvents _
      (fun word member => writeWords_sizes call.sizes inside word (List.mem_of_mem_take member)) _ _
  | consolidated => exact absurd rfl unconsolidated

/-- A call that never gets to the log leaves the store as it is. -/
theorem interruptedStore_unlogged {s : State} {call : WriteCall} (unlogged : ¬ call.Logs cfg s) (k : Nat) :
    interruptedStore cfg s call k = s.store := by
  have unchanged : (wearLevelingWrite cfg noFaults call.address call.value s).2 = s := by
    have step := wearLevelingWrite_step cfg s call.sizes
    generalize wearLevelingWrite cfg noFaults call.address call.value s = result at step ⊢
    cases step with
    | rejected => rfl
    | unchanged => rfl
    | logged inside changed => exact absurd ⟨inside, changed⟩ unlogged
    | consolidated inside changed => exact absurd ⟨inside, changed⟩ unlogged
  rw [interruptedStore, unchanged, issued_append (List.append_nil _).symm]
  simp [applyEvents]

/-- After a power loss within a write that does not consolidate, the damage is
    confined to the range of the write exactly when the cut is harmless, provided
    that the range of no call so far wraps. -/
theorem power_loss_contained_iff (fits : cfg.logicalSize ≤ 2 ^ 19) {s : State}
    (reachable : Reachable cfg Request.NoWrap (.on s)) {call : WriteCall} (noWrap : call.NoWrap)
    (unconsolidated : (wearLevelingWrite cfg noFaults call.address call.value s).1 ≠ .consolidated)
    (k : Nat) (restart : State) (store : restart.store = interruptedStore cfg s call k) :
    Contained cfg s.cache call (wearLevelingInit cfg noFaults restart).2.cache ↔
      (call.Logs cfg s → Harmless cfg s.cache call k) := by
  have consistent : Consistent cfg s.cache s := reachable.sound fits
  by_cases logs : call.Logs cfg s
  · obtain ⟨cut, room⟩ := interruptedStore_logs logs unconsolidated k
    have inside : call.address + call.value.length ≤ cfg.logicalSize := noWrap.sum ▸ logs.1
    obtain ⟨cache, logged, bytes⟩ := consistent.logged_some fits
    have splits : Splits cfg call.address call.value (call.entries cfg) :=
      logEntries_splits cfg call.value.length call.address call.value (Nat.le_refl _) inside
    obtain ⟨stop, logged, bound⟩ := logged.append_words fits splits inside (k := k) fun m _ short => by
      have := Nat.mul_le_mul_right cfg.writeSize.bytes (Nat.le_of_lt short)
      exact Nat.lt_of_le_of_lt (Nat.add_le_add_left this _) room
    have bounded : stop < cfg.logStart + cfg.backingSize := by
      have := consistent.bounded
      have := cfg.positive
      rw [Config.logStart] at *
      rcases bound with rfl | bound <;> omega
    have restored : (wearLevelingInit cfg noFaults restart).2.cache =
        interruptedCache cfg cache call.address call.value (call.entries cfg) k := by
      have step := wearLevelingInit_of_logged cfg logged bounded restart (store.trans cut)
      generalize wearLevelingInit cfg noFaults restart = result at step ⊢
      generalize interruptedCache cfg cache call.address call.value (call.entries cfg) k = played at step ⊢
      cases step with
      | resumed => rfl
      | full => rfl
    rw [restored, ← contained_congr bytes, ← harmless_congr inside bytes,
      interruptedCache_contained_iff inside]
    exact ⟨fun harmless _ => harmless, fun harmless => harmless logs⟩
  · rw [interruptedStore_unlogged logs k] at store
    refine iff_of_true (fun i h => ?_) fun impossible => absurd impossible logs
    -- nothing was written, and the restart finds the bytes that were there
    have same := ((consistent.restart store).2.2 fits).1 i h
    split
    · exact .inl same
    · exact same

end Containment

/-- A byte at the front of the store, with everything else erased. -/
def frontByteState : State := runRequests compactConfig [.write ⟨0, [9], by decide⟩]

theorem frontByteState_reachable : Reachable compactConfig Request.NoWrap (.on frontByteState) :=
  .request (.write ⟨0, [9], by decide⟩) (by decide) (.boot erasedState .erased)

/-- A write that takes two words of a two-byte store. -/
def twoWordCall : WriteCall := ⟨100, [7], by decide⟩

/-- Power-on with the store that `k` words of this write leave behind. -/
def afterPowerLoss (k : Nat) : State :=
  { erasedState with store := interruptedStore compactConfig frontByteState twoWordCall k }

/-- Only the first word is written: the low address byte is missing, and the
    byte at address 0 is cleared instead. -/
theorem power_loss_clears_other_byte :
    ¬ Contained compactConfig frontByteState.cache twoWordCall
      (wearLevelingInit compactConfig noFaults (afterPowerLoss 1)).2.cache := by
  intro contained
  have byte := contained 0 (by decide)
  revert byte
  decide +kernel

/-- Both words are written. -/
theorem power_loss_after_both_words :
    compactConfig.logicalSize ≤ 2 ^ 19 ∧ Reachable compactConfig Request.NoWrap (.on frontByteState) ∧
      twoWordCall.NoWrap ∧
      (wearLevelingWrite compactConfig noFaults twoWordCall.address twoWordCall.value
        frontByteState).1 ≠ .consolidated ∧
      (Contained compactConfig frontByteState.cache twoWordCall
          (wearLevelingInit compactConfig noFaults (afterPowerLoss 2)).2.cache ↔
        (twoWordCall.Logs compactConfig frontByteState →
          Harmless compactConfig frontByteState.cache twoWordCall 2)) := by
  have fits : compactConfig.logicalSize ≤ 2 ^ 19 := by decide
  have noWrap : twoWordCall.NoWrap := by decide
  have unconsolidated : (wearLevelingWrite compactConfig noFaults twoWordCall.address twoWordCall.value
      frontByteState).1 ≠ .consolidated := by
    decide +kernel
  exact ⟨fits, frontByteState_reachable, noWrap, unconsolidated,
    power_loss_contained_iff fits frontByteState_reachable noWrap unconsolidated 2 (afterPowerLoss 2)
      (by rw [afterPowerLoss])⟩

end QmkFirmware.WearLeveling
