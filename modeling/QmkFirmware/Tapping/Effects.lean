import QmkFirmware.Tapping.Model

/-! # What one call of the state machine can do

Seen from outside, `processTapping` delivers events, keeps the press of the tapping
key undecided, or leaves its event to the buffer.  `Effect` lists these cases; every
result about whole runs is derived from them.
-/

namespace QmkFirmware.Tapping

section

variable {κ : Type}

/-! ## Views of the state -/

def Call.processed : Call κ → Option (Event κ)
  | .processRecord record => some record.event
  | _ => none

/-- The events that `process_record` has seen. -/
def State.delivered (s : State κ) : List (Event κ) := s.calls.filterMap Call.processed

/-- The press of a tapping key that is neither tapped nor held yet. -/
def State.undecided (s : State κ) : List (Event κ) :=
  match s.tappingKey with
  | some tapping => if tapping.event.pressed && tapping.tap.count == 0 then [tapping.event] else []
  | none => []

/-- The tapping key while it is down after a tap. -/
def State.tapped (s : State κ) : Option κ :=
  match s.tappingKey with
  | some tapping =>
    if tapping.event.pressed && tapping.tap.count != 0 then some tapping.event.key else none
  | none => none

def State.bufferEvents (s : State κ) : List (Event κ) := s.waitingBuffer.map Record.event

/-- A press that has not been tapped has no tap count. -/
def Record.Fresh (record : Record κ) : Prop :=
  record.event.pressed = true → record.tap.count = 0

@[simp] theorem delivered_processRecord (record : Record κ) (s : State κ) :
    (s.processRecord record).delivered = s.delivered ++ [record.event] := by
  simp [State.delivered, State.processRecord, Call.processed]

@[simp] theorem delivered_tapHint (record : Record κ) (s : State κ) :
    (s.processRecordTapHint record).delivered = s.delivered := by
  simp [State.delivered, State.processRecordTapHint, Call.processed]

@[simp] theorem delivered_withTapping (tapping : Option (Record κ)) (s : State κ) :
    State.delivered { s with tappingKey := tapping } = s.delivered := rfl

@[simp] theorem processRecord_tappingKey (record : Record κ) (s : State κ) :
    (s.processRecord record).tappingKey = s.tappingKey := rfl

@[simp] theorem processRecord_waitingBuffer (record : Record κ) (s : State κ) :
    (s.processRecord record).waitingBuffer = s.waitingBuffer := rfl

@[simp] theorem tapHint_tappingKey (record : Record κ) (s : State κ) :
    (s.processRecordTapHint record).tappingKey = s.tappingKey := rfl

@[simp] theorem tapHint_waitingBuffer (record : Record κ) (s : State κ) :
    (s.processRecordTapHint record).waitingBuffer = s.waitingBuffer := rfl

theorem undecided_eq {s : State κ} {tapping : Record κ} (key : s.tappingKey = some tapping) :
    s.undecided = if tapping.event.pressed && tapping.tap.count == 0 then [tapping.event] else [] := by
  rw [State.undecided, key]

theorem tapped_eq {s : State κ} {tapping : Record κ} (key : s.tappingKey = some tapping) :
    s.tapped =
      if tapping.event.pressed && tapping.tap.count != 0 then some tapping.event.key else none := by
  rw [State.tapped, key]

/-- How far the tapping key is from being settled; a consumed event sets it to at most two. -/
def State.weight (s : State κ) : Nat :=
  match s.tappingKey with
  | none => 0
  | some tapping =>
    if tapping.event.pressed then
      if tapping.tap.count = 0 then if tapping.tap.interrupted then 1 else 2 else 0
    else 1

theorem weight_eq {s : State κ} {tapping : Record κ} (key : s.tappingKey = some tapping) :
    s.weight =
      if tapping.event.pressed then
        if tapping.tap.count = 0 then if tapping.tap.interrupted then 1 else 2 else 0
      else 1 := by
  rw [State.weight, key]

theorem weight_le (s : State κ) : s.weight ≤ 2 := by
  rw [State.weight]
  split
  · omega
  · split_ifs <;> omega

/-- The waiting buffer keeps its events, and its presses have no tap count. -/
structure BufferKept (s s' : State κ) : Prop where
  events : s'.bufferEvents = s.bufferEvents
  fresh : (∀ record ∈ s.waitingBuffer, record.Fresh) → ∀ record ∈ s'.waitingBuffer, record.Fresh

theorem BufferKept.of_eq {s s' : State κ} (same : s'.waitingBuffer = s.waitingBuffer) :
    BufferKept s s' where
  events := by rw [State.bufferEvents, same, State.bufferEvents]
  fresh := by rw [same]; exact id

/-- A call leaves the records behind the tail, up to their tap counts. -/
theorem BufferKept.tail_events {s s' : State κ} {head : Record κ} {rest : List (Record κ)}
    (kept : BufferKept s s') (buffer : s.waitingBuffer = head :: rest) :
    s'.waitingBuffer.tail.map Record.event = rest.map Record.event := by
  have events := kept.events
  rw [State.bufferEvents, State.bufferEvents, buffer] at events
  rw [List.map_tail, events, List.map_cons, List.tail_cons]

/-- Ticks are not queued, and a queued press has no tap count. -/
structure Tidy (s : State κ) : Prop where
  events : ∀ event ∈ s.bufferEvents, event.isEvent = true
  fresh : ∀ record ∈ s.waitingBuffer, record.Fresh

theorem BufferKept.tidy {s s' : State κ} (kept : BufferKept s s') (tidy : Tidy s) : Tidy s' where
  events := kept.events ▸ tidy.events
  fresh := kept.fresh tidy.fresh

/-- A consumed record leaves the buffer. -/
theorem Tidy.consume {s s' : State κ} {head : Record κ} {rest : List (Record κ)} (tidy : Tidy s)
    (kept : BufferKept s s') (buffer : s.waitingBuffer = head :: rest) :
    Tidy { s' with waitingBuffer := s'.waitingBuffer.tail } where
  events := by
    have events := tidy.events
    rw [State.bufferEvents, buffer, List.map_cons, List.forall_mem_cons] at events
    rw [State.bufferEvents, kept.tail_events buffer]
    exact events.2
  fresh record member := kept.fresh tidy.fresh record (List.mem_of_mem_tail member)

theorem waitingBufferEnq_tick {record : Record κ} {s : State κ}
    (tick : record.event.isEvent = false) : waitingBufferEnq record s = some s := by
  rw [waitingBufferEnq, tick]
  rfl

theorem waitingBufferEnq_event {record : Record κ} {s : State κ}
    (event : record.event.isEvent = true) (room : s.waitingBuffer.length + 1 ≠ waitingBufferSize) :
    waitingBufferEnq record s = some { s with waitingBuffer := s.waitingBuffer ++ [record] } := by
  rw [waitingBufferEnq, event, if_neg (by simp), if_neg room]

end

variable {κ : Type} [DecidableEq κ] {settings : Settings κ}

/-! ## Effects -/

/-- What a call for the record `keyp` in the state `s` does to the events. -/
inductive Effect (keyp : Record κ) (s : State κ) : Outcome κ → Prop where
  /-- A tick that decides nothing. -/
  | skip (tick : keyp.event.isEvent = false) : Effect keyp s ⟨true, keyp, s⟩
  /-- The event is delivered.  While a tapping key is undecided this happens only to the
  release of a key that was pressed before; a repeated tap may be released first. -/
  | deliver (keyp' : Record κ) (s' : State κ) (extra : List (Event κ))
      (event : keyp.event.isEvent = true)
      (same : s'.undecided = s.undecided)
      (early : ∀ press ∈ s.undecided, press.key ≠ keyp.event.key ∧ keyp.event.pressed = false ∧
        waitingBufferTyped keyp.event s = false)
      (delivered : s'.delivered = s.delivered ++ extra ++ [keyp.event])
      (releases : ∀ release ∈ extra, release.pressed = false ∧ s.tapped = some release.key)
      (tapped : ∀ key, s'.tapped = some key →
        keyp.event.key = key ∧ keyp.event.pressed = true ∨
        keyp.event.key ≠ key ∧ extra = [] ∧ s.tapped = some key) :
      Effect keyp s ⟨true, keyp', s'⟩
  /-- The event is the press of the next undecided tapping key. -/
  | start (s' : State κ) (extra : List (Event κ))
      (event : keyp.event.isEvent = true)
      (decided : s.undecided = [])
      (starts : s'.undecided = [keyp.event])
      (delivered : s'.delivered = s.delivered ++ extra)
      (releases : ∀ release ∈ extra, release.pressed = false ∧ s.tapped = some release.key)
      (tapped : s'.tapped = none) : Effect keyp s ⟨true, keyp, s'⟩
  /-- The event has to wait, and nothing is delivered. -/
  | keep (s' : State κ)
      (same : s'.undecided = s.undecided)
      (delivered : s'.delivered = s.delivered)
      (tapped : s'.tapped = none)
      (lighter : s'.weight < s.weight ∨ s' = s ∧ s.undecided ≠ [] ∧ keyp.event.isEvent = true) :
      Effect keyp s ⟨false, keyp, s'⟩
  /-- The event decides the tapping key, and has to wait itself. -/
  | resolve (keyp' : Record κ) (s' : State κ) (press : Event κ)
      (waits : keyp'.event = keyp.event)
      (marks : keyp' = keyp ∨ keyp.event.pressed = false)
      (undecided : s.undecided = [press])
      (pressed : press.pressed = true)
      (resolved : s'.undecided = [])
      (delivered : s'.delivered = s.delivered ++ [press])
      (tapped : ∀ key, s'.tapped = some key → press.key = key)
      (lighter : s'.weight < s.weight) : Effect keyp s ⟨false, keyp', s'⟩

/-! ## Scan for a tap -/

theorem markTap_events {s : State κ} {tapping : Record κ} {buffer marked : List (Record κ)}
    (found : markTap settings s tapping buffer = some marked) :
    marked.map Record.event = buffer.map Record.event := by
  induction buffer generalizing marked with
  | nil => simp [markTap] at found
  | cons candidate rest ih =>
    rw [markTap] at found
    split at found
    · cases found
      rfl
    · obtain ⟨tail, tailFound, rfl⟩ := Option.map_eq_some_iff.mp found
      simp [ih tailFound]

/-- Only releases are marked. -/
theorem markTap_fresh {s : State κ} {tapping : Record κ} {buffer marked : List (Record κ)}
    (found : markTap settings s tapping buffer = some marked)
    (fresh : ∀ record ∈ buffer, record.Fresh) : ∀ record ∈ marked, record.Fresh := by
  induction buffer generalizing marked with
  | nil => simp [markTap] at found
  | cons candidate rest ih =>
    rw [List.forall_mem_cons] at fresh
    rw [markTap] at found
    split at found
    · next marks =>
      cases found
      simp only [Bool.and_eq_true, Bool.not_eq_true'] at marks
      refine List.forall_mem_cons.mpr ⟨fun pressed => ?_, fresh.2⟩
      rw [marks.1.2] at pressed
      cases pressed
    · obtain ⟨tail, tailFound, rfl⟩ := Option.map_eq_some_iff.mp found
      exact List.forall_mem_cons.mpr ⟨fresh.1, ih tailFound fresh.2⟩

/-- A scan finds no tap, or it marks one and delivers the press of the tapping key. -/
theorem waitingBufferScanTap_cases (settings : Settings κ) (s : State κ) :
    waitingBufferScanTap settings s = s ∨
    ∃ tapping marked, s.tappingKey = some tapping ∧
      markTap settings s tapping s.waitingBuffer = some marked ∧
      waitingBufferScanTap settings s =
        State.processRecord { tapping with tap.count := 1 }
          { s with tappingKey := some { tapping with tap.count := 1 }, waitingBuffer := marked } := by
  cases key : s.tappingKey with
  | none => exact .inl (by simp only [waitingBufferScanTap, key])
  | some tapping =>
    simp only [waitingBufferScanTap, key]
    split
    · exact .inl rfl
    · cases found : markTap settings s tapping s.waitingBuffer with
      | none => exact .inl rfl
      | some marked => exact .inr ⟨tapping, marked, rfl, found, rfl⟩

theorem waitingBufferScanTap_kept {s pressed : State κ}
    (buffer : pressed.waitingBuffer = s.waitingBuffer) :
    BufferKept s (waitingBufferScanTap settings pressed) := by
  cases waitingBufferScanTap_cases settings pressed with
  | inl same =>
    rw [same]
    exact .of_eq buffer
  | inr found =>
    obtain ⟨tapping, marked, key, found, scan⟩ := found
    rw [scan]
    rw [buffer] at found
    exact ⟨markTap_events found, markTap_fresh found⟩

/-- The press of a tapping key starts it, or delivers it when its tap waits in the buffer. -/
theorem waitingBufferScanTap_effect {keyp : Record κ} {s pressed : State κ}
    (extra : List (Event κ)) (event : keyp.event.isEvent = true)
    (press : keyp.event.pressed = true) (fresh : keyp.Fresh) (decided : s.undecided = [])
    (key : pressed.tappingKey = some keyp) (delivered : pressed.delivered = s.delivered ++ extra)
    (releases : ∀ release ∈ extra, release.pressed = false ∧ s.tapped = some release.key) :
    Effect keyp s ⟨true, keyp, waitingBufferScanTap settings pressed⟩ := by
  have count : keyp.tap.count = 0 := fresh press
  -- without a tap in the buffer the key stays undecided, otherwise its press goes out at once
  cases waitingBufferScanTap_cases settings pressed with
  | inl same =>
    rw [same]
    refine .start pressed extra event decided ?_ delivered releases ?_
    · simp [undecided_eq key, press, count]
    · simp [tapped_eq key, count]
  | inr found =>
    obtain ⟨tapping, marked, tappingKey, -, scan⟩ := found
    obtain rfl : tapping = keyp := Option.some.inj (tappingKey.symm.trans key)
    rw [scan]
    refine .deliver tapping _ extra event ?_ ?_ ?_ releases ?_
    · rw [decided]
      simp [State.undecided]
    · simp [decided]
    · rw [delivered_processRecord, ← delivered]
      rfl
    · simp [State.tapped, press]

/-! ## Effect of each phase -/

theorem processIdle_effect {keyp : Record κ} {s : State κ} (fresh : keyp.Fresh)
    (idle : s.tappingKey = none) : Effect keyp s (processIdle settings keyp s) := by
  have decided : s.undecided = [] := by simp [State.undecided, idle]
  rw [processIdle]
  split_ifs with tick tap
  · exact .skip (by simpa using tick)
  · simp only [Bool.and_eq_true] at tap
    exact waitingBufferScanTap_effect [] (by simpa using tick) tap.1 fresh decided rfl
      (by simp) (by simp)
  · refine .deliver keyp _ [] (by simpa using tick) rfl ?_ ?_ ?_ ?_
    · simp [decided]
    · simp
    · simp
    · simp [State.tapped, idle]

theorem endTapping_effect {keyp tapping held : Record κ} {s : State κ}
    (key : s.tappingKey = some tapping) (pressed : tapping.event.pressed = true)
    (count : tapping.tap.count = 0) (same : held.event = tapping.event) :
    Effect keyp s ⟨false, keyp, s.endTapping held⟩ := by
  refine .resolve keyp _ tapping.event rfl (.inl rfl) ?_ pressed rfl ?_ ?_ ?_
  · simp [undecided_eq key, pressed, count]
  · rw [← same]
    exact delivered_processRecord held s
  · simp [State.tapped, State.endTapping]
  · rw [weight_eq key, if_pos pressed, if_pos count]
    cases tapping.tap.interrupted <;> simp [State.weight, State.endTapping]

theorem processUndecided_effect {keyp tapping : Record κ} {s : State κ}
    (event : keyp.event.isEvent = true) (key : s.tappingKey = some tapping)
    (pressed : tapping.event.pressed = true) (count : tapping.tap.count = 0) :
    Effect keyp s (processUndecided settings keyp tapping s) := by
  have undecided : s.undecided = [tapping.event] := by simp [undecided_eq key, pressed, count]
  have heavy : 0 < s.weight := by
    rw [weight_eq key, if_pos pressed, if_pos count]
    split_ifs <;> omega
  simp only [processUndecided]
  split_ifs with first hold release retains other hold
  · -- first tap: the press is delivered, its release is queued with the tap count
    simp only [Bool.and_eq_true, Bool.not_eq_true'] at first
    refine .resolve _ _ tapping.event rfl (.inr first.2) undecided pressed ?_ ?_ ?_ ?_
    · simp [State.undecided]
    · simp
    · simp [State.tapped, pressed]
    · simpa [State.weight, pressed] using heavy
  · exact endTapping_effect key pressed count rfl
  · -- a modifier or layer key that was down before keeps its release back
    exact .keep s rfl rfl (by simp [tapped_eq key, count])
      (.inr ⟨rfl, by simp [undecided], event⟩)
  · -- the release of a key that was down before goes out at once
    simp only [Bool.and_eq_true, Bool.not_eq_true'] at release
    refine .deliver keyp _ [] event rfl ?_ ?_ ?_ ?_
    · rw [undecided]
      intro press member
      obtain rfl := List.mem_singleton.mp member
      refine ⟨fun same => first ?_, release⟩
      simp [isTappingRecord, same, release.1]
    · simp
    · simp
    · simp [State.tapped, key, count]
  · exact endTapping_effect key pressed count rfl
  · -- the first interruption sets the flag, a later one changes nothing
    refine .keep _ ?_ rfl ?_ ?_
    · rw [undecided]
      simp [State.undecided, pressed, count]
    · simp [State.tapped, count]
    · cases interrupted : tapping.tap.interrupted with
      | false =>
        left
        simp [State.weight, key, pressed, count, interrupted]
      | true =>
        right
        refine ⟨?_, by simp [undecided], event⟩
        rw [← interrupted, ← key]
  · exact .keep s rfl rfl (by simp [tapped_eq key, count])
      (.inr ⟨rfl, by simp [undecided], event⟩)

/-- An event of another key, or one that is no tap, passes while the tapping key is decided. -/
theorem Effect.pass {keyp : Record κ} {s s' : State κ} (event : keyp.event.isEvent = true)
    (decided : s.undecided = []) (same : s'.undecided = []) (tapped : s'.tapped = s.tapped)
    (other : s.tapped = some keyp.event.key → keyp.event.pressed = true)
    (delivered : s'.delivered = s.delivered ++ [keyp.event]) :
    Effect keyp s ⟨true, keyp, s'⟩ := by
  refine .deliver keyp s' [] event (same.trans decided.symm) ?_ ?_ ?_ ?_
  · simp [decided]
  · simpa using delivered
  · simp
  · intro key isTapped
    rw [tapped] at isTapped
    by_cases own : keyp.event.key = key
    · exact .inl ⟨own, other (own ▸ isTapped)⟩
    · exact .inr ⟨own, rfl, isTapped⟩

/-- In both uses the tapping key becomes `none` or the released record. -/
theorem processTapped_effect {released : Record κ → Option (Record κ)}
    {keyp tapping : Record κ} {s : State κ} (event : keyp.event.isEvent = true)
    (fresh : keyp.Fresh) (key : s.tappingKey = some tapping)
    (pressed : tapping.event.pressed = true) (count : tapping.tap.count ≠ 0)
    (release : ∀ record next, released record = some next → next = record) :
    Effect keyp s (processTapped settings released keyp tapping s) := by
  have decided : s.undecided = [] := by simp [undecided_eq key, count]
  have tapped : s.tapped = some tapping.event.key := by simp [tapped_eq key, pressed, count]
  simp only [processTapped]
  split_ifs with own tap repeated
  · -- the release of the tapping key itself
    simp only [Bool.and_eq_true, Bool.not_eq_true'] at own
    have gone : ∀ next, released { keyp with tap := tapping.tap } = some next →
        next.event.pressed = false := by
      intro next found
      rw [release _ _ found]
      exact own.2
    refine .deliver _ _ [] event ?_ ?_ ?_ ?_ ?_
    · rw [decided, State.undecided]
      cases found : released { keyp with tap := tapping.tap } with
      | none => rfl
      | some next => simp [gone next found]
    · simp [decided]
    · rw [List.append_nil]
      exact delivered_processRecord _ s
    · simp
    · rw [State.tapped]
      cases found : released { keyp with tap := tapping.tap } with
      | none => simp
      | some next => simp [gone next found]
  · -- another tapping key starts, and the repeated tap is released before it
    simp only [Bool.and_eq_true] at tap
    refine waitingBufferScanTap_effect [(unregister tapping keyp.event).event] event tap.2
      fresh decided rfl (delivered_processRecord _ s) ?_
    simp [unregister, tapped]
  · simp only [Bool.and_eq_true] at tap
    exact waitingBufferScanTap_effect [] event tap.2 fresh decided rfl (by simp) (by simp)
  · refine Effect.pass event decided decided rfl ?_ ?_
    · intro same
      rw [tapped, Option.some_inj] at same
      simpa [isTappingRecord, same] using own
    · simp

theorem Tap.next_count_ne_zero {tap : Tap} (tapped : 0 < tap.count) : tap.next.count ≠ 0 := by
  rw [Tap.next]
  split
  · exact Nat.succ_ne_zero tap.count
  · exact tapped.ne'

theorem processReleased_effect {keyp tapping : Record κ} {s : State κ}
    (event : keyp.event.isEvent = true) (fresh : keyp.Fresh) (key : s.tappingKey = some tapping)
    (released : tapping.event.pressed = false) :
    Effect keyp s (processReleased settings keyp tapping s) := by
  have decided : s.undecided = [] := by simp [undecided_eq key, released]
  have untapped : s.tapped = none := by simp [tapped_eq key, released]
  simp only [processReleased]
  split_ifs with press own quick tap
  · -- sequential tap: the count goes up and the press is delivered at once
    simp only [Bool.and_eq_true, decide_eq_true_eq] at quick
    have count := Tap.next_count_ne_zero quick.2
    refine .deliver _ _ [] event ?_ ?_ ?_ ?_ ?_
    · rw [decided]
      simp [State.undecided, count]
    · simp [decided]
    · rw [List.append_nil]
      exact delivered_processRecord _ s
    · simp
    · simp [State.tapped, press]
  · -- an interrupted tap starts again, without a scan of the buffer
    have count : keyp.tap.count = 0 := fresh press
    refine .start _ [] event decided ?_ ?_ ?_ ?_
    · simp [State.undecided, press, count]
    · simp
    · simp
    · simp [State.tapped, count]
  · exact waitingBufferScanTap_effect [] event press fresh decided rfl (by simp) (by simp)
  · refine Effect.pass event decided ?_ ?_ ?_ ?_
    · simp [State.undecided, released]
    · rw [untapped]
      simp [State.tapped, released]
    · simp [untapped]
    · simp
  · refine Effect.pass event decided decided rfl ?_ (delivered_processRecord _ s)
    simp [untapped]

/-! ## Effect of a call -/

theorem processTapping_effect (settings : Settings κ) {keyp : Record κ} (s : State κ) (fresh : keyp.Fresh) :
    Effect keyp s (processTapping settings keyp s) := by
  rw [processTapping]
  cases key : s.tappingKey with
  | none => exact processIdle_effect fresh key
  | some tapping =>
    simp only []
    -- the branches of `process_tapping`: key down or up, within the term or not
    split_ifs with pressed within tick count count tick within tick
    · exact .skip (by simpa using tick)
    · exact processUndecided_effect (by simpa using tick) key pressed count
    · refine processTapped_effect (by simpa using tick) fresh key pressed count ?_
      intro record next same
      exact (Option.some.inj same).symm
    · exact endTapping_effect key pressed count rfl
    · exact .skip (by simpa using tick)
    · refine processTapped_effect (by simpa using tick) fresh key pressed count ?_
      simp
    · exact .skip (by simpa using tick)
    · exact processReleased_effect (by simpa using tick) fresh key (by simpa using pressed)
    · -- the released key has timed out; the event waits for the next round
      refine .keep _ ?_ rfl rfl ?_
      · rw [undecided_eq key, if_neg (by simp [pressed])]
        rfl
      · left
        rw [weight_eq key, if_neg pressed]
        exact Nat.zero_lt_one

/-! ## Waiting buffer of a call -/

theorem processIdle_kept (keyp : Record κ) (s : State κ) :
    BufferKept s (processIdle settings keyp s).state := by
  simp only [processIdle]
  split_ifs
  · exact .of_eq rfl
  · dsimp only
    exact waitingBufferScanTap_kept rfl
  · exact .of_eq rfl

theorem processUndecided_kept (keyp tapping : Record κ) (s : State κ) :
    BufferKept s (processUndecided settings keyp tapping s).state := by
  simp only [processUndecided]
  split_ifs <;> exact .of_eq rfl

theorem processTapped_kept (released : Record κ → Option (Record κ)) (keyp tapping : Record κ)
    (s : State κ) : BufferKept s (processTapped settings released keyp tapping s).state := by
  simp only [processTapped]
  split_ifs
  · exact .of_eq rfl
  · dsimp only
    exact waitingBufferScanTap_kept rfl
  · dsimp only
    exact waitingBufferScanTap_kept rfl
  · exact .of_eq rfl

theorem processReleased_kept (keyp tapping : Record κ) (s : State κ) :
    BufferKept s (processReleased settings keyp tapping s).state := by
  simp only [processReleased]
  split_ifs
  · exact .of_eq rfl
  · exact .of_eq rfl
  · dsimp only
    exact waitingBufferScanTap_kept rfl
  · exact .of_eq rfl
  · exact .of_eq rfl

/-- The waiting buffer only changes where a tap is marked in it. -/
theorem processTapping_kept (settings : Settings κ) (keyp : Record κ) (s : State κ) :
    BufferKept s (processTapping settings keyp s).state := by
  rw [processTapping]
  cases s.tappingKey with
  | none => exact processIdle_kept keyp s
  | some tapping =>
    simp only []
    split_ifs
    · exact .of_eq rfl
    · exact processUndecided_kept keyp tapping s
    · exact processTapped_kept some keyp tapping s
    · exact .of_eq rfl
    · exact .of_eq rfl
    · exact processTapped_kept (fun _ => none) keyp tapping s
    · exact .of_eq rfl
    · exact processReleased_kept keyp tapping s
    · exact .of_eq rfl

/-! ## Acceptance of a record -/

theorem acceptRecord_consumed {record keyp' : Record κ} {s s' : State κ}
    (outcome : processTapping settings record s = ⟨true, keyp', s'⟩) :
    acceptRecord settings record s = s' := by
  rw [acceptRecord, outcome, if_pos rfl]

theorem acceptRecord_waits {record keyp' : Record κ} {s s' : State κ}
    (outcome : processTapping settings record s = ⟨false, keyp', s'⟩) :
    acceptRecord settings record s = (waitingBufferEnq keyp' s').getD s'.clearAll := by
  rw [acceptRecord, outcome, if_neg Bool.false_ne_true]

/-! ## The loop over the waiting buffer -/

section

variable {head keyp' : Record κ} {rest : List (Record κ)} {s s' : State κ}

theorem processWaitingBuffer_consumed (fuel : Nat) (buffer : s.waitingBuffer = head :: rest)
    (outcome : processTapping settings head s = ⟨true, keyp', s'⟩) :
    processWaitingBuffer settings (fuel + 1) s =
      processWaitingBuffer settings fuel { s' with waitingBuffer := s'.waitingBuffer.tail } := by
  simp only [processWaitingBuffer, buffer, outcome, if_true]

theorem processWaitingBuffer_waits (fuel : Nat) (buffer : s.waitingBuffer = head :: rest)
    (outcome : processTapping settings head s = ⟨false, keyp', s'⟩) :
    processWaitingBuffer settings (fuel + 1) s =
      { s' with waitingBuffer := keyp' :: s'.waitingBuffer.tail } := by
  simp only [processWaitingBuffer, buffer, outcome, Bool.false_eq_true, if_false]

/-- The length of the buffer is enough fuel. -/
theorem processWaitingBuffer_fuel (fuel : Nat) (enough : s.waitingBuffer.length ≤ fuel) :
    processWaitingBuffer settings (fuel + 1) s = processWaitingBuffer settings fuel s := by
  -- each round takes one record off the buffer, or stops
  induction fuel generalizing s with
  | zero =>
    have empty : s.waitingBuffer = [] := List.eq_nil_of_length_eq_zero (Nat.le_zero.mp enough)
    simp only [processWaitingBuffer, empty]
  | succ fuel ih =>
    cases buffer : s.waitingBuffer with
    | nil => simp only [processWaitingBuffer, buffer]
    | cons head rest =>
      have kept := processTapping_kept settings head s
      cases outcome : processTapping settings head s with
      | mk consumed keyp' s' =>
        rw [outcome] at kept
        have length : s'.waitingBuffer.tail.length = rest.length := by
          simpa using congrArg List.length (kept.tail_events buffer)
        rw [buffer, List.length_cons] at enough
        cases consumed with
        | true =>
          rw [processWaitingBuffer_consumed _ buffer outcome,
            processWaitingBuffer_consumed _ buffer outcome]
          exact ih (by rw [length]; omega)
        | false =>
          rw [processWaitingBuffer_waits _ buffer outcome,
            processWaitingBuffer_waits _ buffer outcome]

end

end QmkFirmware.Tapping
