import QmkFirmware.Foundations.Runs

/-! # Secure unlocking

A shallow embedding of `quantum/secure.c` and `quantum/process_keycode/process_secure.c`.  The
keys of the unlock sequence are counted in a variable of their own, which neither a lock nor a
timeout nor a new request resets; `unlock_needs_whole_sequence` says what is promised in spite
of that.
-/

namespace QmkFirmware.Secure

open QmkFirmware.Runs

/-! ## Model -/

inductive SecureStatus where
  | locked
  | pending
  | unlocked
  deriving DecidableEq, Repr

abbrev KeyPosition : Type := UInt8 × UInt8

/-- The constants of a keyboard.  A timeout of zero is switched off. -/
structure Config where
  secureUnlockTimeout : UInt32
  secureIdleTimeout : UInt32
  sequence : List KeyPosition
  nonempty : sequence ≠ []

def Config.sequenceLen (cfg : Config) : UInt8 := UInt8.ofNat cfg.sequence.length

/-- The static variables, and the calls of `secure_hook` so far. -/
structure State where
  secureStatus : SecureStatus
  unlockTime : UInt32
  idleTime : UInt32
  offset : UInt8
  hooked : List SecureStatus

def secureHook (s : State) : State := { s with hooked := s.hooked ++ [s.secureStatus] }

def secureLock (s : State) : State := secureHook { s with secureStatus := .locked }

def secureUnlock (now : UInt32) (s : State) : State :=
  secureHook { s with secureStatus := .unlocked, idleTime := now }

def secureRequestUnlock (now : UInt32) (s : State) : State :=
  secureHook (if s.secureStatus = .locked then { s with secureStatus := .pending, unlockTime := now } else s)

def secureActivityEvent (now : UInt32) (s : State) : State :=
  if s.secureStatus = .unlocked then { s with idleTime := now } else s

section

variable (cfg : Config)

def secureKeypressEvent (now : UInt32) (row col : UInt8) (s : State) : State :=
  if cfg.sequence[s.offset.toNat]? = some (row, col) then
    let s := { s with offset := s.offset + 1 }
    if s.offset = cfg.sequenceLen then secureUnlock now { s with offset := 0 } else s
  else secureLock { s with offset := 0 }

def secureTask (now : UInt32) (s : State) : State :=
  let s :=
    if cfg.secureUnlockTimeout ≠ 0 ∧ s.secureStatus = .pending ∧ now - s.unlockTime ≥ cfg.secureUnlockTimeout then
      secureLock s
    else s
  if cfg.secureIdleTimeout ≠ 0 ∧ s.secureStatus = .unlocked ∧ now - s.idleTime ≥ cfg.secureIdleTimeout then
    secureLock s
  else s

/-- The result tells whether the key is processed further. -/
def preprocessSecure (now : UInt32) (row col : UInt8) (pressed : Bool) (s : State) : Bool × State :=
  if s.secureStatus = .pending then
    (false, if pressed then secureKeypressEvent cfg now row col s else s)
  else (true, s)

inductive Keycode where
  | secureLock
  | secureUnlock
  | secureToggle
  | secureRequest
  | other
  deriving DecidableEq, Repr

def processSecure (now : UInt32) (keycode : Keycode) (pressed : Bool) (s : State) : Bool × State :=
  if pressed then (true, s)
  else
    match keycode with
    | .secureLock => (false, secureLock s)
    | .secureUnlock => (false, secureUnlock now s)
    | .secureToggle => (false, if s.secureStatus = .locked then secureUnlock now s else secureLock s)
    | .secureRequest => (false, secureRequestUnlock now s)
    | .other => (true, s)

/-- What can happen to the state. -/
inductive Action where
  | requestUnlock
  | lock
  | unlock
  | activity
  | task
  | key (row col : UInt8) (pressed : Bool)
  | keycode (keycode : Keycode) (pressed : Bool)
  deriving DecidableEq, Repr

/-- An action, and the time of the timer then. -/
structure Event where
  action : Action
  now : UInt32
  deriving DecidableEq, Repr

def State.step (s : State) (event : Event) : State :=
  match event.action with
  | .requestUnlock => secureRequestUnlock event.now s
  | .lock => secureLock s
  | .unlock => secureUnlock event.now s
  | .activity => secureActivityEvent event.now s
  | .task => secureTask cfg event.now s
  | .key row col pressed => (preprocessSecure cfg event.now row col pressed s).2
  | .keycode keycode pressed => (processSecure event.now keycode pressed s).2

/-! ## Attempts -/

/-- A state with the keys pressed since it last became pending. -/
structure Watch where
  state : State
  presses : List KeyPosition

def Action.presses : Action → List KeyPosition
  | .key row col true => [(row, col)]
  | _ => []

/-- The event makes the state pending. -/
def Watch.Begins (w : Watch) (event : Event) : Prop :=
  w.state.secureStatus ≠ .pending ∧ (w.state.step cfg event).secureStatus = .pending

instance (w : Watch) (event : Event) : Decidable (w.Begins cfg event) :=
  inferInstanceAs (Decidable (_ ∧ _))

def Watch.step (w : Watch) (event : Event) : Watch where
  state := w.state.step cfg event
  presses := if w.Begins cfg event then [] else w.presses ++ event.action.presses

/-- The event is the press of a key, and it unlocks. -/
def Watch.Unlocks (w : Watch) (event : Event) : Prop :=
  event.action.presses ≠ [] ∧ w.state.secureStatus ≠ .unlocked ∧
    (w.state.step cfg event).secureStatus = .unlocked

instance (w : Watch) (event : Event) : Decidable (w.Unlocks cfg event) :=
  inferInstanceAs (Decidable (_ ∧ _ ∧ _))

def Watch.start (unlockTime idleTime : UInt32) : Watch := ⟨⟨.locked, unlockTime, idleTime, 0, []⟩, []⟩

/-- An event that makes the state pending finds the count at zero. -/
def Watch.StartsOver (w : Watch) (event : Event) : Prop := w.Begins cfg event → w.state.offset = 0

instance (w : Watch) (event : Event) : Decidable (w.StartsOver cfg event) :=
  inferInstanceAs (Decidable (_ → _))

/-- The cases of a key that is pressed while the state is pending. -/
inductive KeypressStep (now : UInt32) (key : KeyPosition) (s : State) : State → Prop where
  | completes (matched : cfg.sequence[s.offset.toNat]? = some key) (last : s.offset + 1 = cfg.sequenceLen) :
      KeypressStep now key s (secureUnlock now { s with offset := 0 })
  | advances (matched : cfg.sequence[s.offset.toNat]? = some key) (more : s.offset + 1 ≠ cfg.sequenceLen) :
      KeypressStep now key s { s with offset := s.offset + 1 }
  | fails (other : cfg.sequence[s.offset.toNat]? ≠ some key) :
      KeypressStep now key s (secureLock { s with offset := 0 })

theorem secureKeypressEvent_step (now : UInt32) (row col : UInt8) (s : State) :
    KeypressStep cfg now (row, col) s (secureKeypressEvent cfg now row col s) := by
  rw [secureKeypressEvent]
  by_cases matched : cfg.sequence[s.offset.toNat]? = some (row, col)
  · rw [if_pos matched]
    by_cases last : s.offset + 1 = cfg.sequenceLen
    · simp only [last, if_true]
      exact .completes matched last
    · simp only [last, if_false]
      exact .advances matched last
  · rw [if_neg matched]
    exact .fails matched

/-- What an event does to the status and to the count. -/
inductive EventStep (s : State) (event : Event) : State → Prop where
  | quiet {next : State} (none : event.action.presses = []) (same : next.offset = s.offset) :
      EventStep s event next
  | ignored {key : KeyPosition} (press : event.action.presses = [key]) (other : s.secureStatus ≠ .pending) :
      EventStep s event s
  | counted {key : KeyPosition} {next : State} (press : event.action.presses = [key])
      (pending : s.secureStatus = .pending) (step : KeypressStep cfg event.now key s next) :
      EventStep s event next

theorem secureTask_offset (now : UInt32) (s : State) : (secureTask cfg now s).offset = s.offset := by
  simp only [secureTask]
  split <;> split <;> rfl

theorem event_step (s : State) (event : Event) : EventStep cfg s event (s.step cfg event) := by
  obtain ⟨action, now⟩ := event
  cases action with
  | requestUnlock =>
    refine .quiet rfl ?_
    simp only [State.step, secureRequestUnlock, secureHook]
    split <;> rfl
  | lock => exact .quiet rfl rfl
  | unlock => exact .quiet rfl rfl
  | activity =>
    refine .quiet rfl ?_
    simp only [State.step, secureActivityEvent]
    split <;> rfl
  | task => exact .quiet rfl (secureTask_offset cfg now s)
  | key row col pressed =>
    cases pressed with
    | false =>
      refine .quiet rfl ?_
      simp only [State.step, preprocessSecure]
      split <;> rfl
    | true =>
      simp only [State.step, preprocessSecure]
      by_cases pending : s.secureStatus = .pending
      · rw [if_pos pending]
        exact .counted rfl pending (secureKeypressEvent_step cfg now row col s)
      · rw [if_neg pending]
        exact .ignored rfl pending
  | keycode keycode pressed =>
    refine .quiet rfl ?_
    simp only [State.step, processSecure]
    cases pressed with
    | true => rfl
    | false =>
      cases keycode with
      | secureLock => rfl
      | secureUnlock => rfl
      | secureToggle =>
        simp only [Bool.false_eq_true, if_false]
        split <;> rfl
      | secureRequest =>
        simp only [Bool.false_eq_true, if_false, secureRequestUnlock, secureHook]
        split <;> rfl
      | other => rfl

/-! ## The count -/

/-- The count is that of the keys in this attempt. -/
structure Counted (w : Watch) : Prop where
  inside : w.state.offset.toNat < cfg.sequence.length
  pending : w.state.secureStatus = .pending → w.presses = cfg.sequence.take w.state.offset.toNat

variable {cfg}

/-- The count and the length are bytes, which is enough for 256 keys. -/
theorem last_iff (short : cfg.sequence.length ≤ 256) {offset : UInt8} (inside : offset.toNat < cfg.sequence.length) :
    offset + 1 = cfg.sequenceLen ↔ offset.toNat + 1 = cfg.sequence.length := by
  have small := offset.toNat_lt
  rw [Config.sequenceLen, ← UInt8.toNat_inj, UInt8.toNat_add, UInt8.toNat_ofNat']
  have one : (1 : UInt8).toNat = 1 := rfl
  omega

theorem offset_succ (short : cfg.sequence.length ≤ 256) {offset : UInt8}
    (inside : offset.toNat < cfg.sequence.length) (more : offset + 1 ≠ cfg.sequenceLen) :
    (offset + 1).toNat = offset.toNat + 1 ∧ offset.toNat + 1 < cfg.sequence.length := by
  have notLast := mt (last_iff short inside).mpr more
  rw [UInt8.toNat_add]
  have one : (1 : UInt8).toNat = 1 := rfl
  omega

theorem presses_of_pending {w : Watch} (pending : w.state.secureStatus = .pending) (event : Event) :
    (w.step cfg event).presses = w.presses ++ event.action.presses :=
  if_neg fun begins => begins.1 pending

theorem presses_of_begins {w : Watch} {event : Event} (begins : w.Begins cfg event) :
    (w.step cfg event).presses = [] := if_pos begins

/-- A key that continues the sequence. -/
theorem take_matched {w : Watch} (counted : Counted cfg w) (pending : w.state.secureStatus = .pending) {event : Event}
    {key : KeyPosition} (press : event.action.presses = [key])
    (matched : cfg.sequence[w.state.offset.toNat]? = some key) :
    (w.step cfg event).presses = cfg.sequence.take (w.state.offset.toNat + 1) := by
  rw [presses_of_pending pending, press, counted.pending pending, List.take_add_one, matched]
  rfl

theorem Counted.step (short : cfg.sequence.length ≤ 256) {w : Watch} {event : Event} (counted : Counted cfg w)
    (fresh : w.StartsOver cfg event) : Counted cfg (w.step cfg event) := by
  have positive : 0 < cfg.sequence.length := List.length_pos_iff.mpr cfg.nonempty
  have step := event_step cfg w.state event
  have state : (w.step cfg event).state = w.state.step cfg event := rfl
  generalize eq : w.state.step cfg event = next at step state
  cases step with
  | quiet none same =>
    rw [← state] at same
    constructor
    · rw [same]
      exact counted.inside
    · intro pending
      by_cases before : w.state.secureStatus = .pending
      · rw [presses_of_pending before, none, List.append_nil, same]
        exact counted.pending before
      · have begins : w.Begins cfg event := ⟨before, pending⟩
        rw [presses_of_begins begins, same, fresh begins]
        rfl
  | ignored press other =>
    constructor
    · rw [state]
      exact counted.inside
    · intro pending
      rw [state] at pending
      exact absurd pending other
  | counted press pending step =>
    cases step with
    | completes => exact ⟨state ▸ positive, state ▸ nofun⟩
    | fails => exact ⟨state ▸ positive, state ▸ nofun⟩
    | advances matched more =>
      obtain ⟨next, room⟩ := offset_succ short counted.inside more
      constructor
      · rw [state, next]
        exact room
      · intro _
        rw [take_matched counted pending press matched, state, next]

theorem Counted.unlocks (short : cfg.sequence.length ≤ 256) {w : Watch} {event : Event} (counted : Counted cfg w)
    (unlocks : w.Unlocks cfg event) : (w.step cfg event).presses = cfg.sequence := by
  obtain ⟨press, locked, opened⟩ := unlocks
  have step := event_step cfg w.state event
  generalize w.state.step cfg event = next at step opened
  cases step with
  | quiet none => exact absurd none press
  | ignored => exact absurd opened locked
  | counted press pending step =>
    cases step with
    | fails => cases opened
    | advances => exact absurd (pending.symm.trans opened) (by decide)
    | completes matched last =>
      have all := (last_iff short counted.inside).mp last
      rw [take_matched counted pending press matched, all, List.take_length]

end

/-- In every run in which each attempt starts with the count at zero, a key press unlocks only if
the keys pressed since the state became pending are those of the sequence. -/
theorem unlock_needs_whole_sequence (cfg : Config) (short : cfg.sequence.length ≤ 256) (unlockTime idleTime : UInt32)
    (events : List Event)
    (fresh : EveryStep (fun earlier event =>
      (earlier.foldl (Watch.step cfg) (.start unlockTime idleTime)).StartsOver cfg event) events) :
    EveryStep (fun earlier event =>
      let w := earlier.foldl (Watch.step cfg) (.start unlockTime idleTime)
      w.Unlocks cfg event → (w.step cfg event).presses = cfg.sequence) events := by
  intro n bound
  have initial : Counted cfg (.start unlockTime idleTime) :=
    ⟨List.length_pos_iff.mpr cfg.nonempty, nofun⟩
  have counted : Counted cfg ((events.take n).foldl (Watch.step cfg) (.start unlockTime idleTime)) :=
    foldl_everyStep _ (fun _ w => Counted cfg w) initial
      (fun _ _ starts counted => counted.step short starts) (events.take n) (fresh.take n)
  exact counted.unlocks short

/-- The sequence of the test suite. -/
def testConfig : Config := ⟨20, 50, [(0, 1), (0, 2), (0, 3), (0, 4)], by decide⟩

def press (col : UInt8) (now : UInt32) : Event := ⟨.key 0 col true, now⟩

/-- A wrong key, and then the whole sequence. -/
def secondAttempt : List Event :=
  [⟨.requestUnlock, 1⟩, press 1 2, press 5 3, ⟨.requestUnlock, 4⟩, press 1 5, press 2 6, press 3 7, press 4 8]

theorem secondAttempt_needs_whole_sequence :
    (secondAttempt.foldl (Watch.step testConfig) (.start 0 0)).state.secureStatus = .unlocked ∧
    EveryStep (fun earlier event =>
      (earlier.foldl (Watch.step testConfig) (.start 0 0)).StartsOver testConfig event) secondAttempt ∧
    EveryStep (fun earlier event =>
      let w := earlier.foldl (Watch.step testConfig) (.start 0 0)
      w.Unlocks testConfig event → (w.step testConfig event).presses = testConfig.sequence) secondAttempt := by
  have fresh : EveryStep (fun earlier event =>
      (earlier.foldl (Watch.step testConfig) (.start 0 0)).StartsOver testConfig event) secondAttempt := by decide
  exact ⟨by decide, fresh, unlock_needs_whole_sequence testConfig (by decide) 0 0 secondAttempt fresh⟩

/-- The first key is pressed before the timeout and the others after it. -/
def splitAttempt : List Event :=
  [⟨.requestUnlock, 1⟩, press 1 2, ⟨.task, 30⟩, ⟨.requestUnlock, 31⟩, press 2 32, press 3 33, press 4 34]

theorem splitAttempt_unlocks :
    ¬EveryStep (fun earlier event =>
      let w := earlier.foldl (Watch.step testConfig) (.start 0 0)
      w.Unlocks testConfig event → (w.step testConfig event).presses = testConfig.sequence) splitAttempt := by
  decide

end QmkFirmware.Secure
