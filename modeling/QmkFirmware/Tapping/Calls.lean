import QmkFirmware.Tapping.Effects

/-! # Calls of the state machine

`process_tapping` is called for every event that arrives and again for the records of
the waiting buffer.  A result about a press is stated over the call that takes it up,
and over the record with which it reaches `process_record`.
-/

namespace QmkFirmware.Tapping

/-- The record a call is made for, and the state before it. -/
structure TappingCall (κ : Type) where
  keyp : Record κ
  state : State κ

section

variable {κ : Type} [DecidableEq κ] (settings : Settings κ)

/-- The calls of the loop over the waiting buffer. -/
def waitingBufferCalls : Nat → State κ → List (TappingCall κ)
  | 0, _ => []
  | fuel + 1, s =>
    match s.waitingBuffer with
    | [] => []
    | head :: _ =>
      let outcome := processTapping settings head s
      let rest := outcome.state.waitingBuffer.tail
      -- the loop ends with the first record that is not consumed
      ⟨head, s⟩ ::
        if outcome.consumed then waitingBufferCalls fuel { outcome.state with waitingBuffer := rest }
        else []

def actionExecCalls (s : State κ) (event : Event κ) : List (TappingCall κ) :=
  let accepted := acceptRecord settings { event } s
  ⟨{ event }, s⟩ :: waitingBufferCalls settings accepted.waitingBuffer.length accepted

def callsFrom : State κ → List (Event κ) → List (TappingCall κ)
  | _, [] => []
  | s, event :: events => actionExecCalls settings s event ++ callsFrom (actionExec settings s event) events

/-- Every call of `process_tapping` in a run. -/
def tappingCalls (events : List (Event κ)) : List (TappingCall κ) := callsFrom settings {} events

theorem callsFrom_concat (s : State κ) (events : List (Event κ)) (event : Event κ) :
    callsFrom settings s (events ++ [event]) =
      callsFrom settings s events ++ actionExecCalls settings (events.foldl (actionExec settings) s) event := by
  induction events generalizing s with
  | nil => simp [callsFrom]
  | cons first events ih => simp [callsFrom, ih]

theorem tappingCalls_concat (events : List (Event κ)) (event : Event κ) :
    tappingCalls settings (events ++ [event]) =
      tappingCalls settings events ++ actionExecCalls settings (run settings events) event :=
  callsFrom_concat settings {} events event

/-- What every call of the loop preserves, the loop preserves. -/
theorem processWaitingBuffer_invariant {settings : Settings κ}
    {invariant : List (TappingCall κ) → State κ → Prop}
    (consumed : ∀ log s head rest keyp' s', invariant log s → s.waitingBuffer = head :: rest →
      processTapping settings head s = ⟨true, keyp', s'⟩ →
      invariant (log ++ [⟨head, s⟩]) { s' with waitingBuffer := s'.waitingBuffer.tail })
    (waits : ∀ log s head rest keyp' s', invariant log s → s.waitingBuffer = head :: rest →
      processTapping settings head s = ⟨false, keyp', s'⟩ →
      invariant (log ++ [⟨head, s⟩]) { s' with waitingBuffer := keyp' :: s'.waitingBuffer.tail })
    (fuel : Nat) {log : List (TappingCall κ)} {s : State κ} (holds : invariant log s) :
    invariant (log ++ waitingBufferCalls settings fuel s) (processWaitingBuffer settings fuel s) := by
  induction fuel generalizing log s with
  | zero => rwa [waitingBufferCalls, List.append_nil]
  | succ fuel ih =>
    cases buffer : s.waitingBuffer with
    | nil =>
      simp only [waitingBufferCalls, processWaitingBuffer, buffer, List.append_nil]
      exact holds
    | cons head rest =>
      simp only [waitingBufferCalls, buffer]
      cases outcome : processTapping settings head s with
      | mk isConsumed keyp' s' =>
        cases isConsumed with
        | true =>
          rw [processWaitingBuffer_consumed fuel buffer outcome, if_pos rfl, List.append_cons]
          exact ih (consumed log s head rest keyp' s' holds buffer outcome)
        | false =>
          rw [processWaitingBuffer_waits fuel buffer outcome, if_neg Bool.false_ne_true]
          exact waits log s head rest keyp' s' holds buffer outcome

end

/-! ## Press records -/

def Call.processedRecord {κ : Type} : Call κ → Option (Record κ)
  | .processRecord record => some record
  | _ => none

variable {κ : Type} [DecidableEq κ]

/-- The records with which the presses of a key have been delivered. -/
def State.pressRecords (key : κ) (s : State κ) : List (Record κ) :=
  (s.calls.filterMap Call.processedRecord).filter fun record =>
    record.event.key = key ∧ record.event.pressed

theorem pressRecords_append {s s' : State κ} {more : List (Call κ)} (calls : s'.calls = s.calls ++ more)
    (key : κ) : s'.pressRecords key = s.pressRecords key ++
      (more.filterMap Call.processedRecord).filter fun record =>
        record.event.key = key ∧ record.event.pressed := by
  rw [State.pressRecords, calls, List.filterMap_append, List.filter_append, ← State.pressRecords]

/-- A record of another key or of a release leaves the presses of a key. -/
theorem pressRecords_processRecord_other {key : κ} {record : Record κ} (s : State κ)
    (other : record.event.key = key → record.event.pressed = false) :
    (s.processRecord record).pressRecords key = s.pressRecords key := by
  rw [pressRecords_append rfl, List.append_right_eq_self]
  simpa [Call.processedRecord] using other

theorem pressRecords_processRecord {key : κ} {record : Record κ} (s : State κ)
    (own : record.event.key = key) (pressed : record.event.pressed = true) :
    (s.processRecord record).pressRecords key = s.pressRecords key ++ [record] := by
  rw [pressRecords_append rfl]
  simp [Call.processedRecord, own, pressed]

@[simp] theorem pressRecords_tapHint (key : κ) (record : Record κ) (s : State κ) :
    (s.processRecordTapHint record).pressRecords key = s.pressRecords key := by
  rw [pressRecords_append rfl, List.append_right_eq_self]
  rfl

/-! ## Calls only add to what has been delivered -/

variable {settings : Settings κ}

theorem waitingBufferScanTap_calls {s pressed : State κ} (calls : s.calls <+: pressed.calls) :
    s.calls <+: (waitingBufferScanTap settings pressed).calls := by
  cases waitingBufferScanTap_cases settings pressed with
  | inl same => rwa [same]
  | inr found =>
    obtain ⟨tapping, marked, -, -, scan⟩ := found
    rw [scan]
    exact calls.trans (List.prefix_append _ _)

theorem processIdle_calls (keyp : Record κ) (s : State κ) :
    s.calls <+: (processIdle settings keyp s).state.calls := by
  simp only [processIdle]
  split_ifs
  · exact List.prefix_rfl
  · dsimp only
    exact waitingBufferScanTap_calls (List.prefix_append _ _)
  · exact List.prefix_append _ _

theorem processUndecided_calls (keyp tapping : Record κ) (s : State κ) :
    s.calls <+: (processUndecided settings keyp tapping s).state.calls := by
  simp only [processUndecided]
  split_ifs
  · exact List.prefix_append _ _
  · exact List.prefix_append _ _
  · exact List.prefix_rfl
  · exact List.prefix_append _ _
  · exact List.prefix_append _ _
  · exact List.prefix_rfl
  · exact List.prefix_rfl

theorem processTapped_calls (released : Record κ → Option (Record κ)) (keyp tapping : Record κ)
    (s : State κ) : s.calls <+: (processTapped settings released keyp tapping s).state.calls := by
  simp only [processTapped]
  split_ifs
  · exact List.prefix_append _ _
  · dsimp only
    exact waitingBufferScanTap_calls (List.prefix_append _ _)
  · dsimp only
    exact waitingBufferScanTap_calls List.prefix_rfl
  · exact List.prefix_append _ _

theorem processReleased_calls (keyp tapping : Record κ) (s : State κ) :
    s.calls <+: (processReleased settings keyp tapping s).state.calls := by
  simp only [processReleased]
  split_ifs
  · exact List.prefix_append _ _
  · exact List.prefix_rfl
  · dsimp only
    exact waitingBufferScanTap_calls List.prefix_rfl
  · exact List.prefix_append _ _
  · exact List.prefix_append _ _

theorem processTapping_calls (settings : Settings κ) (keyp : Record κ) (s : State κ) :
    s.calls <+: (processTapping settings keyp s).state.calls := by
  rw [processTapping]
  cases s.tappingKey with
  | none => exact processIdle_calls keyp s
  | some tapping =>
    simp only []
    split_ifs
    · exact List.prefix_rfl
    · exact processUndecided_calls keyp tapping s
    · exact processTapped_calls some keyp tapping s
    · exact List.prefix_append _ _
    · exact List.prefix_rfl
    · exact processTapped_calls (fun _ => none) keyp tapping s
    · exact List.prefix_rfl
    · exact processReleased_calls keyp tapping s
    · exact List.prefix_rfl

end QmkFirmware.Tapping
