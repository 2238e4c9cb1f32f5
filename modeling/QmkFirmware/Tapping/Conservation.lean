import QmkFirmware.Foundations.Replay
import QmkFirmware.Foundations.Runs
import QmkFirmware.Tapping.Calls

/-! # Conservation of key events

For each key, the events that have arrived are the events that have been replayed to
`process_record` followed by those that wait: the undecided press and the records of
the waiting buffer.  The invariant is stated over a queue, which is the buffer or the
buffer with the record that is being processed.
-/

namespace QmkFirmware.Tapping

open QmkFirmware.Replay QmkFirmware.Runs

variable {κ : Type} [DecidableEq κ] {settings : Settings κ}

/-- The events of one key. -/
def ofKey (key : κ) (events : List (Event κ)) : List (Event κ) :=
  events.filter fun event => event.key = key

@[simp] theorem ofKey_append (key : κ) (events more : List (Event κ)) :
    ofKey key (events ++ more) = ofKey key events ++ ofKey key more := by
  simp [ofKey]

@[simp] theorem ofKey_nil (key : κ) : ofKey key ([] : List (Event κ)) = [] := rfl

theorem ofKey_eq_nil {key : κ} {events : List (Event κ)}
    (apart : ∀ event ∈ events, event.key ≠ key) : ofKey key events = [] := by
  simpa [ofKey] using apart

/-- An event before which its key does not occur can be taken out first. -/
theorem ofKey_first {event : Event κ} {before after : List (Event κ)}
    (first : ∀ earlier ∈ before, earlier.key ≠ event.key) (key : κ) :
    ofKey key (before ++ event :: after) = ofKey key [event] ++ ofKey key (before ++ after) := by
  rw [List.append_cons, ofKey_append, ofKey_append, ofKey_append, ← List.append_assoc]
  congr 1
  by_cases own : event.key = key
  · subst own
    rw [ofKey_eq_nil first, List.nil_append, List.append_nil]
  · have none : ofKey key [event] = [] := ofKey_eq_nil (by simpa using own)
    rw [none, List.nil_append, List.append_nil]

/-! ## Invariant -/

/-- The events of a key that wait in `queue` follow those that have been replayed.  While
the key is down after a tap, its press is the last of them. -/
def Conserved (arrived queue : List (Event κ)) (s : State κ) (key : κ) : Prop :=
  ∃ done, ofKey key arrived = done ++ ofKey key (s.undecided ++ queue) ∧
    Replayed Event.pressed done (ofKey key s.delivered) ∧
    (s.tapped = some key → ∃ press, done.getLast? = some press ∧ press.pressed = true)

/-- The buffer itself matters only through the queue. -/
theorem Conserved.withBuffer {arrived queue : List (Event κ)} {s : State κ} {key : κ}
    (conserved : Conserved arrived queue s key) (buffer : List (Record κ)) :
    Conserved arrived queue { s with waitingBuffer := buffer } key := conserved

theorem Conserved.arrive {arrived queue : List (Event κ)} {s : State κ} {key : κ}
    (conserved : Conserved arrived queue s key) (event : Event κ) :
    Conserved (arrived ++ [event]) (queue ++ [event]) s key := by
  obtain ⟨done, split, replayed, tapped⟩ := conserved
  refine ⟨done, ?_, replayed, tapped⟩
  rw [ofKey_append, split, List.append_assoc, ← ofKey_append, List.append_assoc]

/-- Releases of the tapped key may be delivered in addition. -/
theorem replayed_releases {done : List (Event κ)} {s : State κ} {key : κ}
    (replayed : Replayed Event.pressed done (ofKey key s.delivered))
    (tapped : s.tapped = some key → ∃ press, done.getLast? = some press ∧ press.pressed = true)
    {extra : List (Event κ)}
    (releases : ∀ release ∈ extra, release.pressed = false ∧ s.tapped = some release.key) :
    Replayed Event.pressed done (ofKey key (s.delivered ++ extra)) := by
  rw [ofKey_append]
  by_cases down : s.tapped = some key
  · obtain ⟨press, last, pressed⟩ := tapped down
    refine replayed.repeat last pressed _ ?_
    intro release member
    exact (releases release (List.mem_of_mem_filter member)).1
  · have none : ofKey key extra = [] := by
      refine ofKey_eq_nil ?_
      intro release member own
      exact down (own ▸ (releases release member).2)
    rwa [none, List.append_nil]

theorem Conserved.deliver {arrived before after extra : List (Event κ)} {s s' : State κ}
    {event : Event κ} {key : κ} (conserved : Conserved arrived (before ++ event :: after) s key)
    (first : ∀ earlier ∈ s.undecided ++ before, earlier.key ≠ event.key)
    (same : s'.undecided = s.undecided)
    (delivered : s'.delivered = s.delivered ++ extra ++ [event])
    (releases : ∀ release ∈ extra, release.pressed = false ∧ s.tapped = some release.key)
    (tapped' : ∀ key, s'.tapped = some key → event.key = key ∧ event.pressed = true ∨
      event.key ≠ key ∧ extra = [] ∧ s.tapped = some key) :
    Conserved arrived (before ++ after) s' key := by
  obtain ⟨done, split, replayed, tapped⟩ := conserved
  refine ⟨done ++ ofKey key [event], ?_, ?_, ?_⟩
  · rw [split, same, ← List.append_assoc, ofKey_first first, List.append_assoc, List.append_assoc]
  · rw [delivered, ofKey_append]
    exact (replayed_releases replayed tapped releases).append _
  · intro down
    cases tapped' key down with
    | inl own => exact ⟨event, by simp [ofKey, own.1], own.2⟩
    | inr other =>
      obtain ⟨apart, -, down⟩ := other
      rw [ofKey_eq_nil (by simpa using apart), List.append_nil]
      exact tapped down

theorem Conserved.start {arrived before after extra : List (Event κ)} {s s' : State κ}
    {event : Event κ} {key : κ} (conserved : Conserved arrived (before ++ event :: after) s key)
    (first : ∀ earlier ∈ before, earlier.key ≠ event.key)
    (decided : s.undecided = []) (starts : s'.undecided = [event])
    (delivered : s'.delivered = s.delivered ++ extra)
    (releases : ∀ release ∈ extra, release.pressed = false ∧ s.tapped = some release.key)
    (untapped : s'.tapped = none) : Conserved arrived (before ++ after) s' key := by
  obtain ⟨done, split, replayed, tapped⟩ := conserved
  refine ⟨done, ?_, ?_, ?_⟩
  · rw [split, starts, decided, List.nil_append, ofKey_first first, ofKey_append key [event]]
  · rw [delivered]
    exact replayed_releases replayed tapped releases
  · simp [untapped]

/-- A consumed event leaves the queue. -/
theorem Conserved.consume {arrived before after : List (Event κ)} {s s' : State κ}
    {keyp keyp' : Record κ} {key : κ}
    (conserved : Conserved arrived (before ++ keyp.event :: after) s key)
    (effect : Effect keyp s ⟨true, keyp', s'⟩) (event : keyp.event.isEvent = true)
    (first : ∀ earlier ∈ before, earlier.key ≠ keyp.event.key) :
    Conserved arrived (before ++ after) s' key := by
  cases effect with
  | skip tick =>
    rw [event] at tick
    cases tick
  | deliver _ _ extra _ same early delivered releases tapped =>
    refine conserved.deliver ?_ same delivered releases tapped
    intro earlier member
    cases List.mem_append.mp member with
    | inl undecided => exact (early earlier undecided).1
    | inr waiting => exact first earlier waiting
  | start _ extra _ decided starts delivered releases tapped =>
    exact conserved.start first decided starts delivered releases tapped

/-- An event that has to wait changes nothing in the queue. -/
theorem Conserved.wait {arrived queue : List (Event κ)} {s s' : State κ}
    {keyp keyp' : Record κ} {key : κ} (conserved : Conserved arrived queue s key)
    (effect : Effect keyp s ⟨false, keyp', s'⟩) : Conserved arrived queue s' key := by
  obtain ⟨done, split, replayed, tapped⟩ := conserved
  cases effect with
  | keep _ same delivered untapped lighter =>
    refine ⟨done, by rw [split, same], by rwa [delivered], ?_⟩
    simp [untapped]
  | resolve _ _ press waits marks undecided pressed resolved delivered tapped' lighter =>
    refine ⟨done ++ ofKey key [press], ?_, ?_, ?_⟩
    · rw [split, undecided, resolved, ofKey_append, List.nil_append, List.append_assoc]
    · rw [delivered, ofKey_append]
      exact replayed.append _
    · intro down
      exact ⟨press, by simp [ofKey, tapped' key down], pressed⟩

/-! ## Waiting buffer -/

theorem Effect.keyp_fresh {keyp keyp' : Record κ} {s s' : State κ}
    (effect : Effect keyp s ⟨false, keyp', s'⟩) (fresh : keyp.Fresh) :
    keyp'.event = keyp.event ∧ keyp'.Fresh := by
  cases effect with
  | keep => exact ⟨rfl, fresh⟩
  | resolve _ _ press waits marks =>
    refine ⟨waits, ?_⟩
    cases marks with
    | inl same => rwa [same]
    | inr released =>
      intro pressed
      rw [waits, released] at pressed
      cases pressed

/-- A record that has to wait stays where it was in the buffer. -/
theorem Tidy.wait {s s' : State κ} {head keyp' : Record κ} {rest : List (Record κ)} (tidy : Tidy s)
    (kept : BufferKept s s') (buffer : s.waitingBuffer = head :: rest)
    (effect : Effect head s ⟨false, keyp', s'⟩) :
    Tidy { s' with waitingBuffer := keyp' :: s'.waitingBuffer.tail } ∧
    State.bufferEvents { s' with waitingBuffer := keyp' :: s'.waitingBuffer.tail } = s.bufferEvents := by
  obtain ⟨same, fresh⟩ := effect.keyp_fresh (tidy.fresh head (by simp [buffer]))
  have events :
      State.bufferEvents { s' with waitingBuffer := keyp' :: s'.waitingBuffer.tail } = s.bufferEvents := by
    rw [State.bufferEvents, List.map_cons, same, kept.tail_events buffer, State.bufferEvents, buffer,
      List.map_cons]
  refine ⟨⟨events ▸ tidy.events, List.forall_mem_cons.mpr ⟨fresh, ?_⟩⟩, events⟩
  exact (tidy.consume kept buffer).fresh

/-- The loop keeps the invariant: the record at the tail is the first of its key. -/
theorem processWaitingBuffer_conserved {arrived : List (Event κ)} (fuel : Nat) {s : State κ}
    (tidy : Tidy s) (conserved : ∀ key, Conserved arrived s.bufferEvents s key) :
    Tidy (processWaitingBuffer settings fuel s) ∧
    ∀ key, Conserved arrived (processWaitingBuffer settings fuel s).bufferEvents
      (processWaitingBuffer settings fuel s) key := by
  refine @processWaitingBuffer_invariant _ _ settings
    (fun _ s => Tidy s ∧ ∀ key, Conserved arrived s.bufferEvents s key) ?_ ?_ fuel [] s ⟨tidy, conserved⟩
  · intro log s head rest keyp' s' invariant buffer outcome
    obtain ⟨tidy, conserved⟩ := invariant
    have effect := processTapping_effect settings s (tidy.fresh head (by simp [buffer]))
    have kept := processTapping_kept settings head s
    rw [outcome] at effect kept
    have queue : s.bufferEvents = [] ++ head.event :: rest.map Record.event := by
      rw [State.bufferEvents, buffer, List.map_cons, List.nil_append]
    have isEvent : head.event.isEvent = true := tidy.events head.event (by simp [queue])
    refine ⟨tidy.consume kept buffer, ?_⟩
    intro key
    have waits := conserved key
    rw [queue] at waits
    rw [State.bufferEvents, kept.tail_events buffer]
    exact (waits.consume effect isEvent (List.forall_mem_nil _)).withBuffer _
  · intro log s head rest keyp' s' invariant buffer outcome
    obtain ⟨tidy, conserved⟩ := invariant
    have effect := processTapping_effect settings s (tidy.fresh head (by simp [buffer]))
    have kept := processTapping_kept settings head s
    rw [outcome] at effect kept
    obtain ⟨tidy', events⟩ := tidy.wait kept buffer effect
    refine ⟨tidy', ?_⟩
    intro key
    rw [events]
    exact ((conserved key).wait effect).withBuffer _

/-! ## Arrival of an event -/

/-- Presses and releases of a key alternate, and the first is a press. -/
def Alternates (arrived : List (Event κ)) (event : Event κ) : Prop :=
  event.pressed =
    match (ofKey event.key arrived).getLast? with
    | none => true
    | some last => !last.pressed

/-- The event has to wait, and the waiting buffer is full. -/
def Overflows (settings : Settings κ) (s : State κ) (event : Event κ) : Prop :=
  event.isEvent = true ∧ (processTapping settings { event } s).consumed = false ∧
    (processTapping settings { event } s).state.waitingBuffer.length + 1 = waitingBufferSize

/-- The event is processed at once although an event of its key still waits. -/
def Bypasses (s : State κ) (event : Event κ) : Prop :=
  event.isEvent = true ∧ s.undecided = [] ∧ ∃ waiting ∈ s.bufferEvents, waiting.key = event.key

instance (arrived : List (Event κ)) (event : Event κ) : Decidable (Alternates arrived event) :=
  inferInstanceAs (Decidable (_ = _))

instance (s : State κ) (event : Event κ) : Decidable (Overflows settings s event) :=
  inferInstanceAs (Decidable (_ ∧ _ ∧ _))

instance (s : State κ) (event : Event κ) : Decidable (Bypasses s event) :=
  inferInstanceAs (Decidable (_ ∧ _ ∧ _))

/-- Before an event that was not typed there is no event of its key in the buffer. -/
theorem apart_of_not_typed {arrived : List (Event κ)} {s : State κ} {event : Event κ}
    (conserved : Conserved arrived s.bufferEvents s event.key)
    (alternates : Alternates arrived event) (typed : waitingBufferTyped event s = false) :
    ∀ waiting ∈ s.bufferEvents, waiting.key ≠ event.key := by
  intro waiting member own
  obtain ⟨done, split, -, -⟩ := conserved
  -- the last event of the key is in the buffer, and it is a press
  have nonempty : ofKey event.key s.bufferEvents ≠ [] :=
    List.ne_nil_of_mem (List.mem_filter.mpr ⟨member, by simpa using own⟩)
  obtain ⟨last, isLast⟩ := Option.ne_none_iff_exists'.mp (List.getLast?_eq_none_iff.not.mpr nonempty)
  have arrivedLast : (ofKey event.key arrived).getLast? = some last := by
    rw [split, ofKey_append, List.getLast?_append, List.getLast?_append, isLast]
    rfl
  rw [Alternates, arrivedLast] at alternates
  have waits : last ∈ ofKey event.key s.bufferEvents := List.mem_of_getLast? isLast
  obtain ⟨inBuffer, sameKey⟩ := List.mem_filter.mp waits
  obtain ⟨record, queued, rfl⟩ := List.mem_map.mp inBuffer
  rw [waitingBufferTyped, List.any_eq_false] at typed
  apply typed record queued
  simp [of_decide_eq_true sameKey, alternates]

/-- An event that is consumed at once is the first of its key in the queue. -/
theorem first_of_consumed {arrived : List (Event κ)} {s s' : State κ} {keyp keyp' : Record κ}
    (effect : Effect keyp s ⟨true, keyp', s'⟩)
    (conserved : Conserved arrived s.bufferEvents s keyp.event.key)
    (event : keyp.event.isEvent = true) (alternates : Alternates arrived keyp.event)
    (turn : ¬Bypasses s keyp.event) :
    ∀ waiting ∈ s.bufferEvents, waiting.key ≠ keyp.event.key := by
  by_cases decided : s.undecided = []
  · intro waiting member own
    exact turn ⟨event, decided, waiting, member, own⟩
  · cases effect with
    | skip tick =>
      rw [event] at tick
      cases tick
    | deliver _ _ extra _ same early =>
      obtain ⟨press, undecided⟩ := List.exists_mem_of_ne_nil _ decided
      obtain ⟨-, -, typed⟩ := early press undecided
      exact apart_of_not_typed conserved alternates typed
    | start _ extra _ isDecided => exact absurd isDecided decided

theorem acceptRecord_tick (settings : Settings κ) (s : State κ) {tick : Event κ}
    (isTick : tick.isEvent = false) :
    acceptRecord settings { event := tick } s = s ∨
    BufferKept s (acceptRecord settings { event := tick } s) ∧
      ∃ keyp', Effect { event := tick } s ⟨false, keyp', acceptRecord settings { event := tick } s⟩ := by
  have fresh : Record.Fresh { event := tick } := fun _ => rfl
  have effect := processTapping_effect settings s fresh
  have kept := processTapping_kept settings { event := tick } s
  cases outcome : processTapping settings { event := tick } s with
  | mk consumed keyp' s' =>
    rw [outcome] at effect kept
    cases consumed with
    | true =>
      rw [acceptRecord_consumed outcome]
      cases effect with
      | skip => exact .inl rfl
      | deliver _ _ extra isEvent => exact absurd (isTick.symm.trans isEvent) Bool.false_ne_true
      | start _ extra isEvent => exact absurd (isTick.symm.trans isEvent) Bool.false_ne_true
    | false =>
      have same : keyp'.event = tick := (effect.keyp_fresh fresh).1
      rw [acceptRecord_waits outcome, waitingBufferEnq_tick (same ▸ isTick)]
      exact .inr ⟨kept, keyp', effect⟩

theorem acceptRecord_tick_conserved {arrived : List (Event κ)} {s : State κ} {tick : Event κ}
    (tidy : Tidy s) (conserved : ∀ key, Conserved arrived s.bufferEvents s key)
    (isTick : tick.isEvent = false) :
    Tidy (acceptRecord settings { event := tick } s) ∧
    ∀ key, Conserved arrived (acceptRecord settings { event := tick } s).bufferEvents
      (acceptRecord settings { event := tick } s) key := by
  cases acceptRecord_tick settings s isTick with
  | inl same =>
    rw [same]
    exact ⟨tidy, conserved⟩
  | inr decides =>
    obtain ⟨kept, keyp', effect⟩ := decides
    refine ⟨kept.tidy tidy, ?_⟩
    intro key
    rw [kept.events]
    exact (conserved key).wait effect

/-- An event that has to wait joins the buffer when there is room. -/
theorem acceptRecord_queued {s s' : State κ} {event : Event κ} {keyp' : Record κ}
    (outcome : processTapping settings { event } s = ⟨false, keyp', s'⟩)
    (isEvent : event.isEvent = true) (room : ¬Overflows settings s event) :
    acceptRecord settings { event } s = { s' with waitingBuffer := s'.waitingBuffer ++ [keyp'] } ∧
    (acceptRecord settings { event } s).bufferEvents = s.bufferEvents ++ [event] := by
  have fresh : Record.Fresh { event } := fun _ => rfl
  have effect := processTapping_effect settings s fresh
  have kept := processTapping_kept settings { event } s
  rw [Overflows, outcome] at room
  rw [outcome] at effect kept
  have same : keyp'.event = event := (effect.keyp_fresh fresh).1
  have space : s'.waitingBuffer.length + 1 ≠ waitingBufferSize :=
    fun full => room ⟨isEvent, rfl, full⟩
  have queued : acceptRecord settings { event } s =
      { s' with waitingBuffer := s'.waitingBuffer ++ [keyp'] } := by
    rw [acceptRecord_waits outcome, waitingBufferEnq_event (same ▸ isEvent) space, Option.getD_some]
  refine ⟨queued, ?_⟩
  rw [queued, State.bufferEvents, List.map_append, ← kept.events, List.map_singleton, same]
  rfl

theorem acceptRecord_event_conserved {arrived : List (Event κ)} {s : State κ} {event : Event κ}
    (tidy : Tidy s) (conserved : ∀ key, Conserved arrived s.bufferEvents s key)
    (isEvent : event.isEvent = true) (alternates : Alternates arrived event)
    (room : ¬Overflows settings s event) (turn : ¬Bypasses s event) :
    Tidy (acceptRecord settings { event } s) ∧
    ∀ key, Conserved (arrived ++ [event]) (acceptRecord settings { event } s).bufferEvents
      (acceptRecord settings { event } s) key := by
  have fresh : Record.Fresh { event } := fun _ => rfl
  have effect := processTapping_effect settings s fresh
  have kept := processTapping_kept settings { event } s
  have arrives : ∀ key, Conserved (arrived ++ [event]) (s.bufferEvents ++ [event]) s key :=
    fun key => (conserved key).arrive event
  cases outcome : processTapping settings { event } s with
  | mk consumed keyp' s' =>
    rw [outcome] at effect kept
    cases consumed with
    | true =>
      rw [acceptRecord_consumed outcome]
      have first := first_of_consumed effect (conserved event.key) isEvent alternates turn
      refine ⟨kept.tidy tidy, ?_⟩
      intro key
      have consumed := (arrives key).consume effect isEvent first
      rwa [List.append_nil, ← kept.events] at consumed
    | false =>
      obtain ⟨queued, events⟩ := acceptRecord_queued outcome isEvent room
      refine ⟨⟨?_, ?_⟩, ?_⟩
      · rw [events]
        exact List.forall_mem_append.mpr ⟨tidy.events, List.forall_mem_singleton.mpr isEvent⟩
      · rw [queued]
        exact List.forall_mem_append.mpr ⟨kept.fresh tidy.fresh,
          List.forall_mem_singleton.mpr (effect.keyp_fresh fresh).2⟩
      · intro key
        rw [events, queued]
        exact ((arrives key).wait effect).withBuffer _

/-! ## Runs -/

/-- The key events of a run, without the ticks. -/
def arrivals (events : List (Event κ)) : List (Event κ) := events.filter Event.isEvent

def Alternating (events : List (Event κ)) : Prop :=
  EveryStep (fun earlier event => event.isEvent = true → Alternates (arrivals earlier) event) events

def NeverOverflows (settings : Settings κ) (events : List (Event κ)) : Prop :=
  EveryStep (fun earlier event => ¬Overflows settings (run settings earlier) event) events

def NeverBypasses (settings : Settings κ) (events : List (Event κ)) : Prop :=
  EveryStep (fun earlier event => ¬Bypasses (run settings earlier) event) events

instance (events : List (Event κ)) : Decidable (Alternating events) :=
  inferInstanceAs (Decidable (EveryStep _ events))

instance (events : List (Event κ)) : Decidable (NeverOverflows settings events) :=
  inferInstanceAs (Decidable (EveryStep _ events))

instance (events : List (Event κ)) : Decidable (NeverBypasses settings events) :=
  inferInstanceAs (Decidable (EveryStep _ events))

theorem actionExec_conserved {earlier : List (Event κ)} {s : State κ} {event : Event κ}
    (tidy : Tidy s) (conserved : ∀ key, Conserved (arrivals earlier) s.bufferEvents s key)
    (alternates : event.isEvent = true → Alternates (arrivals earlier) event)
    (room : ¬Overflows settings s event) (turn : ¬Bypasses s event) :
    Tidy (actionExec settings s event) ∧
    ∀ key, Conserved (arrivals (earlier ++ [event])) (actionExec settings s event).bufferEvents
      (actionExec settings s event) key := by
  rw [actionExec, actionTappingProcess, arrivals, List.filter_append, ← arrivals]
  cases isEvent : event.isEvent with
  | false =>
    obtain ⟨tidy, conserved⟩ := acceptRecord_tick_conserved tidy conserved isEvent
    rw [List.filter_singleton, isEvent, cond_false, List.append_nil]
    exact processWaitingBuffer_conserved _ tidy conserved
  | true =>
    obtain ⟨tidy, conserved⟩ :=
      acceptRecord_event_conserved tidy conserved isEvent (alternates isEvent) room turn
    rw [List.filter_singleton, isEvent, cond_true]
    exact processWaitingBuffer_conserved _ tidy conserved

/-- Every run in which no event is processed before its turn conserves the events. -/
theorem run_conserved {events : List (Event κ)} (alternating : Alternating events)
    (room : NeverOverflows settings events) (turn : NeverBypasses settings events) :
    Tidy (run settings events) ∧
    ∀ key, Conserved (arrivals events) (run settings events).bufferEvents (run settings events) key := by
  refine foldl_everyStep
    (fun earlier event => (event.isEvent = true → Alternates (arrivals earlier) event) ∧
      ¬Overflows settings (run settings earlier) event ∧ ¬Bypasses (run settings earlier) event)
    (fun events s => Tidy s ∧ ∀ key, Conserved (arrivals events) s.bufferEvents s key)
    ?_ ?_ events ?_
  · refine ⟨⟨by simp [State.bufferEvents], by simp⟩, ?_⟩
    intro key
    exact ⟨[], rfl, .nil, by simp [State.tapped]⟩
  · intro earlier event condition invariant
    exact actionExec_conserved invariant.1 invariant.2 condition.1 condition.2.1 condition.2.2
  · intro index bound
    exact ⟨alternating index bound, room index bound, turn index bound⟩

end QmkFirmware.Tapping
