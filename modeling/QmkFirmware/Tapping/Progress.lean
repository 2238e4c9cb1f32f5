import QmkFirmware.Tapping.Conservation

/-! # Ticks settle every tapping

With ticks alone, the tapping key is decided and the waiting buffer is processed as
soon as the clock gets past the tapping terms.  Together with the conservation of the
events this gives the contract of the module.
-/

namespace QmkFirmware.Tapping

open QmkFirmware.Replay QmkFirmware.Runs

variable {κ : Type} [DecidableEq κ] {settings : Settings κ}

/-! ## Backlog -/

/-- Each record of the buffer weighs more than a tapping key. -/
def State.backlog (s : State κ) : Nat := 3 * s.waitingBuffer.length + s.weight

def State.Settled (s : State κ) : Prop := s.undecided = [] ∧ s.waitingBuffer = []

/-- The loop reduces the backlog, or it stops at its first record behind an undecided key. -/
theorem processWaitingBuffer_backlog (settings : Settings κ) (fuel : Nat) {s : State κ} (tidy : Tidy s) :
    (processWaitingBuffer settings fuel s).backlog < s.backlog ∨
    processWaitingBuffer settings fuel s = s ∧
      (fuel = 0 ∨ s.waitingBuffer = [] ∨ s.undecided ≠ []) := by
  induction fuel generalizing s with
  | zero => exact .inr ⟨rfl, .inl rfl⟩
  | succ fuel ih =>
    cases buffer : s.waitingBuffer with
    | nil => exact .inr ⟨by rw [processWaitingBuffer, buffer], .inr (.inl rfl)⟩
    | cons head rest =>
      have effect := processTapping_effect settings s (tidy.fresh head (by simp [buffer]))
      have kept := processTapping_kept settings head s
      cases outcome : processTapping settings head s with
      | mk consumed keyp' s' =>
        rw [outcome] at effect kept
        have length : s'.waitingBuffer.tail.length = rest.length := by
          simpa using congrArg List.length (kept.tail_events buffer)
        cases consumed with
        | true =>
          left
          rw [processWaitingBuffer_consumed fuel buffer outcome]
          have light := weight_le { s' with waitingBuffer := s'.waitingBuffer.tail }
          have lower : State.backlog { s' with waitingBuffer := s'.waitingBuffer.tail } < s.backlog := by
            simp only [State.backlog, length, buffer, List.length_cons]
            omega
          cases ih (tidy.consume kept buffer) with
          | inl less => exact less.trans lower
          | inr same => rwa [same.1]
        | false =>
          rw [processWaitingBuffer_waits fuel buffer outcome]
          have lower (less : s'.weight < s.weight) :
              State.backlog { s' with waitingBuffer := keyp' :: s'.waitingBuffer.tail } < s.backlog := by
            have weight : State.weight { s' with waitingBuffer := keyp' :: s'.waitingBuffer.tail } =
                s'.weight := rfl
            simp only [State.backlog, weight, length, buffer, List.length_cons]
            omega
          cases effect with
          | keep _ same delivered tapped lighter =>
            cases lighter with
            | inl less => exact .inl (lower less)
            | inr unchanged =>
              obtain ⟨rfl, undecided, -⟩ := unchanged
              refine .inr ⟨?_, .inr (.inr undecided)⟩
              rw [buffer, List.tail_cons, ← buffer]
          | resolve _ _ press waits marks undecided pressed resolved delivered tapped lighter =>
            exact .inl (lower lighter)

/-! ## One tick -/

/-- A tick reduces the backlog, or it changes nothing. -/
theorem acceptRecord_tick_backlog (settings : Settings κ) (s : State κ) {tick : Event κ}
    (isTick : tick.isEvent = false) :
    (acceptRecord settings { event := tick } s).backlog < s.backlog ∨
    acceptRecord settings { event := tick } s = s := by
  cases acceptRecord_tick settings s isTick with
  | inl same => exact .inr same
  | inr decides =>
    obtain ⟨kept, keyp', effect⟩ := decides
    have length := congrArg List.length kept.events
    simp only [State.bufferEvents, List.length_map] at length
    have lower (less : (acceptRecord settings { event := tick } s).weight < s.weight) :
        (acceptRecord settings { event := tick } s).backlog < s.backlog := by
      simp only [State.backlog, length]
      omega
    cases effect with
    | keep _ same delivered tapped lighter =>
      cases lighter with
      | inl less => exact .inl (lower less)
      | inr unchanged => exact .inr unchanged.1
    | resolve _ _ press waits marks undecided pressed resolved delivered tapped lighter =>
      exact .inl (lower lighter)

theorem acceptRecord_tick_tidy (settings : Settings κ) {s : State κ} {tick : Event κ}
    (isTick : tick.isEvent = false) (tidy : Tidy s) : Tidy (acceptRecord settings { event := tick } s) := by
  cases acceptRecord_tick settings s isTick with
  | inl same => rwa [same]
  | inr decides => exact decides.1.tidy tidy

/-- The whole call reduces the backlog too, unless it waits for an undecided key. -/
theorem actionExec_tick_backlog (settings : Settings κ) {s : State κ} {tick : Event κ}
    (isTick : tick.isEvent = false) (tidy : Tidy s) :
    (actionExec settings s tick).backlog < s.backlog ∨
    actionExec settings s tick = s ∧ acceptRecord settings { event := tick } s = s ∧
      (s.waitingBuffer = [] ∨ s.undecided ≠ []) := by
  have loop := processWaitingBuffer_backlog settings
    (acceptRecord settings { event := tick } s).waitingBuffer.length
    (acceptRecord_tick_tidy settings isTick tidy)
  rw [actionExec, actionTappingProcess]
  cases acceptRecord_tick_backlog settings s isTick with
  | inl accepted =>
    cases loop with
    | inl less => exact .inl (less.trans accepted)
    | inr same => exact .inl (by rwa [same.1])
  | inr accepted =>
    rw [accepted] at loop ⊢
    cases loop with
    | inl less => exact .inl less
    | inr same =>
      refine .inr ⟨same.1, rfl, ?_⟩
      cases same.2 with
      | inl empty => exact .inl (List.eq_nil_of_length_eq_zero empty)
      | inr waits => exact waits

/-- The clock is past the term of the tapping key. -/
def Expired (settings : Settings κ) (s : State κ) (tick : Event κ) : Prop :=
  ∀ tapping, s.tappingKey = some tapping → withinTappingTerm settings s tapping tick = false

theorem acceptRecord_expired {s : State κ} {tick : Event κ} (isTick : tick.isEvent = false)
    (undecided : s.undecided ≠ []) (expired : Expired settings s tick) :
    acceptRecord settings { event := tick } s ≠ s := by
  rw [State.undecided] at undecided
  cases key : s.tappingKey with
  | none => simp [key] at undecided
  | some tapping =>
    have isOpen : tapping.event.pressed = true ∧ tapping.tap.count = 0 := by
      simpa [key] using undecided
    have outcome : processTapping settings { event := tick } s =
        ⟨false, { event := tick }, s.endTapping tapping⟩ := by
      simp [processTapping, key, isOpen, expired tapping key]
    rw [acceptRecord_waits outcome, waitingBufferEnq_tick isTick, Option.getD_some]
    intro same
    have reset : (s.endTapping tapping).tappingKey = none := rfl
    rw [same, key] at reset
    cases reset

theorem actionExec_tick_progress {s : State κ} {tick : Event κ} (isTick : tick.isEvent = false)
    (tidy : Tidy s) (unsettled : ¬s.Settled)
    (expired : s.undecided ≠ [] → Expired settings s tick) :
    (actionExec settings s tick).backlog < s.backlog := by
  cases actionExec_tick_backlog settings isTick tidy with
  | inl less => exact less
  | inr stuck =>
    obtain ⟨-, accepted, waits⟩ := stuck
    by_cases decided : s.undecided = []
    · cases waits with
      | inl empty => exact absurd ⟨decided, empty⟩ unsettled
      | inr undecided => exact absurd decided undecided
    · exact absurd accepted (acceptRecord_expired isTick decided (expired decided))

/-! ## A sequence of ticks -/

/-- The state after the first ticks that follow the events. -/
def afterTicks (settings : Settings κ) (events : List (Event κ)) (tick : Nat → Event κ)
    (count : Nat) : State κ :=
  run settings (events ++ (List.range count).map tick)

theorem afterTicks_succ (settings : Settings κ) (events : List (Event κ)) (tick : Nat → Event κ)
    (count : Nat) : afterTicks settings events tick (count + 1) =
      actionExec settings (afterTicks settings events tick count) (tick count) := by
  rw [afterTicks, List.range_succ, List.map_append, ← List.append_assoc, run, List.foldl_append]
  rfl

/-- Whenever a tapping key is pressed, the clock gets past its term later. -/
def Outlasts (settings : Settings κ) (tick : Nat → Event κ) : Prop :=
  ∀ (start : Nat) (s : State κ) (tapping : Record κ),
    ∃ count ≥ start, withinTappingTerm settings s tapping (tick count) = false

section

variable {events : List (Event κ)} {tick : Nat → Event κ}

theorem afterTicks_backlog (ticks : ∀ count, (tick count).isEvent = false)
    (tidy : ∀ count, Tidy (afterTicks settings events tick count)) {start count : Nat}
    (later : start ≤ count) :
    (afterTicks settings events tick count).backlog < (afterTicks settings events tick start).backlog ∨
    afterTicks settings events tick count = afterTicks settings events tick start := by
  induction count, later using Nat.le_induction with
  | base => exact .inr rfl
  | succ count later ih =>
    rw [afterTicks_succ]
    cases actionExec_tick_backlog settings (ticks count) (tidy count) with
    | inl less =>
      cases ih with
      | inl lower => exact .inl (less.trans lower)
      | inr same => exact .inl (by rwa [← same])
    | inr same => rwa [same.1]

theorem afterTicks_progress (ticks : ∀ count, (tick count).isEvent = false)
    (tidy : ∀ count, Tidy (afterTicks settings events tick count))
    (outlasts : Outlasts settings tick) {start : Nat}
    (unsettled : ¬(afterTicks settings events tick start).Settled) :
    ∃ count, (afterTicks settings events tick count).backlog <
      (afterTicks settings events tick start).backlog := by
  cases key : (afterTicks settings events tick start).tappingKey with
  | none =>
    refine ⟨start + 1, ?_⟩
    rw [afterTicks_succ]
    refine actionExec_tick_progress (ticks start) (tidy start) unsettled ?_
    intro undecided
    simp [State.undecided, key] at undecided
  | some tapping =>
    obtain ⟨count, later, past⟩ := outlasts start (afterTicks settings events tick start) tapping
    cases afterTicks_backlog ticks tidy later with
    | inl less => exact ⟨count, less⟩
    | inr same =>
      refine ⟨count + 1, ?_⟩
      rw [afterTicks_succ, same]
      refine actionExec_tick_progress (ticks count) (tidy start) unsettled ?_
      intro _ other otherKey
      rw [key] at otherKey
      rwa [← Option.some.inj otherKey]

/-- After finitely many ticks nothing waits any more. -/
theorem ticks_settle (ticks : ∀ count, (tick count).isEvent = false)
    (tidy : ∀ count, Tidy (afterTicks settings events tick count))
    (outlasts : Outlasts settings tick) :
    ∃ count, (afterTicks settings events tick count).Settled := by
  suffices settles : ∀ backlog start, (afterTicks settings events tick start).backlog = backlog →
      ∃ count, (afterTicks settings events tick count).Settled from settles _ 0 rfl
  intro backlog
  -- the backlog goes down as long as something waits
  induction backlog using Nat.strongRecOn with
  | ind backlog ih =>
    intro start measured
    by_cases settled : (afterTicks settings events tick start).Settled
    · exact ⟨start, settled⟩
    · obtain ⟨count, less⟩ := afterTicks_progress ticks tidy outlasts settled
      exact ih _ (measured ▸ less) count rfl

end

/-! ## Contract -/

/-- The events of a key are delivered faithfully: all of them in their order, each press
once, and no release before a press. -/
structure Faithful (arrived delivered : List (Event κ)) : Prop where
  replayed : Replayed Event.pressed arrived delivered
  presses : delivered.filter Event.pressed = arrived.filter Event.pressed
  ordered : arrived.Sublist delivered
  released : ∀ front release back, delivered = front ++ release :: back →
    release.pressed = false → ∃ press ∈ front, press.pressed = true

theorem first_pressed {events : List (Event κ)} (alternating : Alternating events) (key : κ)
    (first : Event κ) (isFirst : (ofKey key (arrivals events)).head? = some first) :
    first.pressed = true := by
  induction events using List.reverseRecOn with
  | nil => cases isFirst
  | append_singleton events event ih =>
    obtain ⟨earlier, alternates⟩ := everyStep_concat.mp alternating
    rw [arrivals, List.filter_append, ofKey_append, List.head?_append] at isFirst
    cases before : (ofKey key (arrivals events)).head? with
    | some other =>
      rw [← arrivals, before] at isFirst
      exact ih earlier (before.trans isFirst)
    | none =>
      rw [← arrivals, before, Option.none_or] at isFirst
      obtain ⟨member, own⟩ := List.mem_filter.mp (List.mem_of_mem_head? isFirst)
      obtain ⟨member, isEvent⟩ := List.mem_filter.mp member
      obtain rfl := List.mem_singleton.mp member
      obtain rfl := of_decide_eq_true own
      have pressed := alternates isEvent
      rwa [Alternates, List.head?_eq_none_iff.mp before] at pressed

theorem faithful_of_replayed {events done rest delivered : List (Event κ)} {key : κ}
    (alternating : Alternating events) (split : ofKey key (arrivals events) = done ++ rest)
    (replayed : Replayed Event.pressed done delivered) : Faithful done delivered where
  replayed := replayed
  presses := replayed.filter_opens
  ordered := replayed.sublist
  released front release back isSplit released := by
    refine replayed.opens_before ?_ isSplit released
    intro first isFirst
    apply first_pressed alternating key
    rw [split, List.head?_append, isFirst]
    rfl

/-- On overflow everything is cleared, and the loop has nothing to do. -/
theorem overflow_clears {s : State κ} {event : Event κ} (overflow : Overflows settings s event) :
    (actionExec settings s event).tappingKey = none ∧
    (actionExec settings s event).waitingBuffer = [] := by
  obtain ⟨isEvent, waits, full⟩ := overflow
  have fresh : Record.Fresh { event } := fun _ => rfl
  have effect := processTapping_effect settings s fresh
  rw [actionExec, actionTappingProcess]
  cases outcome : processTapping settings { event } s with
  | mk consumed keyp' s' =>
    rw [outcome] at effect waits full
    obtain rfl : consumed = false := waits
    have same : keyp'.event = event := (effect.keyp_fresh fresh).1
    have overflows : waitingBufferEnq keyp' s' = none := by
      rw [waitingBufferEnq, same, isEvent, if_neg (by simp), if_pos full]
    rw [acceptRecord_waits outcome, overflows]
    exact ⟨rfl, rfl⟩

omit [DecidableEq κ] in
theorem arrivals_ticks (events : List (Event κ)) {ticks : List (Event κ)}
    (isTick : ∀ tick ∈ ticks, tick.isEvent = false) : arrivals (events ++ ticks) = arrivals events := by
  have none : ticks.filter Event.isEvent = [] :=
    List.filter_eq_nil_iff.mpr fun tick member => by simp [isTick tick member]
  rw [arrivals, List.filter_append, none, List.append_nil, ← arrivals]

/-- Ticks meet every condition of an orderly run. -/
theorem run_ticks_conserved {events ticks : List (Event κ)} (alternating : Alternating events)
    (room : NeverOverflows settings events) (turn : NeverBypasses settings events)
    (isTick : ∀ tick ∈ ticks, tick.isEvent = false) :
    Tidy (run settings (events ++ ticks)) ∧
    ∀ key, Conserved (arrivals events) (run settings (events ++ ticks)).bufferEvents
      (run settings (events ++ ticks)) key := by
  rw [← arrivals_ticks events isTick]
  refine run_conserved (alternating.append ?_) (room.append ?_) (turn.append ?_)
  · intro earlier tick member isEvent
    exact absurd ((isTick tick member).symm.trans isEvent) Bool.false_ne_true
  · intro earlier tick member overflow
    exact absurd ((isTick tick member).symm.trans overflow.1) Bool.false_ne_true
  · intro earlier tick member bypass
    exact absurd ((isTick tick member).symm.trans bypass.1) Bool.false_ne_true

/-- As the ticks go on, every event is delivered. -/
theorem ticks_replay {events : List (Event κ)} {tick : Nat → Event κ} (alternating : Alternating events)
    (room : NeverOverflows settings events) (turn : NeverBypasses settings events)
    (ticks : ∀ count, (tick count).isEvent = false) (outlasts : Outlasts settings tick) :
    ∃ count, ∀ key, Replayed Event.pressed (ofKey key (arrivals events))
      (ofKey key (afterTicks settings events tick count).delivered) := by
  have isTick (count : Nat) : ∀ event ∈ (List.range count).map tick, event.isEvent = false := by
    simpa using fun index _ => ticks index
  have conserved (count : Nat) := run_ticks_conserved alternating room turn (isTick count)
  obtain ⟨count, undecided, buffer⟩ :=
    ticks_settle ticks (fun count => (conserved count).1) outlasts
  refine ⟨count, ?_⟩
  intro key
  obtain ⟨done, split, replayed, -⟩ := (conserved count).2 key
  rw [← afterTicks] at split replayed
  rw [State.bufferEvents, undecided, buffer, List.map_nil, List.append_nil, ofKey_nil,
    List.append_nil] at split
  rwa [split]

omit [DecidableEq κ] in
/-- The millisecond clock gets past every term. -/
theorem clock_outlasts (settings : Settings κ) (key : κ) :
    Outlasts settings fun count => ⟨key, UInt16.ofNat count, .tick, false⟩ := by
  intro start s tapping
  let expiry := tapping.event.time + settings.getTappingTerm s.calls tapping
  refine ⟨65536 * start + expiry.toNat, by omega, ?_⟩
  have time : UInt16.ofNat (65536 * start + expiry.toNat) = expiry := by
    rw [← UInt16.toNat_inj, UInt16.toNat_ofNat']
    have := expiry.toNat_lt
    omega
  have elapsed : expiry - tapping.event.time = settings.getTappingTerm s.calls tapping :=
    add_sub_cancel_left _ _
  simp [withinTappingTerm, time, elapsed]

/-! ## A keyboard with two tapping keys and a knob -/

inductive Pad where
  | shift | space | knob
deriving DecidableEq

/-- A mod-tap key, a layer-tap key with a shorter term, and a key of the encoder map. -/
def padSettings : Settings Pad where
  layerSwitchGetAction _ key :=
    match key with
    | .shift => ⟨.lmodsTap, 2, 0x04⟩
    | .space => ⟨.layerTap, 1, 0x2C⟩
    | .knob => ⟨.usage, 0, 0xE9⟩
  getTappingTerm _ record := if record.event.key = .space then 100 else 200
  getQuickTapTerm _ _ := 100
  getPermissiveHold _ _ := false
  getHoldOnOtherKeyPress _ := false

/-- Space is typed while shift is held; a tick decides both before the knob is turned. -/
def heldShift : List (Event Pad) :=
  [⟨.shift, 0, .key, true⟩, ⟨.space, 10, .key, true⟩, ⟨.space, 20, .key, false⟩,
    ⟨.shift, 200, .tick, false⟩, ⟨.knob, 200, .encoderCw, true⟩, ⟨.knob, 202, .encoderCw, false⟩,
    ⟨.shift, 300, .key, false⟩]

/-- The knob is turned just when the term of shift ends.  Its press ends the tapping of
space, but has to wait itself, and its release is processed first. -/
def turnedKnob : List (Event Pad) :=
  [⟨.shift, 0, .key, true⟩, ⟨.space, 10, .key, true⟩, ⟨.space, 20, .key, false⟩,
    ⟨.shift, 199, .tick, false⟩, ⟨.knob, 200, .encoderCw, true⟩, ⟨.knob, 202, .encoderCw, false⟩]

end QmkFirmware.Tapping
