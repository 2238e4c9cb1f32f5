import QmkFirmware.Tapping.Progress
import QmkFirmware.Tapping.Stamps

/-! # Tap or hold

A press that starts a tapping sequence is delivered as a tap exactly if the key is
released before its term is over, however the events of other keys overlap with it and
wherever it waits.  The law is over the times at which the events arrive, for a press
that is decided within one turn of the 16-bit timer.
-/

namespace QmkFirmware.Tapping

open QmkFirmware.Replay QmkFirmware.Runs

variable {κ : Type} [DecidableEq κ] {settings : Settings κ} {term : UInt16}

/-! ## Law for one press -/

/-- The decision between tap and hold for a press that `rest` follows: a tap has a release
within the term, a hold has none and the term is over. -/
inductive Verdict (term : UInt16) (arrived : List (Stamped κ)) (press : Stamped κ)
    (rest : List (Stamped κ)) (count : Nat) : Prop where
  | tap (tapped : 0 < count) (release : Stamped κ) (member : release ∈ rest)
      (released : release.event.pressed = false) (inTime : release.clock < press.clock + term.toNat)
  | hold (held : count = 0) (late : Stamped κ) (member : late ∈ arrived)
      (timeout : press.clock + term.toNat ≤ late.clock)
      (none : ∀ release ∈ rest, release.event.pressed = false → press.clock + term.toNat ≤ release.clock)

omit [DecidableEq κ] in
/-- What arrives after the decision does not change it. -/
theorem Verdict.arrive {arrived more rest new : List (Stamped κ)} {press : Stamped κ} {count : Nat}
    (verdict : Verdict term arrived press rest count) (ordered : InOrder (arrived ++ more))
    (later : ∀ arrival ∈ new, arrival ∈ more) : Verdict term (arrived ++ more) press (rest ++ new) count := by
  cases verdict with
  | tap tapped release member released inTime =>
    exact .tap tapped release (List.mem_append_left _ member) released inTime
  | hold held late member timeout none =>
    refine .hold held late (List.mem_append_left _ member) timeout ?_
    refine List.forall_mem_append.mpr ⟨none, ?_⟩
    intro release arrives _
    exact timeout.trans ((List.pairwise_append.mp ordered).2.2 late member release (later release arrives))

omit [DecidableEq κ] in
theorem Verdict.iff {arrived rest : List (Stamped κ)} {press : Stamped κ} {count : Nat}
    (verdict : Verdict term arrived press rest count) (ordered : InOrder rest) :
    0 < count ↔ releasedInTime term (press :: rest) = true := by
  rw [releasedInTime_iff ordered]
  cases verdict with
  | tap tapped release member released inTime =>
    exact iff_of_true tapped ⟨release, member, released, inTime⟩
  | hold held late member timeout none =>
    refine iff_of_false (held ▸ Nat.lt_irrefl 0) ?_
    intro tap
    obtain ⟨release, member, released, inTime⟩ := tap
    exact absurd inTime (none release member released).not_gt

/-- A press that started a tapping sequence is undecided, and no tap of it waits; or it has
been delivered by the law.  The press has number `n` among those of its key. -/
inductive Judged (term : UInt16) (arrived : List (Stamped κ)) (queue : List (Event κ)) (s : State κ)
    (event : Event κ) (n : Nat) : Prop where
  | pending (tapping : Record κ) (same : tapping.event = event) (undecided : Undecided s tapping)
      (count : (s.pressRecords event.key).length = n)
      (quiet : ∀ waiting ∈ queue, ¬IsTap term event waiting)
  | decided (record : Record κ) (press : Stamped κ) (rest : List (Stamped κ))
      (delivered : (s.pressRecords event.key)[n]? = some record)
      (own : fromPress n (stampsOf event.key arrived) = press :: rest)
      (same : press.event = event)
      (law : (∀ arrival ∈ arrived, arrival.clock < press.clock + 65536) →
        Verdict term arrived press rest record.tap.count)

section

variable {arrived : List (Stamped κ)} {queue : List (Event κ)} {s : State κ} {event : Event κ} {n : Nat}

theorem Judged.weaken {queue' : List (Event κ)} (judged : Judged term arrived queue s event n)
    (fewer : ∀ waiting ∈ queue', waiting ∈ queue) : Judged term arrived queue' s event n := by
  cases judged with
  | pending tapping same undecided count quiet =>
    exact .pending tapping same undecided count fun waiting member => quiet waiting (fewer waiting member)
  | decided record press rest delivered own same law =>
    exact .decided record press rest delivered own same law

theorem Judged.withBuffer (judged : Judged term arrived queue s event n) (buffer : List (Record κ)) :
    Judged term arrived queue { s with waitingBuffer := buffer } event n := by
  cases judged with
  | pending tapping same undecided count quiet =>
    exact .pending tapping same ⟨undecided.key, undecided.pressed, undecided.count⟩ count quiet
  | decided record press rest delivered own same law =>
    exact .decided record press rest delivered own same law

theorem Judged.arrive {more : List (Stamped κ)} (judged : Judged term arrived queue s event n)
    (ordered : InOrder (arrived ++ more)) : Judged term (arrived ++ more) queue s event n := by
  cases judged with
  | pending tapping same undecided count quiet => exact .pending tapping same undecided count quiet
  | decided record press rest delivered own same law =>
    have found : fromPress n (stampsOf event.key (arrived ++ more)) =
        press :: (rest ++ stampsOf event.key more) := by
      rw [stampsOf_append]
      exact fromPress_concat own
    refine .decided record press _ delivered found same ?_
    intro turn
    have verdict := law fun arrival member => turn arrival (List.mem_append_left _ member)
    exact verdict.arrive ordered fun arrival member => List.mem_of_mem_filter member

/-- The press that a call delivers gets its verdict. -/
theorem Judged.deliver {s' : State κ} {record : Record κ} {press : Stamped κ} {rest : List (Stamped κ)}
    (own : fromPress (s.pressRecords event.key).length (stampsOf event.key arrived) = press :: rest)
    (same : press.event = event)
    (delivered : s'.pressRecords event.key = s.pressRecords event.key ++ [record])
    (law : (∀ arrival ∈ arrived, arrival.clock < press.clock + 65536) →
      Verdict term arrived press rest record.tap.count) :
    Judged term arrived queue s' event (s.pressRecords event.key).length :=
  .decided record press rest (by rw [delivered, List.getElem?_concat_length]) own same law

end

/-! ## Law in one call -/

/-- The event of the record that is processed, with its time: it came after the press that
waits first, and if it is no tick it waits as well. -/
structure Current (arrived behind : List (Stamped κ)) (press : Stamped κ) (event : Event κ)
    (current : Stamped κ) : Prop where
  same : current.event = event
  arrives : current ∈ arrived
  after : press.clock ≤ current.clock
  waits : event.isEvent = true → current ∈ behind

section

variable {arrived behind : List (Stamped κ)} {queue queue' : List (Event κ)} {s s' : State κ}
  {keyp keyp' tapping : Record κ} {press current : Stamped κ} {consumed : Bool}

omit [DecidableEq κ] in
theorem Undecided.events (undecided : Undecided s tapping) : s.undecided = [tapping.event] := by
  rw [undecided_eq undecided.key, undecided.pressed, undecided.count]
  rfl

/-- A call while the press is undecided. -/
theorem Decision.judged (decision : Decision term keyp tapping s ⟨consumed, keyp', s'⟩)
    (ordered : InOrder arrived) (undecided : Undecided s tapping)
    (stamps : Waiting arrived queue s (press :: behind))
    (conserved : Conserved (arrivals (arrived.map Stamped.event)) queue s tapping.event.key)
    (isCurrent : Current arrived behind press keyp.event current)
    (quiet : ∀ waiting ∈ queue, waiting = keyp.event ∨ ¬IsTap term tapping.event waiting)
    (quiet' : ¬IsTap term tapping.event keyp.event → ∀ waiting ∈ queue', ¬IsTap term tapping.event waiting) :
    Judged term arrived queue' s' tapping.event (s.pressRecords tapping.event.key).length := by
  have events := stamps.events
  rw [undecided.events, List.map_cons, List.singleton_append] at events
  obtain ⟨isPress, behindEvents⟩ := List.cons.inj events
  have own := stamps.fromPress_head isPress conserved undecided.pressed
  have arrivedAfter : ∀ later ∈ behind, later ∈ arrived ∧ press.clock ≤ later.clock := by
    intro later member
    refine ⟨stamps.sublist.subset (List.mem_cons_of_mem _ member), ?_⟩
    exact List.rel_of_pairwise_cons (ordered.sublist stamps.sublist) member
  cases decision with
  | tapped _ record _ tap count delivered =>
    -- the release that is processed is the one of the verdict
    refine .deliver own isPress delivered ?_
    intro turn
    have waits : current ∈ behind := isCurrent.waits tap.1
    rw [← isCurrent.same, ← isPress] at tap
    refine .tap count current (mem_stampsOf.mpr ⟨waits, tap.1, isPress ▸ tap.2.1⟩) tap.2.2.1 ?_
    exact (inTerm_iff isCurrent.after (turn current isCurrent.arrives)).mp tap.2.2.2
  | held record _ late count delivered =>
    refine .deliver own isPress delivered ?_
    intro turn
    rw [← isCurrent.same, ← isPress, inTerm_iff isCurrent.after (turn current isCurrent.arrives),
      Nat.not_lt] at late
    refine .hold count current isCurrent.arrives late ?_
    intro release member released
    obtain ⟨waits, isEvent, isOwn⟩ := mem_stampsOf.mp member
    obtain ⟨arrives, after⟩ := arrivedAfter release waits
    rw [← Nat.not_lt, ← inTerm_iff after (turn release arrives)]
    intro inTerm
    -- the only release that can be a tap is the one that is processed, which is late
    cases quiet release.event (behindEvents ▸ List.mem_map_of_mem waits) with
    | inl isKeyp =>
      rw [InTerm, isKeyp, ← isCurrent.same] at inTerm
      exact absurd ((inTerm_iff isCurrent.after (turn current isCurrent.arrives)).mp inTerm) late.not_gt
    | inr noTap =>
      rw [isPress] at inTerm
      exact noTap ⟨isEvent, isOwn, released, inTerm⟩
  | stays _ tapping' _ noTap undecided' same delivered =>
    exact .pending tapping' same undecided' (by rw [delivered]) (quiet' noTap)

/-- The call that takes up a press, of which `after` is what waits behind it. -/
theorem Started.judged {after : List (Event κ)} (started : Started term keyp s ⟨consumed, keyp', s'⟩)
    (ordered : InOrder arrived) (pressed : keyp.event.pressed = true) (decided : s.undecided = [])
    (stamps : Waiting arrived (keyp.event :: after) s (press :: behind))
    (conserved : Conserved (arrivals (arrived.map Stamped.event)) (keyp.event :: after) s keyp.event.key)
    (buffer : ∀ event, event ∈ s.bufferEvents → event = keyp.event ∨ event ∈ after)
    (buffered : ∀ event ∈ after, event ∈ s.bufferEvents) :
    Judged term arrived after s' keyp.event (s.pressRecords keyp.event.key).length := by
  have events := stamps.events
  rw [decided, List.map_cons, List.nil_append] at events
  obtain ⟨isPress, behindEvents⟩ := List.cons.inj events
  cases started with
  | undecided _ tapping same undecided quiet delivered =>
    refine .pending tapping same undecided (by rw [delivered]) ?_
    intro waiting member
    obtain ⟨record, inBuffer, rfl⟩ := List.mem_map.mp (buffered waiting member)
    exact quiet record inBuffer
  | tapped _ record release inBuffer tap count delivered =>
    refine .deliver (stamps.fromPress_head isPress conserved pressed) isPress delivered ?_
    intro turn
    cases buffer release.event (List.mem_map_of_mem inBuffer) with
    | inl isKeyp =>
      -- the press itself is still in the buffer while it is processed
      rw [isKeyp, IsTap, pressed] at tap
      cases tap.2.2.1
    | inr waits =>
      rw [← behindEvents] at waits
      obtain ⟨later, member, isRelease⟩ := List.mem_map.mp waits
      rw [← isRelease, ← isPress] at tap
      have arrives : later ∈ arrived := stamps.sublist.subset (List.mem_cons_of_mem _ member)
      have after : press.clock ≤ later.clock :=
        List.rel_of_pairwise_cons (ordered.sublist stamps.sublist) member
      refine .tap count later (mem_stampsOf.mpr ⟨member, tap.1, isPress ▸ tap.2.1⟩) tap.2.2.1 ?_
      exact (inTerm_iff after (turn later arrives)).mp tap.2.2.2

/-- A call keeps the law for a press that was taken up before. -/
theorem Judged.call {quiet : List (Event κ)} {waiting : List (Stamped κ)} {event : Event κ} {n : Nat}
    (judged : Judged term arrived quiet s event n) (options : DefaultOptions settings term)
    (ordered : InOrder arrived) (stamps : Waiting arrived queue s waiting)
    (conserved : ∀ key, Conserved (arrivals (arrived.map Stamped.event)) queue s key)
    (timed : ∀ press behind, waiting = press :: behind → behind.map Stamped.event = queue →
      ∃ current, Current arrived behind press keyp.event current)
    (known : ∀ waiting ∈ queue, waiting = keyp.event ∨ waiting ∈ quiet)
    (known' : ∀ waiting ∈ queue', waiting = keyp.event ∨ waiting ∈ quiet)
    (outcome : processTapping settings keyp s = ⟨consumed, keyp', s'⟩) :
    Judged term arrived queue' s' event n := by
  cases judged with
  | pending tapping same undecided count noTap =>
    subst same count
    have events := stamps.events
    rw [undecided.events] at events
    obtain ⟨press, behind, rfl, -, behindEvents⟩ := List.map_eq_cons_iff.mp events
    obtain ⟨current, isCurrent⟩ := timed press behind rfl behindEvents
    have decision : Decision term keyp tapping s _ := processTapping_decision options undecided
    rw [outcome] at decision
    refine decision.judged ordered undecided stamps (conserved _) isCurrent ?_ ?_
    · intro waiting member
      exact (known waiting member).imp_right (noTap waiting)
    · intro keypNoTap waiting member
      cases known' waiting member with
      | inl isKeyp => rwa [isKeyp]
      | inr known => exact noTap waiting known
  | decided record press rest delivered own same law =>
    have calls := processTapping_calls settings keyp s
    rw [outcome] at calls
    obtain ⟨more, calls⟩ := calls
    refine .decided record press rest ?_ own same law
    rw [pressRecords_append calls.symm, List.getElem?_append_left, delivered]
    exact (List.getElem?_eq_some_iff.mp delivered).1

end

/-! ## Law in a run -/

/-- The law holds for every call that took up a press. -/
def Obeyed (settings : Settings κ) (term : UInt16) (arrived : List (Stamped κ))
    (log : List (TappingCall κ)) (queue : List (Event κ)) (s : State κ) : Prop :=
  ∀ call ∈ log, Starts settings call.keyp call.state →
    Judged term arrived queue s call.keyp.event (call.state.pressRecords call.keyp.event.key).length

theorem starts_decided {keyp : Record κ} {s : State κ} (fresh : keyp.Fresh)
    (starts : Starts settings keyp s) : s.undecided = [] := by
  obtain ⟨pressed, tap, consumed, -⟩ := starts
  have effect := processTapping_effect settings s fresh
  cases outcome : processTapping settings keyp s with
  | mk isConsumed keyp' s' =>
    rw [outcome] at effect consumed
    obtain rfl : isConsumed = true := consumed
    cases effect with
    | skip tick =>
      rw [isTapRecord, tick] at tap
      cases tap
    | deliver _ _ extra _ same early =>
      refine List.eq_nil_iff_forall_not_mem.mpr ?_
      intro press member
      rw [(early press member).2.1] at pressed
      cases pressed
    | start _ extra _ decided => exact decided

/-- A call for an event keeps the law, and obeys it when it takes up a press. -/
theorem Obeyed.call {arrived waiting : List (Stamped κ)} {log : List (TappingCall κ)}
    {before after queue' : List (Event κ)} {keyp keyp' : Record κ} {s s' : State κ} {consumed : Bool}
    (obeyed : Obeyed settings term arrived log (before ++ after) s)
    (options : DefaultOptions settings term) (ordered : InOrder arrived) (fresh : keyp.Fresh)
    (stamps : Waiting arrived (before ++ keyp.event :: after) s waiting)
    (conserved : ∀ key, Conserved (arrivals (arrived.map Stamped.event)) (before ++ keyp.event :: after) s key)
    (turn : s.undecided = [] → before = [])
    (buffer : ∀ event ∈ s.bufferEvents, event = keyp.event ∨ event ∈ before ++ after)
    (buffered : ∀ event ∈ after, event ∈ s.bufferEvents)
    (outcome : processTapping settings keyp s = ⟨consumed, keyp', s'⟩)
    (leaves : consumed = true → queue' = before ++ after)
    (known : ∀ event ∈ queue', event = keyp.event ∨ event ∈ before ++ after) :
    Obeyed settings term arrived (log ++ [⟨keyp, s⟩]) queue' s' := by
  intro call member starts
  cases List.mem_append.mp member with
  | inl earlier =>
    refine (obeyed call earlier starts).call options ordered stamps conserved ?_ ?_ known outcome
    · rintro press behind rfl behindEvents
      have waits : keyp.event ∈ behind.map Stamped.event := by simp [behindEvents]
      obtain ⟨current, member, same⟩ := List.mem_map.mp waits
      refine ⟨current, same, stamps.sublist.subset (List.mem_cons_of_mem _ member), ?_, fun _ => member⟩
      exact List.rel_of_pairwise_cons (ordered.sublist stamps.sublist) member
    · intro event member
      simp only [List.mem_append, List.mem_cons] at member ⊢
      tauto
  | inr now =>
    -- nothing waits before a press that is taken up
    obtain rfl := List.mem_singleton.mp now
    have decided := starts_decided fresh starts
    obtain rfl := turn decided
    have started := processTapping_started options fresh starts
    have isConsumed := starts.2.2.1
    rw [outcome] at started isConsumed
    rw [leaves isConsumed]
    have events := stamps.events
    rw [decided] at events
    obtain ⟨press, behind, rfl, -, -⟩ := List.map_eq_cons_iff.mp events
    exact started.judged ordered starts.1 decided stamps (conserved _) buffer buffered

/-- The events that wait are `queue`; of those in `known` none is a tap of an undecided press. -/
structure Lawful (settings : Settings κ) (term : UInt16) (arrived : List (Stamped κ))
    (log : List (TappingCall κ)) (queue known : List (Event κ)) (s : State κ) : Prop where
  conserved : ∀ key, Conserved (arrivals (arrived.map Stamped.event)) queue s key
  stamps : ∃ waiting, Waiting arrived queue s waiting
  obeyed : Obeyed settings term arrived log known s

theorem Lawful.withBuffer {arrived : List (Stamped κ)} {log : List (TappingCall κ)}
    {queue known : List (Event κ)} {s : State κ}
    (lawful : Lawful settings term arrived log queue known s) (buffer : List (Record κ)) :
    Lawful settings term arrived log queue known { s with waitingBuffer := buffer } where
  conserved key := (lawful.conserved key).withBuffer buffer
  stamps := by
    obtain ⟨waiting, stamps⟩ := lawful.stamps
    exact ⟨waiting, stamps.events, stamps.isEvent, stamps.sublist, stamps.suffix⟩
  obeyed call member starts := (lawful.obeyed call member starts).withBuffer buffer

section

variable {arrived : List (Stamped κ)} {log : List (TappingCall κ)} {before after : List (Event κ)}
  {keyp keyp' : Record κ} {s s' : State κ}

theorem Lawful.consume
    (lawful : Lawful settings term arrived log (before ++ keyp.event :: after) (before ++ after) s)
    (options : DefaultOptions settings term) (ordered : InOrder arrived) (fresh : keyp.Fresh)
    (event : keyp.event.isEvent = true)
    (first : ∀ earlier ∈ before, earlier.key ≠ keyp.event.key)
    (turn : s.undecided = [] → before = [])
    (buffer : ∀ event ∈ s.bufferEvents, event = keyp.event ∨ event ∈ before ++ after)
    (buffered : ∀ event ∈ after, event ∈ s.bufferEvents)
    (outcome : processTapping settings keyp s = ⟨true, keyp', s'⟩) :
    Lawful settings term arrived (log ++ [⟨keyp, s⟩]) (before ++ after) (before ++ after) s' := by
  obtain ⟨conserved, ⟨waiting, stamps⟩, obeyed⟩ := lawful
  have effect := processTapping_effect settings s fresh
  rw [outcome] at effect
  refine ⟨fun key => (conserved key).consume effect event first,
    stamps.consume effect event first turn, ?_⟩
  exact obeyed.call options ordered fresh stamps conserved turn buffer buffered outcome (fun _ => rfl)
    (fun _ => .inr)

theorem Lawful.wait
    (lawful : Lawful settings term arrived log (before ++ keyp.event :: after) (before ++ after) s)
    (options : DefaultOptions settings term) (ordered : InOrder arrived) (fresh : keyp.Fresh)
    (turn : s.undecided = [] → before = [])
    (buffer : ∀ event ∈ s.bufferEvents, event = keyp.event ∨ event ∈ before ++ after)
    (buffered : ∀ event ∈ after, event ∈ s.bufferEvents)
    (outcome : processTapping settings keyp s = ⟨false, keyp', s'⟩) :
    Lawful settings term arrived (log ++ [⟨keyp, s⟩]) (before ++ keyp.event :: after)
      (before ++ keyp.event :: after) s' := by
  obtain ⟨conserved, ⟨waiting, stamps⟩, obeyed⟩ := lawful
  have effect := processTapping_effect settings s fresh
  rw [outcome] at effect
  refine ⟨fun key => (conserved key).wait effect, stamps.wait effect, ?_⟩
  refine obeyed.call options ordered fresh stamps conserved turn buffer buffered outcome
    (fun isConsumed => Bool.noConfusion isConsumed) ?_
  intro event member
  simp only [List.mem_append, List.mem_cons] at member ⊢
  tauto

end

/-- In the loop, nothing waits before the record that is processed. -/
theorem Lawful.front {arrived : List (Stamped κ)} {log : List (TappingCall κ)} {s : State κ}
    {head : Record κ} {rest : List (Record κ)}
    (lawful : Lawful settings term arrived log s.bufferEvents s.bufferEvents s)
    (buffer : s.waitingBuffer = head :: rest) :
    Lawful settings term arrived log ([] ++ head.event :: rest.map Record.event)
      ([] ++ rest.map Record.event) s := by
  have queue : s.bufferEvents = [] ++ head.event :: rest.map Record.event := by
    rw [State.bufferEvents, buffer, List.map_cons, List.nil_append]
  rw [queue] at lawful
  refine ⟨lawful.conserved, lawful.stamps, ?_⟩
  intro call member starts
  exact (lawful.obeyed call member starts).weaken fun event => List.mem_cons_of_mem _

theorem processWaitingBuffer_lawful {arrived : List (Stamped κ)} {log : List (TappingCall κ)} {s : State κ}
    (options : DefaultOptions settings term) (ordered : InOrder arrived) (fuel : Nat) (tidy : Tidy s)
    (lawful : Lawful settings term arrived log s.bufferEvents s.bufferEvents s) :
    Tidy (processWaitingBuffer settings fuel s) ∧
    Lawful settings term arrived (log ++ waitingBufferCalls settings fuel s)
      (processWaitingBuffer settings fuel s).bufferEvents
      (processWaitingBuffer settings fuel s).bufferEvents (processWaitingBuffer settings fuel s) := by
  have buffered {s : State κ} {head : Record κ} {rest : List (Record κ)}
      (buffer : s.waitingBuffer = head :: rest) (event : Event κ) :
      event ∈ s.bufferEvents ↔ event = head.event ∨ event ∈ [] ++ rest.map Record.event := by
    rw [State.bufferEvents, buffer, List.map_cons, List.mem_cons, List.nil_append]
  refine @processWaitingBuffer_invariant _ _ _
    (fun log s => Tidy s ∧ Lawful settings term arrived log s.bufferEvents s.bufferEvents s)
    ?_ ?_ fuel _ _ ⟨tidy, lawful⟩
  · intro log s head rest keyp' s' invariant buffer outcome
    obtain ⟨tidy, lawful⟩ := invariant
    have fresh : head.Fresh := tidy.fresh head (by simp [buffer])
    have kept := processTapping_kept settings head s
    rw [outcome] at kept
    have isEvent : head.event.isEvent = true := tidy.events head.event ((buffered buffer _).mpr (.inl rfl))
    refine ⟨tidy.consume kept buffer, ?_⟩
    rw [State.bufferEvents, kept.tail_events buffer]
    exact ((lawful.front buffer).consume options ordered fresh isEvent (List.forall_mem_nil _)
      (fun _ => rfl) (fun event => (buffered buffer event).mp)
      (fun event member => (buffered buffer event).mpr (.inr member)) outcome).withBuffer _
  · intro log s head rest keyp' s' invariant buffer outcome
    obtain ⟨tidy, lawful⟩ := invariant
    have fresh : head.Fresh := tidy.fresh head (by simp [buffer])
    have effect := processTapping_effect settings s fresh
    have kept := processTapping_kept settings head s
    rw [outcome] at effect kept
    obtain ⟨tidy', events⟩ := tidy.wait kept buffer effect
    refine ⟨tidy', ?_⟩
    rw [events, State.bufferEvents, buffer]
    exact ((lawful.front buffer).wait options ordered fresh (fun _ => rfl)
      (fun event => (buffered buffer event).mp)
      (fun event member => (buffered buffer event).mpr (.inr member)) outcome).withBuffer _

/-! ## Law at an arrival -/

/-- The event is processed at once although events that arrived before it still wait. -/
def Overtakes (s : State κ) (event : Event κ) : Prop :=
  event.isEvent = true ∧ s.undecided = [] ∧ s.bufferEvents ≠ []

instance (s : State κ) (event : Event κ) : Decidable (Overtakes s event) :=
  inferInstanceAs (Decidable (_ ∧ _ ∧ _))

omit [DecidableEq κ] in
theorem not_bypasses {s : State κ} {event : Event κ} (turn : ¬Overtakes s event) : ¬Bypasses s event := by
  intro bypass
  obtain ⟨isEvent, decided, waiting, member, -⟩ := bypass
  exact turn ⟨isEvent, decided, List.ne_nil_of_mem member⟩

theorem Lawful.arrive {arrived : List (Stamped κ)} {log : List (TappingCall κ)}
    {queue : List (Event κ)} {s : State κ} (lawful : Lawful settings term arrived log queue queue s)
    {arrival : Stamped κ} (ordered : InOrder (arrived ++ [arrival]))
    (isEvent : arrival.event.isEvent = true) :
    Lawful settings term (arrived ++ [arrival]) log (queue ++ [arrival.event]) (queue ++ []) s where
  conserved key := by
    rw [List.map_append, arrivals, List.filter_append, ← arrivals, List.map_singleton,
      List.filter_singleton, isEvent, cond_true]
    exact (lawful.conserved key).arrive arrival.event
  stamps := by
    obtain ⟨waiting, stamps⟩ := lawful.stamps
    exact ⟨_, stamps.arrive isEvent⟩
  obeyed call member starts := by
    rw [List.append_nil]
    exact (lawful.obeyed call member starts).arrive ordered

theorem acceptRecord_event_lawful {arrived : List (Stamped κ)} {log : List (TappingCall κ)}
    {s : State κ} {arrival : Stamped κ} (options : DefaultOptions settings term)
    (ordered : InOrder (arrived ++ [arrival])) (tidy : Tidy s)
    (lawful : Lawful settings term arrived log s.bufferEvents s.bufferEvents s)
    (isEvent : arrival.event.isEvent = true)
    (alternates : Alternates (arrivals (arrived.map Stamped.event)) arrival.event)
    (room : ¬Overflows settings s arrival.event) (turn : ¬Overtakes s arrival.event) :
    Tidy (acceptRecord settings { event := arrival.event } s) ∧
    Lawful settings term (arrived ++ [arrival]) (log ++ [⟨{ event := arrival.event }, s⟩])
      (acceptRecord settings { event := arrival.event } s).bufferEvents
      (acceptRecord settings { event := arrival.event } s).bufferEvents
      (acceptRecord settings { event := arrival.event } s) := by
  have fresh : Record.Fresh { event := arrival.event } := fun _ => rfl
  have queue := lawful.arrive ordered isEvent
  have alone : s.undecided = [] → s.bufferEvents = [] := by
    intro decided
    by_contra waits
    exact turn ⟨isEvent, decided, waits⟩
  have buffer : ∀ event ∈ s.bufferEvents, event = arrival.event ∨ event ∈ s.bufferEvents ++ [] :=
    fun event member => .inr (List.mem_append_left _ member)
  refine ⟨(acceptRecord_event_conserved tidy lawful.conserved isEvent alternates room
    (not_bypasses turn)).1, ?_⟩
  cases outcome : processTapping settings { event := arrival.event } s with
  | mk consumed keyp' s' =>
    cases consumed with
    | true =>
      have effect := processTapping_effect settings s fresh
      have kept := processTapping_kept settings { event := arrival.event } s
      rw [outcome] at effect kept
      have first := first_of_consumed effect (lawful.conserved _) isEvent alternates (not_bypasses turn)
      have accepted := queue.consume options ordered fresh isEvent first alone buffer
        (List.forall_mem_nil _) outcome
      rwa [acceptRecord_consumed outcome, kept.events, ← List.append_nil s.bufferEvents]
    | false =>
      obtain ⟨queued, events⟩ := acceptRecord_queued outcome isEvent room
      rw [events, queued]
      exact (queue.wait options ordered fresh alone buffer (List.forall_mem_nil _) outcome).withBuffer _

/-- A tick is not queued. -/
theorem acceptRecord_tick_state (settings : Settings κ) (s : State κ) {tick : Event κ}
    (isTick : tick.isEvent = false) :
    acceptRecord settings { event := tick } s = (processTapping settings { event := tick } s).state := by
  have fresh : Record.Fresh { event := tick } := fun _ => rfl
  have effect := processTapping_effect settings s fresh
  cases outcome : processTapping settings { event := tick } s with
  | mk consumed keyp' s' =>
    rw [outcome] at effect
    cases consumed with
    | true => exact acceptRecord_consumed outcome
    | false =>
      have same : keyp'.event = tick := (effect.keyp_fresh fresh).1
      rw [acceptRecord_waits outcome, waitingBufferEnq_tick (same ▸ isTick), Option.getD_some]

theorem acceptRecord_tick_lawful {arrived : List (Stamped κ)} {log : List (TappingCall κ)}
    {s : State κ} {arrival : Stamped κ} (options : DefaultOptions settings term)
    (ordered : InOrder (arrived ++ [arrival])) (tidy : Tidy s)
    (lawful : Lawful settings term arrived log s.bufferEvents s.bufferEvents s)
    (isTick : arrival.event.isEvent = false) :
    Tidy (acceptRecord settings { event := arrival.event } s) ∧
    Lawful settings term (arrived ++ [arrival]) (log ++ [⟨{ event := arrival.event }, s⟩])
      (acceptRecord settings { event := arrival.event } s).bufferEvents
      (acceptRecord settings { event := arrival.event } s).bufferEvents
      (acceptRecord settings { event := arrival.event } s) := by
  have kept := processTapping_kept settings { event := arrival.event } s
  have noArrival : arrivals ((arrived ++ [arrival]).map Stamped.event) =
      arrivals (arrived.map Stamped.event) := by
    rw [List.map_append]
    exact arrivals_ticks _ (by simpa using isTick)
  obtain ⟨waiting, stamps⟩ := lawful.stamps
  have stamps' := stamps.tick isTick
  obtain ⟨tidy', conserved'⟩ := acceptRecord_tick_conserved tidy lawful.conserved isTick
  refine ⟨tidy', ?_, ?_, ?_⟩
  · rwa [noArrival]
  · cases acceptRecord_tick settings s isTick with
    | inl same =>
      rw [same]
      exact ⟨waiting, stamps'⟩
    | inr decides =>
      obtain ⟨kept, keyp', effect⟩ := decides
      rw [kept.events]
      exact stamps'.wait effect
  · rw [acceptRecord_tick_state settings s isTick, kept.events]
    intro call member starts
    cases List.mem_append.mp member with
    | inl earlier =>
      have judged := (lawful.obeyed call earlier starts).arrive ordered
      have outcome : processTapping settings { event := arrival.event } s = ⟨_, _, _⟩ := rfl
      refine judged.call options ordered stamps' (noArrival ▸ lawful.conserved) ?_ (fun _ => .inr)
        (fun _ => .inr) outcome
      intro press behind split _
      refine ⟨arrival, rfl, by simp, ?_, ?_⟩
      · have first : press ∈ arrived := stamps.sublist.subset (by simp [split])
        exact (List.pairwise_append.mp ordered).2.2 press first arrival (by simp)
      · intro isEvent
        exact absurd (isTick.symm.trans isEvent) Bool.false_ne_true
    | inr now =>
      -- a tick takes up no press
      obtain rfl := List.mem_singleton.mp now
      have tap := starts.2.1
      rw [isTapRecord, isTick] at tap
      cases tap

/-! ## Runs -/

def NeverOvertakes (settings : Settings κ) (events : List (Event κ)) : Prop :=
  EveryStep (fun earlier event => ¬Overtakes (run settings earlier) event) events

instance (events : List (Event κ)) : Decidable (NeverOvertakes settings events) :=
  inferInstanceAs (Decidable (EveryStep _ events))

theorem actionExec_lawful {arrived : List (Stamped κ)} {log : List (TappingCall κ)}
    {s : State κ} {arrival : Stamped κ} (options : DefaultOptions settings term)
    (ordered : InOrder (arrived ++ [arrival])) (tidy : Tidy s)
    (lawful : Lawful settings term arrived log s.bufferEvents s.bufferEvents s)
    (alternates : arrival.event.isEvent = true →
      Alternates (arrivals (arrived.map Stamped.event)) arrival.event)
    (room : ¬Overflows settings s arrival.event) (turn : ¬Overtakes s arrival.event) :
    Tidy (actionExec settings s arrival.event) ∧
    Lawful settings term (arrived ++ [arrival]) (log ++ actionExecCalls settings s arrival.event)
      (actionExec settings s arrival.event).bufferEvents
      (actionExec settings s arrival.event).bufferEvents (actionExec settings s arrival.event) := by
  rw [actionExec, actionTappingProcess, actionExecCalls, List.append_cons log]
  cases isEvent : arrival.event.isEvent with
  | false =>
    obtain ⟨tidy, lawful⟩ := acceptRecord_tick_lawful options ordered tidy lawful isEvent
    exact processWaitingBuffer_lawful options ordered _ tidy lawful
  | true =>
    obtain ⟨tidy, lawful⟩ :=
      acceptRecord_event_lawful options ordered tidy lawful isEvent (alternates isEvent) room turn
    exact processWaitingBuffer_lawful options ordered _ tidy lawful

theorem run_lawful {arrived : List (Stamped κ)} (options : DefaultOptions settings term)
    (ordered : InOrder arrived) (alternating : Alternating (arrived.map Stamped.event))
    (room : NeverOverflows settings (arrived.map Stamped.event))
    (turn : NeverOvertakes settings (arrived.map Stamped.event)) :
    Tidy (run settings (arrived.map Stamped.event)) ∧
    Lawful settings term arrived (tappingCalls settings (arrived.map Stamped.event))
      (run settings (arrived.map Stamped.event)).bufferEvents
      (run settings (arrived.map Stamped.event)).bufferEvents
      (run settings (arrived.map Stamped.event)) := by
  induction arrived using List.reverseRecOn with
  | nil =>
    refine ⟨⟨List.forall_mem_nil _, List.forall_mem_nil _⟩, ?_, ?_, List.forall_mem_nil _⟩
    · intro key
      exact ⟨[], rfl, .nil, by simp [run, State.tapped]⟩
    · exact ⟨[], rfl, List.forall_mem_nil _, List.Sublist.refl _, fun key => List.suffix_rfl⟩
  | append_singleton arrived arrival ih =>
    rw [List.map_append, List.map_singleton] at alternating room turn ⊢
    obtain ⟨alternating, alternates⟩ := everyStep_concat.mp alternating
    obtain ⟨roomBefore, room⟩ := everyStep_concat.mp room
    obtain ⟨turnBefore, turn⟩ := everyStep_concat.mp turn
    have earlier := ih (List.pairwise_append.mp ordered).1 alternating roomBefore turnBefore
    have step : run settings (arrived.map Stamped.event ++ [arrival.event]) =
        actionExec settings (run settings (arrived.map Stamped.event)) arrival.event := by
      rw [run, List.foldl_append]
      rfl
    rw [tappingCalls_concat, step]
    exact actionExec_lawful options ordered earlier.1 earlier.2 alternates room turn

/-! ## Tap-hold law -/

/-- A call takes up press number `n` of its key.  When the press has been delivered after
`early`, within a turn of the timer, it is a tap exactly if the key is released in time;
and ticks after `early` deliver it. -/
def TapOrHold (settings : Settings κ) (term : UInt16) (early late : List (Stamped κ))
    (call : TappingCall κ) : Prop :=
  let key := call.keyp.event.key
  let n := (call.state.pressRecords key).length
  let events := early.map Stamped.event
  ∃ press rest, fromPress n (stampsOf key (early ++ late)) = press :: rest ∧
    press.event = call.keyp.event ∧
    (∀ record, ((run settings events).pressRecords key)[n]? = some record →
      (∀ arrival ∈ early, arrival.clock < press.clock + 65536) →
      (0 < record.tap.count ↔ releasedInTime term (press :: rest) = true)) ∧
    ∀ tick : Nat → Event κ, (∀ count, (tick count).isEvent = false) → Outlasts settings tick →
      ∃ count record, ((afterTicks settings events tick count).pressRecords key)[n]? = some record

/-- A press that has arrived is delivered as the ticks go on. -/
theorem ticks_deliver_press {arrived rest : List (Stamped κ)} {key : κ} {n : Nat} {press : Stamped κ}
    (alternating : Alternating (arrived.map Stamped.event))
    (room : NeverOverflows settings (arrived.map Stamped.event))
    (turn : NeverOvertakes settings (arrived.map Stamped.event))
    (found : fromPress n (stampsOf key arrived) = press :: rest)
    {tick : Nat → Event κ} (ticks : ∀ count, (tick count).isEvent = false)
    (outlasts : Outlasts settings tick) :
    ∃ count record,
      ((afterTicks settings (arrived.map Stamped.event) tick count).pressRecords key)[n]? = some record := by
  have inTurn : NeverBypasses settings (arrived.map Stamped.event) :=
    fun index bound => not_bypasses (turn index bound)
  obtain ⟨count, replayed⟩ := ticks_replay alternating room inTurn ticks outlasts
  have presses := congrArg List.length
    (pressRecords_events key (afterTicks settings (arrived.map Stamped.event) tick count))
  rw [List.length_map, (replayed key).filter_opens, ← stampsOf_events, List.filter_map,
    List.length_map] at presses
  have bound := fromPress_lt found
  rw [← Function.comp_def Event.pressed Stamped.event, ← presses] at bound
  exact ⟨count, _, List.getElem?_eq_getElem bound⟩

def termSettings : Settings Pad :=
  { padSettings with getTappingTerm := fun _ _ => 200, getQuickTapTerm := fun _ _ => 200 }

theorem termSettings_default : DefaultOptions termSettings 200 :=
  ⟨fun _ _ => rfl, fun _ _ => rfl, fun _ _ => rfl, fun _ => rfl⟩

/-- Space is tapped while shift is undecided, and a tick decides both. -/
def spaceUnderShift : List (Stamped Pad) :=
  [⟨⟨.shift, 65500, .key, true⟩, 65500, rfl⟩, ⟨⟨.space, 65510, .key, true⟩, 65510, rfl⟩,
    ⟨⟨.knob, 65520, .key, true⟩, 65520, rfl⟩, ⟨⟨.space, 24, .key, false⟩, 65560, rfl⟩,
    ⟨⟨.shift, 164, .tick, false⟩, 65700, rfl⟩]

def shiftReleased : List (Stamped Pad) := [⟨⟨.shift, 200, .key, false⟩, 65736, rfl⟩]

/-- Shift is held for longer than a turn of the timer. -/
def longHold : List (Stamped Pad) :=
  [⟨⟨.shift, 0, .key, true⟩, 0, rfl⟩, ⟨⟨.shift, 200, .tick, false⟩, 200, rfl⟩,
    ⟨⟨.shift, 100, .key, false⟩, 65636, rfl⟩]

end QmkFirmware.Tapping
