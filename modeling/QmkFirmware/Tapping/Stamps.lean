import QmkFirmware.Tapping.Conservation
import QmkFirmware.Tapping.Decision

/-! # Times of arrival

Events carry 16-bit times.  Here each has the unbounded time at which it arrives as
well.  The events that wait are followed with their times from call to call, so that a
press can be found among the events of its key when it is delivered.
-/

namespace QmkFirmware.Tapping

open QmkFirmware.Replay

/-- An event and the time at which it arrives; the event has its low 16 bits. -/
structure Stamped (κ : Type) where
  event : Event κ
  clock : Nat
  time : event.time = UInt16.ofNat clock

section

variable {κ : Type}

def InOrder (arrived : List (Stamped κ)) : Prop :=
  arrived.Pairwise fun earlier later => earlier.clock ≤ later.clock

instance (arrived : List (Stamped κ)) : Decidable (InOrder arrived) :=
  inferInstanceAs (Decidable (List.Pairwise _ _))

/-- Within one turn of the timer the 16-bit difference is the time that has passed. -/
theorem inTerm_iff {term : UInt16} {press later : Stamped κ} (after : press.clock ≤ later.clock)
    (turn : later.clock < press.clock + 65536) :
    InTerm term press.event later.event ↔ later.clock < press.clock + term.toNat := by
  rw [InTerm, UInt16.lt_iff_toNat_lt, UInt16.toNat_sub, press.time, later.time, UInt16.toNat_ofNat',
    UInt16.toNat_ofNat']
  omega

/-! ## Presses and their releases -/

/-- The events of a key from its press number `n` on, counted from zero. -/
def fromPress : Nat → List (Stamped κ) → List (Stamped κ)
  | _, [] => []
  | 0, arrival :: rest => if arrival.event.pressed then arrival :: rest else fromPress 0 rest
  | n + 1, arrival :: rest => if arrival.event.pressed then fromPress n rest else fromPress (n + 1) rest

/-- The release that follows the press arrives before the term is over. -/
def releasedInTime (term : UInt16) : List (Stamped κ) → Bool
  | [] => false
  | press :: rest =>
    (rest.find? fun later => !later.event.pressed).any fun release =>
      release.clock < press.clock + term.toNat

theorem fromPress_append {n : Nat} {done : List (Stamped κ)} {press : Stamped κ}
    {rest : List (Stamped κ)} (pressed : press.event.pressed = true)
    (count : (done.filter fun arrival => arrival.event.pressed).length = n) :
    fromPress n (done ++ press :: rest) = press :: rest := by
  induction done generalizing n with
  | nil =>
    subst count
    simp [fromPress, pressed]
  | cons first done ih =>
    cases down : first.event.pressed with
    | true =>
      rw [List.filter_cons, if_pos down, List.length_cons] at count
      subst count
      rw [List.cons_append, fromPress, if_pos down]
      exact ih rfl
    | false =>
      rw [List.filter_cons, if_neg (by simp [down])] at count
      cases n <;> rw [List.cons_append, fromPress, if_neg (by simp [down]), ih count]

/-- What arrives later follows the press. -/
theorem fromPress_concat {n : Nat} {arrived more rest : List (Stamped κ)} {press : Stamped κ}
    (found : fromPress n arrived = press :: rest) :
    fromPress n (arrived ++ more) = press :: (rest ++ more) := by
  induction arrived generalizing n with
  | nil => cases found
  | cons first arrived ih =>
    cases n with
    | zero =>
      rw [fromPress] at found
      rw [List.cons_append, fromPress]
      split_ifs at found ⊢
      · obtain ⟨rfl, rfl⟩ := List.cons.inj found
        rfl
      · exact ih found
    | succ n =>
      rw [fromPress] at found
      rw [List.cons_append, fromPress]
      split_ifs at found ⊢
      · exact ih found
      · exact ih found

theorem fromPress_suffix (n : Nat) (arrived : List (Stamped κ)) : fromPress n arrived <:+ arrived := by
  induction arrived generalizing n with
  | nil => exact List.suffix_rfl
  | cons first arrived ih =>
    have behind (m : Nat) : fromPress m arrived <:+ first :: arrived :=
      (ih m).trans (List.suffix_cons _ _)
    cases n with
    | zero =>
      rw [fromPress]
      split_ifs
      · exact List.suffix_rfl
      · exact behind 0
    | succ n =>
      rw [fromPress]
      split_ifs
      · exact behind n
      · exact behind (n + 1)

theorem fromPress_lt {n : Nat} {arrived rest : List (Stamped κ)} {press : Stamped κ}
    (found : fromPress n arrived = press :: rest) :
    n < (arrived.filter fun arrival => arrival.event.pressed).length := by
  induction arrived generalizing n with
  | nil => cases found
  | cons first arrived ih =>
    cases n with
    | zero =>
      rw [fromPress] at found
      split_ifs at found with down
      · rw [List.filter_cons, if_pos down]
        exact Nat.succ_pos _
      · rw [List.filter_cons, if_neg down]
        exact ih found
    | succ n =>
      rw [fromPress] at found
      split_ifs at found with down
      · rw [List.filter_cons, if_pos down]
        exact Nat.succ_lt_succ (ih found)
      · rw [List.filter_cons, if_neg down]
        exact ih found

/-- A later release that is in time is not before the first one. -/
theorem releasedInTime_iff {term : UInt16} {press : Stamped κ} {rest : List (Stamped κ)}
    (ordered : InOrder rest) :
    releasedInTime term (press :: rest) = true ↔
      ∃ release ∈ rest, release.event.pressed = false ∧ release.clock < press.clock + term.toNat := by
  rw [releasedInTime, Option.any_eq_true]
  constructor
  · intro first
    obtain ⟨release, found, inTime⟩ := first
    exact ⟨release, List.mem_of_find?_eq_some found, by simpa using List.find?_some found,
      of_decide_eq_true inTime⟩
  · intro later
    obtain ⟨release, member, released, inTime⟩ := later
    obtain ⟨before, after, rfl⟩ := List.append_of_mem member
    cases found : before.find? fun later => !later.event.pressed with
    | some first =>
      have isBefore : first ∈ before := List.mem_of_find?_eq_some found
      have order : first.clock ≤ release.clock :=
        (List.pairwise_append.mp ordered).2.2 first isBefore release List.mem_cons_self
      refine ⟨first, ?_, decide_eq_true (order.trans_lt inTime)⟩
      rw [List.find?_append, found, Option.some_or]
    | none =>
      refine ⟨release, ?_, decide_eq_true inTime⟩
      rw [List.find?_append, found, Option.none_or, List.find?_cons_of_pos (by simp [released])]

end

variable {κ : Type} [DecidableEq κ] {settings : Settings κ} {term : UInt16}

/-- The presses and releases of a key. -/
def stampsOf (key : κ) (arrived : List (Stamped κ)) : List (Stamped κ) :=
  arrived.filter fun arrival => arrival.event.isEvent ∧ arrival.event.key = key

@[simp] theorem stampsOf_append (key : κ) (arrived more : List (Stamped κ)) :
    stampsOf key (arrived ++ more) = stampsOf key arrived ++ stampsOf key more := by
  rw [stampsOf, List.filter_append, ← stampsOf, ← stampsOf]

theorem stampsOf_events (key : κ) (arrived : List (Stamped κ)) :
    (stampsOf key arrived).map Stamped.event = ofKey key (arrivals (arrived.map Stamped.event)) := by
  rw [ofKey, arrivals, List.filter_filter, List.filter_map, stampsOf]
  congr 2
  funext arrival
  simp [Bool.and_comm]

theorem stampsOf_eq_nil {key : κ} {arrived : List (Stamped κ)}
    (apart : ∀ arrival ∈ arrived, arrival.event.key ≠ key) : stampsOf key arrived = [] := by
  simpa [stampsOf] using fun arrival member _ => apart arrival member

theorem mem_stampsOf {key : κ} {arrived : List (Stamped κ)} {arrival : Stamped κ} :
    arrival ∈ stampsOf key arrived ↔
      arrival ∈ arrived ∧ arrival.event.isEvent = true ∧ arrival.event.key = key := by
  simp [stampsOf]

theorem inOrder_fromPress {arrived rest : List (Stamped κ)} (ordered : InOrder arrived) {key : κ} {n : Nat}
    {press : Stamped κ} (found : fromPress n (stampsOf key arrived) = press :: rest) : InOrder rest := by
  have suffix := fromPress_suffix n (stampsOf key arrived)
  rw [found] at suffix
  exact (ordered.sublist (suffix.sublist.trans List.filter_sublist)).of_cons

/-! ## Stamps of the waiting events -/

/-- The events that wait, in the order in which they arrived.  Those of a key are the
last that have arrived. -/
structure Waiting (arrived : List (Stamped κ)) (queue : List (Event κ)) (s : State κ)
    (waiting : List (Stamped κ)) : Prop where
  events : waiting.map Stamped.event = s.undecided ++ queue
  isEvent : ∀ arrival ∈ waiting, arrival.event.isEvent = true
  sublist : waiting.Sublist arrived
  suffix : ∀ key, stampsOf key waiting <:+ stampsOf key arrived

theorem Waiting.arrive {arrived waiting : List (Stamped κ)} {queue : List (Event κ)} {s : State κ}
    (stamps : Waiting arrived queue s waiting) {arrival : Stamped κ}
    (isEvent : arrival.event.isEvent = true) :
    Waiting (arrived ++ [arrival]) (queue ++ [arrival.event]) s (waiting ++ [arrival]) where
  events := by rw [List.map_append, stamps.events, List.append_assoc, List.map_singleton]
  isEvent := List.forall_mem_append.mpr ⟨stamps.isEvent, List.forall_mem_singleton.mpr isEvent⟩
  sublist := stamps.sublist.append_right [arrival]
  suffix key := by
    rw [stampsOf_append, stampsOf_append]
    obtain ⟨done, split⟩ := stamps.suffix key
    exact ⟨done, by rw [← split, List.append_assoc]⟩

theorem Waiting.tick {arrived waiting : List (Stamped κ)} {queue : List (Event κ)} {s : State κ}
    (stamps : Waiting arrived queue s waiting) {arrival : Stamped κ}
    (isTick : arrival.event.isEvent = false) : Waiting (arrived ++ [arrival]) queue s waiting where
  events := stamps.events
  isEvent := stamps.isEvent
  sublist := stamps.sublist.trans (List.sublist_append_left _ _)
  suffix key := by
    have none : stampsOf key [arrival] = [] := by simp [stampsOf, isTick]
    rw [stampsOf_append, none, List.append_nil]
    exact stamps.suffix key

/-- An event leaves that is the first of its key to wait. -/
theorem Waiting.remove {arrived before after : List (Stamped κ)} {arrival : Stamped κ}
    {queue queue' : List (Event κ)} {s s' : State κ}
    (stamps : Waiting arrived queue s (before ++ arrival :: after))
    (first : ∀ earlier ∈ before, earlier.event.key ≠ arrival.event.key)
    (events : (before ++ after).map Stamped.event = s'.undecided ++ queue') :
    Waiting arrived queue' s' (before ++ after) := by
  have fewer : (before ++ after).Sublist (before ++ arrival :: after) :=
    (List.sublist_cons_self arrival after).append_left before
  refine ⟨events, fun later member => stamps.isEvent later (fewer.subset member),
    fewer.trans stamps.sublist, fun key => List.IsSuffix.trans ?_ (stamps.suffix key)⟩
  rw [List.append_cons, stampsOf_append, stampsOf_append, stampsOf_append]
  -- for another key nothing has changed
  by_cases own : arrival.event.key = key
  · subst own
    rw [stampsOf_eq_nil first]
    exact List.suffix_append _ _
  · have none : stampsOf key [arrival] = [] := stampsOf_eq_nil (by simpa using own)
    rw [none, List.append_nil]

theorem Waiting.consume {arrived waiting : List (Stamped κ)} {before after : List (Event κ)}
    {keyp keyp' : Record κ} {s s' : State κ}
    (stamps : Waiting arrived (before ++ keyp.event :: after) s waiting)
    (effect : Effect keyp s ⟨true, keyp', s'⟩) (event : keyp.event.isEvent = true)
    (first : ∀ earlier ∈ before, earlier.key ≠ keyp.event.key)
    (turn : s.undecided = [] → before = []) : ∃ waiting', Waiting arrived (before ++ after) s' waiting' := by
  cases effect with
  | skip tick =>
    rw [event] at tick
    cases tick
  | deliver _ _ extra _ same early =>
    have events := stamps.events
    rw [← List.append_assoc] at events
    obtain ⟨front, back, rfl, frontEvents, backEvents⟩ := List.map_eq_append_iff.mp events
    obtain ⟨arrival, behind, rfl, isKeyp, behindEvents⟩ := List.map_eq_cons_iff.mp backEvents
    refine ⟨front ++ behind, stamps.remove ?_ ?_⟩
    · intro earlier member own
      rw [isKeyp] at own
      have inFront : earlier.event ∈ s.undecided ++ before :=
        frontEvents ▸ List.mem_map_of_mem member
      cases List.mem_append.mp inFront with
      | inl undecided => exact (early earlier.event undecided).1 own
      | inr waits => exact first earlier.event waits own
    · rw [List.map_append, frontEvents, behindEvents, same, List.append_assoc]
  | start _ extra _ decided starts =>
    -- the press stays the first of the waiting events
    refine ⟨waiting, ?_, stamps.isEvent, stamps.sublist, stamps.suffix⟩
    rw [stamps.events, decided, starts, turn decided]
    rfl

theorem Waiting.wait {arrived waiting : List (Stamped κ)} {queue : List (Event κ)}
    {keyp keyp' : Record κ} {s s' : State κ} (stamps : Waiting arrived queue s waiting)
    (effect : Effect keyp s ⟨false, keyp', s'⟩) : ∃ waiting', Waiting arrived queue s' waiting' := by
  cases effect with
  | keep _ same => exact ⟨waiting, same ▸ stamps.events, stamps.isEvent, stamps.sublist, stamps.suffix⟩
  | resolve _ _ press waits marks undecided pressed resolved =>
    have events := stamps.events
    rw [undecided] at events
    obtain ⟨arrival, behind, rfl, -, behindEvents⟩ := List.map_eq_cons_iff.mp events
    have front : Waiting arrived queue s ([] ++ arrival :: behind) := stamps
    refine ⟨behind, front.remove (List.forall_mem_nil _) ?_⟩
    rw [List.nil_append, behindEvents, resolved]
    rfl

theorem pressRecords_events (key : κ) (s : State κ) :
    (s.pressRecords key).map Record.event = (ofKey key s.delivered).filter Event.pressed := by
  have records : (s.calls.filterMap Call.processedRecord).map Record.event = s.delivered := by
    rw [State.delivered, List.map_filterMap]
    congr 1
    funext call
    cases call <;> rfl
  rw [← records, ofKey, List.filter_map, List.filter_map, List.filter_filter, State.pressRecords]
  congr 2
  funext record
  simp [Bool.and_comm]

/-- The first event that waits, when it is a press, has the number of the presses of its key
that have been delivered. -/
theorem Waiting.fromPress_head {arrived behind : List (Stamped κ)} {press : Stamped κ}
    {queue : List (Event κ)} {s : State κ} {event : Event κ}
    (stamps : Waiting arrived queue s (press :: behind)) (isPress : press.event = event)
    (conserved : Conserved (arrivals (arrived.map Stamped.event)) queue s event.key)
    (pressed : event.pressed = true) :
    fromPress (s.pressRecords event.key).length (stampsOf event.key arrived) =
      press :: stampsOf event.key behind := by
  subst isPress
  have own : stampsOf press.event.key (press :: behind) = press :: stampsOf press.event.key behind := by
    simp [stampsOf, stamps.isEvent press List.mem_cons_self]
  obtain ⟨done, split⟩ := stamps.suffix press.event.key
  obtain ⟨replays, splitEvents, replayed, -⟩ := conserved
  have wait : ofKey press.event.key (s.undecided ++ queue) =
      (stampsOf press.event.key (press :: behind)).map Stamped.event := by
    rw [stampsOf_events, ← stamps.events, arrivals, List.filter_eq_self.mpr]
    simpa using stamps.isEvent
  -- the stamps before the waiting ones are those of the replayed events
  have same : done.map Stamped.event = replays := by
    rw [← stampsOf_events, ← split, wait, List.map_append] at splitEvents
    exact List.append_cancel_right splitEvents
  rw [← split, own]
  refine fromPress_append pressed ?_
  have presses := congrArg List.length (pressRecords_events press.event.key s)
  rw [List.length_map, replayed.filter_opens, ← same, List.filter_map, List.length_map] at presses
  exact presses.symm

end QmkFirmware.Tapping
