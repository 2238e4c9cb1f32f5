import QmkFirmware.Tapping.Calls

/-! # Decision of a tapping key

In the default configuration a tapping key is decided by time alone.  A release of the
key within the term makes it a tap, whether it arrives or already waits in the buffer
when the key is taken up; any event after the term makes it a hold.
-/

namespace QmkFirmware.Tapping

variable {κ : Type} [DecidableEq κ] {settings : Settings κ} {term : UInt16}

/-- No option is set, and all keys have the same term. -/
structure DefaultOptions (settings : Settings κ) (term : UInt16) : Prop where
  tappingTerm : ∀ calls record, settings.getTappingTerm calls record = term
  quickTapTerm : ∀ calls record, settings.getQuickTapTerm calls record = term
  permissiveHold : ∀ calls record, settings.getPermissiveHold calls record = false
  holdOnOtherKeyPress : ∀ key, settings.getHoldOnOtherKeyPress key = false

/-- The 16-bit time from the press to the event is below the term. -/
def InTerm (term : UInt16) (press event : Event κ) : Prop := event.time - press.time < term

omit [DecidableEq κ] in
instance (press event : Event κ) : Decidable (InTerm term press event) :=
  inferInstanceAs (Decidable (_ < _))

/-- The event releases the pressed key within the term. -/
def IsTap (term : UInt16) (press event : Event κ) : Prop :=
  event.isEvent = true ∧ event.key = press.key ∧ event.pressed = false ∧ InTerm term press event

omit [DecidableEq κ] in
theorem DefaultOptions.within (options : DefaultOptions settings term) (s : State κ)
    (tapping : Record κ) (event : Event κ) :
    withinTappingTerm settings s tapping event = true ↔ InTerm term tapping.event event := by
  rw [withinTappingTerm, options.tappingTerm, decide_eq_true_eq, InTerm]

/-! ## An undecided key -/

/-- The tapping key is down, neither tapped nor held yet. -/
structure Undecided (s : State κ) (tapping : Record κ) : Prop where
  key : s.tappingKey = some tapping
  pressed : tapping.event.pressed = true
  count : tapping.tap.count = 0

/-- What a call does while the tapping key is undecided. -/
inductive Decision (term : UInt16) (keyp tapping : Record κ) (s : State κ) : Outcome κ → Prop where
  | tapped (keyp' record : Record κ) (s' : State κ)
      (tap : IsTap term tapping.event keyp.event)
      (count : 0 < record.tap.count)
      (delivered : s'.pressRecords tapping.event.key = s.pressRecords tapping.event.key ++ [record]) :
      Decision term keyp tapping s ⟨false, keyp', s'⟩
  | held (record : Record κ) (s' : State κ)
      (late : ¬InTerm term tapping.event keyp.event)
      (count : record.tap.count = 0)
      (delivered : s'.pressRecords tapping.event.key = s.pressRecords tapping.event.key ++ [record]) :
      Decision term keyp tapping s ⟨false, keyp, s'⟩
  /-- The key stays undecided; it may be flagged as interrupted. -/
  | stays (consumed : Bool) (tapping' : Record κ) (s' : State κ)
      (quiet : ¬IsTap term tapping.event keyp.event)
      (undecided : Undecided s' tapping')
      (same : tapping'.event = tapping.event)
      (delivered : s'.pressRecords tapping.event.key = s.pressRecords tapping.event.key) :
      Decision term keyp tapping s ⟨consumed, keyp, s'⟩

theorem processUndecided_decision {keyp tapping : Record κ} {s : State κ}
    (options : DefaultOptions settings term) (event : keyp.event.isEvent = true)
    (undecided : Undecided s tapping) (inTerm : InTerm term tapping.event keyp.event) :
    Decision term keyp tapping s (processUndecided settings keyp tapping s) := by
  obtain ⟨key, pressed, count⟩ := undecided
  simp only [processUndecided, options.permissiveHold, options.holdOnOtherKeyPress, Bool.and_false,
    Bool.false_eq_true, if_false]
  have quiet (other : ¬(isTappingRecord tapping keyp && !keyp.event.pressed) = true) :
      ¬IsTap term tapping.event keyp.event := by
    intro tap
    apply other
    simp [isTappingRecord, tap.2.1, tap.2.2.1]
  split_ifs with own release retains press
  · -- first tap
    simp only [isTappingRecord, Bool.and_eq_true, beq_iff_eq, Bool.not_eq_true'] at own
    refine .tapped _ { tapping with tap.count := 1 } _ ⟨event, own.1.symm, own.2, inTerm⟩
      Nat.zero_lt_one ?_
    exact pressRecords_processRecord { s with tappingKey := _ } rfl pressed
  · exact .stays _ tapping s (quiet own) ⟨key, pressed, count⟩ rfl rfl
  · -- a release is delivered past the undecided key; no press record is added
    simp only [Bool.and_eq_true, Bool.not_eq_true'] at release
    refine .stays _ tapping _ (quiet own) ⟨key, pressed, count⟩ rfl ?_
    exact pressRecords_processRecord_other s fun _ => release.1
  · exact .stays _ _ _ (quiet own) ⟨rfl, pressed, count⟩ rfl rfl
  · exact .stays _ tapping s (quiet own) ⟨key, pressed, count⟩ rfl rfl

theorem processTapping_decision {keyp tapping : Record κ} {s : State κ}
    (options : DefaultOptions settings term) (undecided : Undecided s tapping) :
    Decision term keyp tapping s (processTapping settings keyp s) := by
  obtain ⟨key, pressed, count⟩ := undecided
  simp only [processTapping, key]
  rw [if_pos pressed, if_pos count, if_pos count]
  split_ifs with within tick
  · refine .stays _ tapping s ?_ ⟨key, pressed, count⟩ rfl rfl
    intro tap
    simp [tap.1] at tick
  · exact processUndecided_decision options (by simpa using tick) ⟨key, pressed, count⟩
      ((options.within s tapping keyp.event).mp within)
  · refine .held tapping _ ?_ count (pressRecords_processRecord s rfl pressed)
    intro inTerm
    exact within ((options.within s tapping keyp.event).mpr inTerm)

/-! ## Start of a tapping sequence -/

theorem markTap_none {s : State κ} {tapping : Record κ} {buffer : List (Record κ)}
    (options : DefaultOptions settings term) (none : markTap settings s tapping buffer = none) :
    ∀ record ∈ buffer, ¬IsTap term tapping.event record.event := by
  induction buffer with
  | nil => exact List.forall_mem_nil _
  | cons candidate rest ih =>
    rw [markTap] at none
    split_ifs at none with marks
    rw [Option.map_eq_none_iff] at none
    refine List.forall_mem_cons.mpr ⟨?_, ih none⟩
    intro tap
    apply marks
    simp [tap.1, tap.2.1, tap.2.2.1, (options.within s tapping candidate.event).mpr tap.2.2.2]

theorem markTap_some {s : State κ} {tapping : Record κ} {buffer marked : List (Record κ)}
    (options : DefaultOptions settings term) (found : markTap settings s tapping buffer = some marked) :
    ∃ record ∈ buffer, IsTap term tapping.event record.event := by
  induction buffer generalizing marked with
  | nil => simp [markTap] at found
  | cons candidate rest ih =>
    rw [markTap] at found
    split at found
    · next marks =>
      simp only [Bool.and_eq_true, beq_iff_eq, Bool.not_eq_true', options.within] at marks
      exact ⟨candidate, List.mem_cons_self, marks.1.1.1, marks.1.1.2, marks.1.2, marks.2⟩
    · obtain ⟨tail, tailFound, -⟩ := Option.map_eq_some_iff.mp found
      obtain ⟨record, member, tap⟩ := ih tailFound
      exact ⟨record, List.mem_cons_of_mem _ member, tap⟩

/-- The call takes up the press of a tapping key; the tapping key before it, if any, was
another key or has timed out. -/
def Starts (settings : Settings κ) (keyp : Record κ) (s : State κ) : Prop :=
  keyp.event.pressed = true ∧ isTapRecord settings s keyp = true ∧
  (processTapping settings keyp s).consumed = true ∧
  ∀ tapping ∈ s.tappingKey, tapping.event.key ≠ keyp.event.key ∨
    withinTappingTerm settings s tapping keyp.event = false

instance (keyp : Record κ) (s : State κ) : Decidable (Starts settings keyp s) :=
  inferInstanceAs (Decidable (_ ∧ _ ∧ _ ∧ _))

/-- An undecided tapping key does not let a press through. -/
theorem processUndecided_press {keyp tapping : Record κ} {s : State κ}
    (press : keyp.event.pressed = true) :
    (processUndecided settings keyp tapping s).consumed = false := by
  simp only [processUndecided, press, Bool.not_true, Bool.and_false, Bool.false_and,
    Bool.false_eq_true, if_false, if_true]
  split_ifs <;> rfl

/-- The press becomes the tapping key, and the buffer is scanned. -/
def TakesUp (settings : Settings κ) (keyp : Record κ) (s : State κ) (outcome : Outcome κ) : Prop :=
  ∃ pressed : State κ, outcome = ⟨true, keyp, waitingBufferScanTap settings pressed⟩ ∧
    pressed.tappingKey = some keyp ∧ pressed.waitingBuffer = s.waitingBuffer ∧
    ∀ key, pressed.pressRecords key = s.pressRecords key

theorem processTapped_takesUp {released : Record κ → Option (Record κ)} {keyp tapping : Record κ}
    {s : State κ} (press : keyp.event.pressed = true) (tap : isTapRecord settings s keyp = true) :
    TakesUp settings keyp s (processTapped settings released keyp tapping s) := by
  simp only [processTapped, press, tap, Bool.not_true, Bool.and_false, Bool.false_eq_true, if_false,
    Bool.and_self, if_true]
  refine ⟨_, rfl, rfl, ?_, ?_⟩
  · split_ifs <;> rfl
  · intro key
    split_ifs
    · exact pressRecords_processRecord_other s fun _ => rfl
    · rfl

theorem processTapping_takesUp {keyp : Record κ} {s : State κ} (starts : Starts settings keyp s) :
    TakesUp settings keyp s (processTapping settings keyp s) := by
  obtain ⟨press, tap, consumed, previous⟩ := starts
  have event : keyp.event.isEvent = true := (Bool.and_eq_true _ _ ▸ tap).1
  simp only [processTapping] at consumed ⊢
  cases key : s.tappingKey with
  | none =>
    simp only [processIdle, event, press, tap, Bool.not_true, Bool.false_eq_true, if_false,
      Bool.and_self, if_true]
    exact ⟨_, rfl, rfl, rfl, fun _ => pressRecords_tapHint _ _ _⟩
  | some tapping =>
    rw [key] at consumed
    simp only [event, Bool.not_true, Bool.false_eq_true, if_false] at consumed ⊢
    split_ifs at consumed ⊢ with pressed within count count within
    · -- behind an undecided key the press would have to wait
      rw [processUndecided_press press] at consumed
      cases consumed
    · exact processTapped_takesUp press tap
    · exact processTapped_takesUp press tap
    · -- the released key has not timed out, so it is another one
      have other : isTappingRecord tapping keyp = false := by
        cases previous tapping key with
        | inl other => simpa [isTappingRecord] using other
        | inr late => exact absurd within (by simp [late])
      simp only [processReleased, press, tap, other, Bool.false_eq_true, if_false, if_true]
      exact ⟨_, rfl, rfl, rfl, fun _ => rfl⟩

/-- A press that starts a tapping sequence is undecided afterwards, and no tap of it waits in
the buffer; or its tap was found there. -/
inductive Started (term : UInt16) (keyp : Record κ) (s : State κ) : Outcome κ → Prop where
  | undecided (s' : State κ) (tapping : Record κ)
      (same : tapping.event = keyp.event)
      (undecided : Undecided s' tapping)
      (quiet : ∀ record ∈ s.waitingBuffer, ¬IsTap term keyp.event record.event)
      (delivered : s'.pressRecords keyp.event.key = s.pressRecords keyp.event.key) :
      Started term keyp s ⟨true, keyp, s'⟩
  | tapped (s' : State κ) (record release : Record κ)
      (waiting : release ∈ s.waitingBuffer)
      (tap : IsTap term keyp.event release.event)
      (count : 0 < record.tap.count)
      (delivered : s'.pressRecords keyp.event.key = s.pressRecords keyp.event.key ++ [record]) :
      Started term keyp s ⟨true, keyp, s'⟩

theorem processTapping_started {keyp : Record κ} {s : State κ} (options : DefaultOptions settings term)
    (fresh : keyp.Fresh) (starts : Starts settings keyp s) :
    Started term keyp s (processTapping settings keyp s) := by
  have press : keyp.event.pressed = true := starts.1
  have count : keyp.tap.count = 0 := fresh press
  obtain ⟨pressed, outcome, key, buffer, delivered⟩ := processTapping_takesUp starts
  rw [outcome, waitingBufferScanTap, key]
  simp only [count, press, Nat.lt_irrefl, decide_false, Bool.not_true, Bool.or_self,
    Bool.false_eq_true, if_false]
  rw [buffer]
  cases found : markTap settings pressed keyp s.waitingBuffer with
  | none =>
    exact .undecided pressed keyp rfl ⟨key, press, count⟩ (markTap_none options found) (delivered _)
  | some marked =>
    obtain ⟨release, waiting, tap⟩ := markTap_some options found
    refine .tapped _ { keyp with tap.count := 1 } release waiting tap Nat.zero_lt_one ?_
    rw [← delivered]
    exact pressRecords_processRecord { pressed with tappingKey := _, waitingBuffer := marked } rfl press

end QmkFirmware.Tapping
