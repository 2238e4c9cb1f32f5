import QmkFirmware.Foundations.Runs
import QmkFirmware.Sequencer.Model

/-! # The notes of the sequencer

A note that a track starts in the attack is stopped when the release comes to the track, provided that the step and
the note are still the same then, and that nobody switches the sequencer in between.
-/

namespace QmkFirmware.Sequencer

open QmkFirmware.Occupancy QmkFirmware.Runs

namespace State

variable {config : Config} {s : State} {readings : Readings}

/-! ## One task, by its phase -/

theorem task_attack (enabled : s.enabled = true) (phase : s.phase = .attack) :
    s.task config readings = s.phaseAttack config readings := by
  simp [task, enabled, phase]

theorem task_release (enabled : s.enabled = true) (phase : s.phase = .release) :
    s.task config readings = s.phaseRelease config readings := by
  have after : (s.phaseRelease config readings).1.phase ≠ .attack := by
    rw [phaseRelease]
    split
    · simp [phase]
    · rw [releaseNext]
      split <;> simp [phase]
  simp [task, enabled, phase, after]

/-- The step after the current one. -/
def nextStep (config : Config) (s : State) : State :=
  { s with currentStep := (s.currentStep + 1) % config.steps, phase := .attack }

theorem task_pause (config : Config) (readings : Readings) (enabled : s.enabled = true) (phase : s.phase = .pause) :
    s.task config readings = (s, []) ∨
    s.task config readings = (s.nextStep config).phaseAttack config readings := by
  by_cases early : s.elapsed readings.pause < getStepDuration s.tempo s.resolution
  · exact .inl (by simp [task, enabled, phase, phasePause, early])
  · exact .inr (by simp [task, enabled, phase, phasePause, early, nextStep])

theorem task_disabled (disabled : ¬s.enabled = true) : s.task config readings = (s, []) := if_neg disabled

/-- The task comes to the release of the current track. -/
def Releases (config : Config) (s : State) (readings : Readings) : Prop :=
  s.enabled = true ∧ s.phase = .release ∧ ¬s.Waits config readings

instance (config : Config) (s : State) (readings : Readings) : Decidable (s.Releases config readings) :=
  inferInstanceAs (Decidable (_ ∧ _ ∧ _))

/-! ## Where a note may sound -/

/-- The attack has come to the track, and the release has not. -/
def Between (s : State) (track : Nat) : Prop :=
  s.enabled = true ∧ (s.phase = .attack ∧ track < s.currentTrack ∨ s.phase = .release ∧ track ≤ s.currentTrack)

/-- The notes so far have been stopped in time, and those that sound are between their attack and their release. -/
structure Sound (s : State) (trace : List Event) : Prop where
  matched : Matched trace
  between : ∀ track, held trace track ≠ none → s.Between track

variable {trace : List Event}

theorem Sound.mono {other : State} (sound : s.Sound trace) (same : ∀ track, s.Between track → other.Between track) :
    other.Sound trace where
  matched := sound.matched
  between track sounds := same track (sound.between track sounds)

theorem Sound.of_free (matched : Matched trace) (free : Free trace) : s.Sound trace where
  matched := matched
  between track sounds := absurd (free track) sounds

theorem Sound.rest (sound : s.Sound trace) (disabled : ¬s.enabled = true) : s.Sound (trace ++ [.rest]) := by
  have free : Free trace := by
    intro track
    by_contra sounds
    exact disabled (sound.between track sounds).1
  apply Sound.of_free
  · exact sound.matched.concat fun track _ => free track
  · intro track
    rw [held_rest]
    exact free track

/-- The sequencer is at the same place of a step. -/
structure Stands (other s : State) : Prop where
  enabled : other.enabled = s.enabled
  phase : other.phase = s.phase
  currentTrack : other.currentTrack = s.currentTrack

theorem Stands.refl (s : State) : s.Stands s := ⟨rfl, rfl, rfl⟩

theorem Stands.ite {condition : Prop} [Decidable condition] {first second : State} (yes : first.Stands s)
    (no : second.Stands s) : (if condition then first else second).Stands s := by
  split
  · exact yes
  · exact no

theorem Stands.between {other : State} (stands : other.Stands s) {track : Nat} (between : s.Between track) :
    other.Between track := by
  rwa [Between, stands.enabled, stands.phase, stands.currentTrack]

/-! ## The phases -/

theorem between_attack (phase : s.phase = .attack) {track : Nat} (between : s.Between track) : track < s.currentTrack := by
  have place := between.2
  simpa [phase] using place

theorem between_release (phase : s.phase = .release) {track : Nat} (between : s.Between track) :
    track ≤ s.currentTrack := by
  have place := between.2
  simpa [phase] using place

/-- After its attack, the current track is one of those that may sound. -/
theorem attackNext_between (enabled : s.enabled = true) (phase : s.phase = .attack) {track : Nat}
    (reached : track ≤ s.currentTrack) : (s.attackNext config).Between track := by
  rw [attackNext]
  split
  · exact ⟨enabled, .inl ⟨phase, Nat.lt_succ_of_le reached⟩⟩
  · exact ⟨enabled, .inr ⟨rfl, reached⟩⟩

/-- After its release, the current track is none of them, and the others still are. -/
theorem releaseNext_between (enabled : s.enabled = true) (phase : s.phase = .release) {track : Nat}
    (earlier : track < s.currentTrack) : s.releaseNext.Between track := by
  rw [releaseNext, if_pos (Nat.zero_lt_of_lt earlier)]
  exact ⟨enabled, .inr ⟨phase, Nat.le_sub_one_of_lt earlier⟩⟩

theorem attackTimer_stands (s : State) (readings : Readings) : (s.attackTimer readings).Stands s :=
  .ite ⟨rfl, rfl, rfl⟩ (.refl s)

/-- The current track starts its note when no note sounds there. -/
theorem Sound.attackNext (sound : s.Sound trace) (enabled : s.enabled = true) (phase : s.phase = .attack) :
    (s.attackNext config).Sound (trace ++ ((s.currentNote config).map (.start s.currentTrack)).toList) := by
  -- the tracks up to the current one may sound afterwards
  cases s.currentNote config with
  | none =>
    rw [Option.map_none, Option.toList_none, List.append_nil]
    apply sound.mono
    intro track between
    exact attackNext_between enabled phase (Nat.le_of_lt (between_attack phase between))
  | some note =>
    rw [Option.map_some, Option.toList_some]
    constructor
    · apply sound.matched.concat
      intro track same
      cases same
      by_contra sounds
      exact Nat.lt_irrefl _ (between_attack phase (sound.between _ sounds))
    · intro track sounds
      rw [held_start] at sounds
      by_cases current : track = s.currentTrack
      · exact attackNext_between enabled phase (Nat.le_of_eq current)
      · rw [if_neg current] at sounds
        exact attackNext_between enabled phase (Nat.le_of_lt (between_attack phase (sound.between track sounds)))

theorem Sound.attack (sound : s.Sound trace) (enabled : s.enabled = true) (phase : s.phase = .attack) :
    (s.phaseAttack config readings).1.Sound (trace ++ (s.phaseAttack config readings).2) := by
  have stands := attackTimer_stands s readings
  have timed : (s.attackTimer readings).Sound trace := sound.mono fun _ => stands.between
  rw [phaseAttack]
  split
  · rw [List.append_nil]
    exact timed
  · exact timed.attackNext (stands.enabled.trans enabled) (stands.phase.trans phase)

/-- The current track stops its note, which is the one that it has started. -/
theorem Sound.releaseNext (sound : s.Sound trace) (enabled : s.enabled = true) (phase : s.phase = .release)
    (steady : held trace s.currentTrack = none ∨ held trace s.currentTrack = s.currentNote config) :
    s.releaseNext.Sound (trace ++ ((s.currentNote config).map (.stop s.currentTrack)).toList) := by
  have others : ∀ track, held trace track ≠ none → track ≠ s.currentTrack → s.releaseNext.Between track := by
    intro track sounds other
    exact releaseNext_between enabled phase
      (Nat.lt_of_le_of_ne (between_release phase (sound.between track sounds)) other)
  cases note : s.currentNote config with
  | none =>
    have silent : held trace s.currentTrack = none := by
      rw [note, or_self] at steady
      exact steady
    rw [Option.map_none, Option.toList_none, List.append_nil]
    constructor
    · exact sound.matched
    · intro track sounds
      apply others track sounds
      intro same
      exact sounds (same ▸ silent)
  | some note' =>
    rw [note] at steady
    rw [Option.map_some, Option.toList_some]
    constructor
    · apply sound.matched.concat
      intro track needs
      cases needs
    · intro track sounds
      rw [held_stop] at sounds
      -- the stop ends exactly the note that its track holds
      by_cases current : track = s.currentTrack
      · cases steady with
        | inl silent => simp [current, silent] at sounds
        | inr playing => simp [current, playing] at sounds
      · rw [if_neg fun both => current both.1] at sounds
        exact others track sounds current

theorem Sound.release (sound : s.Sound trace) (enabled : s.enabled = true) (phase : s.phase = .release)
    (steady : ¬s.Waits config readings → held trace s.currentTrack = none ∨
      held trace s.currentTrack = s.currentNote config) :
    (s.phaseRelease config readings).1.Sound (trace ++ (s.phaseRelease config readings).2) := by
  rw [phaseRelease]
  split
  next waits =>
    rw [List.append_nil]
    exact sound
  next comes => exact sound.releaseNext enabled phase (steady comes)

theorem Sound.pause (sound : s.Sound trace) (phase : s.phase = .pause) : Free trace := by
  intro track
  by_contra sounds
  have between := (sound.between track sounds).2
  simp [phase] at between

theorem Sound.task (sound : s.Sound trace)
    (steady : s.Releases config readings → held trace s.currentTrack = none ∨
      held trace s.currentTrack = s.currentNote config) :
    (s.task config readings).1.Sound (trace ++ (s.task config readings).2) := by
  by_cases enabled : s.enabled = true
  · cases phase : s.phase with
    | attack =>
      rw [task_attack enabled phase]
      exact sound.attack enabled phase
    | release =>
      rw [task_release enabled phase]
      exact sound.release enabled phase fun comes => steady ⟨enabled, phase, comes⟩
    | pause =>
      -- in the pause nothing sounds, so that the next step may be attacked at once
      have next : (s.nextStep config).Sound trace := Sound.of_free sound.matched (sound.pause phase)
      cases task_pause config readings enabled phase with
      | inl waits =>
        rw [waits, List.append_nil]
        exact sound
      | inr begins =>
        rw [begins]
        exact next.attack enabled rfl
  · rw [task_disabled enabled, List.append_nil]
    exact sound

/-! ## Configuration -/

theorem setStep_stands (config : Config) (s : State) (step : UInt8) (value : Bool) : (s.setStep config step value).Stands s :=
  .ite ⟨rfl, rfl, rfl⟩ (.refl s)

theorem setTempo_stands (s : State) (tempo : UInt8) : (s.setTempo tempo).Stands s := .ite ⟨rfl, rfl, rfl⟩ (.refl s)

theorem setResolution_stands (s : State) (number : Int) : (s.setResolution number).Stands s :=
  .ite ⟨rfl, rfl, rfl⟩ (.refl s)

end State

/-! ## Runs -/

/-- The sequencer with all that it has sent; there is a rest after every operation after which it is off. -/
structure Tracked where
  state : State
  trace : List Event

/-- A call that only configures the tracks, the steps or the durations. -/
def Op.Configures : Op → Prop
  | .task _ => False
  | .on _ => False
  | .off => False
  | .toggle _ => False
  | _ => True

namespace Tracked

open State

def step (config : Config) (tracked : Tracked) (op : Op) : Tracked :=
  let (state, sent) := tracked.state.step config op
  ⟨state, tracked.trace ++ sent ++ if state.enabled then [] else [.rest]⟩

def run (config : Config) (s : State) (ops : List Op) : Tracked := ops.foldl (step config) ⟨s, []⟩

/-- The sequencer is switched only while no note sounds, and when the release comes to a track with a note that sounds,
the current step still has that note. -/
def Steady (config : Config) (tracked : Tracked) : Op → Prop
  | .task readings =>
    tracked.state.Releases config readings →
      held tracked.trace tracked.state.currentTrack = none ∨
      held tracked.trace tracked.state.currentTrack = tracked.state.currentNote config
  | .on _ => Free tracked.trace
  | .off => Free tracked.trace
  | .toggle _ => Free tracked.trace
  | _ => True

theorem configures_stands (config : Config) (s : State) {op : Op} (configures : op.Configures) :
    (s.step config op).1.Stands s ∧ (s.step config op).2 = [] := by
  cases op with
  | task | on | off | toggle => cases configures
  | setStep step value => exact ⟨setStep_stands config s step value, rfl⟩
  | toggleStep step => exact ⟨setStep_stands config s step _, rfl⟩
  | setTempo tempo => exact ⟨setTempo_stands s tempo, rfl⟩
  | increaseTempo => exact ⟨.ite (setTempo_stands s _) (.refl s), rfl⟩
  | decreaseTempo => exact ⟨setTempo_stands s _, rfl⟩
  | setResolution number => exact ⟨setResolution_stands s number, rfl⟩
  | increaseResolution =>
    constructor
    · simp only [State.step, State.increaseResolution]
      exact setResolution_stands s _
    · rfl
  | decreaseResolution => exact ⟨setResolution_stands s _, rfl⟩
  | _ => exact ⟨⟨rfl, rfl, rfl⟩, rfl⟩

variable {config : Config} {tracked : Tracked}

/-- What an operation sends keeps the notes sound. -/
theorem sound_sent (sound : tracked.state.Sound tracked.trace) {op : Op} (steady : tracked.Steady config op) :
    (tracked.state.step config op).1.Sound (tracked.trace ++ (tracked.state.step config op).2) := by
  by_cases configures : op.Configures
  · obtain ⟨stands, silent⟩ := configures_stands config tracked.state configures
    rw [silent, List.append_nil]
    exact sound.mono fun _ => stands.between
  · cases op with
    | task readings => exact sound.task steady
    | on | off | toggle =>
      simp only [State.step, List.append_nil]
      exact State.Sound.of_free sound.matched steady
    | _ => exact absurd trivial configures

theorem sound_step (sound : tracked.state.Sound tracked.trace) {op : Op} (steady : tracked.Steady config op) :
    (tracked.step config op).state.Sound (tracked.step config op).trace := by
  have sent := sound_sent sound steady
  rw [step]
  by_cases enabled : (tracked.state.step config op).1.enabled = true
  · simp only [if_pos enabled, List.append_nil]
    exact sent
  · simp only [if_neg enabled]
    exact sent.rest enabled

/-- In a run whose steps are all steady, every note that is started is stopped before the next one of its track, and
before the sequencer is off. -/
theorem matched_of_steady (config : Config) (s : State) (ops : List Op)
    (steady : EveryStep (fun earlier op => (run config s earlier).Steady config op) ops) :
    Matched (run config s ops).trace := by
  have initial : s.Sound ([] : List Event) := State.Sound.of_free matched_nil fun _ => held_nil
  have sound : (run config s ops).state.Sound (run config s ops).trace := by
    apply foldl_everyStep (fun earlier op => (run config s earlier).Steady config op)
      (fun _ (tracked : Tracked) => tracked.state.Sound tracked.trace) initial _ _ steady
    intro earlier op steady before
    exact sound_step before steady
  exact sound.matched

instance (config : Config) (tracked : Tracked) (op : Op) : Decidable (tracked.Steady config op) :=
  match op with
  | .task _ => inferInstanceAs (Decidable (_ → _))
  | .on _ | .off | .toggle _ => inferInstanceAs (Decidable (Free tracked.trace))
  | .setTrackNotes _ | .setTrackActivation _ _ | .toggleTrackActivation _ | .toggleSingleActiveTrack _ | .setStep _ _
  | .toggleStep _ | .setAllSteps _ | .setTempo _ | .increaseTempo | .decreaseTempo | .setResolution _
  | .increaseResolution | .decreaseResolution | .midi _ _ => inferInstanceAs (Decidable True)

/-! ## One step with one note -/

/-- The default sizes. -/
def sixteenSteps : Config where
  steps := 16
  steps_bounds := by decide
  tracks := 8
  tracks_bounds := by decide
  trackThrottle := 3
  phaseReleaseTimeout := 30

/-- The sequencer at start. -/
def initial : State where
  enabled := false
  steps _ := 0
  trackNotes _ := 0
  tempo := 60
  resolution := .sq4
  activeTracks := 0
  currentTrack := 0
  currentStep := 0
  timer := 0
  phase := .attack
  octave := 4
  transpose := 0

/-- A task in which every reading of the clock is the same. -/
def taskAt (now : UInt16) : Op := .task ⟨now, now, now, now⟩

/-- The first track plays a C in the first step. -/
def playC : List Op :=
  [.setTrackNotes fun _ => 0x7103, .setTrackActivation 0 true, .setStep 0 true, .on 0, taskAt 0]

theorem played_matched :
    Matched (run sixteenSteps initial
      (playC ++ (List.replicate 7 (taskAt 30) ++ List.replicate 8 (taskAt 60)) ++ [.off])).trace :=
  matched_of_steady _ _ _ (by decide +kernel)

/-- When the sequencer is switched off before the release, the note goes on. -/
theorem off_not_matched : ¬Matched (run sixteenSteps initial (playC ++ [.off])).trace := by
  have trace : (run sixteenSteps initial (playC ++ [.off])).trace =
      [.rest, .rest, .rest] ++ .start 0 48 :: ([] ++ .rest :: []) := by decide +kernel
  intro matched
  exact List.not_mem_nil (matched _ _ _ _ _ _ trace trivial)

end Tracked

end QmkFirmware.Sequencer
