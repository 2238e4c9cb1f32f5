import Mathlib.Logic.Function.Basic
import Mathlib.Data.List.Induction
import QmkFirmware.Foundations.Runs

/-! # The life cycle of a tap dance

A shallow embedding of `quantum/process_keycode/process_tap_dance.c`.  A callback of the keymap
can set `finished` or call `reset_tap_dance`; a callback that is `NULL` is one that does nothing.
Each dance goes through cycles of taps and releases, the end of the dance and one reset.
-/

namespace QmkFirmware.TapDance

open QmkFirmware.Runs

/-! ## The model -/

abbrev Keycode : Type := BitVec 16

abbrev Index : Type := BitVec 8

def qkTapDance : Nat := 0x5700
def qkTapDanceMax : Nat := 0x57FF

def IsTapDance (keycode : Keycode) : Prop := qkTapDance ≤ keycode.toNat ∧ keycode.toNat ≤ qkTapDanceMax

instance (keycode : Keycode) : Decidable (IsTapDance keycode) := inferInstanceAs (Decidable (_ ∧ _))

/-- `TD_INDEX`. -/
def tdIndex (keycode : Keycode) : Index := keycode.setWidth 8

/-- `tap_dance_state_t`. -/
structure TapState where
  interruptingKeycode : Keycode := 0
  count : BitVec 8 := 0
  weakMods : BitVec 8 := 0
  oneshotMods : BitVec 8 := 0
  pressed : Bool := false
  finished : Bool := false
  interrupted : Bool := false
deriving DecidableEq

/-- What a callback does to the state of its dance. -/
inductive Callback where
  | plain
  | finish
  | reset
deriving DecidableEq

inductive Call where
  | eachTap (i : Index) (callback : Callback)
  | eachRelease (i : Index) (callback : Callback)
  | danceFinished (i : Index)
  | reset (i : Index)
  | addWeakMods (mods : BitVec 8)
  | addMods (mods : BitVec 8)
  | delWeakMods (mods : BitVec 8)
  | delMods (mods : BitVec 8)
  | clearWeakMods
  | sendKeyboardReport
deriving DecidableEq

/-- `tap_dance_actions`, the static variables and the calls so far. -/
structure State where
  states : Index → TapState
  activeTd : Keycode
  lastTapTime : BitVec 16
  calls : List Call

namespace State

def call (calls : List Call) (s : State) : State := { s with calls := s.calls ++ calls }

def setState (i : Index) (state : TapState) (s : State) : State :=
  { s with states := Function.update s.states i state }

end State

def onReset (i : Index) (s : State) : State :=
  (s.call [.reset i, .delWeakMods (s.states i).weakMods, .delMods (s.states i).oneshotMods,
    .sendKeyboardReport]).setState i {}

def resetTapDance (i : Index) (s : State) : State := onReset i { s with activeTd := 0 }

/-- `_process_tap_dance_action_fn`. -/
def actionFn (i : Index) (callback : Callback) (s : State) : State :=
  match callback with
  | .plain => s
  | .finish => s.setState i { s.states i with finished := true }
  | .reset => resetTapDance i s

/-- The modifiers that the dance code reads. -/
structure Mods where
  mods : BitVec 8
  weakMods : BitVec 8
  oneshotMods : BitVec 8

def onEachTap (i : Index) (mods : Mods) (callback : Callback) (s : State) : State :=
  let state := { s.states i with
    count := (s.states i).count + 1
    weakMods := mods.mods ||| mods.weakMods
    oneshotMods := mods.oneshotMods }
  actionFn i callback ((s.setState i state).call [.eachTap i callback])

def onEachRelease (i : Index) (callback : Callback) (s : State) : State :=
  actionFn i callback (s.call [.eachRelease i callback])

def onDanceFinished (i : Index) (callback : Callback) (s : State) : State :=
  let s :=
    if (s.states i).finished then s
    else
      actionFn i callback ((s.setState i { s.states i with finished := true }).call
        [.addWeakMods (s.states i).weakMods, .addMods (s.states i).oneshotMods, .sendKeyboardReport,
          .danceFinished i])
  let s := { s with activeTd := 0 }
  if (s.states i).pressed then s else onReset i s

/-- Also returns whether a dance was interrupted. -/
def preprocessTapDance (keycode : Keycode) (pressed : Bool) (finishing : Callback) (s : State) : Bool × State :=
  if pressed = false then (false, s)
  else if s.activeTd = 0 ∨ keycode = s.activeTd then (false, s)
  else
    let i := tdIndex s.activeTd
    let s := s.setState i { s.states i with interrupted := true, interruptingKeycode := keycode }
    (true, (onDanceFinished i finishing s).call [.clearWeakMods])

def processTapDance (keycode : Keycode) (pressed : Bool) (now : BitVec 16) (mods : Mods) (callback : Callback)
    (s : State) : State :=
  if IsTapDance keycode then
    let i := tdIndex keycode
    let s := s.setState i { s.states i with pressed := pressed }
    if pressed then
      let s := onEachTap i mods callback { s with lastTapTime := now }
      { s with activeTd := if (s.states i).finished then 0 else keycode }
    else
      let s := onEachRelease i callback s
      if (s.states i).finished then
        let s := onReset i s
        { s with activeTd := if s.activeTd = keycode then 0 else s.activeTd }
      else s
  else s

/-- `tappingTerm` is `GET_TAPPING_TERM`. -/
def tapDanceTask (tappingTerm : Keycode → BitVec 16) (now : BitVec 16) (finishing : Callback) (s : State) : State :=
  if s.activeTd = 0 ∨ now - s.lastTapTime ≤ tappingTerm s.activeTd then s
  else
    let i := tdIndex s.activeTd
    if (s.states i).interrupted then s else onDanceFinished i finishing s

/-- A key event of `process_record_quantum`, which looks the key up again if the event interrupts a
dance, or a run of the task. -/
inductive Input where
  | event (keycode again : Keycode) (pressed : Bool) (now : BitVec 16) (mods : Mods) (finishing callback : Callback)
  | task (now : BitVec 16) (finishing : Callback)

def step (tappingTerm : Keycode → BitVec 16) (s : State) : Input → State
  | .event keycode again pressed now mods finishing callback =>
    let (interrupted, s) := preprocessTapDance keycode pressed finishing s
    processTapDance (if interrupted then again else keycode) pressed now mods callback s
  | .task now finishing => tapDanceTask tappingTerm now finishing s

def initial : State := ⟨fun _ => {}, 0, 0, []⟩

def run (tappingTerm : Keycode → BitVec 16) (inputs : List Input) : State :=
  inputs.foldl (step tappingTerm) initial

/-! ## Cycles -/

inductive Moment where
  | tap (callback : Callback)
  | release (callback : Callback)
  | finished
  | reset
deriving DecidableEq

def moment (i : Index) : Call → Option Moment
  | .eachTap j callback => if j = i then some (.tap callback) else none
  | .eachRelease j callback => if j = i then some (.release callback) else none
  | .danceFinished j => if j = i then some .finished else none
  | .reset j => if j = i then some .reset else none
  | .addWeakMods _ | .addMods _ | .delWeakMods _ | .delMods _ | .clearWeakMods | .sendKeyboardReport => none

def moments (i : Index) (calls : List Call) : List Moment := calls.filterMap (moment i)

/-- Where a dance is in its cycle: the taps since its reset, whether it is over and whether its last
tap was released. -/
structure Cycle where
  taps : Nat := 0
  settled : Bool := false
  down : Bool := false
deriving DecidableEq

/-- A dance is over once it has finished or a callback has said so.  It is reset at the moment when it
is over and up, and at no other. -/
def Cycle.follow (cycle : Cycle) : Moment → Option Cycle
  | .tap callback =>
    if cycle.settled = true ∧ cycle.down = false then none
    else some ⟨cycle.taps + 1, cycle.settled || callback = .finish, true⟩
  | .release callback =>
    if cycle.settled = true ∧ cycle.down = false then none
    else some ⟨cycle.taps, cycle.settled || callback = .finish, false⟩
  | .finished => if cycle.settled then none else some { cycle with settled := true }
  | .reset => if cycle.settled = true ∧ cycle.down = false then some {} else none

def cycle (i : Index) (calls : List Call) : Option Cycle := (moments i calls).foldlM Cycle.follow {}

/-! ## What each function does to one dance -/

def Active (activeTd : Keycode) (i : Index) : Prop := activeTd ≠ 0 ∧ tdIndex activeTd = i

theorem eq_of_tdIndex {keycode other : Keycode} (dance : IsTapDance keycode) (otherDance : IsTapDance other)
    (same : tdIndex keycode = tdIndex other) : keycode = other := by
  have low := congrArg BitVec.toNat same
  simp only [tdIndex, BitVec.toNat_setWidth] at low
  simp only [IsTapDance, qkTapDance, qkTapDanceMax] at dance otherDance
  apply BitVec.eq_of_toNat_eq
  omega

theorem not_active {activeTd keycode : Keycode} {i j : Index} (ours : activeTd = 0 ∨ keycode = activeTd)
    (own : tdIndex keycode = i) (other : j ≠ i) : ¬ Active activeTd j := by
  rintro ⟨positive, theirs⟩
  rcases ours with none | rfl
  · exact positive none
  · exact other (theirs.symm.trans own)

theorem cycle_append (i : Index) (calls more : List Call) :
    cycle i (calls ++ more) = (cycle i calls).bind fun cycle => (moments i more).foldlM Cycle.follow cycle := by
  rw [cycle, moments, List.filterMap_append, List.foldlM_append]
  rfl

/-- All dances but one are as before. -/
def Apart (i : Index) (s s' : State) : Prop :=
  ∀ j, j ≠ i → s'.states j = s.states j ∧ cycle j s'.calls = cycle j s.calls

theorem Apart.trans {i : Index} {s s' s'' : State} (first : Apart i s s') (second : Apart i s' s'') :
    Apart i s s'' := by
  intro j other
  exact ⟨(second j other).1.trans (first j other).1, (second j other).2.trans (first j other).2⟩

theorem Apart.setState (i : Index) (state : TapState) (s : State) : Apart i s (s.setState i state) := by
  intro j other
  exact ⟨Function.update_of_ne other _ _, rfl⟩

theorem Apart.call {i : Index} {calls : List Call} (s : State) (own : ∀ j, j ≠ i → moments j calls = []) :
    Apart i s (s.call calls) := by
  intro j other
  refine ⟨rfl, ?_⟩
  show cycle j (s.calls ++ calls) = _
  rw [cycle_append, own j other]
  cases cycle j s.calls <;> rfl

/-- The state of a dance fits its cycle. -/
structure Fits (state : TapState) (cycle : Cycle) : Prop where
  pressed : state.pressed = cycle.down
  finished : state.finished = cycle.settled
  count : state.count = BitVec.ofNat 8 cycle.taps

section Functions

variable {s : State} {i : Index} {c : Cycle}

theorem onReset_apart (i : Index) (s : State) : Apart i s (onReset i s) := by
  apply (Apart.call s _).trans (Apart.setState i _ _)
  intro j other
  simp [moments, moment, Ne.symm other]

theorem onReset_cycle (at' : cycle i s.calls = some c) (settled : c.settled = true) (up : c.down = false) :
    cycle i (onReset i s).calls = some {} := by
  have reset : moments i [.reset i, .delWeakMods (s.states i).weakMods, .delMods (s.states i).oneshotMods,
      .sendKeyboardReport] = [.reset] := by
    simp [moments, moment]
  show cycle i (s.calls ++ _) = _
  rw [cycle_append, at', reset]
  simp [Cycle.follow, settled, up]

theorem onReset_state (i : Index) (s : State) : (onReset i s).states i = {} := Function.update_self _ _ _

theorem actionFn_apart (i : Index) (callback : Callback) (s : State) : Apart i s (actionFn i callback s) := by
  cases callback with
  | plain => exact fun j _ => ⟨rfl, rfl⟩
  | finish => exact Apart.setState i _ s
  | reset => exact onReset_apart i { s with activeTd := 0 }

theorem actionFn_calls {callback : Callback} (noReset : callback ≠ .reset) (i : Index) (s : State) :
    (actionFn i callback s).calls = s.calls ∧ (actionFn i callback s).activeTd = s.activeTd := by
  cases callback with
  | plain => exact ⟨rfl, rfl⟩
  | finish => exact ⟨rfl, rfl⟩
  | reset => exact absurd rfl noReset

theorem actionFn_state {callback : Callback} (noReset : callback ≠ .reset) (i : Index) (s : State) :
    (actionFn i callback s).states i
      = { s.states i with finished := (s.states i).finished || callback = .finish } := by
  cases callback with
  | plain => simp [actionFn]
  | finish => simp [actionFn, State.setState]
  | reset => exact absurd rfl noReset

theorem onEachTap_apart (i : Index) (mods : Mods) (callback : Callback) (s : State) :
    Apart i s (onEachTap i mods callback s) := by
  apply ((Apart.setState i _ s).trans (Apart.call _ _)).trans (actionFn_apart i callback _)
  intro j other
  simp [moments, moment, Ne.symm other]

theorem onEachTap_self {callback : Callback} (noReset : callback ≠ .reset) (mods : Mods)
    (at' : cycle i s.calls = some c) (open' : c.settled = true → c.down = true) :
    cycle i (onEachTap i mods callback s).calls = some ⟨c.taps + 1, c.settled || callback = .finish, true⟩ ∧
      ((onEachTap i mods callback s).states i).finished = ((s.states i).finished || callback = .finish) ∧
      ((onEachTap i mods callback s).states i).pressed = (s.states i).pressed ∧
      ((onEachTap i mods callback s).states i).interrupted = (s.states i).interrupted ∧
      ((onEachTap i mods callback s).states i).count = (s.states i).count + 1 ∧
      (onEachTap i mods callback s).activeTd = s.activeTd := by
  have guard : ¬ (c.settled = true ∧ c.down = false) := by
    rintro ⟨settled, up⟩
    rw [open' settled] at up
    exact Bool.noConfusion up
  unfold onEachTap
  rw [(actionFn_calls noReset i _).1, (actionFn_calls noReset i _).2, actionFn_state noReset]
  refine ⟨?_, by simp [State.setState, State.call], by simp [State.setState, State.call],
    by simp [State.setState, State.call], by simp [State.setState, State.call], rfl⟩
  show cycle i (s.calls ++ _) = _
  rw [cycle_append, at']
  simp [moments, moment, Cycle.follow, guard]

theorem onEachRelease_apart (i : Index) (callback : Callback) (s : State) :
    Apart i s (onEachRelease i callback s) := by
  apply (Apart.call s _).trans (actionFn_apart i callback _)
  intro j other
  simp [moments, moment, Ne.symm other]

theorem onEachRelease_self {callback : Callback} (noReset : callback ≠ .reset)
    (at' : cycle i s.calls = some c) (open' : c.settled = true → c.down = true) :
    cycle i (onEachRelease i callback s).calls = some ⟨c.taps, c.settled || callback = .finish, false⟩ ∧
      (onEachRelease i callback s).states i
        = { s.states i with finished := (s.states i).finished || callback = .finish } ∧
      (onEachRelease i callback s).activeTd = s.activeTd := by
  have guard : ¬ (c.settled = true ∧ c.down = false) := by
    rintro ⟨settled, up⟩
    rw [open' settled] at up
    exact Bool.noConfusion up
  unfold onEachRelease
  rw [(actionFn_calls noReset i _).1, (actionFn_calls noReset i _).2, actionFn_state noReset]
  refine ⟨?_, rfl, rfl⟩
  show cycle i (s.calls ++ _) = _
  rw [cycle_append, at']
  simp [moments, moment, Cycle.follow, guard]

/-- The state after `on_dance_finished` itself, before the reset. -/
def finish (i : Index) (callback : Callback) (s : State) : State :=
  { actionFn i callback ((s.setState i { s.states i with finished := true }).call
      [.addWeakMods (s.states i).weakMods, .addMods (s.states i).oneshotMods, .sendKeyboardReport,
        .danceFinished i]) with activeTd := 0 }

theorem onDanceFinished_eq (callback : Callback) (unfinished : (s.states i).finished = false) :
    onDanceFinished i callback s =
      if ((finish i callback s).states i).pressed then finish i callback s
      else onReset i (finish i callback s) := by
  simp only [onDanceFinished, unfinished]
  rfl

theorem finish_apart (i : Index) (callback : Callback) (s : State) : Apart i s (finish i callback s) := by
  have finished : Apart i s (actionFn i callback ((s.setState i { s.states i with finished := true }).call
      [.addWeakMods (s.states i).weakMods, .addMods (s.states i).oneshotMods, .sendKeyboardReport,
        .danceFinished i])) := by
    apply ((Apart.setState i _ s).trans (Apart.call _ _)).trans (actionFn_apart i callback _)
    intro j other
    simp [moments, moment, Ne.symm other]
  exact finished

theorem finish_self {callback : Callback} (noReset : callback ≠ .reset) (at' : cycle i s.calls = some c)
    (going : c.settled = false) :
    cycle i (finish i callback s).calls = some { c with settled := true } ∧
      (finish i callback s).states i = { s.states i with finished := true } := by
  have own : moments i [.addWeakMods (s.states i).weakMods, .addMods (s.states i).oneshotMods,
      .sendKeyboardReport, .danceFinished i] = [.finished] := by
    simp [moments, moment, List.filterMap_cons]
  unfold finish
  dsimp only
  rw [(actionFn_calls noReset i _).1, actionFn_state noReset]
  constructor
  · show cycle i (s.calls ++ _) = _
    rw [cycle_append, at', own]
    simp [Cycle.follow, going]
  · simp [State.setState, State.call]

theorem onDanceFinished_apart (callback : Callback) (unfinished : (s.states i).finished = false) :
    Apart i s (onDanceFinished i callback s) := by
  rw [onDanceFinished_eq callback unfinished]
  split_ifs with pressed
  · exact finish_apart i callback s
  · exact (finish_apart i callback s).trans (onReset_apart i _)

theorem onDanceFinished_activeTd (callback : Callback) (unfinished : (s.states i).finished = false) :
    (onDanceFinished i callback s).activeTd = 0 := by
  rw [onDanceFinished_eq callback unfinished]
  split_ifs <;> rfl

end Functions

/-! ## The invariant -/

/-- How a dance can be between two steps. -/
inductive Stage (active : Prop) : TapState → Cycle → Prop where
  | idle (h : ¬ active) : Stage active {} {}
  | dancing {state : TapState} {cycle : Cycle} (h : active) (fits : Fits state cycle)
      (going : cycle.settled = false) (whole : state.interrupted = false) : Stage active state cycle
  | settled {state : TapState} {cycle : Cycle} (h : ¬ active) (fits : Fits state cycle)
      (settled : cycle.settled = true) (down : cycle.down = true) : Stage active state cycle

structure Sound (s : State) : Prop where
  active : s.activeTd ≠ 0 → IsTapDance s.activeTd
  stage : ∀ i, ∃ c, cycle i s.calls = some c ∧ Stage (Active s.activeTd i) (s.states i) c

namespace Stage

variable {active : Prop} {state : TapState} {c : Cycle}

theorem fits (stage : Stage active state c) : Fits state c := by
  cases stage with
  | idle => exact ⟨rfl, rfl, rfl⟩
  | dancing _ fits _ _ => exact fits
  | settled _ fits _ _ => exact fits

theorem down_of_settled (stage : Stage active state c) : c.settled = true → c.down = true := by
  cases stage with
  | idle => exact nofun
  | dancing _ _ going _ =>
    intro settled
    rw [going] at settled
    exact Bool.noConfusion settled
  | settled _ _ _ down => exact fun _ => down

theorem of_active (stage : Stage active state c) (h : active) : c.settled = false ∧ state.interrupted = false := by
  cases stage with
  | idle idle => exact absurd h idle
  | dancing _ _ going whole => exact ⟨going, whole⟩
  | settled idle _ _ _ => exact absurd h idle

theorem whole (stage : Stage active state c) (going : state.finished = false) : state.interrupted = false := by
  cases stage with
  | idle => rfl
  | dancing _ _ _ whole => exact whole
  | settled _ fits settled _ =>
    rw [fits.finished, settled] at going
    exact Bool.noConfusion going

theorem congr {other : Prop} (stage : Stage active state c) (same : active ↔ other) : Stage other state c := by
  rw [← propext same]
  exact stage

end Stage

variable {s : State}

/-- What leaves all dances but one alone keeps the invariant if that one is in a stage again. -/
theorem Sound.change {s' : State} {i : Index} (sound : Sound s) (apart : Apart i s s')
    (active : s'.activeTd ≠ 0 → IsTapDance s'.activeTd)
    (others : ∀ j, j ≠ i → (Active s.activeTd j ↔ Active s'.activeTd j))
    (here : ∃ c, cycle i s'.calls = some c ∧ Stage (Active s'.activeTd i) (s'.states i) c) : Sound s' := by
  refine ⟨active, ?_⟩
  intro j
  by_cases same : j = i
  · rw [same]
    exact here
  · obtain ⟨c, at', stage⟩ := sound.stage j
    rw [(apart j same).1, (apart j same).2]
    exact ⟨c, at', stage.congr (others j same)⟩

/-- The active dance ends. -/
theorem Sound.finished (sound : Sound s) (active : s.activeTd ≠ 0) {callback : Callback}
    (noReset : callback ≠ .reset) (state : TapState) (kept : state.pressed = (s.states (tdIndex s.activeTd)).pressed)
    (unfinished : state.finished = (s.states (tdIndex s.activeTd)).finished)
    (count : state.count = (s.states (tdIndex s.activeTd)).count) :
    Sound (onDanceFinished (tdIndex s.activeTd) callback (s.setState (tdIndex s.activeTd) state)) ∧
      (onDanceFinished (tdIndex s.activeTd) callback (s.setState (tdIndex s.activeTd) state)).activeTd = 0 := by
  obtain ⟨c, at', stage⟩ := sound.stage (tdIndex s.activeTd)
  obtain ⟨going, whole⟩ := stage.of_active ⟨active, rfl⟩
  have fits := stage.fits
  generalize own : tdIndex s.activeTd = i at *
  have state_eq : (s.setState i state).states i = state := Function.update_self _ _ _
  have open' : ((s.setState i state).states i).finished = false := by
    rw [state_eq, unfinished, fits.finished, going]
  have inactive : (onDanceFinished i callback (s.setState i state)).activeTd = 0 :=
    onDanceFinished_activeTd callback open'
  refine ⟨sound.change ((Apart.setState i state s).trans (onDanceFinished_apart callback open')) ?_ ?_ ?_, inactive⟩
  · rw [inactive]
    exact fun no => absurd rfl no
  · intro j other
    rw [inactive]
    constructor
    · rintro ⟨_, here⟩
      exact absurd (here.symm.trans own) other
    · rintro ⟨no, _⟩
      exact absurd rfl no
  · obtain ⟨ended, after⟩ := finish_self noReset (s := s.setState i state) at' going
    rw [inactive, onDanceFinished_eq callback open', after, state_eq]
    have notActive : ¬ Active (0 : Keycode) i := fun no => no.1 rfl
    cases down : c.down with
    | true =>
      have pressed : state.pressed = true := by rw [kept, fits.pressed, down]
      rw [if_pos pressed, ended, after, state_eq]
      refine ⟨_, rfl, .settled notActive ⟨?_, rfl, ?_⟩ rfl down⟩
      · exact pressed.trans down.symm
      · exact count.trans fits.count
    | false =>
      have up : ¬ state.pressed = true := by
        rw [kept, fits.pressed, down]
        exact Bool.noConfusion
      rw [if_neg up, onReset_cycle ended rfl down, onReset_state]
      exact ⟨_, rfl, .idle notActive⟩

theorem Sound.clearWeakMods (sound : Sound s) : Sound (s.call [.clearWeakMods]) := by
  refine ⟨sound.active, fun i => ?_⟩
  obtain ⟨c, at', stage⟩ := sound.stage i
  refine ⟨c, ?_, stage⟩
  show cycle i (s.calls ++ _) = _
  rw [cycle_append, at']
  simp [moments, moment, List.filterMap_cons]

/-- After `preprocess_tap_dance` a press finds no other dance active. -/
theorem Sound.preprocess (sound : Sound s) (keycode again : Keycode) (pressed : Bool) {finishing : Callback}
    (noReset : finishing ≠ .reset) :
    Sound (preprocessTapDance keycode pressed finishing s).2 ∧
      (pressed = true → (preprocessTapDance keycode pressed finishing s).2.activeTd = 0 ∨
        (if (preprocessTapDance keycode pressed finishing s).1 then again else keycode)
          = (preprocessTapDance keycode pressed finishing s).2.activeTd) := by
  by_cases released : pressed = false
  · have same : preprocessTapDance keycode pressed finishing s = (false, s) := if_pos released
    rw [same]
    refine ⟨sound, fun now => ?_⟩
    rw [released] at now
    exact Bool.noConfusion now
  by_cases quiet : s.activeTd = 0 ∨ keycode = s.activeTd
  · have same : preprocessTapDance keycode pressed finishing s = (false, s) := (if_neg released).trans (if_pos quiet)
    rw [same]
    exact ⟨sound, fun _ => quiet⟩
  · have ended : preprocessTapDance keycode pressed finishing s = (true, _) := (if_neg released).trans (if_neg quiet)
    rw [not_or] at quiet
    obtain ⟨after, inactive⟩ := sound.finished quiet.1 noReset
      { s.states (tdIndex s.activeTd) with interrupted := true, interruptingKeycode := keycode } rfl rfl rfl
    rw [ended]
    exact ⟨after.clearWeakMods, fun _ => Or.inl inactive⟩

theorem processTapDance_press {keycode : Keycode} (dance : IsTapDance keycode) (now : BitVec 16) (mods : Mods)
    (callback : Callback) (s : State) :
    ∃ s₁ : State, s₁ = onEachTap (tdIndex keycode) mods callback
        { s.setState (tdIndex keycode) { s.states (tdIndex keycode) with pressed := true } with lastTapTime := now } ∧
      processTapDance keycode true now mods callback s
        = { s₁ with activeTd := if (s₁.states (tdIndex keycode)).finished then 0 else keycode } :=
  ⟨_, rfl, if_pos dance⟩

theorem Sound.tap (sound : Sound s) {keycode : Keycode} (dance : IsTapDance keycode)
    (free : s.activeTd = 0 ∨ keycode = s.activeTd) (now : BitVec 16) (mods : Mods) {callback : Callback}
    (noReset : callback ≠ .reset) : Sound (processTapDance keycode true now mods callback s) := by
  obtain ⟨s₁, tapped, result⟩ := processTapDance_press dance now mods callback s
  rw [result]
  obtain ⟨c, at', stage⟩ := sound.stage (tdIndex keycode)
  have fits := stage.fits
  generalize own : tdIndex keycode = i at *
  have self : ({ s.setState i { s.states i with pressed := true } with lastTapTime := now } : State).states i
      = { s.states i with pressed := true } := Function.update_self _ _ _
  obtain ⟨cycle', finished', pressed', interrupted', count', -⟩ :=
    onEachTap_self noReset mods (s := { s.setState i { s.states i with pressed := true } with lastTapTime := now })
      at' stage.down_of_settled
  rw [← tapped, self] at finished' pressed' interrupted' count'
  rw [← tapped] at cycle'
  dsimp only at finished' pressed' interrupted' count'
  have apart : Apart i s s₁ := by
    rw [tapped]
    exact (Apart.setState i _ s).trans (onEachTap_apart i mods callback _)
  have positive : keycode ≠ 0 := by
    rintro rfl
    exact absurd dance (by decide)
  have newFits : Fits (s₁.states i) ⟨c.taps + 1, c.settled || callback = .finish, true⟩ := by
    refine ⟨pressed', ?_, ?_⟩
    · rw [finished', fits.finished]
    · rw [count', fits.count]
      exact (BitVec.ofNat_add c.taps 1).symm
  have others (activeTd : Keycode) (ours : activeTd = 0 ∨ keycode = activeTd) (j : Index) (other : j ≠ i) :
      Active s.activeTd j ↔ Active activeTd j := by
    rw [iff_false_intro (not_active free own other), iff_false_intro (not_active ours own other)]
  cases ended : (s₁.states i).finished with
  | true =>
    rw [if_pos rfl]
    refine sound.change apart (fun no => absurd rfl no) (others 0 (Or.inl rfl)) ⟨_, cycle', ?_⟩
    exact .settled (fun no => no.1 rfl) newFits (newFits.finished.symm.trans ended) rfl
  | false =>
    rw [if_neg Bool.noConfusion]
    refine sound.change apart (fun _ => dance) (others keycode (Or.inr rfl)) ⟨_, cycle', ?_⟩
    refine .dancing ⟨positive, own⟩ newFits (newFits.finished.symm.trans ended) ?_
    rw [interrupted']
    have going : (s.states i).finished = false := by
      rw [finished'] at ended
      exact (Bool.or_eq_false_iff.mp ended).1
    exact stage.whole going

theorem processTapDance_release {keycode : Keycode} (dance : IsTapDance keycode) (now : BitVec 16) (mods : Mods)
    (callback : Callback) (s : State) :
    ∃ s₁ : State, s₁ = onEachRelease (tdIndex keycode) callback
        (s.setState (tdIndex keycode) { s.states (tdIndex keycode) with pressed := false }) ∧
      processTapDance keycode false now mods callback s =
        if (s₁.states (tdIndex keycode)).finished then
          { onReset (tdIndex keycode) s₁ with activeTd := if s₁.activeTd = keycode then 0 else s₁.activeTd }
        else s₁ :=
  ⟨_, rfl, if_pos dance⟩

theorem Sound.release (sound : Sound s) {keycode : Keycode} (dance : IsTapDance keycode) (now : BitVec 16)
    (mods : Mods) {callback : Callback} (noReset : callback ≠ .reset) :
    Sound (processTapDance keycode false now mods callback s) := by
  obtain ⟨s₁, released, result⟩ := processTapDance_release dance now mods callback s
  rw [result]
  obtain ⟨c, at', stage⟩ := sound.stage (tdIndex keycode)
  have fits := stage.fits
  generalize own : tdIndex keycode = i at *
  have self : (s.setState i { s.states i with pressed := false }).states i
      = { s.states i with pressed := false } := Function.update_self _ _ _
  obtain ⟨cycle', state', activeTd'⟩ :=
    onEachRelease_self noReset (s := s.setState i { s.states i with pressed := false }) at' stage.down_of_settled
  rw [← released] at cycle' state' activeTd'
  rw [self] at state'
  have apart : Apart i s s₁ := by
    rw [released]
    exact (Apart.setState i _ s).trans (onEachRelease_apart i callback _)
  have newFits : Fits (s₁.states i) ⟨c.taps, c.settled || callback = .finish, false⟩ := by
    rw [state']
    refine ⟨rfl, ?_, fits.count⟩
    rw [← fits.finished]
  have active : s₁.activeTd = s.activeTd := activeTd'
  cases ended : (s₁.states i).finished with
  | true =>
    rw [if_pos rfl]
    have settled : (c.settled || decide (callback = .finish)) = true := newFits.finished.symm.trans ended
    refine sound.change (apart.trans (onReset_apart i s₁)) ?_ ?_ ⟨{}, onReset_cycle cycle' settled rfl, ?_⟩
    · dsimp only
      rw [active]
      split_ifs with ours
      · exact fun no => absurd rfl no
      · exact sound.active
    · intro j other
      dsimp only
      rw [active]
      split_ifs with ours
      · rw [iff_false_intro (not_active (Or.inr ours.symm) own other),
          iff_false_intro (not_active (Or.inl rfl) own other)]
      · exact Iff.rfl
    · show Stage _ ((onReset i s₁).states i) {}
      rw [onReset_state]
      apply Stage.idle
      dsimp only
      rw [active]
      rintro ⟨positive, theirs⟩
      split_ifs at positive theirs with ours
      · exact positive rfl
      · exact ours (eq_of_tdIndex (sound.active positive) dance (theirs.trans own.symm))
  | false =>
    rw [if_neg Bool.noConfusion]
    refine sound.change apart ?_ ?_ ⟨_, cycle', ?_⟩
    · rw [active]
      exact sound.active
    · intro j _
      rw [active]
    · rw [active]
      have going : (c.settled || decide (callback = .finish)) = false := newFits.finished.symm.trans ended
      have interrupted : (s₁.states i).interrupted = (s.states i).interrupted := by rw [state']
      generalize s₁.states i = state at *
      generalize s.states i = old at *
      cases stage with
      | idle h =>
        rw [Bool.or_eq_false_iff] at going
        rw [state', going.2]
        exact .idle h
      | dancing h _ _ whole => exact .dancing h newFits going (interrupted.trans whole)
      | settled _ _ settled _ =>
        rw [settled, Bool.true_or] at going
        exact Bool.noConfusion going

theorem Sound.task (sound : Sound s) (tappingTerm : Keycode → BitVec 16) (now : BitVec 16) {finishing : Callback}
    (noReset : finishing ≠ .reset) : Sound (tapDanceTask tappingTerm now finishing s) := by
  unfold tapDanceTask
  dsimp only
  split_ifs with quiet
  · exact sound
  · exact sound
  · rw [not_or] at quiet
    have kept := (sound.finished quiet.1 noReset (s.states (tdIndex s.activeTd)) rfl rfl rfl).1
    rwa [State.setState, Function.update_eq_self] at kept

/-- No callback of the event calls `reset_tap_dance`. -/
def Input.NoReset : Input → Prop
  | .event _ _ _ _ _ finishing callback => finishing ≠ .reset ∧ callback ≠ .reset
  | .task _ finishing => finishing ≠ .reset

theorem Sound.step (sound : Sound s) (tappingTerm : Keycode → BitVec 16) {input : Input} (noReset : input.NoReset) :
    Sound (step tappingTerm s input) := by
  cases input with
  | task now finishing => exact sound.task tappingTerm now noReset
  | event keycode again pressed now mods finishing callback =>
    obtain ⟨after, free⟩ := sound.preprocess keycode again pressed noReset.1
    show Sound (processTapDance (if (preprocessTapDance keycode pressed finishing s).1 then again else keycode)
      pressed now mods callback (preprocessTapDance keycode pressed finishing s).2)
    generalize (if (preprocessTapDance keycode pressed finishing s).1 then again else keycode) = looked at *
    by_cases dance : IsTapDance looked
    · cases pressed with
      | true => exact after.tap dance (free rfl) now mods noReset.2
      | false => exact after.release dance now mods noReset.2
    · rw [processTapDance, if_neg dance]
      exact after

theorem initial_sound : Sound initial :=
  ⟨fun no => absurd rfl no, fun _ => ⟨{}, rfl, .idle fun active => active.1 rfl⟩⟩

theorem run_sound (tappingTerm : Keycode → BitVec 16) (inputs : List Input)
    (noReset : ∀ input ∈ inputs, input.NoReset) : Sound (run tappingTerm inputs) := by
  induction inputs using List.reverseRecOn with
  | nil => exact initial_sound
  | append_singleton inputs input ih =>
    rw [run, List.foldl_append]
    apply Sound.step (ih fun earlier member => noReset earlier (List.mem_append_left _ member))
    exact noReset input (List.mem_append_right _ List.mem_cons_self)

/-! ## The life cycle -/

/-- The dance has begun and is not over. -/
def InProgress (s : State) (i : Index) : Prop := s.states i ≠ {} ∧ (s.states i).finished = false

def TermPassed (tappingTerm : Keycode → BitVec 16) (now : BitVec 16) (s : State) : Prop :=
  s.activeTd ≠ 0 → tappingTerm s.activeTd < now - s.lastTapTime

/-- The last of the taps and releases of each dance is a release. -/
def AllUp (s : State) : Prop := ∀ i c, cycle i s.calls = some c → c.down = false

structure LifeCycle (tappingTerm : Keycode → BitVec 16) (s : State) : Prop where
  /-- The callbacks of each dance follow its cycle, and the count is that of the taps since the reset. -/
  follows : ∀ i, ∃ c, cycle i s.calls = some c ∧ (s.states i).count = BitVec.ofNat 8 c.taps
  /-- A dance that is over and up has been reset. -/
  reset : ∀ i c, cycle i s.calls = some c → c.settled = true → c.down = true
  one : ∀ i j, InProgress s i → InProgress s j → i = j
  zero : ∀ now finishing, finishing ≠ .reset → TermPassed tappingTerm now s → AllUp s →
    ∀ i, (tapDanceTask tappingTerm now finishing s).states i = {}

theorem Sound.inProgress (sound : Sound s) {i : Index} (progress : InProgress s i) : Active s.activeTd i := by
  obtain ⟨begun, unfinished⟩ := progress
  obtain ⟨c, -, stage⟩ := sound.stage i
  generalize s.states i = state at *
  cases stage with
  | idle => exact absurd rfl begun
  | dancing active => exact active
  | settled _ fits settled _ =>
    rw [fits.finished, settled] at unfinished
    exact Bool.noConfusion unfinished

theorem Sound.zero (sound : Sound s) (tappingTerm : Keycode → BitVec 16) {now : BitVec 16} {finishing : Callback}
    (noReset : finishing ≠ .reset) (passed : TermPassed tappingTerm now s) (up : AllUp s) (i : Index) :
    (tapDanceTask tappingTerm now finishing s).states i = {} := by
  -- a dance that is not active is idle, or over with its key down
  have inactive {j : Index} (h : ¬ Active s.activeTd j) : s.states j = {} := by
    obtain ⟨c, at', stage⟩ := sound.stage j
    generalize s.states j = state at *
    cases stage with
    | idle => rfl
    | dancing active => exact absurd active h
    | settled _ _ _ down =>
      rw [up j c at'] at down
      exact Bool.noConfusion down
  by_cases quiet : s.activeTd = 0
  · rw [tapDanceTask, if_pos (Or.inl quiet)]
    exact inactive fun active => active.1 quiet
  · obtain ⟨c, at', stage⟩ := sound.stage (tdIndex s.activeTd)
    obtain ⟨going, whole⟩ := stage.of_active ⟨quiet, rfl⟩
    have unfinished := stage.fits.finished.trans going
    have late : ¬ (s.activeTd = 0 ∨ now - s.lastTapTime ≤ tappingTerm s.activeTd) := by
      rintro (none | early)
      · exact quiet none
      · exact absurd (passed quiet) (BitVec.not_lt.mpr early)
    have runs : tapDanceTask tappingTerm now finishing s = onDanceFinished (tdIndex s.activeTd) finishing s := by
      rw [tapDanceTask, if_neg late]
      dsimp only
      rw [whole]
      rfl
    rw [runs]
    by_cases own : i = tdIndex s.activeTd
    · have ended := (finish_self noReset at' going).2
      have released : ((finish (tdIndex s.activeTd) finishing s).states (tdIndex s.activeTd)).pressed = false := by
        rw [ended]
        exact stage.fits.pressed.trans (up _ c at')
      rw [own, onDanceFinished_eq finishing unfinished, released, if_neg Bool.noConfusion, onReset_state]
    · rw [(onDanceFinished_apart finishing unfinished i own).1]
      exact inactive fun active => own active.2.symm

theorem dances_follow_lifeCycle (tappingTerm : Keycode → BitVec 16) (inputs : List Input)
    (noReset : ∀ input ∈ inputs, input.NoReset) : LifeCycle tappingTerm (run tappingTerm inputs) := by
  have sound := run_sound tappingTerm inputs noReset
  refine ⟨?_, ?_, ?_, ?_⟩
  · intro i
    obtain ⟨c, at', stage⟩ := sound.stage i
    exact ⟨c, at', stage.fits.count⟩
  · intro i c at' settled
    obtain ⟨c', at'', stage⟩ := sound.stage i
    obtain rfl : c = c' := Option.some.inj (at'.symm.trans at'')
    exact stage.down_of_settled settled
  · intro i j first second
    exact (sound.inProgress first).2.symm.trans (sound.inProgress second).2
  · intro now finishing noReset passed up i
    exact sound.zero tappingTerm noReset passed up i

def press (keycode : Keycode) (now : BitVec 16) : Input := .event keycode keycode true now ⟨0, 0, 0⟩ .plain .plain

def lift (keycode : Keycode) (now : BitVec 16) : Input := .event keycode keycode false now ⟨0, 0, 0⟩ .plain .plain

/-- A dance held past its term, and one that another key interrupts. -/
def holdAndInterrupt : List Input :=
  [press 0x5700 0, .task 300 .plain, lift 0x5700 400, press 0x5701 500, lift 0x5701 510, press 4 520, lift 4 530]

instance (input : Input) : Decidable input.NoReset := by
  cases input <;> unfold Input.NoReset <;> infer_instance

theorem holdAndInterrupt_lifeCycle : LifeCycle (fun _ => 200) (run (fun _ => 200) holdAndInterrupt) :=
  dances_follow_lifeCycle (fun _ => 200) holdAndInterrupt (by decide)

/-- Nothing comes between `on_dance_finished` and `on_reset`. -/
def FinishedThenReset (moments : List Moment) : Prop :=
  ∀ k < moments.length, moments[k]? = some .finished → moments[k + 1]? = none ∨ moments[k + 1]? = some .reset

instance (moments : List Moment) : Decidable (FinishedThenReset moments) :=
  inferInstanceAs (Decidable (∀ k < moments.length, _))

def manyTaps : List Input := (List.replicate 256 [press 0x5700 0, lift 0x5700 1]).flatten

/-- The release of a key that was held past the term comes after `on_dance_finished`, and the count
of 256 taps is zero. -/
theorem held_and_many_taps :
    ¬ FinishedThenReset (moments 0 (run (fun _ => 200) holdAndInterrupt).calls) ∧
      ¬ ∃ c, cycle 0 (run (fun _ => 200) manyTaps).calls = some c ∧
        ((run (fun _ => 200) manyTaps).states 0).count.toNat = c.taps := by
  constructor
  · decide +kernel
  · rintro ⟨c, at', same⟩
    have taps : cycle 0 (run (fun _ => 200) manyTaps).calls = some ⟨256, false, false⟩ := by decide +kernel
    have count : ((run (fun _ => 200) manyTaps).states 0).count = 0 := by decide +kernel
    rw [taps, Option.some.injEq] at at'
    rw [count, ← at'] at same
    exact absurd same (by decide)

end QmkFirmware.TapDance
