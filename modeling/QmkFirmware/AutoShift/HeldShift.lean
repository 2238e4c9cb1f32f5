import QmkFirmware.AutoShift.Model
import Mathlib.Data.BitVec
import Mathlib.Tactic.Tauto

/-! # Held Shifts

While a key is auto-shifted, Auto Shift removes the Shifts that are held and remembers them in flags, which are restored
with the key.  A Shift that is held is always in one of the two places.  But the release of a key restores it only if
that key is still the last one, and a press of any key that is not auto-shifted makes it none.
-/

namespace QmkFirmware.AutoShift

open Runs

inductive Side where
  | left
  | right
deriving DecidableEq

namespace Side

def keycode : Side → Keycode
  | left => kcLsft
  | right => kcRsft

def mod : Side → BitVec 8
  | left => modLsft
  | right => modRsft

/-- The number of the bit. -/
def bit : Side → Nat
  | left => 1
  | right => 5

end Side

namespace State

def cancelling (s : State) : Side → Bool
  | .left => s.cancellingLshift
  | .right => s.cancellingRshift

/-- The Shift is in the modifiers, or is to be restored. -/
def held (s : State) (side : Side) : Bool := s.has side.mod || s.cancelling side

/-! ## Modifiers -/

theorem and_mod_ne_zero (mods : BitVec 8) (side : Side) : (mods &&& side.mod != 0) = mods.getLsbD side.bit := by
  revert mods
  cases side <;> decide +kernel

theorem has_eq (s : State) (side : Side) : s.has side.mod = s.mods.getLsbD side.bit := and_mod_ne_zero _ _

theorem mod_getLsbD (side other : Side) : side.mod.getLsbD other.bit = decide (side = other) := by
  cases side <;> cases other <;> decide

theorem bit_lt (side : Side) : side.bit < 8 := by
  cases side <;> decide

@[simp] theorem has_addMods (s : State) (side other : Side) :
    (s.addMods side.mod).has other.mod = (s.has other.mod || decide (side = other)) := by
  rw [has_eq, has_eq, addMods, BitVec.getLsbD_or, mod_getLsbD]

@[simp] theorem has_delMods (s : State) (side other : Side) :
    (s.delMods side.mod).has other.mod = (s.has other.mod && !decide (side = other)) := by
  rw [has_eq, has_eq, delMods, BitVec.getLsbD_and, BitVec.getLsbD_not, mod_getLsbD]
  simp [bit_lt]

end State

/-! ## What each function leaves as it is -/

/-- The Shifts that are held, the keys that are down, and whether Auto Shift is enabled. -/
structure Keeps (s t : State) : Prop where
  held : ∀ side, t.held side = s.held side
  down : t.down = s.down
  enabled : t.enabled = s.enabled

namespace Keeps

theorem refl (s : State) : Keeps s s := ⟨fun _ => rfl, rfl, rfl⟩

theorem trans {s t u : State} (first : Keeps s t) (second : Keeps t u) : Keeps s u :=
  ⟨fun side => (second.held side).trans (first.held side), second.down.trans first.down,
    second.enabled.trans first.enabled⟩

theorem emit (s : State) (output : Output) : Keeps s (s.emit output) := ⟨fun _ => rfl, rfl, rfl⟩

theorem pressUser (s : State) (keycode : Keycode) (shifted : Bool) : Keeps s (s.pressUser keycode shifted) :=
  ⟨fun _ => rfl, rfl, rfl⟩

theorem time (s : State) (now : BitVec 16) : Keeps s { s with time := now } := ⟨fun _ => rfl, rfl, rfl⟩

end Keeps

namespace State

variable (s : State)

def setCancelling (side : Side) (value : Bool) : State :=
  match side with
  | .left => { s with cancellingLshift := value }
  | .right => { s with cancellingRshift := value }

@[simp] theorem cancelling_setCancelling (side other : Side) (value : Bool) :
    (s.setCancelling side value).cancelling other = if side = other then value else s.cancelling other := by
  cases side <;> cases other <;> rfl

@[simp] theorem has_setCancelling (side : Side) (value : Bool) (mod : BitVec 8) :
    (s.setCancelling side value).has mod = s.has mod := by
  cases side <;> rfl

@[simp] theorem cancelling_addMods (mods : BitVec 8) : (s.addMods mods).cancelling = s.cancelling := rfl

@[simp] theorem cancelling_delMods (mods : BitVec 8) : (s.delMods mods).cancelling = s.cancelling := rfl

@[simp] theorem cancelling_emit (output : Output) : (s.emit output).cancelling = s.cancelling := rfl

/-- Removes one of the Shifts. -/
def cancelSide (side : Side) : State := if s.has side.mod then (s.setCancelling side true).delMods side.mod else s

/-- Restores one of the Shifts. -/
def flushSide (side : Side) : State := if s.cancelling side then (s.setCancelling side false).addMods side.mod else s

theorem cancelShift_eq : s.cancelShift = (s.cancelSide .left).cancelSide .right := rfl

theorem flushShift_eq :
    s.flushShift = ((({ s with holdingShift := false } : State).flushSide .left).flushSide .right).emit .report := rfl

theorem held_cancelSide (side other : Side) : (s.cancelSide side).held other = s.held other := by
  unfold cancelSide held
  split
  next there =>
    by_cases same : side = other
    · subst same
      simp [there]
    · simp [same]
  next => rfl

theorem held_flushSide (side other : Side) : (s.flushSide side).held other = s.held other := by
  unfold flushSide held
  split
  next there =>
    by_cases same : side = other
    · subst same
      simp [there]
    · simp [same]
  next => rfl

theorem cancelling_flushSide (side other : Side) :
    (s.flushSide side).cancelling other = (s.cancelling other && !decide (side = other)) := by
  unfold flushSide
  split
  next there =>
    by_cases same : side = other <;> simp [same]
  next absent =>
    by_cases same : side = other
    · subst same
      simpa using absent
    · simp [same]

theorem cancelSide_keeps (side : Side) : Keeps s (s.cancelSide side) := by
  refine ⟨s.held_cancelSide side, ?_, ?_⟩ <;> unfold cancelSide <;> split <;> cases side <;> rfl

theorem flushSide_keeps (side : Side) : Keeps s (s.flushSide side) := by
  refine ⟨s.held_flushSide side, ?_, ?_⟩ <;> unfold flushSide <;> split <;> cases side <;> rfl

theorem cancelShift_keeps : Keeps s s.cancelShift := by
  rw [cancelShift_eq]
  exact (cancelSide_keeps _ _).trans (cancelSide_keeps _ _)

theorem flushShift_keeps : Keeps s s.flushShift := by
  have start : Keeps s { s with holdingShift := false } := ⟨fun _ => rfl, rfl, rfl⟩
  rw [flushShift_eq]
  exact ((start.trans (flushSide_keeps _ _)).trans (flushSide_keeps _ _)).trans (Keeps.emit _ _)

/-- The key in progress, and whether there is one. -/
def progress : Keycode × Bool := (s.lastkey, s.inProgress)

theorem cancelSide_progress (side : Side) : (s.cancelSide side).progress = s.progress := by
  unfold cancelSide
  split <;> cases side <;> rfl

theorem flushSide_progress (side : Side) : (s.flushSide side).progress = s.progress := by
  unfold flushSide
  split <;> cases side <;> rfl

theorem emit_progress (output : Output) : (s.emit output).progress = s.progress := rfl

theorem pressUser_progress (keycode : Keycode) (shifted : Bool) : (s.pressUser keycode shifted).progress = s.progress := rfl

theorem cancelShift_progress : s.cancelShift.progress = s.progress := by
  rw [cancelShift_eq, cancelSide_progress, cancelSide_progress]

theorem flushShift_progress : s.flushShift.progress = s.progress := by
  rw [flushShift_eq, emit_progress, flushSide_progress, flushSide_progress]
  rfl

/-- Afterwards nothing is left to restore. -/
theorem flushShift_cancelling (side : Side) : s.flushShift.cancelling side = false := by
  rw [flushShift_eq, cancelling_emit, cancelling_flushSide, cancelling_flushSide]
  cases side <;> simp

end State

section Functions

variable (config : Config) (keycode : Keycode) (now : BitVec 16) (s : State)

theorem autoshiftEvaluate_keeps : Keeps s (autoshiftEvaluate now s) := by
  unfold autoshiftEvaluate
  dsimp only
  generalize (s.lastshifted || decide (s.timeout ≤ now - s.time)) = shifted
  have evaluated : Keeps s ({ s with inProgress := false, lastshifted := shifted }.setShiftState s.lastkey shifted) :=
    ⟨fun _ => rfl, rfl, rfl⟩
  exact (evaluated.trans (State.cancelShift_keeps _)).trans (Keeps.pressUser _ _ _)

theorem autoshiftEvaluate_progress : (autoshiftEvaluate now s).progress = (s.lastkey, false) := by
  unfold autoshiftEvaluate
  dsimp only
  rw [State.pressUser_progress, State.cancelShift_progress]
  rfl

theorem autoshiftEnd_keeps (matrixTrigger : Bool) : Keeps s (autoshiftEnd config keycode now matrixTrigger s) := by
  unfold autoshiftEnd
  split
  next =>
    have evaluated := autoshiftEvaluate_keeps now s
    dsimp only
    split
    · exact evaluated
    · exact ((evaluated.trans (Keeps.emit _ _)).trans (State.flushShift_keeps _)).trans (Keeps.time _ _)
  next =>
    have released := Keeps.emit s (.release keycode (s.getShiftState keycode))
    dsimp only
    split
    · exact (released.trans (State.flushShift_keeps _)).trans (Keeps.time _ _)
    · exact released.trans (Keeps.time _ _)

/-- The key in progress ends, if it is the one meant. -/
theorem autoshiftEnd_progress (matrixTrigger : Bool) :
    (autoshiftEnd config keycode now matrixTrigger s).progress =
      (s.lastkey, s.inProgress && !decide (keycode = s.lastkey ∨ keycode = kcNo)) := by
  unfold autoshiftEnd
  split
  next meant =>
    have evaluated := autoshiftEvaluate_progress now s
    rw [meant.1, decide_eq_true meant.2]
    dsimp only
    split
    · exact evaluated
    · show ((autoshiftEvaluate now s).emit _).flushShift.progress = _
      rw [State.flushShift_progress, State.emit_progress, evaluated]
      rfl
  next other =>
    have same : (s.inProgress && !decide (keycode = s.lastkey ∨ keycode = kcNo)) = s.inProgress := by
      cases progress : s.inProgress with
      | false => rfl
      | true =>
        simp only [progress, true_and] at other
        simp [not_or.mp other]
    rw [same]
    dsimp only
    split
    · show (s.emit _).flushShift.progress = _
      rw [State.flushShift_progress]
      rfl
    · rfl

/-- Without the matrix scan, the last key restores the Shifts, and others leave them. -/
theorem autoshiftEnd_cancelling (side : Side) :
    (autoshiftEnd config keycode now false s).cancelling side =
      if s.inProgress ∧ keycode = kcNo ∨ keycode = s.lastkey then false else s.cancelling side := by
  unfold autoshiftEnd
  split
  next meant =>
    have flushed : s.inProgress = true ∧ keycode = kcNo ∨ keycode = s.lastkey := by tauto
    simp only [flushed, Bool.and_false, Bool.false_eq_true, if_false, if_true]
    exact State.flushShift_cancelling _ side
  next other =>
    dsimp only
    split
    next last =>
      have last : keycode = s.lastkey := last
      rw [if_pos (.inr last)]
      exact State.flushShift_cancelling _ side
    next later =>
      have later : keycode ≠ s.lastkey := later
      rw [if_neg (by tauto)]
      rfl

/-- A press repeats the last key, begins its own progress, or is left to the combination that it is part of. -/
theorem autoshiftPress_spec (idle : s.inProgress = false) :
    Keeps s (autoshiftPress config keycode now s) ∧
      ((autoshiftPress config keycode now s).lastkey = keycode ∨
        (autoshiftPress config keycode now s).lastkey = kcNo ∧
          (autoshiftPress config keycode now s).inProgress = false) := by
  unfold autoshiftPress
  dsimp only
  generalize ((s.mods ||| s.oneshotMods) &&& ~~~modLsft != 0) = combined
  obtain ⟨t, begun, keeps, idle, none⟩ : ∃ t, (if combined = true then { s with lastkey := kcNo } else s) = t ∧
      Keeps s t ∧ t.inProgress = false ∧ (combined = true → t.lastkey = kcNo) := by
    cases combined with
    | false => exact ⟨s, rfl, Keeps.refl s, idle, nofun⟩
    | true => exact ⟨{ s with lastkey := kcNo }, rfl, ⟨fun _ => rfl, rfl, rfl⟩, idle, fun _ => rfl⟩
  rw [begun]
  split
  next alone =>
    have combined : combined = true := (Bool.and_eq_true_iff.mp alone).1
    exact ⟨keeps.trans ⟨fun _ => rfl, rfl, rfl⟩, .inr ⟨none combined, idle⟩⟩
  next =>
    split
    next again =>
      have same := congrArg Prod.fst (t.cancelShift_progress)
      exact ⟨(keeps.trans t.cancelShift_keeps).trans (Keeps.pressUser _ _ _), .inl (same.trans again.1.symm)⟩
    next => exact ⟨keeps.trans ⟨fun _ => rfl, rfl, rfl⟩, .inl rfl⟩

/-- What is to be restored has not become more, and if there is something, Auto Shift has not been disabled. -/
structure Prepares (s t : State) : Prop where
  held : ∀ side, t.held side = s.held side
  down : t.down = s.down
  lastkey : t.lastkey = s.lastkey
  cancelling : ∀ side, t.cancelling side = true → s.cancelling side = true ∧ (s.enabled = true → t.enabled = true)

theorem Prepares.trans {s t u : State} (first : Prepares s t) (second : Prepares t u) : Prepares s u where
  held side := (second.held side).trans (first.held side)
  down := second.down.trans first.down
  lastkey := second.lastkey.trans first.lastkey
  cancelling side left := by
    obtain ⟨between, later⟩ := second.cancelling side left
    obtain ⟨before, earlier⟩ := first.cancelling side between
    exact ⟨before, fun enabled => later (earlier enabled)⟩

/-- After the Shifts have been restored, nothing is left. -/
theorem Prepares.flushShift (t : State) (held : ∀ side, t.held side = s.held side) (down : t.down = s.down)
    (lastkey : t.lastkey = s.lastkey) : Prepares s t.flushShift where
  held side := ((State.flushShift_keeps t).held side).trans (held side)
  down := (State.flushShift_keeps t).down.trans down
  lastkey := (congrArg Prod.fst (State.flushShift_progress t)).trans lastkey
  cancelling side left := by
    rw [State.flushShift_cancelling] at left
    cases left

theorem Prepares.of_keeps {t : State} (keeps : Keeps s t) (lastkey : t.lastkey = s.lastkey)
    (cancelling : ∀ side, t.cancelling side = true → s.cancelling side = true) : Prepares s t where
  held := keeps.held
  down := keeps.down
  lastkey := lastkey
  cancelling side left := ⟨cancelling side left, fun enabled => keeps.enabled.trans enabled⟩

theorem setupKey_spec : Prepares s (setupKey keycode s) ∧ (setupKey keycode s).inProgress = s.inProgress := by
  unfold setupKey
  split_ifs
  · exact ⟨Prepares.flushShift s _ (fun _ => rfl) rfl rfl, congrArg Prod.snd (State.flushShift_progress _)⟩
  · exact ⟨⟨fun _ => rfl, rfl, rfl, fun _ left => ⟨left, fun _ => rfl⟩⟩, rfl⟩
  · exact ⟨Prepares.flushShift s _ (fun _ => rfl) rfl rfl, congrArg Prod.snd (State.flushShift_progress _)⟩
  · exact ⟨⟨fun _ => rfl, rfl, rfl, fun _ left => ⟨left, id⟩⟩, rfl⟩
  · exact ⟨⟨fun _ => rfl, rfl, rfl, fun _ left => ⟨left, id⟩⟩, rfl⟩
  · exact ⟨⟨fun _ => rfl, rfl, rfl, fun _ left => ⟨left, id⟩⟩, rfl⟩

/-- Before a press, the key in progress ends. -/
theorem beforePress_spec :
    Prepares s (beforePress config keycode now s) ∧ (beforePress config keycode now s).inProgress = false := by
  unfold beforePress
  dsimp only
  cases progress : s.inProgress with
  | false =>
    obtain ⟨prepares, same⟩ := setupKey_spec keycode s
    rw [if_neg Bool.false_ne_true]
    exact ⟨prepares, same.trans progress⟩
  | true =>
    have ended := autoshiftEnd_progress config kcNo now s false
    obtain ⟨prepares, same⟩ := setupKey_spec keycode (autoshiftEnd config kcNo now false s)
    rw [if_pos rfl]
    refine ⟨Prepares.trans (Prepares.of_keeps s (autoshiftEnd_keeps config kcNo now s false) (congrArg Prod.fst ended) ?_)
      prepares, same.trans ((congrArg Prod.snd ended).trans (by simp))⟩
    intro side left
    rw [autoshiftEnd_cancelling, if_pos (.inl ⟨progress, rfl⟩)] at left
    cases left

end Functions

/-! ## The invariant -/

variable {config : Config} {s : State}

/-- What holds in every state. -/
structure Inv (config : Config) (s : State) : Prop where
  held : ∀ side : Side, s.down side.keycode = s.held side
  progress : s.inProgress = true → s.enabled = true ∧ config.autoShifted s.lastkey = true ∧ s.down s.lastkey = true
  cancelling : ∀ side, s.cancelling side = true → s.enabled = true
  lastkey : isRetro s.lastkey = false

/-- No key that is auto-shifted is down. -/
def Released (config : Config) (s : State) : Prop := ∀ keycode, config.autoShifted keycode = true → s.down keycode = false

/-- When no auto-shifted key is down, the modifiers have the Shifts that are down, and nothing is to be restored. -/
def Restored (config : Config) (s : State) : Prop :=
  Released config s → ∀ side : Side, s.has side.mod = s.down side.keycode ∧ s.cancelling side = false

/-- The key is the last auto-shifted one that goes up, but not the one that would restore the Shifts. -/
def Loses (config : Config) (s : State) : Input → Prop
  | .key keycode _ _ _ => config.autoShifted keycode = true ∧ s.down keycode = true ∧
      (∀ other, other ≠ keycode → config.autoShifted other = true → s.down other = false) ∧ keycode ≠ s.lastkey ∧
        ∃ side, s.cancelling side = true
  | .scan _ | .oneshot _ => False

theorem autoShifted_side (config : Config) (side : Side) : config.autoShifted side.keycode = false := by
  cases side
  · exact config.lsft
  · exact config.rsft

/-- The matrix scan leaves a key in progress that it has pressed. -/
theorem scan_inv (inv : Inv config s) (now : BitVec 16) : Inv config (autoshiftMatrixScan config now s) := by
  unfold autoshiftMatrixScan
  split
  next due =>
    obtain ⟨enabled, auto, down⟩ := inv.progress due.1
    have keeps := autoshiftEnd_keeps config s.lastkey now s true
    have progress := autoshiftEnd_progress config s.lastkey now s true
    refine ⟨fun side => ?_, fun going => ?_, fun side _ => keeps.enabled.trans enabled, ?_⟩
    · rw [keeps.down, keeps.held]
      exact inv.held side
    · have ended := congrArg Prod.snd progress
      simp only [State.progress, going] at ended
      simp at ended
    · rw [show (autoshiftEnd config s.lastkey now true s).lastkey = s.lastkey from congrArg Prod.fst progress]
      exact inv.lastkey
  next => exact inv

/-! ## The action of a key -/

/-- What the rest of the firmware makes of the other modifiers. -/
def others (mods oneshot : BitVec 8) (t : State) : State :=
  { t with
    mods := (t.mods &&& (modLsft ||| modRsft)) ||| (mods &&& ~~~(modLsft ||| modRsft))
    oneshotMods := oneshot }

theorem others_has (mods oneshot : BitVec 8) (t : State) (side : Side) :
    (others mods oneshot t).has side.mod = t.has side.mod := by
  rw [State.has_eq, State.has_eq]
  cases side <;> simp [others, Side.bit, modLsft, modRsft]

section Action

variable (keycode : Keycode) (pressed : Bool) (mods oneshot : BitVec 8) (t : State)

theorem action_has (side : Side) :
    (action keycode pressed mods oneshot t).has side.mod =
      if keycode = side.keycode then pressed else t.has side.mod := by
  have rest := others_has mods oneshot t side
  have cases : action keycode pressed mods oneshot t =
      if keycode = Side.left.keycode then
        if pressed then (others mods oneshot t).addMods Side.left.mod else (others mods oneshot t).delMods Side.left.mod
      else if keycode = Side.right.keycode then
        if pressed then (others mods oneshot t).addMods Side.right.mod else (others mods oneshot t).delMods Side.right.mod
      else others mods oneshot t := rfl
  have different : Side.left.keycode ≠ Side.right.keycode := by decide
  rw [cases]
  split_ifs <;> cases side <;> simp_all

theorem action_same : (action keycode pressed mods oneshot t).cancelling = t.cancelling ∧
    (action keycode pressed mods oneshot t).down = t.down ∧
    (action keycode pressed mods oneshot t).progress = t.progress ∧
    (action keycode pressed mods oneshot t).enabled = t.enabled := by
  unfold action
  dsimp only
  split_ifs <;> exact ⟨rfl, rfl, rfl, rfl⟩

end Action

/-- A key that is left to its action. -/
theorem action_inv {keycode : Keycode} {pressed : Bool} {mods oneshot : BitVec 8} {t : State}
    (held : ∀ side : Side, keycode ≠ side.keycode → t.down side.keycode = t.held side)
    (own : ∀ side : Side, keycode = side.keycode → t.down side.keycode = pressed ∧ (pressed = false → t.cancelling side = false))
    (progress : t.inProgress = true → t.enabled = true ∧ config.autoShifted t.lastkey = true ∧ t.down t.lastkey = true)
    (cancelling : ∀ side, t.cancelling side = true → t.enabled = true) (lastkey : isRetro t.lastkey = false) :
    Inv config (action keycode pressed mods oneshot t) := by
  obtain ⟨same, down, going, enabled⟩ := action_same keycode pressed mods oneshot t
  have key : (action keycode pressed mods oneshot t).lastkey = t.lastkey := congrArg Prod.fst going
  have on : (action keycode pressed mods oneshot t).inProgress = t.inProgress := congrArg Prod.snd going
  refine ⟨fun side => ?_, ?_, ?_, ?_⟩
  · rw [State.held, down, same, action_has]
    by_cases shift : keycode = side.keycode
    · obtain ⟨there, none⟩ := own side shift
      rw [if_pos shift, there]
      cases pressed with
      | true => rfl
      | false => rw [none rfl]; rfl
    · rw [if_neg shift]
      exact held side shift
  · rw [on, key, down, enabled]
    exact progress
  · rw [same, enabled]
    exact cancelling
  · rw [key]
    exact lastkey

/-! ## Presses -/

/-- The state before `process_auto_shift` looks at the key. -/
def State.toggle (s : State) (keycode : Keycode) : State :=
  { s with down := Function.update s.down keycode (!s.down keycode) }

theorem toggle_self (keycode : Keycode) : (s.toggle keycode).down keycode = !s.down keycode := Function.update_self _ _ _

theorem toggle_other {keycode other : Keycode} (different : other ≠ keycode) :
    (s.toggle keycode).down other = s.down other := Function.update_of_ne different _ _

section Press

variable {keycode : Keycode} (now : BitVec 16) (mods oneshot : BitVec 8)

theorem step_press (up : s.down keycode = false) {t : State} (before : beforePress config keycode now (s.toggle keycode) = t) :
    step config s (.key keycode now mods oneshot) =
      if isRetro keycode then action keycode true mods oneshot { t with lastkey := kcNo }
      else if !t.enabled then action keycode true mods oneshot t
      else if config.autoShifted keycode then autoshiftPress config keycode now t
      else action keycode true mods oneshot { t with lastkey := kcNo } := by
  have toggled : s.toggle keycode = { s with down := Function.update s.down keycode true } := by
    rw [State.toggle, up]
    rfl
  rw [toggled] at before
  simp only [step, up, Bool.not_false, processAutoShift, before, if_true]
  cases isRetro keycode <;> cases t.enabled <;> cases config.autoShifted keycode <;> rfl

theorem press_inv (inv : Inv config s) (up : s.down keycode = false) :
    Inv config (step config s (.key keycode now mods oneshot)) := by
  obtain ⟨prepares, idle⟩ := beforePress_spec config keycode now (s.toggle keycode)
  generalize before : beforePress config keycode now (s.toggle keycode) = t at prepares idle
  have there : t.down keycode = true := by
    rw [prepares.down, toggle_self, up]
    rfl
  have held : ∀ side : Side, keycode ≠ side.keycode → t.down side.keycode = t.held side := by
    intro side different
    rw [prepares.down, toggle_other (Ne.symm different), prepares.held]
    exact inv.held side
  have cancelling : ∀ side, t.cancelling side = true → t.enabled = true := by
    intro side left
    obtain ⟨earlier, still⟩ := prepares.cancelling side left
    exact still (inv.cancelling side earlier)
  have lastkey : isRetro t.lastkey = false := by
    rw [prepares.lastkey]
    exact inv.lastkey
  have going : t.inProgress = true → t.enabled = true ∧ config.autoShifted t.lastkey = true ∧ t.down t.lastkey = true := by
    rw [idle]
    nofun
  have own : ∀ side : Side, keycode = side.keycode →
      t.down side.keycode = true ∧ (true = false → t.cancelling side = false) :=
    fun side same => ⟨same ▸ there, nofun⟩
  have none : Inv config (action keycode true mods oneshot { t with lastkey := kcNo }) :=
    action_inv held own (fun progress => by rw [show t.inProgress = true from progress] at idle; cases idle) cancelling
      (show isRetro kcNo = false by decide)
  rw [step_press now mods oneshot up before]
  split_ifs with retro disabled auto
  · exact none
  · exact action_inv held own going cancelling lastkey
  · obtain ⟨keeps, key⟩ := autoshiftPress_spec config keycode now t idle
    have enabled : t.enabled = true := by simpa using disabled
    refine ⟨fun side => ?_, fun progress => ?_, fun side _ => keeps.enabled.trans enabled, ?_⟩
    · have different : keycode ≠ side.keycode := by
        rintro rfl
        rw [autoShifted_side] at auto
        cases auto
      rw [keeps.down, keeps.held]
      exact held side different
    · obtain key | ⟨-, ended⟩ := key
      · rw [key, keeps.enabled, keeps.down]
        exact ⟨enabled, auto, there⟩
      · rw [ended] at progress
        cases progress
    · obtain key | ⟨key, -⟩ := key
      · rw [key]
        simpa using retro
      · rw [key]
        decide
  · exact none

end Press

/-! ## Releases -/

section Release

variable {keycode : Keycode} (now : BitVec 16) (mods oneshot : BitVec 8)

theorem step_release (down : s.down keycode = true) {t : State} (before : beforeRelease keycode (s.toggle keycode) = t) :
    step config s (.key keycode now mods oneshot) =
      if isRetro keycode then action keycode false mods oneshot t
      else if !t.enabled then action keycode false mods oneshot t
      else if config.autoShifted keycode then autoshiftEnd config keycode now false t
      else action keycode false mods oneshot t := by
  have toggled : s.toggle keycode = { s with down := Function.update s.down keycode false } := by
    rw [State.toggle, down]
    rfl
  rw [toggled] at before
  simp only [step, down, Bool.not_true, processAutoShift, before, Bool.false_eq_true, if_false]
  cases isRetro keycode <;> cases t.enabled <;> cases config.autoShifted keycode <;> rfl

/-- A Shift that goes up is not restored any more. -/
theorem beforeRelease_spec :
    (∀ side, (beforeRelease keycode s).cancelling side = (s.cancelling side && !decide (keycode = side.keycode))) ∧
      (beforeRelease keycode s).mods = s.mods ∧ (beforeRelease keycode s).down = s.down ∧
      (beforeRelease keycode s).progress = s.progress ∧ (beforeRelease keycode s).enabled = s.enabled := by
  have different : Side.left.keycode ≠ Side.right.keycode := by decide
  have cases : beforeRelease keycode s =
      if keycode = Side.left.keycode then s.setCancelling .left false
      else if keycode = Side.right.keycode then s.setCancelling .right false else s := rfl
  rw [cases]
  split_ifs with left right
  · exact ⟨fun side => by cases side <;> simp [left, different], rfl, rfl, rfl, rfl⟩
  · exact ⟨fun side => by cases side <;> simp [right, different.symm], rfl, rfl, rfl, rfl⟩
  · exact ⟨fun side => by cases side <;> simp [left, right], rfl, rfl, rfl, rfl⟩

theorem release_inv (inv : Inv config s) (down : s.down keycode = true) :
    Inv config (step config s (.key keycode now mods oneshot)) := by
  obtain ⟨cancel, same, keys, progress, enabled⟩ := @beforeRelease_spec (s.toggle keycode) keycode
  generalize before : beforeRelease keycode (s.toggle keycode) = t at cancel same keys progress enabled
  have there : t.down keycode = false := by
    rw [keys, toggle_self, down]
    rfl
  have others : ∀ other, other ≠ keycode → t.down other = s.down other := by
    intro other different
    rw [keys, toggle_other different]
  have key : t.lastkey = s.lastkey := congrArg Prod.fst progress
  have going : t.inProgress = s.inProgress := congrArg Prod.snd progress
  have held : ∀ side : Side, keycode ≠ side.keycode → t.down side.keycode = t.held side := by
    intro side different
    have left : t.cancelling side = s.cancelling side := (cancel side).trans (by simp [different]; rfl)
    rw [others _ (Ne.symm different), inv.held side, State.held, State.held, left, State.has, State.has, same]
    rfl
  have own : ∀ side : Side, keycode = side.keycode →
      t.down side.keycode = false ∧ (false = false → t.cancelling side = false) :=
    fun side shift => ⟨shift ▸ there, fun _ => (cancel side).trans (by simp [shift])⟩
  have cancelling : ∀ side, t.cancelling side = true → t.enabled = true := by
    intro side left
    rw [cancel] at left
    exact enabled.trans (inv.cancelling side (Bool.and_eq_true_iff.mp left).1)
  have lastkey : isRetro t.lastkey = false := by
    rw [key]
    exact inv.lastkey
  have keeps : ∀ different : keycode ≠ s.lastkey,
      t.inProgress = true → t.enabled = true ∧ config.autoShifted t.lastkey = true ∧ t.down t.lastkey = true := by
    intro different on
    rw [going] at on
    rw [key, others _ (Ne.symm different)]
    obtain ⟨active, auto, there⟩ := inv.progress on
    exact ⟨enabled.trans active, auto, there⟩
  rw [step_release now mods oneshot down before]
  split_ifs with retro disabled auto
  · apply action_inv held own (keeps _) cancelling lastkey
    rintro rfl
    rw [inv.lastkey] at retro
    cases retro
  · apply action_inv held own _ cancelling lastkey
    intro on
    have off : t.enabled = false := by simpa using disabled
    rw [going] at on
    have active : t.enabled = true := enabled.trans (inv.progress on).1
    rw [off] at active
    cases active
  · have kept := autoshiftEnd_keeps config keycode now t false
    have ended := autoshiftEnd_progress config keycode now t false
    have active : t.enabled = true := by simpa using disabled
    have after : (autoshiftEnd config keycode now false t).lastkey = t.lastkey := congrArg Prod.fst ended
    refine ⟨fun side => ?_, fun on => ?_, fun side _ => kept.enabled.trans active, by rw [after]; exact lastkey⟩
    · have different : keycode ≠ side.keycode := by
        rintro rfl
        rw [autoShifted_side] at auto
        cases auto
      rw [kept.down, kept.held]
      exact held side different
    · have both := (congrArg Prod.snd ended).symm.trans on
      obtain ⟨on, other⟩ := Bool.and_eq_true_iff.mp both
      have different : keycode ≠ s.lastkey := by
        rintro rfl
        simp [key] at other
      rw [after, kept.enabled, kept.down]
      exact keeps different on
  · by_cases last : keycode = s.lastkey
    · -- a key that is not auto-shifted cannot be in progress
      apply action_inv held own _ cancelling lastkey
      intro on
      rw [going] at on
      rw [last, (inv.progress on).2.1] at auto
      exact absurd rfl auto
    · exact action_inv held own (keeps last) cancelling lastkey

end Release

theorem step_inv (inv : Inv config s) (input : Input) : Inv config (step config s input) := by
  cases input with
  | scan now => exact scan_inv inv now
  | oneshot mods => exact ⟨inv.held, inv.progress, inv.cancelling, inv.lastkey⟩
  | key keycode now mods oneshot =>
    cases down : s.down keycode with
    | false => exact press_inv now mods oneshot inv down
    | true => exact release_inv now mods oneshot inv down

theorem initial_inv (config : Config) (timeout : BitVec 16) (enabled : Bool) : Inv config (initial timeout enabled) where
  held side := by cases side <;> simp [State.held, State.has, State.cancelling, initial]
  progress := nofun
  cancelling side := by cases side <;> nofun
  lastkey := by show isRetro kcNo = false; decide

/-! ## When the Shifts are restored -/

/-- With nothing to restore, the modifiers have the Shifts that are down. -/
theorem restored_iff (inv : Inv config s) :
    Restored config s ↔ (Released config s → ∀ side, s.cancelling side = false) := by
  constructor
  · exact fun restored released side => (restored released side).2
  · intro none released side
    refine ⟨?_, none released side⟩
    rw [inv.held, State.held, none released side, Bool.or_false]

section Steps

variable {keycode : Keycode} (now : BitVec 16) (mods oneshot : BitVec 8)

/-- A step changes the key that it is about, and no other. -/
theorem step_key_down (config : Config) (s : State) (keycode : Keycode) :
    (step config s (.key keycode now mods oneshot)).down = (s.toggle keycode).down := by
  cases down : s.down keycode with
  | false =>
    obtain ⟨prepares, idle⟩ := beforePress_spec config keycode now (s.toggle keycode)
    generalize before : beforePress config keycode now (s.toggle keycode) = t at prepares idle
    rw [step_press now mods oneshot down before, ← prepares.down]
    split_ifs
    · exact (action_same keycode true mods oneshot _).2.1
    · exact (action_same keycode true mods oneshot _).2.1
    · exact (autoshiftPress_spec config keycode now t idle).1.down
    · exact (action_same keycode true mods oneshot _).2.1
  | true =>
    obtain ⟨-, -, keys, -⟩ := @beforeRelease_spec (s.toggle keycode) keycode
    generalize before : beforeRelease keycode (s.toggle keycode) = t at keys
    rw [step_release now mods oneshot down before, ← keys]
    split_ifs
    · exact (action_same keycode false mods oneshot _).2.1
    · exact (action_same keycode false mods oneshot _).2.1
    · exact (autoshiftEnd_keeps config keycode now t false).down
    · exact (action_same keycode false mods oneshot _).2.1

theorem step_scan_down (config : Config) (s : State) : (step config s (.scan now)).down = s.down := by
  show (autoshiftMatrixScan config now s).down = s.down
  unfold autoshiftMatrixScan
  split
  next => exact (autoshiftEnd_keeps config s.lastkey now s true).down
  next => rfl

/-- The release of an auto-shifted key leaves the Shifts to be restored, unless it is the last key. -/
theorem release_cancelling (inv : Inv config s) (down : s.down keycode = true) (auto : config.autoShifted keycode = true)
    (side : Side) : (step config s (.key keycode now mods oneshot)).cancelling side =
      if keycode = s.lastkey then false else s.cancelling side := by
  obtain ⟨cancel, -, -, progress, enabled⟩ := @beforeRelease_spec (s.toggle keycode) keycode
  generalize before : beforeRelease keycode (s.toggle keycode) = t at cancel progress enabled
  have different : ∀ side : Side, keycode ≠ side.keycode := by
    rintro side rfl
    rw [autoShifted_side] at auto
    cases auto
  have same : t.cancelling side = s.cancelling side := (cancel side).trans (by simp [different]; rfl)
  rw [step_release now mods oneshot down before]
  have key : t.lastkey = s.lastkey := congrArg Prod.fst progress
  by_cases retro : isRetro keycode = true
  · have other : keycode ≠ s.lastkey := by
      rintro rfl
      rw [inv.lastkey] at retro
      cases retro
    rw [if_pos retro, if_neg other, (action_same keycode false mods oneshot t).1]
    exact same
  · rw [if_neg retro]
    cases active : t.enabled with
    | false =>
      have off : s.enabled = false := enabled.symm.trans active
      have none : s.cancelling side = false := by
        rw [Bool.eq_false_iff]
        intro left
        rw [inv.cancelling side left] at off
        cases off
      rw [Bool.not_false, if_pos rfl, (action_same keycode false mods oneshot t).1, same, none, ite_self]
    | true =>
      have real : keycode ≠ kcNo := by
        rintro rfl
        rw [config.kcNo] at auto
        cases auto
      rw [Bool.not_true, if_neg Bool.false_ne_true, if_pos auto, autoshiftEnd_cancelling, key, same]
      simp [real]

/-- A press of another key has nothing to cancel. -/
theorem press_cancelling (up : s.down keycode = false) (other : config.autoShifted keycode = false) {side : Side}
    (none : s.cancelling side = false) : (step config s (.key keycode now mods oneshot)).cancelling side = false := by
  obtain ⟨prepares, -⟩ := beforePress_spec config keycode now (s.toggle keycode)
  generalize before : beforePress config keycode now (s.toggle keycode) = t at prepares
  have left : t.cancelling side = false := by
    rw [Bool.eq_false_iff]
    intro more
    have earlier : s.cancelling side = true := (prepares.cancelling side more).1
    rw [none] at earlier
    cases earlier
  rw [step_press now mods oneshot up before]
  split_ifs with retro disabled auto
  · rw [(action_same keycode true mods oneshot _).1]
    exact left
  · rw [(action_same keycode true mods oneshot _).1]
    exact left
  · rw [other] at auto
    cases auto
  · rw [(action_same keycode true mods oneshot _).1]
    exact left

theorem release_other_cancelling (down : s.down keycode = true) (other : config.autoShifted keycode = false) {side : Side}
    (none : s.cancelling side = false) : (step config s (.key keycode now mods oneshot)).cancelling side = false := by
  obtain ⟨cancel, -⟩ := @beforeRelease_spec (s.toggle keycode) keycode
  generalize before : beforeRelease keycode (s.toggle keycode) = t at cancel
  have left : t.cancelling side = false := by
    have earlier : (s.toggle keycode).cancelling side = false := none
    rw [cancel, earlier, Bool.false_and]
  rw [step_release now mods oneshot down before]
  split_ifs with retro disabled auto
  · rw [(action_same keycode false mods oneshot _).1]
    exact left
  · rw [(action_same keycode false mods oneshot _).1]
    exact left
  · rw [other] at auto
    cases auto
  · rw [(action_same keycode false mods oneshot _).1]
    exact left

end Steps

/-- Without auto-shifted keys that are down, none is in progress. -/
theorem Inv.idle (inv : Inv config s) (released : Released config s) : s.inProgress = false := by
  rw [Bool.eq_false_iff]
  intro on
  obtain ⟨-, auto, down⟩ := inv.progress on
  rw [released _ auto] at down
  cases down

section Restoring

variable {keycode : Keycode} {now : BitVec 16} {mods oneshot : BitVec 8}

/-- The timer runs only while an auto-shifted key is down, so no Shift is due at a scan without one. -/
theorem scan_restored (inv : Inv config s) (restored : Restored config s) :
    Restored config (step config s (.scan now)) := by
  rw [restored_iff (step_inv inv _)]
  show Released config (autoshiftMatrixScan config now s) → ∀ side, (autoshiftMatrixScan config now s).cancelling side = false
  unfold autoshiftMatrixScan
  split
  next due =>
    intro released
    have down := (autoshiftEnd_keeps config s.lastkey now s true).down
    have idle := inv.idle (by rwa [Released, down] at released)
    rw [idle] at due
    exact absurd due.1 Bool.false_ne_true
  next => exact fun released side => (restored released side).2

/-- A key that is not auto-shifted leaves the auto-shifted keys as they are. -/
theorem other_key_restored (inv : Inv config s) (restored : Restored config s) (other : config.autoShifted keycode = false) :
    Restored config (step config s (.key keycode now mods oneshot)) := by
  rw [restored_iff (step_inv inv _)]
  intro released side
  have same : Released config s := by
    intro shifted auto
    have different : shifted ≠ keycode := by
      rintro rfl
      rw [other] at auto
      cases auto
    rw [← toggle_other different, ← step_key_down now mods oneshot config s keycode]
    exact released shifted auto
  have none := (restored same side).2
  cases down : s.down keycode with
  | false => exact press_cancelling now mods oneshot down other none
  | true => exact release_other_cancelling now mods oneshot down other none

/-- An auto-shifted key that has gone down is not released. -/
theorem press_restored (inv : Inv config s) (up : s.down keycode = false) (auto : config.autoShifted keycode = true) :
    Restored config (step config s (.key keycode now mods oneshot)) := by
  rw [restored_iff (step_inv inv _)]
  intro released
  have gone := released keycode auto
  rw [step_key_down, toggle_self, up] at gone
  cases gone

/-- After the release of an auto-shifted key, all of them are released if the others were. -/
theorem release_released_iff (down : s.down keycode = true) :
    Released config (step config s (.key keycode now mods oneshot)) ↔
      ∀ other, other ≠ keycode → config.autoShifted other = true → s.down other = false := by
  unfold Released
  rw [step_key_down]
  constructor
  · intro released other different shifted
    rw [← toggle_other different]
    exact released other shifted
  · intro up other shifted
    by_cases same : other = keycode
    · rw [same, toggle_self, down]
      rfl
    · rw [toggle_other same]
      exact up other same shifted

/-- A step loses a Shift exactly if it lets the last auto-shifted key go up without restoring it. -/
theorem step_restored_iff (inv : Inv config s) (restored : Restored config s) (input : Input) :
    Restored config (step config s input) ↔ ¬ Loses config s input := by
  cases input with
  | scan now => exact iff_of_true (scan_restored inv restored) not_false
  | oneshot mods => exact iff_of_true restored not_false
  | key keycode now mods oneshot =>
    cases auto : config.autoShifted keycode with
    | false =>
      refine iff_of_true (other_key_restored inv restored auto) ?_
      intro loses
      cases auto.symm.trans loses.1
    | true =>
      cases down : s.down keycode with
      | false =>
        refine iff_of_true (press_restored inv down auto) ?_
        intro loses
        cases down.symm.trans loses.2.1
      | true =>
        have left := release_cancelling now mods oneshot inv down auto
        rw [restored_iff (step_inv inv _), release_released_iff down]
        constructor
        · rintro none ⟨-, -, up, different, side, lost⟩
          have kept := none up side
          rw [left side, if_neg different, lost] at kept
          cases kept
        · intro kept up side
          rw [left side]
          split
          next => rfl
          next different =>
            rw [Bool.eq_false_iff]
            exact fun lost => kept ⟨auto, down, up, different, side, lost⟩

end Restoring

/-- In every run, the Shifts are restored in all the states exactly if no step loses them. -/
theorem shifts_restored_iff (config : Config) (timeout : BitVec 16) (enabled : Bool) (inputs : List Input) :
    (∀ n, Restored config (run config timeout enabled (inputs.take n))) ↔
      EveryStep (fun earlier input => ¬ Loses config (run config timeout enabled earlier) input) inputs := by
  apply forall_take_iff_everyStep (Inv config) (Restored config) (fun s input => ¬ Loses config s input)
    (initial_inv config timeout enabled)
  · refine (restored_iff (initial_inv config timeout enabled)).mpr fun _ side => ?_
    cases side <;> rfl
  · exact fun s input inv => step_inv inv input
  · exact fun s input inv restored => step_restored_iff inv restored input

/-- Holds Shift, lets A repeat, and presses Escape before A is released. -/
def interruptedRepeat : List Input :=
  [.key kcLsft 0 0 0, .key 0x04 10 0 0, .scan 200, .key 0x29 300 0 0, .key 0x04 400 0 0]

theorem interruptedRepeat_released : Released .default (run .default 175 true interruptedRepeat) := by
  intro keycode auto
  by_cases last : keycode = 0x04
  · subst last
    decide +kernel
  · have shift : keycode ≠ kcLsft := by
      rintro rfl
      cases auto
    have escape : keycode ≠ 0x29 := by
      rintro rfl
      cases auto
    simp only [run, interruptedRepeat, List.foldl_cons, List.foldl_nil, step_key_down, step_scan_down, toggle_other last,
      toggle_other shift, toggle_other escape]
    rfl

theorem interruptedRepeat_loses : ¬ Restored .default (run .default 175 true interruptedRepeat) := by
  intro restored
  obtain ⟨there, -⟩ := restored interruptedRepeat_released .left
  revert there
  decide +kernel

end QmkFirmware.AutoShift
