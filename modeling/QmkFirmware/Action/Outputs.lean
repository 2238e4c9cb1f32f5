import Mathlib.Data.Set.Basic
import Mathlib.Logic.Function.Basic
import QmkFirmware.Action.Model

/-! # Outputs

What a key can put out: a key or a modifier of the report, a layer, a usage or a mouse key.  A state is backed by a set
of outputs if what the firmware keeps and what the host has been told are all in it.
-/

namespace QmkFirmware.Action

open QmkFirmware.ActionLayer

inductive Output where
  | key (code : Keycode)
  | mod (bit : Nat)
  | weak (bit : Nat)
  | oneshot (bit : Nat)
  | layer (layer : Nat)
  | system (usage : Nat)
  | consumer (usage : Nat)
  | mouse (code : Keycode)

def modOutputs (mods : BitVec 8) : Set Output := { output | ∃ bit, mods.getLsbD bit = true ∧ output = .mod bit }

def weakOutputs (mods : BitVec 8) : Set Output := { output | ∃ bit, mods.getLsbD bit = true ∧ output = .weak bit }

def oneshotOutputs (mods : BitVec 8) : Set Output := { output | ∃ bit, mods.getLsbD bit = true ∧ output = .oneshot bit }

def codeOutputs (code : Keycode) : Set Output :=
  if code = kcNo then ∅
  else if isBasicKeycode code then { .key code }
  else if isModifierKeycode code then modOutputs (modBit code)
  else if isSystemKeycode code then { .system (keycode2system code) }
  else if isConsumerKeycode code then { .consumer (keycode2consumer code) }
  else if isMouseKeycode code then { .mouse code }
  else ∅

/-! ## The host -/

/-- What the host has been told last. -/
structure Host where
  mods : BitVec 8
  pressed : Keycode → Bool
  system : Nat
  consumer : Nat
  mouse : Keycode → Bool

def Host.start : Host where
  mods := 0
  pressed _ := false
  system := 0
  consumer := 0
  mouse _ := false

def Host.receive (host : Host) : Call → Host
  | .hostKeyboardSend report => { host with mods := report.mods, pressed := fun code => isKeyPressed code report.keys }
  | .hostSystemSend usage => { host with system := usage }
  | .hostConsumerSend usage => { host with consumer := usage }
  | .registerMouse code pressed => { host with mouse := Function.update host.mouse code pressed }
  | .mousekeyClear => { host with mouse := fun _ => false }

variable {keyboard : ActionLayer.Keyboard}

def host (s : State keyboard) : Host := s.calls.foldl Host.receive Host.start

@[simp] theorem host_call (call : Call) (s : State keyboard) : host (s.call call) = (host s).receive call :=
  List.foldl_append

/-! ## Backed states -/

/-- What the firmware keeps. -/
structure Inside (outputs : Set Output) (s : State keyboard) : Prop where
  keys : ∀ code, isKeyPressed code s.report.keys = true → .key code ∈ outputs
  realMods : ∀ bit, s.realMods.getLsbD bit = true → .mod bit ∈ outputs
  weakMods : ∀ bit, s.weakMods.getLsbD bit = true → .weak bit ∈ outputs
  oneshotMods : ∀ bit, s.oneshotMods.getLsbD bit = true → .oneshot bit ∈ outputs
  layers : ∀ layer, s.layers.layerState.getLsbD layer = true → .layer layer ∈ outputs

/-- What the host has been told in reports. -/
structure Shown (outputs : Set Output) (host : Host) : Prop where
  keys : ∀ code, host.pressed code = true → .key code ∈ outputs
  mods : ∀ bit, host.mods.getLsbD bit = true → .mod bit ∈ outputs ∨ .weak bit ∈ outputs ∨ .oneshot bit ∈ outputs

/-- What the host has been told directly. -/
structure Told (outputs : Set Output) (host : Host) : Prop where
  system : host.system ≠ 0 → .system host.system ∈ outputs
  consumer : host.consumer ≠ 0 → .consumer host.consumer ∈ outputs
  mouse : ∀ code, host.mouse code = true → .mouse code ∈ outputs

/-- The last report is the one that the host has. -/
structure Synced (s : State keyboard) : Prop where
  mods : (host s).mods = s.lastReport.mods
  pressed : ∀ code, (host s).pressed code = isKeyPressed code s.lastReport.keys

structure Backed (outputs : Set Output) (s : State keyboard) : Prop where
  inside : Inside outputs s
  shown : Shown outputs (host s)
  told : Told outputs (host s)
  synced : Synced s

section Backed

variable {cfg : Config} {s t : State keyboard} {outputs more : Set Output}

theorem Inside.mono (inside : Inside outputs s) (subset : outputs ⊆ more) : Inside more s where
  keys code pressed := subset (inside.keys code pressed)
  realMods bit set := subset (inside.realMods bit set)
  weakMods bit set := subset (inside.weakMods bit set)
  oneshotMods bit set := subset (inside.oneshotMods bit set)
  layers layer set := subset (inside.layers layer set)

theorem Shown.mono {host : Host} (shown : Shown outputs host) (subset : outputs ⊆ more) : Shown more host where
  keys code pressed := subset (shown.keys code pressed)
  mods bit set := (shown.mods bit set).imp (@subset _) (Or.imp (@subset _) (@subset _))

theorem Told.mono {host : Host} (told : Told outputs host) (subset : outputs ⊆ more) : Told more host where
  system nonzero := subset (told.system nonzero)
  consumer nonzero := subset (told.consumer nonzero)
  mouse code on := subset (told.mouse code on)

theorem Backed.mono (backed : Backed outputs s) (subset : outputs ⊆ more) : Backed more s where
  inside := backed.inside.mono subset
  shown := backed.shown.mono subset
  told := backed.told.mono subset
  synced := backed.synced

/-- The fields that count. -/
def visible (s : State keyboard) : BitVec 8 × BitVec 8 × BitVec 8 × keyboard.LayerState × Report × Report × List Call :=
  (s.realMods, s.weakMods, s.oneshotMods, s.layers.layerState, s.report, s.lastReport, s.calls)

theorem Backed.congr (backed : Backed outputs s) (same : visible t = visible s) : Backed outputs t := by
  simp only [visible, Prod.mk.injEq] at same
  obtain ⟨realMods, weakMods, oneshotMods, layers, report, lastReport, calls⟩ := same
  have host : host t = host s := by rw [Action.host, calls, Action.host]
  constructor
  · obtain ⟨insideKeys, insideReal, insideWeak, insideOneshot, insideLayers⟩ := backed.inside
    rw [← report] at insideKeys
    rw [← realMods] at insideReal
    rw [← weakMods] at insideWeak
    rw [← oneshotMods] at insideOneshot
    rw [← layers] at insideLayers
    exact ⟨insideKeys, insideReal, insideWeak, insideOneshot, insideLayers⟩
  · rw [host]
    exact backed.shown
  · rw [host]
    exact backed.told
  · obtain ⟨mods, pressed⟩ := backed.synced
    rw [← host, ← lastReport] at mods
    rw [← host, ← lastReport] at pressed
    exact ⟨mods, pressed⟩

/-! ## Reports -/

/-- A report carries the modifiers of the state, and may use up the one-shot modifiers. -/
theorem getModsForReport_spec (cfg : Config) (s : State keyboard) :
    ∃ left time, (getModsForReport cfg s).2 = { s with oneshotMods := left, oneshotTime := time } ∧
      (∀ bit, left.getLsbD bit = true → s.oneshotMods.getLsbD bit = true) ∧
      ∀ bit, (getModsForReport cfg s).1.getLsbD bit = true →
        s.realMods.getLsbD bit = true ∨ s.weakMods.getLsbD bit = true ∨ s.oneshotMods.getLsbD bit = true := by
  have cleared (t : State keyboard) : ∃ left time, clearOneshotMods t = { t with oneshotMods := left, oneshotTime := time } ∧
      ∀ bit, left.getLsbD bit = true → t.oneshotMods.getLsbD bit = true := by
    unfold clearOneshotMods
    split
    · exact ⟨0, 0, rfl, by simp⟩
    · exact ⟨_, _, rfl, fun _ => id⟩
  have cond (c : Prop) [Decidable c] (t : State keyboard) :
      ∃ left time, (if c then clearOneshotMods t else t) = { t with oneshotMods := left, oneshotTime := time } ∧
        ∀ bit, left.getLsbD bit = true → t.oneshotMods.getLsbD bit = true := by
    split
    · exact cleared t
    · exact ⟨_, _, rfl, fun _ => id⟩
  unfold getModsForReport
  dsimp only
  split
  · obtain ⟨left, time, first, firstLess⟩ := cond (hasOneshotModsTimedOut cfg s = true) s
    rw [first]
    obtain ⟨last, lastTime, second, lastLess⟩ := cond (hasAnykey s.report.keys ≠ 0) { s with oneshotMods := left, oneshotTime := time }
    refine ⟨last, lastTime, ?_, fun bit set => firstLess bit (lastLess bit set), ?_⟩
    · exact second
    · intro bit set
      simp only [BitVec.getLsbD_or, Bool.or_eq_true] at set
      rcases set with (real | weak) | oneshot
      · exact .inl real
      · exact .inr (.inl weak)
      · exact .inr (.inr (firstLess bit oneshot))
  · refine ⟨_, _, rfl, fun _ => id, ?_⟩
    intro bit set
    simp only [BitVec.getLsbD_or, Bool.or_eq_true] at set
    exact set.imp id .inl

theorem sendKeyboardReport_spec (cfg : Config) (s : State keyboard) :
    ∃ left time mods, (∀ bit, left.getLsbD bit = true → s.oneshotMods.getLsbD bit = true) ∧
      (∀ bit, mods.getLsbD bit = true →
        s.realMods.getLsbD bit = true ∨ s.weakMods.getLsbD bit = true ∨ s.oneshotMods.getLsbD bit = true) ∧
      sendKeyboardReport cfg s =
        { s with
          oneshotMods := left
          oneshotTime := time
          report := { s.report with mods := mods }
          lastReport := { s.report with mods := mods }
          calls := s.calls ++
            if { s.report with mods := mods } ≠ s.lastReport then [.hostKeyboardSend { s.report with mods := mods }] else [] } := by
  obtain ⟨left, time, same, less, backed⟩ := getModsForReport_spec cfg s
  refine ⟨left, time, (getModsForReport cfg s).1, less, backed, ?_⟩
  unfold sendKeyboardReport
  dsimp only
  rw [same]
  split
  · rfl
  · next equal =>
    rw [Decidable.not_not.mp equal]
    simp

/-- What has to be sent directly. -/
def Output.IsDirect : Output → Prop
  | .system _ | .consumer _ | .mouse _ => True
  | .key _ | .mod _ | .weak _ | .oneshot _ | .layer _ => False

/-- After a report the host has what the state has, also if the report has not changed. -/
theorem sendKeyboardReport_host (synced : Synced s) :
    host (sendKeyboardReport cfg s) =
      { host s with
        mods := (sendKeyboardReport cfg s).report.mods
        pressed := fun code => isKeyPressed code s.report.keys } := by
  obtain ⟨left, time, mods, -, -, same⟩ := sendKeyboardReport_spec cfg s
  rw [same, host]
  dsimp only
  split
  · exact List.foldl_append
  · next equal =>
    rw [List.append_nil]
    have old := Decidable.not_not.mp equal
    have pressed : (host s).pressed = fun code => isKeyPressed code s.report.keys := by
      funext code
      rw [synced.pressed, ← old]
    have oldMods : (host s).mods = mods := by rw [synced.mods, ← old]
    rw [← pressed, ← oldMods]
    rfl

theorem sendKeyboardReport_synced (synced : Synced s) : Synced (sendKeyboardReport cfg s) := by
  have sent := @sendKeyboardReport_host _ cfg s synced
  obtain ⟨left, time, mods, -, -, same⟩ := sendKeyboardReport_spec cfg s
  constructor
  · rw [sent, same]
  · rw [sent, same]
    intro code
    rfl

/-- A report tells the host what the state has, whatever it has been told before. -/
theorem sendKeyboardReport_backed (inside : Inside outputs s) (told : Told more (host s)) (synced : Synced s)
    (direct : ∀ output ∈ more, output.IsDirect → output ∈ outputs) : Backed outputs (sendKeyboardReport cfg s) := by
  obtain ⟨left, time, mods, less, backed, same⟩ := sendKeyboardReport_spec cfg s
  have sent := @sendKeyboardReport_host _ cfg s synced
  constructor
  · rw [same]
    exact ⟨inside.keys, inside.realMods, inside.weakMods, fun bit set => inside.oneshotMods bit (less bit set), inside.layers⟩
  · rw [sent, same]
    refine ⟨inside.keys, fun bit set => ?_⟩
    exact (backed bit set).imp (inside.realMods bit) (Or.imp (inside.weakMods bit) (inside.oneshotMods bit))
  · rw [sent]
    refine ⟨fun nonzero => ?_, fun nonzero => ?_, fun code on => ?_⟩
    · exact direct _ (told.system nonzero) trivial
    · exact direct _ (told.consumer nonzero) trivial
    · exact direct _ (told.mouse code on) trivial
  · exact sendKeyboardReport_synced synced

end Backed

end QmkFirmware.Action
