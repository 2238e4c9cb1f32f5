import QmkFirmware.Action.Contributions
import QmkFirmware.ActionLayer.SourceLayers
import QmkFirmware.Foundations.Runs

/-! # Held keys

In a run in which the keys go down and up in turn, whatever the host has been told, and every layer that is on, is there
for a key that is down, or has been left behind by a key that toggles or is a one-shot key.
-/

namespace QmkFirmware.Action

open QmkFirmware.ActionLayer QmkFirmware.Runs

variable {cfg : Config} {keyboard : ActionLayer.Keyboard}

/-! ## What actions leave alone -/

/-- Actions do not change the layers that the keys have been pressed on, and few change the one-shot layer. -/
def kept (s : State keyboard) : Caches × BitVec 8 := (s.caches, s.oneshotLayerData)

section Kept

variable {s : State cfg.keyboard} {action : ActionCode}

theorem kept_ite (c : Prop) [Decidable c] {first second : State cfg.keyboard} (one : kept first = kept s)
    (other : kept second = kept s) : kept (if c then first else second) = kept s := by
  split
  · exact one
  · exact other

theorem sendKeyboardReport_kept : kept (sendKeyboardReport cfg s) = kept s := by
  obtain ⟨left, time, mods, -, -, same⟩ := sendKeyboardReport_spec cfg s
  rw [same]
  rfl

theorem registerMods_kept (mods : BitVec 8) : kept (registerMods cfg mods s) = kept s :=
  kept_ite _ sendKeyboardReport_kept rfl

theorem unregisterMods_kept (mods : BitVec 8) : kept (unregisterMods cfg mods s) = kept s :=
  kept_ite _ sendKeyboardReport_kept rfl

theorem registerCode_kept (code : Keycode) : kept (registerCode cfg code s) = kept s := by
  unfold registerCode
  refine kept_ite _ rfl (kept_ite _ ?_ (kept_ite _ sendKeyboardReport_kept ?_))
  · rw [sendKeyboardReport_kept]
    exact kept_ite _ sendKeyboardReport_kept rfl
  · exact kept_ite _ rfl (kept_ite _ rfl (kept_ite _ rfl rfl))

theorem unregisterCode_kept (code : Keycode) : kept (unregisterCode cfg code s) = kept s := by
  unfold unregisterCode
  refine kept_ite _ rfl (kept_ite _ sendKeyboardReport_kept (kept_ite _ sendKeyboardReport_kept ?_))
  exact kept_ite _ rfl (kept_ite _ rfl (kept_ite _ rfl rfl))

theorem processMods_kept (pressed : Bool) : kept (processMods cfg action pressed s) = kept s := by
  unfold processMods
  apply kept_ite
  · rw [registerCode_kept]
    refine kept_ite _ ?_ rfl
    rw [sendKeyboardReport_kept]
    exact kept_ite _ rfl rfl
  · refine kept_ite _ ?_ (unregisterCode_kept _)
    rw [sendKeyboardReport_kept]
    exact kept_ite _ (unregisterCode_kept _) (unregisterCode_kept _)

theorem delOneshot_kept (mods : BitVec 8) (t : State cfg.keyboard) :
    kept (delOneshotLockedMods mods (delOneshotMods mods t)) = kept t := by
  have del : kept (delOneshotMods mods t) = kept t := kept_ite _ rfl rfl
  unfold delOneshotLockedMods
  exact kept_ite _ del del

theorem processOneshotMods_kept (mods : BitVec 8) (pressed : Bool) (tapCount : Nat) :
    kept (processOneshotMods cfg mods pressed tapCount s) = kept s := by
  unfold processOneshotMods
  refine kept_ite _ (kept_ite _ (registerMods_kept _) (kept_ite _ (kept_ite _ rfl rfl) (kept_ite _ ?_ rfl))) (kept_ite _ ?_ rfl)
  · have del : kept (delOneshotMods mods (registerMods cfg mods s)) = kept s := by
      refine Eq.trans ?_ (registerMods_kept mods)
      exact kept_ite _ rfl rfl
    unfold addOneshotLockedMods
    exact kept_ite _ del del
  · rw [delOneshot_kept, unregisterMods_kept]

theorem processModsTap_kept (pressed : Bool) (tapCount : Nat) : kept (processModsTap cfg action pressed tapCount s) = kept s := by
  unfold processModsTap processModsTapToggle
  refine kept_ite _ (kept_ite _ (processOneshotMods_kept _ _ _) (processMods_kept _)) (kept_ite _ ?_ (kept_ite _ ?_ ?_))
  · exact kept_ite _ (kept_ite _ (registerMods_kept _) rfl) (kept_ite _ (unregisterMods_kept _) rfl)
  · exact kept_ite _ (registerCode_kept _) (unregisterCode_kept _)
  · exact kept_ite _ (registerMods_kept _) (unregisterMods_kept _)

theorem processUsage_kept (pressed : Bool) : kept (processUsage action pressed s) = kept s :=
  kept_ite _ rfl (kept_ite _ rfl rfl)

theorem processLayer_kept (pressed : Bool) : kept (processLayer action pressed s) = kept s :=
  kept_ite _ (kept_ite _ rfl rfl) (kept_ite _ rfl rfl)

theorem processLayerMods_kept (pressed : Bool) : kept (processLayerMods cfg action pressed s) = kept s :=
  kept_ite _ (registerMods_kept _) (unregisterMods_kept _)

theorem processSwapHands_kept (pressed : Bool) (tapCount : Nat) :
    kept (processSwapHands cfg action pressed tapCount s) = kept s := by
  have undo : kept (undoSwapHeld s) = kept s := kept_ite _ rfl rfl
  have released : kept (releaseOneshotSwaphands s) = kept s := by
    unfold releaseOneshotSwaphands
    split <;> rfl
  unfold processSwapHands
  refine kept_ite _ (kept_ite _ rfl rfl) (kept_ite _ rfl (kept_ite _ rfl (kept_ite _ (kept_ite _ rfl rfl) ?_)))
  refine kept_ite _ (kept_ite _ rfl rfl) (kept_ite _ (kept_ite _ rfl released) (kept_ite _ ?_ (kept_ite _ ?_ ?_)))
  · exact kept_ite _ (kept_ite _ rfl rfl) (kept_ite _ rfl rfl)
  · exact kept_ite _ ((registerCode_kept _).trans undo) ((unregisterCode_kept _).trans undo)
  · exact kept_ite _ rfl undo

/-- A one-shot layer key, where one-shot keys are enabled. -/
def IsOneshotLayer (cfg : Config) (action : ActionCode) : Prop :=
  (kindId action = .layerTap ∨ kindId action = .layerTapExt) ∧ keyCode action = opOneshot ∧ cfg.oneshotEnable = true

theorem processLayerTap_kept (kind : kindId action = .layerTap ∨ kindId action = .layerTapExt)
    (other : ¬IsOneshotLayer cfg action) (pressed : Bool) (tapCount : Nat) :
    kept (processLayerTap cfg action pressed tapCount s) = kept s := by
  unfold processLayerTap
  refine kept_ite _ (kept_ite _ rfl rfl) (kept_ite _ (kept_ite _ rfl rfl) (kept_ite _ (kept_ite _ rfl rfl) ?_))
  refine kept_ite _ (kept_ite _ rfl rfl) ?_
  by_cases oneshot : keyCode action = opOneshot
  · have disabled : ¬cfg.oneshotEnable = true := fun enabled => other ⟨kind, oneshot, enabled⟩
    rw [if_pos oneshot, if_neg disabled]
    exact kept_ite _ rfl rfl
  · rw [if_neg oneshot]
    exact kept_ite _ (kept_ite _ (registerCode_kept _) (unregisterCode_kept _)) (kept_ite _ rfl rfl)

theorem useOneshotSwaphands_kept (t : State cfg.keyboard) : kept (useOneshotSwaphands t) = kept t := by
  unfold useOneshotSwaphands
  split <;> rfl

theorem processKind_kept (other : ¬IsOneshotLayer cfg action) (pressed : Bool) (tapCount : Nat) :
    kept (processKind cfg action pressed tapCount s) = kept s := by
  unfold processKind
  cases kind : kindId action with
  | lmods | rmods => exact processMods_kept pressed
  | lmodsTap | rmodsTap => exact processModsTap_kept pressed tapCount
  | usage => exact processUsage_kept pressed
  | mousekey | unknown => rfl
  | layer => exact processLayer_kept pressed
  | layerMods => exact processLayerMods_kept pressed
  | layerTap => exact processLayerTap_kept (.inl kind) other pressed tapCount
  | layerTapExt => exact processLayerTap_kept (.inr kind) other pressed tapCount
  | swapHands => exact kept_ite _ (processSwapHands_kept pressed tapCount) rfl

theorem processActionKind_kept (other : ¬IsOneshotLayer cfg action) (pressed : Bool) (tapCount : Nat) :
    kept (processActionKind cfg action pressed tapCount s) = kept s := by
  have main : kept (processKind cfg action pressed tapCount s) = kept s := processKind_kept other pressed tapCount
  exact kept_ite _ ((useOneshotSwaphands_kept _).trans main) main

theorem clearOneshotLayerState_caches (state : BitVec 8) : (clearOneshotLayerState cfg state s).caches = s.caches := by
  unfold clearOneshotLayerState
  dsimp only
  split
  · rfl
  · rfl

theorem setOneshotLayer_caches (layer : Nat) (state : BitVec 8) (t : State cfg.keyboard) :
    (setOneshotLayer cfg layer state t).caches = t.caches := by
  unfold setOneshotLayer
  split
  · rfl
  · rfl

theorem processOneshotLayer_caches (layer : Nat) (pressed : Bool) (tapCount : Nat) :
    (processOneshotLayer cfg layer pressed tapCount s).caches = s.caches := by
  unfold processOneshotLayer
  split
  · split
    · split
      · rfl
      · split
        · exact setOneshotLayer_caches _ _ _
        · rfl
    · split
      · exact setOneshotLayer_caches _ _ _
      · exact clearOneshotLayerState_caches _
  · split
    · exact setOneshotLayer_caches _ _ _
    · dsimp only
      split
      · exact (clearOneshotLayerState_caches _).trans (clearOneshotLayerState_caches _)
      · exact clearOneshotLayerState_caches _

/-- What a one-shot layer key comes down to. -/
theorem processActionKind_oneshotLayer (oneshot : IsOneshotLayer cfg action) (pressed : Bool) (tapCount : Nat) :
    kept (processActionKind cfg action pressed tapCount s) =
      kept (processOneshotLayer cfg (layerTapVal action) pressed tapCount s) := by
  obtain ⟨kind, code, enabled⟩ := oneshot
  have tap : processKind cfg action pressed tapCount s = processOneshotLayer cfg (layerTapVal action) pressed tapCount s := by
    have layerTap : processKind cfg action pressed tapCount s = processLayerTap cfg action pressed tapCount s := by
      unfold processKind
      rcases kind with kind | kind
      · rw [kind]
      · rw [kind]
    rw [layerTap, processLayerTap, code, if_neg (by decide), if_neg (by decide), if_neg (by decide), if_neg (by decide), if_pos rfl, if_pos enabled]
  unfold processActionKind
  rw [tap]
  exact kept_ite _ (useOneshotSwaphands_kept _) rfl

theorem processActionKind_caches (pressed : Bool) (tapCount : Nat) :
    (processActionKind cfg action pressed tapCount s).caches = s.caches := by
  by_cases oneshot : IsOneshotLayer cfg action
  · have same := congrArg Prod.fst (processActionKind_oneshotLayer (s := s) oneshot pressed tapCount)
    exact same.trans (processOneshotLayer_caches _ _ _)
  · exact congrArg Prod.fst (processActionKind_kept (s := s) oneshot pressed tapCount)

/-- The press of a one-shot layer key starts the layer. -/
theorem processOneshotLayer_starts (few : ¬1 < cfg.oneshotTapToggle) (enabled : cfg.oneshotEnable = true) (layer tapCount : Nat) :
    getOneshotLayerState (processOneshotLayer cfg layer true tapCount s) &&& oneshotPressed ≠ 0 := by
  unfold processOneshotLayer setOneshotLayer
  rw [if_neg few, if_pos rfl, if_pos enabled]
  intro zero
  have bit := congrArg (BitVec.getLsbD · 0) zero
  simp [getOneshotLayerState, layerOn, layerStateSet, oneshotPressed, oneshotStart] at bit

end Kept

/-! ## Records -/

section Records

variable {s : State cfg.keyboard} {outputs : Set Output} {record : Record}

/-- The action that the release of a key stands for. -/
def releaseAction (s : State cfg.keyboard) (key : KeyPos) : ActionCode :=
  cfg.actionForKey (readSourceLayersCache cfg.keyboard key s.caches).toNat key

theorem releaseAction_congr {t : State cfg.keyboard} (same : t.caches = s.caches) (key : KeyPos) :
    releaseAction t key = releaseAction s key := by
  rw [releaseAction, same, releaseAction]

theorem storeOrGet_release (released : record.pressed = false) : storeOrGet record s = (releaseAction s record.key, s) := by
  unfold storeOrGet storeOrGetAction sourceLayer
  rw [released]
  rfl

theorem processRelease_backed (accepted : Bool) (backed : Backed outputs s) :
    Backed (outputs ∪ lastingOutputs cfg (releaseAction s record.key)) (processRelease record accepted s) := by
  unfold processRelease
  rw [storeOrGet_release rfl]
  split
  · exact (processActionKind_release_backed _ backed).mono (Set.union_subset_union_left _ Set.sdiff_subset)
  · exact backed.mono Set.subset_union_left

theorem processRelease_kept (accepted : Bool) (other : ¬IsOneshotLayer cfg (releaseAction s record.key)) :
    kept (processRelease record accepted s) = kept s := by
  unfold processRelease
  rw [storeOrGet_release rfl]
  exact kept_ite _ (processActionKind_kept other _ _) rfl

theorem processRelease_caches (accepted : Bool) : (processRelease record accepted s).caches = s.caches := by
  unfold processRelease
  rw [storeOrGet_release rfl]
  split
  · exact processActionKind_caches _ _
  · rfl

/-- A one-shot layer that has been used up is layer 0. -/
theorem clearOneshotLayerState_data (state : BitVec 8) (active : isOneshotLayerActive s = true) (enabled : cfg.oneshotEnable = true)
    (inactive : isOneshotLayerActive (clearOneshotLayerState cfg state s) = false) :
    (clearOneshotLayerState cfg state s).oneshotLayerData = 0 := by
  unfold clearOneshotLayerState at inactive ⊢
  dsimp only at inactive ⊢
  split
  · rfl
  · next unused =>
    rw [if_neg unused] at inactive
    -- the state of the layer has changed, or it would still be active
    refine absurd ⟨⟨inactive, fun same => ?_⟩, enabled⟩ unused
    rw [isOneshotLayerActive, getOneshotLayerState, ← same] at inactive
    rw [isOneshotLayerActive, getOneshotLayerState, inactive] at active
    cases active

theorem processAction_release (released : record.pressed = false) (action : ActionCode) :
    processAction record action s = processActionKind cfg action false record.tapCount s := by
  have unused : usesOneshotLayer cfg record action s = false := by simp [usesOneshotLayer, released]
  unfold processAction
  rw [unused, released]
  simp

/-- The press of a key, also one that ends a one-shot layer. -/
theorem processAction_press_backed (pressed : record.pressed = true) (backed : Backed outputs s) :
    Backed (outputs ∪ (heldOutputs cfg (releaseAction s record.key) record.tapCount ∪
      lastingOutputs cfg (releaseAction s record.key))) (processAction record (releaseAction s record.key) s) := by
  generalize found : releaseAction s record.key = action
  unfold processAction
  dsimp only
  rw [pressed]
  generalize started : (if usesOneshotLayer cfg record action s = true then
    clearOneshotLayerState cfg oneshotOtherKeyPressed s else s) = start
  have startBacked : Backed outputs start := by
    rw [← started]
    split
    · exact clearOneshotLayerState_backed _ backed
    · exact backed
  have startCaches : start.caches = s.caches := by
    rw [← started]
    split
    · exact clearOneshotLayerState_caches _
    · rfl
  generalize ended : processActionKind cfg action true record.tapCount start = last
  have done : Backed (outputs ∪ (heldOutputs cfg action record.tapCount ∪ lastingOutputs cfg action)) last := by
    rw [← ended]
    exact processActionKind_press_backed record.tapCount startBacked
  split
  · next again =>
    obtain ⟨⟨uses, inactive, untapped⟩, unpressed⟩ := again
    obtain ⟨active, -, -, -, enabled⟩ := of_decide_eq_true uses
    rw [if_pos uses] at started
    have startData : start.oneshotLayerData = 0 := by
      rw [← started] at inactive ⊢
      exact clearOneshotLayerState_data _ active enabled (Bool.eq_false_iff.mpr inactive)
    have plain : ¬IsOneshotLayer cfg action := by
      intro oneshot
      have few : ¬1 < cfg.oneshotTapToggle := fun many => untapped (decide_eq_true ⟨oneshot.1, oneshot.2.1, enabled, many⟩)
      have same := congrArg Prod.snd (processActionKind_oneshotLayer (s := start) oneshot true record.tapCount)
      refine processOneshotLayer_starts (s := start) few enabled (layerTapVal action) record.tapCount ?_
      have data : last.oneshotLayerData =
          (processOneshotLayer cfg (layerTapVal action) true record.tapCount start).oneshotLayerData := by
        rw [← ended]
        exact same
      rw [getOneshotLayerState, ← data]
      exact unpressed
    have lastKept : kept last = kept start := by
      rw [← ended]
      exact processActionKind_kept plain true record.tapCount
    have lastLayer : getOneshotLayer last = 0 := by
      rw [getOneshotLayer, show last.oneshotLayerData = start.oneshotLayerData from congrArg Prod.snd lastKept, startData]
      rfl
    rw [lastLayer]
    have onAction : releaseAction (layerOn 0 last) record.key = action := by
      rw [← found]
      exact releaseAction_congr ((congrArg Prod.fst lastKept).trans startCaches) _
    have released := @processRelease_backed _ _ _ record record.releaseAccepted (layerOn_backed 0 done)
    have releasedKept : kept (processRelease record record.releaseAccepted (layerOn 0 last)) = kept (layerOn 0 last) :=
      processRelease_kept _ (by rwa [onAction])
    have releasedLayer : getOneshotLayer (processRelease record record.releaseAccepted (layerOn 0 last)) = 0 := by
      have data : (processRelease record record.releaseAccepted (layerOn 0 last)).oneshotLayerData = last.oneshotLayerData :=
        congrArg Prod.snd releasedKept
      rw [getOneshotLayer, data]
      exact lastLayer
    rw [releasedLayer]
    rw [onAction] at released
    refine (layerOff_backed 0 released).mono ?_
    rintro output ⟨(known | zero) | lasting, apart⟩
    · exact known
    · exact absurd zero apart
    · exact .inr (.inr lasting)
  · exact done

theorem processAction_caches (action : ActionCode) : (processAction record action s).caches = s.caches := by
  unfold processAction
  dsimp only
  generalize started : (if usesOneshotLayer cfg record action s = true then
    clearOneshotLayerState cfg oneshotOtherKeyPressed s else s) = start
  have startCaches : start.caches = s.caches := by
    rw [← started]
    split
    · exact clearOneshotLayerState_caches _
    · rfl
  have done : (processActionKind cfg action record.pressed record.tapCount start).caches = s.caches :=
    (processActionKind_caches record.pressed record.tapCount).trans startCaches
  split
  · exact (processRelease_caches _).trans done
  · exact done

/-- The press of a key resolves its action anew, and leaves the actions of all other keys alone. -/
theorem storeOrGet_press (pressed : record.pressed = true) (inside : cfg.keyboard.InMatrix record.key) :
    (storeOrGet record s).1 = releaseAction (storeOrGet record s).2 record.key ∧
      ∀ other, other ≠ record.key → releaseAction (storeOrGet record s).2 other = releaseAction s other := by
  unfold storeOrGet storeOrGetAction sourceLayer
  rw [pressed]
  dsimp only
  simp only [Bool.false_eq_true, if_false, if_true]
  have small := layerSwitchGetLayer_lt cfg.keyboard cfg.actionForKey s.layers record.key
  have byte : layerSwitchGetLayer cfg.keyboard cfg.actionForKey s.layers record.key < 2 ^ 8 :=
    Nat.lt_of_lt_of_le small (Nat.pow_le_pow_right (by decide) cfg.keyboard.narrow)
  have value : (BitVec.ofNat 8 (layerSwitchGetLayer cfg.keyboard cfg.actionForKey s.layers record.key)).toNat =
      layerSwitchGetLayer cfg.keyboard cfg.actionForKey s.layers record.key := by
    rw [BitVec.toNat_ofNat, Nat.mod_eq_of_lt byte]
  constructor
  · rw [releaseAction]
    dsimp only
    rw [read_update_same (.inl inside) (by rwa [value]), value]
  · intro other apart
    rw [releaseAction]
    dsimp only
    rw [read_update_other apart fun opposite => opposite.1 inside, releaseAction]

theorem storeOrGet_visible : visible (storeOrGet record s).2 = visible s := rfl

/-- A press that is not accepted can only end a one-shot layer. -/
theorem processRecord_rejected (rejected : record.accepted = false) (backed : Backed outputs s) :
    Backed outputs (processRecord record s) ∧ (processRecord record s).caches = s.caches := by
  unfold processRecord
  rw [rejected, if_neg Bool.false_ne_true]
  split
  · exact ⟨clearOneshotLayerState_backed _ backed, clearOneshotLayerState_caches _⟩
  · exact ⟨backed, rfl⟩

theorem processRecord_press (pressed : record.pressed = true) (accepted : record.accepted = true)
    (inside : cfg.keyboard.InMatrix record.key) (backed : Backed outputs s) :
    Backed (outputs ∪ (heldOutputs cfg (releaseAction (processRecord record s) record.key) record.tapCount ∪
      lastingOutputs cfg (releaseAction (processRecord record s) record.key))) (processRecord record s) ∧
      releaseAction (processRecord record s) record.key = (storeOrGet record s).1 ∧
      ∀ other, other ≠ record.key → releaseAction (processRecord record s) other = releaseAction s other := by
  obtain ⟨own, others⟩ := storeOrGet_press (s := s) pressed inside
  have same : processRecord record s = processAction record (releaseAction (storeOrGet record s).2 record.key)
      (storeOrGet record s).2 := by
    rw [← own]
    exact if_pos accepted
  rw [same]
  have caches := @processAction_caches _ (storeOrGet record s).2 record (releaseAction (storeOrGet record s).2 record.key)
  refine ⟨?_, (releaseAction_congr caches record.key).trans own.symm,
    fun other apart => (releaseAction_congr caches other).trans (others other apart)⟩
  rw [releaseAction_congr caches]
  exact processAction_press_backed pressed (backed.congr storeOrGet_visible)

theorem processRecord_release (released : record.pressed = false) (accepted : record.accepted = true)
    (backed : Backed outputs s) :
    Backed (outputs \ heldOutputs cfg (releaseAction s record.key) record.tapCount ∪
      lastingOutputs cfg (releaseAction s record.key)) (processRecord record s) ∧
      (processRecord record s).caches = s.caches := by
  have same : processRecord record s = processActionKind cfg (releaseAction s record.key) false record.tapCount s := by
    unfold processRecord
    rw [if_pos accepted, storeOrGet_release released]
    exact processAction_release released _
  rw [same]
  exact ⟨processActionKind_release_backed _ backed, processActionKind_caches _ _⟩

theorem actionExec_backed (pressed : Bool) (backed : Backed outputs s) :
    Backed outputs (actionExec pressed s) ∧ (actionExec pressed s).caches = s.caches := by
  unfold actionExec
  dsimp only
  generalize started : (if pressed = true then clearWeakMods s else s) = start
  have startKept : Backed outputs start ∧ start.caches = s.caches := by
    rw [← started]
    split
    · obtain ⟨⟨keys, realMods, -, oneshotMods, layers⟩, shown, told, synced⟩ := backed
      exact ⟨⟨⟨keys, realMods, by simp [clearWeakMods], oneshotMods, layers⟩, shown, told, ⟨synced.mods, synced.pressed⟩⟩, rfl⟩
    · exact ⟨backed, rfl⟩
  split
  · generalize layered : (if hasOneshotLayerTimedOut cfg start = true then
      clearOneshotLayerState cfg oneshotOtherKeyPressed start else start) = layer
    have layerKept : Backed outputs layer ∧ layer.caches = s.caches := by
      rw [← layered]
      split
      · exact ⟨clearOneshotLayerState_backed _ startKept.1, (clearOneshotLayerState_caches _).trans startKept.2⟩
      · exact startKept
    have modsKept : Backed outputs (clearOneshotMods layer) ∧ (clearOneshotMods layer).caches = s.caches := by
      refine ⟨clearOneshotMods_backed layerKept.1, Eq.trans ?_ layerKept.2⟩
      unfold clearOneshotMods
      split
      · rfl
      · rfl
    split
    · split
      · exact ⟨clearOneshotSwaphands_backed modsKept.1, modsKept.2⟩
      · exact modsKept
    · split
      · exact ⟨clearOneshotSwaphands_backed layerKept.1, layerKept.2⟩
      · exact layerKept
  · exact startKept

theorem clearKeys_inside (inside : Inside outputs s) : Inside outputs (clearKeys s) := by
  refine ⟨fun code pressed => ?_, inside.realMods, inside.weakMods, inside.oneshotMods, inside.layers⟩
  rw [show (clearKeys s).report.keys = clearKeysFromReport s.report.keys from rfl, isKeyPressed_clearKeys] at pressed
  cases pressed

theorem clearKeyboard_backed (backed : Backed outputs s) :
    Backed outputs (clearKeyboard cfg s) ∧ (clearKeyboard cfg s).caches = s.caches := by
  have system : Backed outputs (s.call (.hostSystemSend 0)) := (hostSystemSend_zero_backed 0 backed).mono Set.sdiff_subset
  have consumer : Backed outputs ((s.call (.hostSystemSend 0)).call (.hostConsumerSend 0)) :=
    (hostConsumerSend_zero_backed 0 system).mono Set.sdiff_subset
  have cleared : Inside outputs (clearWeakMods (clearKeys (clearMods ((s.call (.hostSystemSend 0)).call (.hostConsumerSend 0))))) := by
    obtain ⟨keys, -, -, oneshotMods, layers⟩ := clearKeys_inside consumer.inside
    exact ⟨keys, by simp [clearWeakMods, clearKeys, clearMods], by simp [clearWeakMods], oneshotMods, layers⟩
  have sent : Backed outputs (sendKeyboardReport cfg
      (clearWeakMods (clearKeys (clearMods ((s.call (.hostSystemSend 0)).call (.hostConsumerSend 0)))))) :=
    consumer.send rfl rfl cleared fun _ member _ => member
  constructor
  · exact sent.tell _ rfl rfl ⟨sent.told.system, sent.told.consumer, fun _ on => absurd on Bool.false_ne_true⟩
      fun _ member _ => member
  · exact congrArg Prod.fst (@sendKeyboardReport_kept cfg _)

end Records

/-! ## Runs -/

section Runs

variable {ops : List (BitVec 16 × Op)} {op : BitVec 16 × Op} {keys : Keys}

def downStep (presses : KeyPos → Option Record) (op : BitVec 16 × Op) : KeyPos → Option Record :=
  match op.2 with
  | .record record => Function.update presses record.key (if record.pressed then some record else none)
  | .exec _ | .tapHint _ | .clearKeyboard => presses

/-- The press of each key that is down. -/
def down (ops : List (BitVec 16 × Op)) : KeyPos → Option Record := ops.foldl downStep fun _ => none

/-- A key of the matrix goes down if it is up, and comes up with the tap count of its press.  Whatever has been accepted
as a press is accepted as a release. -/
def Paired (cfg : Config) (before : List (BitVec 16 × Op)) (op : BitVec 16 × Op) : Prop :=
  ∀ record, op.2 = .record record → cfg.keyboard.InMatrix record.key ∧
    if record.pressed then down before record.key = none
    else ∃ press, down before record.key = some press ∧ press.tapCount = record.tapCount ∧
      (press.accepted = true → record.accepted = true)

/-- The outputs of the keys that are down. -/
def Holds (ops : List (BitVec 16 × Op)) (s : State cfg.keyboard) (output : Output) : Prop :=
  ∃ key press, down ops key = some press ∧ press.accepted = true ∧
    output ∈ heldOutputs cfg (releaseAction s key) press.tapCount

/-- The outputs that accepted records may have left behind, by the actions that they have been resolved to. -/
def Left (cfg : Config) (keys : Keys) (ops : List (BitVec 16 × Op)) (output : Output) : Prop :=
  ∃ before now record, before ++ [(now, .record record)] <+: ops ∧ record.accepted = true ∧
    output ∈ lastingOutputs cfg (storeOrGet record (run cfg keys before)).1

def explained (keys : Keys) (ops : List (BitVec 16 × Op)) (s : State cfg.keyboard) : Set Output :=
  { output | Holds ops s output ∨ Left cfg keys ops output }

theorem down_concat : down (ops ++ [op]) = downStep (down ops) op := List.foldl_append

theorem down_of_other (other : ∀ record, op.2 ≠ .record record) : down (ops ++ [op]) = down ops := by
  rw [down_concat]
  obtain ⟨now, op⟩ := op
  cases op with
  | record record => exact absurd rfl (other record)
  | exec _ | tapHint _ | clearKeyboard => rfl

theorem down_record (now : BitVec 16) (record : Record) (key : KeyPos) :
    down (ops ++ [(now, .record record)]) key =
      if key = record.key then if record.pressed then some record else none else down ops key := by
  rw [down_concat]
  exact Function.update_apply _ _ _ _

theorem Left.concat {output : Output} (left : Left cfg keys ops output) : Left cfg keys (ops ++ [op]) output := by
  obtain ⟨before, now, record, earlier, rest⟩ := left
  exact ⟨before, now, record, earlier.trans (List.prefix_append ops [op]), rest⟩

theorem left_of_record {record : Record} {now : BitVec 16} {output : Output} (accepted : record.accepted = true)
    (lasting : output ∈ lastingOutputs cfg (storeOrGet record (run cfg keys ops)).1) :
    Left cfg keys (ops ++ [(now, .record record)]) output :=
  ⟨ops, now, record, List.prefix_rfl, accepted, lasting⟩

/-- An operation that is no record of a key leaves every key as it is. -/
theorem explained_subset {s t : State cfg.keyboard} (other : ∀ record, op.2 ≠ .record record) (caches : t.caches = s.caches) :
    explained keys ops s ⊆ explained keys (ops ++ [op]) t := by
  rintro output (⟨key, press, pressed, accepted, held⟩ | left)
  · refine .inl ⟨key, press, ?_, accepted, by rwa [releaseAction_congr caches]⟩
    rwa [down_of_other other]
  · exact .inr left.concat

/-- A press explains what it adds. -/
theorem explained_of_press {s t : State cfg.keyboard} {now : BitVec 16} {record : Record} (pressed : record.pressed = true)
    (accepted : record.accepted = true) (up : down ops record.key = none)
    (own : releaseAction t record.key = (storeOrGet record (run cfg keys ops)).1)
    (others : ∀ other, other ≠ record.key → releaseAction t other = releaseAction s other) :
    explained keys ops s ∪ (heldOutputs cfg (releaseAction t record.key) record.tapCount ∪
      lastingOutputs cfg (releaseAction t record.key)) ⊆ explained keys (ops ++ [(now, .record record)]) t := by
  rintro output ((⟨key, press, found, earlier, held⟩ | left) | held | lasting)
  · have apart : key ≠ record.key := by
      rintro rfl
      rw [up] at found
      cases found
    exact .inl ⟨key, press, by rwa [down_record, if_neg apart], earlier, by rwa [others key apart]⟩
  · exact .inr left.concat
  · exact .inl ⟨record.key, record, by rw [down_record, if_pos rfl, if_pos pressed], accepted, held⟩
  · exact .inr (left_of_record accepted (own ▸ lasting))

/-- A release takes away all that its press explains. -/
theorem explained_of_release {s t : State cfg.keyboard} {now : BitVec 16} {record press : Record}
    (found : down ops record.key = some press) (count : press.tapCount = record.tapCount)
    (accepted : record.accepted = true) (own : releaseAction s record.key = (storeOrGet record (run cfg keys ops)).1)
    (caches : t.caches = s.caches) :
    explained keys ops s \ heldOutputs cfg (releaseAction s record.key) record.tapCount ∪
      lastingOutputs cfg (releaseAction s record.key) ⊆ explained keys (ops ++ [(now, .record record)]) t := by
  rintro output (⟨⟨key, other, known, earlier, held⟩ | left, apart⟩ | lasting)
  · have elsewhere : key ≠ record.key := by
      rintro rfl
      rw [found] at known
      cases known
      exact apart (count ▸ held)
    refine .inl ⟨key, other, by rwa [down_record, if_neg elsewhere], earlier, by rwa [releaseAction_congr caches]⟩
  · exact .inr left.concat
  · exact .inr (left_of_record accepted (own ▸ lasting))

/-- Keys whose press has been rejected explain nothing. -/
theorem explained_of_rejected {s t : State cfg.keyboard} {now : BitVec 16} {record : Record}
    (rejected : record.accepted = false) (paired : Paired cfg ops (now, .record record)) (caches : t.caches = s.caches) :
    explained keys ops s ⊆ explained keys (ops ++ [(now, .record record)]) t := by
  rintro output (⟨key, press, found, earlier, held⟩ | left)
  · have apart : key ≠ record.key := by
      rintro rfl
      have known := (paired record rfl).2
      split at known
      · rw [known] at found
        cases found
      · obtain ⟨other, same, -, accepts⟩ := known
        rw [found] at same
        cases same
        rw [accepts earlier] at rejected
        cases rejected
    exact .inl ⟨key, press, by rwa [down_record, if_neg apart], earlier, by rwa [releaseAction_congr caches]⟩
  · exact .inr left.concat

theorem step_backed {s : State cfg.keyboard} (reached : s = run cfg keys ops) (paired : Paired cfg ops op)
    (backed : Backed (explained keys ops s) s) : Backed (explained keys (ops ++ [op]) (step s op)) (step s op) := by
  obtain ⟨now, op⟩ := op
  have timed : Backed (explained keys ops s) { s with timer := now } := backed.congr rfl
  cases op with
  | exec pressed =>
    obtain ⟨kept, caches⟩ := actionExec_backed pressed timed
    exact kept.mono (explained_subset (by simp) caches)
  | tapHint key =>
    have visible : visible (processRecordTapHint key { s with timer := now }) = visible s := by
      unfold processRecordTapHint
      dsimp only
      split
      · rfl
      · rfl
    have caches : (processRecordTapHint key { s with timer := now }).caches = s.caches := by
      unfold processRecordTapHint
      dsimp only
      split
      · rfl
      · rfl
    exact (backed.congr visible).mono (explained_subset (by simp) caches)
  | clearKeyboard =>
    obtain ⟨kept, caches⟩ := clearKeyboard_backed timed
    exact kept.mono (explained_subset (by simp) caches)
  | record record =>
    have known := paired record rfl
    cases accepted : record.accepted with
    | false =>
      obtain ⟨kept, caches⟩ := processRecord_rejected accepted timed
      exact kept.mono (explained_of_rejected accepted paired caches)
    | true =>
      cases pressed : record.pressed with
      | true =>
        rw [if_pos pressed] at known
        obtain ⟨added, own, others⟩ := processRecord_press pressed accepted known.1 timed
        exact added.mono (explained_of_press pressed accepted known.2 (own.trans (reached ▸ rfl)) others)
      | false =>
        rw [if_neg (Bool.eq_false_iff.mp pressed)] at known
        obtain ⟨inside, press, found, count, -⟩ := known
        obtain ⟨taken, caches⟩ := processRecord_release pressed accepted timed
        have own : releaseAction s record.key = (storeOrGet record s).1 := by rw [storeOrGet_release pressed]
        exact taken.mono (explained_of_release found count accepted (reached ▸ own) caches)

theorem run_backed (every : EveryStep (Paired cfg) ops) :
    Backed (explained keys ops (run cfg keys ops)) (run cfg keys ops) := by
  refine foldl_everyStep (Paired cfg) (fun ops (s : State cfg.keyboard) => Backed (explained keys ops s) s) ?_
    (fun _ _ paired backed => step_backed rfl paired backed) ops every
  constructor
  · refine ⟨fun code pressed => ?_, ?_, ?_, ?_, ?_⟩
    · rw [show (State.start keys : State cfg.keyboard).report.keys = clearKeysFromReport keys from rfl,
        isKeyPressed_clearKeys] at pressed
      cases pressed
    · simp [State.start]
    · simp [State.start]
    · simp [State.start]
    · simp [State.start]
  · exact ⟨fun _ pressed => absurd pressed Bool.false_ne_true, by simp [host, State.start, Host.start]⟩
  · exact ⟨fun nonzero => absurd rfl nonzero, fun nonzero => absurd rfl nonzero, fun _ on => absurd on Bool.false_ne_true⟩
  · exact ⟨rfl, fun code => (isKeyPressed_clearKeys code keys).symm⟩

/-! ## Nothing is stuck -/

theorem not_oneshot_of_codeOutputs {code : Keycode} {bit : Nat} : .oneshot bit ∉ codeOutputs code := by
  unfold codeOutputs
  split_ifs <;> simp [modOutputs]

theorem not_oneshot_of_heldOutputs {action : ActionCode} {tapCount bit : Nat} :
    .oneshot bit ∉ heldOutputs cfg action tapCount := by
  have key : .oneshot bit ∉ keyOutputs action := by
    rintro (code | mods)
    · exact not_oneshot_of_codeOutputs code
    · split at mods <;> simp [modOutputs, weakOutputs] at mods
  have mods (mask : BitVec 8) : .oneshot bit ∉ modOutputs mask := by simp [modOutputs]
  unfold heldOutputs
  split <;> (try split_ifs) <;> simp [key, mods, not_oneshot_of_codeOutputs]

/-- Only modifiers and layers last. -/
theorem lastingOutputs_kind {action : ActionCode} {output : Output} (lasting : output ∈ lastingOutputs cfg action) :
    (∃ bit, output = .mod bit) ∨ (∃ bit, output = .oneshot bit) ∨ ∃ layer, output = .layer layer := by
  have mods (mask : BitVec 8) (member : output ∈ modOutputs mask) : ∃ bit, output = .mod bit := by
    obtain ⟨bit, -, same⟩ := member
    exact ⟨bit, same⟩
  have oneshot (mask : BitVec 8) (member : output ∈ oneshotOutputs mask) : ∃ bit, output = .oneshot bit := by
    obtain ⟨bit, -, same⟩ := member
    exact ⟨bit, same⟩
  have modsTap (kind : kindId action = .lmodsTap ∨ kindId action = .rmodsTap) :
      (∃ bit, output = .mod bit) ∨ (∃ bit, output = .oneshot bit) ∨ ∃ layer, output = .layer layer := by
    rw [lastingOutputs_modsTap kind] at lasting
    split_ifs at lasting
    · exact lasting.elim (fun own => .inr (.inl (oneshot _ own))) fun own => .inl (mods _ own)
    · exact lasting.elim (fun own => .inr (.inl (oneshot _ own))) fun none => absurd none (Set.notMem_empty _)
    · exact absurd lasting (Set.notMem_empty _)
    · exact .inl (mods _ lasting)
    · exact absurd lasting (Set.notMem_empty _)
  have layerTap (kind : kindId action = .layerTap ∨ kindId action = .layerTapExt) :
      (∃ bit, output = .mod bit) ∨ (∃ bit, output = .oneshot bit) ∨ ∃ layer, output = .layer layer := by
    rw [lastingOutputs_layerTap kind] at lasting
    split_ifs at lasting
    · exact .inr (.inr ⟨_, lasting⟩)
    · exact .inr (.inr ⟨_, lasting⟩)
    · exact absurd lasting (Set.notMem_empty _)
    · exact absurd lasting (Set.notMem_empty _)
  cases kind : kindId action with
  | lmodsTap => exact modsTap (.inl kind)
  | rmodsTap => exact modsTap (.inr kind)
  | layerTap => exact layerTap (.inl kind)
  | layerTapExt => exact layerTap (.inr kind)
  | layer =>
    rw [lastingOutputs, kind] at lasting
    obtain ⟨-, -, layer, -, same⟩ := lasting
    exact .inr (.inr ⟨layer, same⟩)
  | lmods | rmods | usage | mousekey | layerMods | swapHands | unknown =>
    rw [lastingOutputs, kind] at lasting
    exact absurd lasting (Set.notMem_empty _)

/-- Why the host has been told of something. -/
structure Explained (cfg : Config) (boot : Keys) (ops : List (BitVec 16 × Op)) (s : State cfg.keyboard) : Prop where
  keys : ∀ code, (host s).pressed code = true → Holds ops s (.key code)
  mods : ∀ bit, (host s).mods.getLsbD bit = true →
    (Holds ops s (.mod bit) ∨ Holds ops s (.weak bit)) ∨ Left cfg boot ops (.mod bit) ∨ Left cfg boot ops (.oneshot bit)
  system : (host s).system ≠ 0 → Holds ops s (.system (host s).system)
  consumer : (host s).consumer ≠ 0 → Holds ops s (.consumer (host s).consumer)
  mouse : ∀ code, (host s).mouse code = true → Holds ops s (.mouse code)

theorem Left.kind {output : Output} (left : Left cfg keys ops output) :
    (∃ bit, output = .mod bit) ∨ (∃ bit, output = .oneshot bit) ∨ ∃ layer, output = .layer layer := by
  obtain ⟨_, _, _, _, _, lasting⟩ := left
  exact lastingOutputs_kind lasting

/-- Whatever the host has been told last is there for a key that is down, but for the modifiers of one-shot and toggle
keys: whichever way keys, layers and one-shot keys have been interleaved, no key is stuck. -/
theorem nothing_stuck (keys : Keys) (ops : List (BitVec 16 × Op)) (paired : EveryStep (Paired cfg) ops) :
    Explained cfg keys ops (run cfg keys ops) := by
  have backed : Backed (explained keys ops (run cfg keys ops)) (run cfg keys ops) := run_backed paired
  have held {output : Output} (known : output ∈ explained keys ops (run cfg keys ops))
      (kind : ¬((∃ bit, output = .mod bit) ∨ (∃ bit, output = .oneshot bit) ∨ ∃ layer, output = .layer layer)) :
      Holds ops (run cfg keys ops) output :=
    known.resolve_right fun left => kind left.kind
  constructor
  · exact fun code pressed => held (backed.shown.keys code pressed) (by simp)
  · intro bit set
    rcases backed.shown.mods bit set with (real | left) | weak | ⟨key, press, -, -, oneshot⟩ | left
    · exact .inl (.inl real)
    · exact .inr (.inl left)
    · exact .inl (.inr (held weak (by simp)))
    · exact absurd oneshot not_oneshot_of_heldOutputs
    · exact .inr (.inr left)
  · exact fun nonzero => held (backed.told.system nonzero) (by simp)
  · exact fun nonzero => held (backed.told.consumer nonzero) (by simp)
  · exact fun code on => held (backed.told.mouse code on) (by simp)

/-- A layer is on for a key that is down, or because of a one-shot or toggle key. -/
theorem layers_held (keys : Keys) (ops : List (BitVec 16 × Op)) (paired : EveryStep (Paired cfg) ops) (layer : Nat)
    (on : (run cfg keys ops).layers.layerState.getLsbD layer = true) :
    Holds ops (run cfg keys ops) (.layer layer) ∨ Left cfg keys ops (.layer layer) :=
  (run_backed paired).inside.layers layer on

/-- One key, for A. -/
def lone : Config where
  keyboard :=
    { matrixRows := 1
      matrixCols := 1
      encoderMapEnable := false
      numEncoders := 0
      maxLayerBits := 5
      maxLayer := 32
      rows_le := by omega
      cols_le := by omega
      bits_le := by omega
      layers_le := Nat.le_refl _ }
  actionForKey _ _ := 0x0004
  oneshotEnable := true
  oneshotTapToggle := 0
  tappingToggle := 5
  oneshotTimeout := 0
  swapHandsEnable := false

def loneRecord (pressed : Bool) : Record where
  key := { col := 0, row := 0 }
  pressed := pressed
  tapCount := 0
  accepted := true
  releaseAccepted := true

/-- The key is tapped. -/
def loneTap : List (BitVec 16 × Op) :=
  [(0, .exec true), (0, .record (loneRecord true)), (9, .exec false), (9, .record (loneRecord false))]

theorem loneTap_paired : EveryStep (Paired lone) loneTap := by
  intro index bound record same
  have small : index < 4 := bound
  have cases : index = 0 ∨ index = 1 ∨ index = 2 ∨ index = 3 := by omega
  rcases cases with rfl | rfl | rfl | rfl
  · cases same
  · cases same
    exact ⟨by decide, rfl⟩
  · cases same
  · cases same
    exact ⟨by decide, loneRecord true, rfl, rfl, id⟩

theorem loneTap_not_stuck : (host (run lone (.boot (.replicate _ 0)) loneTap)).pressed 0x04 = false := by
  rw [Bool.eq_false_iff]
  intro stuck
  obtain ⟨key, press, pressed, -, -⟩ := (nothing_stuck (.boot (.replicate _ 0)) loneTap loneTap_paired).keys _ stuck
  have up : down loneTap key = none := by
    show down ([(0, .exec true), (0, .record (loneRecord true)), (9, .exec false)] ++ [(9, .record (loneRecord false))]) key = none
    rw [down_record]
    split
    · rfl
    · next other =>
      show down ([(0, .exec true)] ++ [(0, .record (loneRecord true))]) key = none
      rw [down_record, if_neg (show ¬key = (loneRecord true).key from other)]
      rfl
  rw [up] at pressed
  cases pressed

/-- The key is a momentary key for layer 1. -/
def momentary : Config := { lone with actionForKey := fun _ _ => 0xA1F1 }

theorem momentary_paired : EveryStep (Paired momentary) [(0, .record (loneRecord true))] := by
  intro index bound record same
  have first : index = 0 := by
    have small : index < 1 := bound
    omega
  subst first
  cases same
  exact ⟨by decide, rfl⟩

theorem momentary_held :
    Holds [(0, .record (loneRecord true))]
      (run momentary (.boot (.replicate _ 0)) [(0, .record (loneRecord true))]) (.layer 1) ∨
      Left momentary (.boot (.replicate _ 0)) [(0, .record (loneRecord true))] (.layer 1) :=
  layers_held _ _ momentary_paired 1 (by decide)

end Runs

end QmkFirmware.Action
