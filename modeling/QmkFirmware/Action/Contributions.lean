import QmkFirmware.Action.Backing

/-! # What a key is for

The outputs that a key has from its press to its release, and the ones that its action leaves behind.
-/

namespace QmkFirmware.Action

open QmkFirmware.ActionLayer

variable (cfg : Config)

/-- Modifiers and a code. -/
def keyOutputs (action : ActionCode) : Set Output :=
  codeOutputs (keyCode action) ∪
    if modsAreReal action then modOutputs (actionMods action) else weakOutputs (actionMods action)

/-- The outputs of a key that is down. -/
def heldOutputs (action : ActionCode) (tapCount : Nat) : Set Output :=
  match kindId action with
  | .lmods | .rmods => keyOutputs action
  | .lmodsTap | .rmodsTap =>
    if keyCode action = modsOneshot then
      if cfg.oneshotEnable then if tapCount = 0 then modOutputs (actionMods action) else ∅ else keyOutputs action
    else if keyCode action = modsTapToggle then
      if tapCount < cfg.tappingToggle then modOutputs (actionMods action) else ∅
    else if 0 < tapCount then codeOutputs (keyCode action)
    else modOutputs (actionMods action)
  | .usage =>
    if usagePage action = pageSystem then { .system (usageCode action) }
    else if usagePage action = pageConsumer then { .consumer (usageCode action) }
    else ∅
  | .mousekey => { .mouse (keyCode action) }
  | .layer => ∅
  | .layerMods => { .layer (layerModsLayer action) } ∪ modOutputs (keyCode action)
  | .layerTap | .layerTapExt =>
    if keyCode action = opTapToggle ∨ keyCode action = opOffOn then ∅
    else if keyCode action = opOnOff ∨ keyCode action = opSetClear then { .layer (layerTapVal action) }
    else if keyCode action = opOneshot then if cfg.oneshotEnable then ∅ else { .layer (layerTapVal action) }
    else if 0 < tapCount then codeOutputs (keyCode action)
    else { .layer (layerTapVal action) }
  | .swapHands => if cfg.swapHandsEnable ∧ 0 < tapCount then codeOutputs (keyCode action) else ∅
  | .unknown => ∅

/-- The layers that a layer operation may turn on. -/
def bitopOutputs (action : ActionCode) : Set Output :=
  { output | layerBitopOn action ≠ 0 ∧ layerBitopOp action ≠ opBitAnd ∧
    ∃ layer, (layerBits cfg.keyboard action).getLsbD layer = true ∧ output = .layer layer }

/-- The outputs that an action may leave behind: one-shot modifiers and layers, and what toggles. -/
def lastingOutputs (action : ActionCode) : Set Output :=
  match kindId action with
  | .lmodsTap | .rmodsTap =>
    if keyCode action = modsOneshot then
      if cfg.oneshotEnable then
        oneshotOutputs (actionMods action) ∪ if 1 < cfg.oneshotTapToggle then modOutputs (actionMods action) else ∅
      else ∅
    else if keyCode action = modsTapToggle then modOutputs (actionMods action)
    else ∅
  | .layer => bitopOutputs cfg action
  | .layerTap | .layerTapExt =>
    if keyCode action = opTapToggle ∨ keyCode action = opOffOn then { .layer (layerTapVal action) }
    else if keyCode action = opOneshot then if cfg.oneshotEnable then { .layer (layerTapVal action) } else ∅
    else ∅
  | .lmods | .rmods | .usage | .mousekey | .layerMods | .swapHands | .unknown => ∅

section Actions

variable {cfg : Config} {s : State cfg.keyboard} {outputs : Set Output} {action : ActionCode}

theorem processMods_press_backed (backed : Backed outputs s) :
    Backed (outputs ∪ keyOutputs action) (processMods cfg action true s) := by
  unfold processMods keyOutputs
  dsimp only
  rw [if_pos rfl]
  by_cases none : actionMods action = 0
  · rw [if_neg (not_not_intro none)]
    exact (registerCode_backed _ backed).mono (Set.union_subset_union_right _ Set.subset_union_left)
  rw [if_pos none, Set.union_comm (codeOutputs _), ← Set.union_assoc]
  apply registerCode_backed
  split
  · exact sendAddMods_backed _ backed
  · exact sendAddWeakMods_backed _ backed

theorem processMods_release_backed (backed : Backed outputs s) :
    Backed (outputs \ keyOutputs action) (processMods cfg action false s) := by
  unfold processMods keyOutputs
  dsimp only
  rw [if_neg Bool.false_ne_true, ← Set.sdiff_sdiff]
  have code : Backed (outputs \ codeOutputs (keyCode action)) (unregisterCode cfg (keyCode action) s) :=
    unregisterCode_backed _ backed
  by_cases none : actionMods action = 0
  · rw [if_neg (not_not_intro none), none, modOutputs_zero, weakOutputs_zero, ite_self, Set.sdiff_empty]
    exact code
  rw [if_pos none]
  split
  · exact sendDelMods_backed _ code
  · exact sendDelWeakMods_backed _ code

/-! ## Modifier tap keys -/

theorem processOneshotMods_press_backed (mods : BitVec 8) (tapCount : Nat) (backed : Backed outputs s) :
    Backed (outputs ∪ ((if tapCount = 0 then modOutputs mods else ∅) ∪
      (oneshotOutputs mods ∪ if 1 < cfg.oneshotTapToggle then modOutputs mods else ∅)))
      (processOneshotMods cfg mods true tapCount s) := by
  unfold processOneshotMods
  rw [if_pos rfl]
  by_cases held : tapCount = 0
  · rw [if_pos held, if_pos held]
    exact (registerMods_backed mods backed).mono (Set.union_subset_union_right _ Set.subset_union_left)
  rw [if_neg held, if_neg held, Set.empty_union]
  by_cases tapped : tapCount = 1
  · rw [if_pos tapped]
    exact (addOneshotMods_backed mods backed).mono (Set.union_subset_union_right _ Set.subset_union_left)
  rw [if_neg tapped]
  by_cases toggle : 1 < cfg.oneshotTapToggle ∧ tapCount = cfg.oneshotTapToggle
  · rw [if_pos toggle, if_pos toggle.1]
    refine addOneshotLockedMods_backed _ (delOneshotMods_backed _ ?_)
    exact (registerMods_backed mods backed).mono (Set.union_subset_union_right _ Set.subset_union_right)
  · rw [if_neg toggle]
    exact backed.mono Set.subset_union_left

theorem processOneshotMods_release_backed (mods : BitVec 8) (tapCount : Nat) (backed : Backed outputs s) :
    Backed (outputs \ if tapCount = 0 then modOutputs mods else ∅) (processOneshotMods cfg mods false tapCount s) := by
  unfold processOneshotMods
  rw [if_neg Bool.false_ne_true]
  have gone : Backed (outputs \ modOutputs mods)
      (delOneshotLockedMods mods (delOneshotMods mods (unregisterMods cfg mods s))) :=
    delOneshotLockedMods_backed mods (delOneshotMods_backed mods (unregisterMods_backed mods backed))
  by_cases held : tapCount = 0
  · rw [if_pos held, if_pos (.inl held)]
    exact gone
  rw [if_neg held, Set.sdiff_empty]
  split
  · exact gone.mono Set.sdiff_subset
  · exact backed

theorem heldOutputs_modsTap (kind : kindId action = .lmodsTap ∨ kindId action = .rmodsTap) (tapCount : Nat) :
    heldOutputs cfg action tapCount =
      if keyCode action = modsOneshot then
        if cfg.oneshotEnable then if tapCount = 0 then modOutputs (actionMods action) else ∅ else keyOutputs action
      else if keyCode action = modsTapToggle then
        if tapCount < cfg.tappingToggle then modOutputs (actionMods action) else ∅
      else if 0 < tapCount then codeOutputs (keyCode action)
      else modOutputs (actionMods action) := by
  unfold heldOutputs
  rcases kind with kind | kind
  · rw [kind]
  · rw [kind]

theorem lastingOutputs_modsTap (kind : kindId action = .lmodsTap ∨ kindId action = .rmodsTap) :
    lastingOutputs cfg action =
      if keyCode action = modsOneshot then
        if cfg.oneshotEnable then
          oneshotOutputs (actionMods action) ∪ if 1 < cfg.oneshotTapToggle then modOutputs (actionMods action) else ∅
        else ∅
      else if keyCode action = modsTapToggle then modOutputs (actionMods action)
      else ∅ := by
  unfold lastingOutputs
  rcases kind with kind | kind
  · rw [kind]
  · rw [kind]

theorem processModsTap_press_backed (kind : kindId action = .lmodsTap ∨ kindId action = .rmodsTap) (tapCount : Nat)
    (backed : Backed outputs s) :
    Backed (outputs ∪ (heldOutputs cfg action tapCount ∪ lastingOutputs cfg action))
      (processModsTap cfg action true tapCount s) := by
  rw [heldOutputs_modsTap kind, lastingOutputs_modsTap kind]
  unfold processModsTap
  dsimp only
  by_cases oneshot : keyCode action = modsOneshot
  · rw [if_pos oneshot, if_pos oneshot, if_pos oneshot]
    by_cases enabled : cfg.oneshotEnable = true
    · rw [if_pos enabled, if_pos enabled, if_pos enabled]
      exact processOneshotMods_press_backed _ _ backed
    · rw [if_neg enabled, if_neg enabled, if_neg enabled, Set.union_empty]
      exact processMods_press_backed backed
  rw [if_neg oneshot, if_neg oneshot, if_neg oneshot]
  by_cases toggle : keyCode action = modsTapToggle
  · rw [if_pos toggle, if_pos toggle, if_pos toggle, processModsTapToggle, if_pos rfl]
    by_cases few : tapCount ≤ cfg.tappingToggle
    · rw [if_pos few]
      exact (registerMods_backed _ backed).mono (Set.union_subset_union_right _ Set.subset_union_right)
    · rw [if_neg few]
      exact backed.mono Set.subset_union_left
  rw [if_neg toggle, if_neg toggle, if_neg toggle, Set.union_empty]
  by_cases tapped : 0 < tapCount
  · rw [if_pos tapped, if_pos tapped, if_pos rfl]
    exact registerCode_backed _ backed
  · rw [if_neg tapped, if_neg tapped, if_pos rfl]
    exact registerMods_backed _ backed

theorem processModsTap_release_backed (kind : kindId action = .lmodsTap ∨ kindId action = .rmodsTap) (tapCount : Nat)
    (backed : Backed outputs s) :
    Backed (outputs \ heldOutputs cfg action tapCount) (processModsTap cfg action false tapCount s) := by
  rw [heldOutputs_modsTap kind]
  unfold processModsTap
  dsimp only
  by_cases oneshot : keyCode action = modsOneshot
  · rw [if_pos oneshot, if_pos oneshot]
    by_cases enabled : cfg.oneshotEnable = true
    · rw [if_pos enabled, if_pos enabled]
      exact processOneshotMods_release_backed _ _ backed
    · rw [if_neg enabled, if_neg enabled]
      exact processMods_release_backed backed
  rw [if_neg oneshot, if_neg oneshot]
  by_cases toggle : keyCode action = modsTapToggle
  · rw [if_pos toggle, if_pos toggle, processModsTapToggle, if_neg Bool.false_ne_true]
    split
    · exact unregisterMods_backed _ backed
    · rw [Set.sdiff_empty]
      exact backed
  rw [if_neg toggle, if_neg toggle]
  by_cases tapped : 0 < tapCount
  · rw [if_pos tapped, if_pos tapped, if_neg Bool.false_ne_true]
    exact unregisterCode_backed _ backed
  · rw [if_neg tapped, if_neg tapped, if_neg Bool.false_ne_true]
    exact unregisterMods_backed _ backed

/-! ## Other actions -/

theorem processUsage_press_backed (kind : kindId action = .usage) (tapCount : Nat) (backed : Backed outputs s) :
    Backed (outputs ∪ heldOutputs cfg action tapCount) (processUsage action true s) := by
  unfold processUsage heldOutputs
  rw [kind]
  dsimp only
  by_cases system : usagePage action = pageSystem
  · rw [if_pos system, if_pos system]
    exact hostSystemSend_backed _ backed
  rw [if_neg system, if_neg system]
  by_cases consumer : usagePage action = pageConsumer
  · rw [if_pos consumer, if_pos consumer]
    exact hostConsumerSend_backed _ backed
  rw [if_neg consumer, if_neg consumer, Set.union_empty]
  exact backed

theorem processUsage_release_backed (kind : kindId action = .usage) (tapCount : Nat) (backed : Backed outputs s) :
    Backed (outputs \ heldOutputs cfg action tapCount) (processUsage action false s) := by
  unfold processUsage heldOutputs
  rw [kind, if_neg Bool.false_ne_true]
  dsimp only
  by_cases system : usagePage action = pageSystem
  · rw [if_pos system, if_pos system]
    exact hostSystemSend_zero_backed _ backed
  rw [if_neg system, if_neg system]
  by_cases consumer : usagePage action = pageConsumer
  · rw [if_pos consumer, if_pos consumer]
    exact hostConsumerSend_zero_backed _ backed
  rw [if_neg consumer, if_neg consumer, Set.sdiff_empty]
  exact backed

theorem layerBitop_getLsbD {op : BitVec 2} {old bits : cfg.keyboard.LayerState} {layer : Nat}
    (set : (layerBitop op old bits).getLsbD layer = true) :
    old.getLsbD layer = true ∨ op ≠ opBitAnd ∧ bits.getLsbD layer = true := by
  unfold layerBitop at set
  split at set
  · rw [BitVec.getLsbD_and, Bool.and_eq_true] at set
    exact .inl set.1
  · next other =>
    split at set
    · rw [BitVec.getLsbD_or, Bool.or_eq_true] at set
      exact set.imp id (⟨other, ·⟩)
    · split at set
      · rw [BitVec.getLsbD_xor] at set
        cases was : old.getLsbD layer with
        | true => exact .inl rfl
        | false =>
          rw [was, Bool.false_xor] at set
          exact .inr ⟨other, set⟩
      · exact .inr ⟨other, set⟩

theorem processLayer_backed (pressed : Bool) (backed : Backed outputs s) :
    Backed (outputs ∪ bitopOutputs cfg action) (processLayer action pressed s) := by
  have wider : Backed (outputs ∪ bitopOutputs cfg action) s := backed.mono Set.subset_union_left
  unfold processLayer
  dsimp only
  by_cases default : layerBitopOn action = 0
  · rw [if_pos default]
    split
    · exact wider
    · exact wider.congr rfl
  rw [if_neg default]
  generalize (if pressed = true then onPress else onRelease) = on
  split
  · refine layerStateSet_backed wider fun layer set => ?_
    exact (layerBitop_getLsbD set).imp (backed.inside.layers layer) fun own => ⟨default, own.1, layer, own.2, rfl⟩
  · exact wider

theorem processLayerMods_press_backed (kind : kindId action = .layerMods) (tapCount : Nat) (backed : Backed outputs s) :
    Backed (outputs ∪ heldOutputs cfg action tapCount) (processLayerMods cfg action true s) := by
  unfold processLayerMods heldOutputs
  rw [kind, if_pos rfl, ← Set.union_assoc]
  exact registerMods_backed _ (layerOn_backed _ backed)

theorem processLayerMods_release_backed (kind : kindId action = .layerMods) (tapCount : Nat) (backed : Backed outputs s) :
    Backed (outputs \ heldOutputs cfg action tapCount) (processLayerMods cfg action false s) := by
  unfold processLayerMods heldOutputs
  rw [kind, if_neg Bool.false_ne_true, Set.union_comm, ← Set.sdiff_sdiff]
  exact layerOff_backed _ (unregisterMods_backed _ backed)

theorem processOneshotLayer_backed (layer : Nat) (pressed : Bool) (tapCount : Nat) (backed : Backed outputs s) :
    Backed (outputs ∪ { .layer layer }) (processOneshotLayer cfg layer pressed tapCount s) := by
  have wider : Backed (outputs ∪ { .layer layer }) s := backed.mono Set.subset_union_left
  have set (state : BitVec 8) : Backed (outputs ∪ { .layer layer }) (setOneshotLayer cfg layer state (layerOn layer s)) := by
    have twice : Backed (outputs ∪ { .layer layer } ∪ { .layer layer }) (setOneshotLayer cfg layer state (layerOn layer s)) :=
      setOneshotLayer_backed layer state (layerOn_backed layer backed)
    rwa [Set.union_assoc, Set.union_self] at twice
  unfold processOneshotLayer
  split
  · split
    · split
      · exact layerOff_kept _ (wider.congr rfl)
      · split
        · exact set _
        · exact wider
    · split
      · exact setOneshotLayer_backed layer _ (backed.congr rfl)
      · exact clearOneshotLayerState_backed _ wider
  · split
    · exact set _
    · dsimp only
      split
      · exact clearOneshotLayerState_backed _ (clearOneshotLayerState_backed _ wider)
      · exact clearOneshotLayerState_backed _ wider

theorem heldOutputs_layerTap (kind : kindId action = .layerTap ∨ kindId action = .layerTapExt) (tapCount : Nat) :
    heldOutputs cfg action tapCount =
      if keyCode action = opTapToggle ∨ keyCode action = opOffOn then ∅
      else if keyCode action = opOnOff ∨ keyCode action = opSetClear then { .layer (layerTapVal action) }
      else if keyCode action = opOneshot then if cfg.oneshotEnable then ∅ else { .layer (layerTapVal action) }
      else if 0 < tapCount then codeOutputs (keyCode action)
      else { .layer (layerTapVal action) } := by
  unfold heldOutputs
  rcases kind with kind | kind
  · rw [kind]
  · rw [kind]

theorem lastingOutputs_layerTap (kind : kindId action = .layerTap ∨ kindId action = .layerTapExt) :
    lastingOutputs cfg action =
      if keyCode action = opTapToggle ∨ keyCode action = opOffOn then { .layer (layerTapVal action) }
      else if keyCode action = opOneshot then if cfg.oneshotEnable then { .layer (layerTapVal action) } else ∅
      else ∅ := by
  unfold lastingOutputs
  rcases kind with kind | kind
  · rw [kind]
  · rw [kind]

theorem processLayerTap_press_backed (kind : kindId action = .layerTap ∨ kindId action = .layerTapExt) (tapCount : Nat)
    (backed : Backed outputs s) :
    Backed (outputs ∪ (heldOutputs cfg action tapCount ∪ lastingOutputs cfg action))
      (processLayerTap cfg action true tapCount s) := by
  rw [heldOutputs_layerTap kind, lastingOutputs_layerTap kind]
  unfold processLayerTap
  dsimp only
  simp only [if_true]
  by_cases tapToggle : keyCode action = opTapToggle
  · rw [if_pos tapToggle, if_pos (.inl tapToggle), if_pos (.inl tapToggle), Set.empty_union]
    split
    · exact layerInvert_backed _ backed
    · exact backed.mono Set.subset_union_left
  by_cases offOn : keyCode action = opOffOn
  · have notOn : ¬keyCode action = opOnOff := by rw [offOn]; decide
    rw [if_neg tapToggle, if_neg notOn, if_pos offOn, if_pos (.inr offOn), if_pos (.inr offOn)]
    exact (layerOff_kept _ backed).mono Set.subset_union_left
  rw [if_neg tapToggle, if_neg (not_or_intro tapToggle offOn), if_neg (not_or_intro tapToggle offOn)]
  by_cases onOff : keyCode action = opOnOff
  · rw [if_pos onOff, if_pos (.inl onOff)]
    exact (layerOn_backed _ backed).mono (Set.union_subset_union_right _ Set.subset_union_left)
  rw [if_neg onOff, if_neg offOn]
  by_cases setClear : keyCode action = opSetClear
  · rw [if_pos setClear, if_pos (.inr setClear)]
    exact (layerMove_backed _ backed).mono (Set.union_subset_union_right _ Set.subset_union_left)
  rw [if_neg setClear, if_neg (not_or_intro onOff setClear)]
  by_cases oneshot : keyCode action = opOneshot
  · rw [if_pos oneshot, if_pos oneshot, if_pos oneshot]
    by_cases enabled : cfg.oneshotEnable = true
    · rw [if_pos enabled, if_pos enabled, if_pos enabled, Set.empty_union]
      exact processOneshotLayer_backed _ _ _ backed
    · rw [if_neg enabled, if_neg enabled, if_neg enabled, Set.union_empty]
      exact layerOn_backed _ backed
  rw [if_neg oneshot, if_neg oneshot, if_neg oneshot, Set.union_empty]
  by_cases tapped : 0 < tapCount
  · rw [if_pos tapped, if_pos tapped]
    exact registerCode_backed _ backed
  · rw [if_neg tapped, if_neg tapped]
    exact layerOn_backed _ backed

theorem processLayerTap_release_backed (kind : kindId action = .layerTap ∨ kindId action = .layerTapExt) (tapCount : Nat)
    (backed : Backed outputs s) :
    Backed (outputs \ heldOutputs cfg action tapCount ∪ lastingOutputs cfg action)
      (processLayerTap cfg action false tapCount s) := by
  rw [heldOutputs_layerTap kind, lastingOutputs_layerTap kind]
  unfold processLayerTap
  dsimp only
  simp only [Bool.false_eq_true, if_false]
  by_cases tapToggle : keyCode action = opTapToggle
  · rw [if_pos tapToggle, if_pos (.inl tapToggle), if_pos (.inl tapToggle), Set.sdiff_empty]
    split
    · exact layerInvert_backed _ backed
    · exact backed.mono Set.subset_union_left
  by_cases offOn : keyCode action = opOffOn
  · have notOn : ¬keyCode action = opOnOff := by rw [offOn]; decide
    rw [if_neg tapToggle, if_neg notOn, if_pos offOn, if_pos (.inr offOn), if_pos (.inr offOn), Set.sdiff_empty]
    exact layerOn_backed _ backed
  rw [if_neg tapToggle, if_neg (not_or_intro tapToggle offOn), if_neg (not_or_intro tapToggle offOn)]
  by_cases onOff : keyCode action = opOnOff
  · rw [if_pos onOff, if_pos (.inl onOff)]
    exact (layerOff_backed _ backed).mono Set.subset_union_left
  rw [if_neg onOff, if_neg offOn]
  by_cases setClear : keyCode action = opSetClear
  · rw [if_pos setClear, if_pos (.inr setClear)]
    exact (layerClear_backed _ backed).mono Set.subset_union_left
  rw [if_neg setClear, if_neg (not_or_intro onOff setClear)]
  by_cases oneshot : keyCode action = opOneshot
  · rw [if_pos oneshot, if_pos oneshot, if_pos oneshot]
    by_cases enabled : cfg.oneshotEnable = true
    · rw [if_pos enabled, if_pos enabled, if_pos enabled, Set.sdiff_empty]
      exact processOneshotLayer_backed _ _ _ backed
    · rw [if_neg enabled, if_neg enabled, if_neg enabled, Set.union_empty]
      exact layerOff_backed _ backed
  rw [if_neg oneshot, if_neg oneshot, if_neg oneshot, Set.union_empty]
  by_cases tapped : 0 < tapCount
  · rw [if_pos tapped, if_pos tapped]
    exact unregisterCode_backed _ backed
  · rw [if_neg tapped, if_neg tapped]
    exact layerOff_backed _ backed

/-! ## Swapping keys -/

theorem undoSwapHeld_backed (backed : Backed outputs s) : Backed outputs (undoSwapHeld s) := by
  unfold undoSwapHeld
  split
  · exact backed.congr rfl
  · exact backed

theorem clearOneshotSwaphands_backed (backed : Backed outputs s) : Backed outputs (clearOneshotSwaphands s) :=
  backed.congr rfl

theorem releaseOneshotSwaphands_backed (backed : Backed outputs s) : Backed outputs (releaseOneshotSwaphands s) := by
  unfold releaseOneshotSwaphands
  split
  · exact backed.congr rfl
  · exact clearOneshotSwaphands_backed backed
  · exact backed
  · exact backed

theorem useOneshotSwaphands_backed (backed : Backed outputs s) : Backed outputs (useOneshotSwaphands s) := by
  unfold useOneshotSwaphands
  split
  · exact backed.congr rfl
  · exact clearOneshotSwaphands_backed backed
  · exact backed
  · exact backed

/-- Keys with an operation are not tapped: their codes are no key codes. -/
theorem codeOutputs_of_op {code : Keycode} (op : 0xE8 ≤ code.toNat) : codeOutputs code = ∅ := by
  unfold codeOutputs
  have none : code ≠ kcNo := by
    rintro rfl
    exact absurd op (by decide)
  simp only [isBasicKeycode, isModifierKeycode, isSystemKeycode, isConsumerKeycode, isMouseKeycode, decide_eq_true_eq]
  rw [if_neg none, if_neg (by omega), if_neg (by omega), if_neg (by omega), if_neg (by omega), if_neg (by omega)]

/-- The operations of a swapping key leave everything alone that counts. -/
theorem processSwapHands_backed_of {pressed : Bool} {tapCount : Nat} (backed : Backed outputs s)
    (tapped : 0 < tapCount → Backed outputs
      (if pressed then registerCode cfg (keyCode action) (undoSwapHeld s)
      else unregisterCode cfg (keyCode action) (undoSwapHeld s))) :
    Backed outputs (processSwapHands cfg action pressed tapCount s) := by
  have keep (c : Prop) [Decidable c] {first second : State cfg.keyboard} (one : Backed outputs first)
      (other : Backed outputs second) : Backed outputs (if c then first else second) := by
    split
    · exact one
    · exact other
  unfold processSwapHands
  dsimp only
  refine keep _ (keep _ (backed.congr rfl) backed) (keep _ (backed.congr rfl) (keep _ (backed.congr rfl) ?_))
  refine keep _ (keep _ backed (backed.congr rfl)) (keep _ (keep _ backed (backed.congr rfl)) ?_)
  refine keep _ (keep _ (backed.congr rfl) (releaseOneshotSwaphands_backed backed)) (keep _ ?_ ?_)
  · exact keep _ (keep _ (backed.congr rfl) (backed.congr rfl)) (keep _ (backed.congr rfl) backed)
  · by_cases count : 0 < tapCount
    · rw [if_pos count]
      exact tapped count
    · rw [if_neg count]
      exact keep _ backed (undoSwapHeld_backed backed)

theorem processSwapHands_press_backed (tapCount : Nat) (backed : Backed outputs s) :
    Backed (outputs ∪ if 0 < tapCount then codeOutputs (keyCode action) else ∅)
      (processSwapHands cfg action true tapCount s) := by
  refine processSwapHands_backed_of (backed.mono Set.subset_union_left) fun tapped => ?_
  rw [if_pos tapped, if_pos rfl]
  exact registerCode_backed _ (undoSwapHeld_backed backed)

theorem processSwapHands_release_backed (tapCount : Nat) (backed : Backed outputs s) :
    Backed (outputs \ if 0 < tapCount then codeOutputs (keyCode action) else ∅)
      (processSwapHands cfg action false tapCount s) := by
  have taken : Backed (outputs \ codeOutputs (keyCode action)) (unregisterCode cfg (keyCode action) (undoSwapHeld s)) :=
    unregisterCode_backed _ (undoSwapHeld_backed backed)
  by_cases op : 0xE8 ≤ (keyCode action).toNat
  · rw [codeOutputs_of_op op, Set.sdiff_empty] at taken
    rw [codeOutputs_of_op op, ite_self, Set.sdiff_empty]
    exact processSwapHands_backed_of backed fun _ => by rwa [if_neg Bool.false_ne_true]
  · have apart (code : Keycode) (large : 0xE8 ≤ code.toNat) : keyCode action ≠ code := fun same => op (same ▸ large)
    unfold processSwapHands
    dsimp only
    rw [if_neg (apart opShToggle (by decide)), if_neg (apart opShOnOff (by decide)), if_neg (apart opShOffOn (by decide)),
      if_neg (apart opShOn (by decide)), if_neg (apart opShOff (by decide)), if_neg (apart opShOneshot (by decide)),
      if_neg (apart opShTapToggle (by decide))]
    by_cases tapped : 0 < tapCount
    · rw [if_pos tapped, if_pos tapped, if_neg Bool.false_ne_true]
      exact taken
    · rw [if_neg tapped, if_neg tapped, if_neg Bool.false_ne_true, Set.sdiff_empty]
      exact undoSwapHeld_backed backed

/-! ## All actions -/

theorem processKind_press_backed (tapCount : Nat) (backed : Backed outputs s) :
    Backed (outputs ∪ (heldOutputs cfg action tapCount ∪ lastingOutputs cfg action))
      (processKind cfg action true tapCount s) := by
  have held {kept : State cfg.keyboard} (added : Backed (outputs ∪ heldOutputs cfg action tapCount) kept) :
      Backed (outputs ∪ (heldOutputs cfg action tapCount ∪ lastingOutputs cfg action)) kept :=
    added.mono (Set.union_subset_union_right _ Set.subset_union_left)
  have mods : Backed (outputs ∪ keyOutputs action) (processMods cfg action true s) := processMods_press_backed backed
  unfold processKind
  cases kind : kindId action with
  | lmods | rmods =>
    apply held
    rw [heldOutputs, kind]
    exact mods
  | lmodsTap => exact processModsTap_press_backed (.inl kind) tapCount backed
  | rmodsTap => exact processModsTap_press_backed (.inr kind) tapCount backed
  | usage => exact held (processUsage_press_backed kind tapCount backed)
  | mousekey =>
    apply held
    rw [heldOutputs, kind]
    exact registerMouse_backed _ backed
  | layer =>
    rw [heldOutputs, lastingOutputs, kind, Set.empty_union]
    exact processLayer_backed true backed
  | layerMods => exact held (processLayerMods_press_backed kind tapCount backed)
  | layerTap => exact processLayerTap_press_backed (.inl kind) tapCount backed
  | layerTapExt => exact processLayerTap_press_backed (.inr kind) tapCount backed
  | swapHands =>
    apply held
    rw [heldOutputs, kind]
    dsimp only
    by_cases enabled : cfg.swapHandsEnable = true
    · rw [if_pos enabled]
      simp only [enabled, true_and]
      exact processSwapHands_press_backed tapCount backed
    · rw [if_neg enabled]
      exact backed.mono Set.subset_union_left
  | unknown => exact backed.mono Set.subset_union_left

theorem processKind_release_backed (tapCount : Nat) (backed : Backed outputs s) :
    Backed (outputs \ heldOutputs cfg action tapCount ∪ lastingOutputs cfg action)
      (processKind cfg action false tapCount s) := by
  have held {kept : State cfg.keyboard} (taken : Backed (outputs \ heldOutputs cfg action tapCount) kept) :
      Backed (outputs \ heldOutputs cfg action tapCount ∪ lastingOutputs cfg action) kept :=
    taken.mono Set.subset_union_left
  have mods : Backed (outputs \ keyOutputs action) (processMods cfg action false s) := processMods_release_backed backed
  unfold processKind
  cases kind : kindId action with
  | lmods | rmods =>
    apply held
    rw [heldOutputs, kind]
    exact mods
  | lmodsTap => exact held (processModsTap_release_backed (.inl kind) tapCount backed)
  | rmodsTap => exact held (processModsTap_release_backed (.inr kind) tapCount backed)
  | usage => exact held (processUsage_release_backed kind tapCount backed)
  | mousekey =>
    apply held
    rw [heldOutputs, kind]
    exact unregisterMouse_backed _ backed
  | layer =>
    rw [heldOutputs, lastingOutputs, kind, Set.sdiff_empty]
    exact processLayer_backed false backed
  | layerMods => exact held (processLayerMods_release_backed kind tapCount backed)
  | layerTap => exact processLayerTap_release_backed (.inl kind) tapCount backed
  | layerTapExt => exact processLayerTap_release_backed (.inr kind) tapCount backed
  | swapHands =>
    apply held
    rw [heldOutputs, kind]
    dsimp only
    by_cases enabled : cfg.swapHandsEnable = true
    · rw [if_pos enabled]
      simp only [enabled, true_and]
      exact processSwapHands_release_backed tapCount backed
    · rw [if_neg enabled, if_neg (fun both => enabled both.1), Set.sdiff_empty]
      exact backed
  | unknown =>
    rw [heldOutputs, lastingOutputs, kind, Set.sdiff_empty, Set.union_empty]
    exact backed

/-- A press adds what its key is for. -/
theorem processActionKind_press_backed (tapCount : Nat) (backed : Backed outputs s) :
    Backed (outputs ∪ (heldOutputs cfg action tapCount ∪ lastingOutputs cfg action))
      (processActionKind cfg action true tapCount s) := by
  unfold processActionKind
  dsimp only
  split
  · exact useOneshotSwaphands_backed (processKind_press_backed tapCount backed)
  · exact processKind_press_backed tapCount backed

/-- A release takes it away, whatever other keys are for. -/
theorem processActionKind_release_backed (tapCount : Nat) (backed : Backed outputs s) :
    Backed (outputs \ heldOutputs cfg action tapCount ∪ lastingOutputs cfg action)
      (processActionKind cfg action false tapCount s) := by
  unfold processActionKind
  rw [if_neg (by simp)]
  exact processKind_release_backed tapCount backed

end Actions

end QmkFirmware.Action
