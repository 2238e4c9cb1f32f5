import QmkFirmware.Action.Outputs

/-! # What each action adds and takes away

An action backs a state with the outputs that its press adds, and its release takes these away again.  What a tap of a
one-shot or a toggle key leaves behind lasts.
-/

namespace QmkFirmware.Action

open QmkFirmware.ActionLayer QmkFirmware.Bits

variable {cfg : Config} {keyboard : ActionLayer.Keyboard} {s t : State keyboard} {outputs more : Set Output}

/-! ## Changes of a field -/

theorem addKey_inside (code : Keycode) (inside : Inside outputs s) : Inside (outputs ∪ { .key code }) (addKey code s) where
  keys other pressed := (isKeyPressed_addKey pressed).elim (fun same => .inr (same ▸ rfl)) fun old => .inl (inside.keys other old)
  realMods bit set := .inl (inside.realMods bit set)
  weakMods bit set := .inl (inside.weakMods bit set)
  oneshotMods bit set := .inl (inside.oneshotMods bit set)
  layers layer set := .inl (inside.layers layer set)

theorem delKey_inside (code : Keycode) (inside : Inside outputs s) : Inside (outputs \ { .key code }) (delKey code s) where
  keys other pressed := by
    obtain ⟨apart, old⟩ := isKeyPressed_delKey.mp pressed
    exact ⟨inside.keys other old, fun same => apart (Output.key.inj same)⟩
  realMods bit set := ⟨inside.realMods bit set, by simp⟩
  weakMods bit set := ⟨inside.weakMods bit set, by simp⟩
  oneshotMods bit set := ⟨inside.oneshotMods bit set, by simp⟩
  layers layer set := ⟨inside.layers layer set, by simp⟩

theorem addMods_inside (mods : BitVec 8) (inside : Inside outputs s) : Inside (outputs ∪ modOutputs mods) (addMods mods s) where
  keys code pressed := .inl (inside.keys code pressed)
  realMods bit set := by
    have either : s.realMods.getLsbD bit = true ∨ mods.getLsbD bit = true := by simpa [addMods] using set
    exact either.imp (inside.realMods bit) fun own => ⟨bit, own, rfl⟩
  weakMods bit set := .inl (inside.weakMods bit set)
  oneshotMods bit set := .inl (inside.oneshotMods bit set)
  layers layer set := .inl (inside.layers layer set)

theorem delMods_inside (mods : BitVec 8) (inside : Inside outputs s) : Inside (outputs \ modOutputs mods) (delMods mods s) where
  keys code pressed := ⟨inside.keys code pressed, by simp [modOutputs]⟩
  realMods bit set := by
    have both : s.realMods.getLsbD bit = true ∧ mods.getLsbD bit = false := by
      simp only [delMods, BitVec.getLsbD_and, BitVec.getLsbD_not, Bool.and_eq_true, Bool.not_eq_true'] at set
      exact ⟨set.1, set.2.2⟩
    refine ⟨inside.realMods bit both.1, ?_⟩
    rintro ⟨other, own, same⟩
    rw [← Output.mod.inj same, both.2] at own
    cases own
  weakMods bit set := ⟨inside.weakMods bit set, by simp [modOutputs]⟩
  oneshotMods bit set := ⟨inside.oneshotMods bit set, by simp [modOutputs]⟩
  layers layer set := ⟨inside.layers layer set, by simp [modOutputs]⟩

theorem addWeakMods_inside (mods : BitVec 8) (inside : Inside outputs s) :
    Inside (outputs ∪ weakOutputs mods) (addWeakMods mods s) where
  keys code pressed := .inl (inside.keys code pressed)
  realMods bit set := .inl (inside.realMods bit set)
  weakMods bit set := by
    have either : s.weakMods.getLsbD bit = true ∨ mods.getLsbD bit = true := by simpa [addWeakMods] using set
    exact either.imp (inside.weakMods bit) fun own => ⟨bit, own, rfl⟩
  oneshotMods bit set := .inl (inside.oneshotMods bit set)
  layers layer set := .inl (inside.layers layer set)

theorem delWeakMods_inside (mods : BitVec 8) (inside : Inside outputs s) :
    Inside (outputs \ weakOutputs mods) (delWeakMods mods s) where
  keys code pressed := ⟨inside.keys code pressed, by simp [weakOutputs]⟩
  realMods bit set := ⟨inside.realMods bit set, by simp [weakOutputs]⟩
  weakMods bit set := by
    have both : s.weakMods.getLsbD bit = true ∧ mods.getLsbD bit = false := by
      simp only [delWeakMods, BitVec.getLsbD_and, BitVec.getLsbD_not, Bool.and_eq_true, Bool.not_eq_true'] at set
      exact ⟨set.1, set.2.2⟩
    refine ⟨inside.weakMods bit both.1, ?_⟩
    rintro ⟨other, own, same⟩
    rw [← Output.weak.inj same, both.2] at own
    cases own
  oneshotMods bit set := ⟨inside.oneshotMods bit set, by simp [weakOutputs]⟩
  layers layer set := ⟨inside.layers layer set, by simp [weakOutputs]⟩

/-! ## Changes that are reported -/

theorem Backed.send (backed : Backed outputs s) (calls : t.calls = s.calls) (lastReport : t.lastReport = s.lastReport)
    (inside : Inside more t) (direct : ∀ output ∈ outputs, output.IsDirect → output ∈ more) :
    Backed more (sendKeyboardReport cfg t) := by
  have same : host t = host s := by rw [host, calls, host]
  refine sendKeyboardReport_backed inside ?_ ?_ direct
  · rw [same]
    exact backed.told
  · obtain ⟨mods, pressed⟩ := backed.synced
    rw [← same, ← lastReport] at mods
    rw [← same, ← lastReport] at pressed
    exact ⟨mods, pressed⟩

theorem not_direct_of_modOutputs {mods : BitVec 8} {output : Output} (member : output ∈ modOutputs mods) : ¬output.IsDirect := by
  obtain ⟨bit, -, rfl⟩ := member
  exact id

theorem not_direct_of_weakOutputs {mods : BitVec 8} {output : Output} (member : output ∈ weakOutputs mods) :
    ¬output.IsDirect := by
  obtain ⟨bit, -, rfl⟩ := member
  exact id

theorem sendAddMods_backed (mods : BitVec 8) (backed : Backed outputs s) :
    Backed (outputs ∪ modOutputs mods) (sendKeyboardReport cfg (addMods mods s)) :=
  backed.send rfl rfl (addMods_inside mods backed.inside) fun _ member _ => .inl member

theorem sendDelMods_backed (mods : BitVec 8) (backed : Backed outputs s) :
    Backed (outputs \ modOutputs mods) (sendKeyboardReport cfg (delMods mods s)) :=
  backed.send rfl rfl (delMods_inside mods backed.inside) fun _ member direct =>
    ⟨member, fun own => not_direct_of_modOutputs own direct⟩

theorem sendAddWeakMods_backed (mods : BitVec 8) (backed : Backed outputs s) :
    Backed (outputs ∪ weakOutputs mods) (sendKeyboardReport cfg (addWeakMods mods s)) :=
  backed.send rfl rfl (addWeakMods_inside mods backed.inside) fun _ member _ => .inl member

theorem sendDelWeakMods_backed (mods : BitVec 8) (backed : Backed outputs s) :
    Backed (outputs \ weakOutputs mods) (sendKeyboardReport cfg (delWeakMods mods s)) :=
  backed.send rfl rfl (delWeakMods_inside mods backed.inside) fun _ member direct =>
    ⟨member, fun own => not_direct_of_weakOutputs own direct⟩

theorem sendAddKey_backed (code : Keycode) (backed : Backed outputs s) :
    Backed (outputs ∪ { .key code }) (sendKeyboardReport cfg (addKey code s)) :=
  backed.send rfl rfl (addKey_inside code backed.inside) fun _ member _ => .inl member

theorem sendDelKey_backed (code : Keycode) (backed : Backed outputs s) :
    Backed (outputs \ { .key code }) (sendKeyboardReport cfg (delKey code s)) := by
  refine backed.send rfl rfl (delKey_inside code backed.inside) fun output member direct => ⟨member, ?_⟩
  rintro rfl
  exact direct

/-- No modifier is no output. -/
theorem modOutputs_zero : modOutputs 0 = ∅ := by
  ext output
  simp [modOutputs]

theorem weakOutputs_zero : weakOutputs 0 = ∅ := by
  ext output
  simp [weakOutputs]

theorem registerMods_backed (mods : BitVec 8) (backed : Backed outputs s) :
    Backed (outputs ∪ modOutputs mods) (registerMods cfg mods s) := by
  unfold registerMods
  split
  · exact sendAddMods_backed mods backed
  · exact backed.mono Set.subset_union_left

theorem unregisterMods_backed (mods : BitVec 8) (backed : Backed outputs s) :
    Backed (outputs \ modOutputs mods) (unregisterMods cfg mods s) := by
  unfold unregisterMods
  split
  · exact sendDelMods_backed mods backed
  · next zero =>
    rw [Decidable.not_not.mp zero, modOutputs_zero, Set.sdiff_empty]
    exact backed

/-! ## Direct outputs -/

/-- A call that is no report changes what the host has been told directly. -/
theorem Backed.tell (backed : Backed outputs s) (call : Call) (mods : ((host s).receive call).mods = (host s).mods)
    (pressed : ((host s).receive call).pressed = (host s).pressed)
    (told : Told more ((host s).receive call)) (kept : ∀ output ∈ outputs, ¬output.IsDirect → output ∈ more) :
    Backed more (s.call call) := by
  constructor
  · obtain ⟨keys, realMods, weakMods, oneshotMods, layers⟩ := backed.inside
    exact ⟨fun code down => kept _ (keys code down) id, fun bit set => kept _ (realMods bit set) id,
      fun bit set => kept _ (weakMods bit set) id, fun bit set => kept _ (oneshotMods bit set) id,
      fun layer set => kept _ (layers layer set) id⟩
  · rw [host_call]
    constructor
    · rw [pressed]
      exact fun code down => kept _ (backed.shown.keys code down) id
    · rw [mods]
      intro bit set
      exact (backed.shown.mods bit set).imp (kept _ · id) (Or.imp (kept _ · id) (kept _ · id))
  · rw [host_call]
    exact told
  · constructor
    · rw [host_call, mods]
      exact backed.synced.mods
    · rw [host_call, pressed]
      exact backed.synced.pressed

theorem hostSystemSend_backed (usage : Nat) (backed : Backed outputs s) :
    Backed (outputs ∪ { .system usage }) (s.call (.hostSystemSend usage)) :=
  backed.tell _ rfl rfl ⟨fun _ => .inr rfl, fun nonzero => .inl (backed.told.consumer nonzero),
    fun code on => .inl (backed.told.mouse code on)⟩ fun _ member _ => .inl member

theorem hostSystemSend_zero_backed (usage : Nat) (backed : Backed outputs s) :
    Backed (outputs \ { .system usage }) (s.call (.hostSystemSend 0)) := by
  refine backed.tell _ rfl rfl ⟨fun nonzero => absurd rfl nonzero, fun nonzero => ⟨backed.told.consumer nonzero, by simp⟩,
    fun code on => ⟨backed.told.mouse code on, by simp⟩⟩ fun output member indirect => ⟨member, ?_⟩
  rintro rfl
  exact indirect trivial

theorem hostConsumerSend_backed (usage : Nat) (backed : Backed outputs s) :
    Backed (outputs ∪ { .consumer usage }) (s.call (.hostConsumerSend usage)) :=
  backed.tell _ rfl rfl ⟨fun nonzero => .inl (backed.told.system nonzero), fun _ => .inr rfl,
    fun code on => .inl (backed.told.mouse code on)⟩ fun _ member _ => .inl member

theorem hostConsumerSend_zero_backed (usage : Nat) (backed : Backed outputs s) :
    Backed (outputs \ { .consumer usage }) (s.call (.hostConsumerSend 0)) := by
  refine backed.tell _ rfl rfl ⟨fun nonzero => ⟨backed.told.system nonzero, by simp⟩, fun nonzero => absurd rfl nonzero,
    fun code on => ⟨backed.told.mouse code on, by simp⟩⟩ fun output member indirect => ⟨member, ?_⟩
  rintro rfl
  exact indirect trivial

theorem registerMouse_backed (code : Keycode) (backed : Backed outputs s) :
    Backed (outputs ∪ { .mouse code }) (s.call (.registerMouse code true)) := by
  refine backed.tell _ rfl rfl ⟨fun nonzero => .inl (backed.told.system nonzero),
    fun nonzero => .inl (backed.told.consumer nonzero), fun other on => ?_⟩ fun _ member _ => .inl member
  have on : Function.update (host s).mouse code true other = true := on
  by_cases own : other = code
  · exact .inr (own ▸ rfl)
  · rw [Function.update_of_ne own] at on
    exact .inl (backed.told.mouse other on)

theorem unregisterMouse_backed (code : Keycode) (backed : Backed outputs s) :
    Backed (outputs \ { .mouse code }) (s.call (.registerMouse code false)) := by
  refine backed.tell _ rfl rfl ⟨fun nonzero => ⟨backed.told.system nonzero, by simp⟩,
    fun nonzero => ⟨backed.told.consumer nonzero, by simp⟩, fun other on => ?_⟩
    fun output member indirect => ⟨member, ?_⟩
  · have on : Function.update (host s).mouse code false other = true := on
    by_cases own : other = code
    · rw [own, Function.update_self] at on
      cases on
    · rw [Function.update_of_ne own] at on
      exact ⟨backed.told.mouse other on, fun same => own (Output.mouse.inj same)⟩
  · rintro rfl
    exact indirect trivial

/-! ## Codes -/

theorem registerCode_backed (code : Keycode) (backed : Backed outputs s) :
    Backed (outputs ∪ codeOutputs code) (registerCode cfg code s) := by
  unfold registerCode codeOutputs
  by_cases none : code = kcNo
  · rw [if_pos none, if_pos none, Set.union_empty]
    exact backed
  rw [if_neg none, if_neg none]
  by_cases basic : isBasicKeycode code = true
  · rw [if_pos basic, if_pos basic]
    apply sendAddKey_backed
    split
    · exact (sendDelKey_backed code backed).mono Set.sdiff_subset
    · exact backed
  rw [if_neg basic, if_neg basic]
  by_cases modifier : isModifierKeycode code = true
  · rw [if_pos modifier, if_pos modifier]
    exact sendAddMods_backed _ backed
  rw [if_neg modifier, if_neg modifier]
  by_cases system : isSystemKeycode code = true
  · rw [if_pos system, if_pos system]
    exact hostSystemSend_backed _ backed
  rw [if_neg system, if_neg system]
  by_cases consumer : isConsumerKeycode code = true
  · rw [if_pos consumer, if_pos consumer]
    exact hostConsumerSend_backed _ backed
  rw [if_neg consumer, if_neg consumer]
  by_cases mouse : isMouseKeycode code = true
  · rw [if_pos mouse, if_pos mouse]
    exact registerMouse_backed code backed
  rw [if_neg mouse, if_neg mouse, Set.union_empty]
  exact backed

theorem unregisterCode_backed (code : Keycode) (backed : Backed outputs s) :
    Backed (outputs \ codeOutputs code) (unregisterCode cfg code s) := by
  unfold unregisterCode codeOutputs
  by_cases none : code = kcNo
  · rw [if_pos none, if_pos none, Set.sdiff_empty]
    exact backed
  rw [if_neg none, if_neg none]
  by_cases basic : isBasicKeycode code = true
  · rw [if_pos basic, if_pos basic]
    exact sendDelKey_backed code backed
  rw [if_neg basic, if_neg basic]
  by_cases modifier : isModifierKeycode code = true
  · rw [if_pos modifier, if_pos modifier]
    exact sendDelMods_backed _ backed
  rw [if_neg modifier, if_neg modifier]
  by_cases system : isSystemKeycode code = true
  · rw [if_pos system, if_pos system]
    exact hostSystemSend_zero_backed _ backed
  rw [if_neg system, if_neg system]
  by_cases consumer : isConsumerKeycode code = true
  · rw [if_pos consumer, if_pos consumer]
    exact hostConsumerSend_zero_backed _ backed
  rw [if_neg consumer, if_neg consumer]
  by_cases mouse : isMouseKeycode code = true
  · rw [if_pos mouse, if_pos mouse]
    exact unregisterMouse_backed code backed
  rw [if_neg mouse, if_neg mouse, Set.sdiff_empty]
  exact backed

/-! ## Layers -/

theorem layerStateSet_backed {state : keyboard.LayerState} (backed : Backed outputs s)
    (known : ∀ layer, state.getLsbD layer = true → .layer layer ∈ outputs) : Backed outputs (layerStateSet state s) where
  inside := ⟨backed.inside.keys, backed.inside.realMods, backed.inside.weakMods, backed.inside.oneshotMods, known⟩
  shown := backed.shown
  told := backed.told
  synced := ⟨backed.synced.mods, backed.synced.pressed⟩

theorem layerMask_getLsbD {layer other : Nat} (set : (layerMask layer : keyboard.LayerState).getLsbD other = true) :
    other = layer := by
  rw [layerMask, getLsbD_mask, Bool.and_eq_true, decide_eq_true_eq, decide_eq_true_eq] at set
  exact set.2

theorem layerOn_backed (layer : Nat) (backed : Backed outputs s) : Backed (outputs ∪ { .layer layer }) (layerOn layer s) := by
  refine layerStateSet_backed (backed.mono Set.subset_union_left) fun other set => ?_
  rw [BitVec.getLsbD_or, Bool.or_eq_true] at set
  exact set.imp (backed.inside.layers other) fun own => congrArg Output.layer (layerMask_getLsbD own)

theorem layerMove_backed (layer : Nat) (backed : Backed outputs s) :
    Backed (outputs ∪ { .layer layer }) (layerMove layer s) :=
  layerStateSet_backed (backed.mono Set.subset_union_left) fun _ set => .inr (congrArg Output.layer (layerMask_getLsbD set))

theorem layerInvert_backed (layer : Nat) (backed : Backed outputs s) :
    Backed (outputs ∪ { .layer layer }) (layerInvert layer s) := by
  refine layerStateSet_backed (backed.mono Set.subset_union_left) fun other set => ?_
  rw [BitVec.getLsbD_xor] at set
  cases old : s.layers.layerState.getLsbD other with
  | true => exact .inl (backed.inside.layers other old)
  | false =>
    rw [old, Bool.false_xor] at set
    exact .inr (congrArg Output.layer (layerMask_getLsbD set))

/-- A state without the layer does not need it any more. -/
theorem Backed.diff_layer (backed : Backed outputs s) {layer : Nat} (off : s.layers.layerState.getLsbD layer = false) :
    Backed (outputs \ { .layer layer }) s where
  inside :=
    { keys := fun code pressed => ⟨backed.inside.keys code pressed, by simp⟩
      realMods := fun bit set => ⟨backed.inside.realMods bit set, by simp⟩
      weakMods := fun bit set => ⟨backed.inside.weakMods bit set, by simp⟩
      oneshotMods := fun bit set => ⟨backed.inside.oneshotMods bit set, by simp⟩
      layers := fun other set => ⟨backed.inside.layers other set, fun same => by
        rw [Output.layer.inj same, off] at set
        cases set⟩ }
  shown :=
    { keys := fun code pressed => ⟨backed.shown.keys code pressed, by simp⟩
      mods := fun bit set => by simpa using backed.shown.mods bit set }
  told :=
    { system := fun nonzero => ⟨backed.told.system nonzero, by simp⟩
      consumer := fun nonzero => ⟨backed.told.consumer nonzero, by simp⟩
      mouse := fun code on => ⟨backed.told.mouse code on, by simp⟩ }
  synced := backed.synced

theorem layerClear_backed (layer : Nat) (backed : Backed outputs s) : Backed (outputs \ { .layer layer }) (layerClear s) := by
  refine Backed.diff_layer (layerStateSet_backed backed fun other set => ?_) ?_
  · simp at set
  · simp [layerStateSet]

theorem layerOff_kept (layer : Nat) (backed : Backed outputs s) : Backed outputs (layerOff layer s) := by
  refine layerStateSet_backed backed fun other set => ?_
  rw [BitVec.getLsbD_and, Bool.and_eq_true] at set
  exact backed.inside.layers other set.1

theorem layerOff_backed (layer : Nat) (backed : Backed outputs s) : Backed (outputs \ { .layer layer }) (layerOff layer s) := by
  refine (layerOff_kept layer backed).diff_layer ?_
  show (s.layers.layerState &&& ~~~layerMask layer).getLsbD layer = false
  rw [BitVec.getLsbD_and, BitVec.getLsbD_not, layerMask, getLsbD_mask]
  by_cases inside : layer < 2 ^ keyboard.maxLayerBits
  · simp [inside]
  · simp [inside]

/-! ## One-shot keys -/

theorem clearOneshotMods_backed (backed : Backed outputs s) : Backed outputs (clearOneshotMods s) := by
  unfold clearOneshotMods
  split
  · obtain ⟨⟨keys, realMods, weakMods, -, layers⟩, shown, told, synced⟩ := backed
    exact ⟨⟨keys, realMods, weakMods, by simp, layers⟩, shown, told, ⟨synced.mods, synced.pressed⟩⟩
  · exact backed

theorem delOneshotMods_backed (mods : BitVec 8) (backed : Backed outputs s) : Backed outputs (delOneshotMods mods s) := by
  unfold delOneshotMods
  split
  · obtain ⟨⟨keys, realMods, weakMods, oneshotMods, layers⟩, shown, told, synced⟩ := backed
    refine ⟨⟨keys, realMods, weakMods, fun bit set => oneshotMods bit ?_, layers⟩, shown, told, ⟨synced.mods, synced.pressed⟩⟩
    simp only [BitVec.getLsbD_and, Bool.and_eq_true] at set
    exact set.1
  · exact backed

theorem addOneshotMods_backed (mods : BitVec 8) (backed : Backed outputs s) :
    Backed (outputs ∪ oneshotOutputs mods) (addOneshotMods mods s) := by
  have wider : Backed (outputs ∪ oneshotOutputs mods) s := backed.mono Set.subset_union_left
  unfold addOneshotMods
  split
  · obtain ⟨⟨keys, realMods, weakMods, -, layers⟩, shown, told, synced⟩ := wider
    refine ⟨⟨keys, realMods, weakMods, fun bit set => ?_, layers⟩, shown, told, ⟨synced.mods, synced.pressed⟩⟩
    simp only [BitVec.getLsbD_or, Bool.or_eq_true] at set
    exact set.imp (backed.inside.oneshotMods bit) fun own => ⟨bit, own, rfl⟩
  · exact wider

theorem addOneshotLockedMods_backed (mods : BitVec 8) (backed : Backed outputs s) :
    Backed outputs (addOneshotLockedMods mods s) := by
  unfold addOneshotLockedMods
  split
  · exact backed.congr rfl
  · exact backed

theorem delOneshotLockedMods_backed (mods : BitVec 8) (backed : Backed outputs s) :
    Backed outputs (delOneshotLockedMods mods s) := by
  unfold delOneshotLockedMods
  split
  · exact backed.congr rfl
  · exact backed

theorem setOneshotLayer_backed (layer : Nat) (state : BitVec 8) (backed : Backed outputs s) :
    Backed (outputs ∪ { .layer layer }) (setOneshotLayer cfg layer state s) := by
  unfold setOneshotLayer
  split
  · exact layerOn_backed layer (backed.congr rfl)
  · exact layerOn_backed layer backed

theorem clearOneshotLayerState_backed (state : BitVec 8) (backed : Backed outputs s) :
    Backed outputs (clearOneshotLayerState cfg state s) := by
  unfold clearOneshotLayerState
  dsimp only
  split
  · exact (layerOff_kept _ (backed.congr rfl)).congr rfl
  · exact backed.congr rfl

end QmkFirmware.Action
