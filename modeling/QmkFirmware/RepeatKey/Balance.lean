import QmkFirmware.RepeatKey.Model
import Mathlib.Tactic.SplitIfs

/-! # Balanced repetitions

The record that the Repeat Key has pressed is remembered for its release, so other keys that are pressed in between do
not change it.  But the modifiers to release, and whether there is anything to release, are read from the last key as it
is then.
-/

namespace QmkFirmware.RepeatKey

/-! ## Functions of the state -/

namespace State

variable (s : State)

theorem registerWeakMods_eq (mods : BitVec 8) :
    s.registerWeakMods mods =
      { s with
        weakMods := s.weakMods ||| mods
        outputs := s.outputs ++ if mods = 0 then [] else [.registerWeakMods mods] } := by
  unfold registerWeakMods
  split
  next none => simp [none]
  next => rfl

theorem unregisterWeakMods_eq (mods : BitVec 8) :
    s.unregisterWeakMods mods =
      { s with
        weakMods := s.weakMods &&& ~~~mods
        outputs := s.outputs ++ if mods = 0 then [] else [.unregisterWeakMods mods] } := by
  unfold unregisterWeakMods
  split
  next none =>
    rw [none, show ~~~(0 : BitVec 8) = BitVec.allOnes 8 from rfl, BitVec.and_allOnes]
    simp
  next => rfl

/-- Only the count changes. -/
theorem updateLastRepeatCount_same (dir : Int) :
    s.updateLastRepeatCount dir =
      { s with lastRepeatCount := (s.updateLastRepeatCount dir).lastRepeatCount } := by
  unfold updateLastRepeatCount
  split_ifs <;> rfl

theorem updateLastRepeatCount_up : (s.updateLastRepeatCount 1).lastRepeatCount ≠ 0 := by
  unfold updateLastRepeatCount
  split_ifs with negative small
  · exact Int.one_ne_zero
  · show s.lastRepeatCount + 1 ≠ 0
    omega
  · omega

theorem updateLastRepeatCount_down : (s.updateLastRepeatCount (-1)).lastRepeatCount ≠ 0 := by
  unfold updateLastRepeatCount
  split_ifs with positive small
  · show (-1 : Int) ≠ 0
    decide
  · show s.lastRepeatCount + -1 ≠ 0
    omega
  · omega

end State

variable {config : Config}

theorem Record.getKeycode_of_ne (record : Record) (some : record.keycode ≠ 0) : record.getKeycode = record.keycode :=
  if_pos some

/-- While a record is repeated, the records of the Repeat Keys are left to the rest. -/
theorem processRecord_nested (config : Config) (fuel : Nat) (record : Record) {s : State}
    (repeating : s.processingRepeatCount ≠ 0) :
    processRecord config (fuel + 1) record s = some (s.emit (.handle record.getKeycode record.event.pressed)) := by
  have same : processLastKey config record.getKeycode record s = s := if_pos repeating
  rw [processRecord, same]
  exact if_pos repeating

/-! ## The invariant -/

/-- Outside of `process_record` nothing is repeated, and a record that is registered has a count. -/
structure Inv (s : State) : Prop where
  idle : s.processingRepeatCount = 0
  registered : s.registeredRecord.keycode = 0 ↔ s.registeredRepeatCount = 0
  alternate : s.altRegisteredRecord.keycode ≠ 0 → s.altRegisteredRepeatCount ≠ 0

/-- What concerns the Repeat Key. -/
def State.repetition (s : State) : Record × Int × Bool :=
  (s.registeredRecord, s.registeredRepeatCount, s.down qkRepeatKey)

theorem processLastKey_spec (config : Config) (keycode : Keycode) (record : Record) {s : State} (inv : Inv s) :
    Inv (processLastKey config keycode record s) ∧ (processLastKey config keycode record s).repetition = s.repetition ∧
      (processLastKey config keycode record s).outputs = s.outputs := by
  unfold processLastKey
  split_ifs
  · exact ⟨inv, rfl, rfl⟩
  · split
    · exact ⟨⟨inv.idle, inv.registered, inv.alternate⟩, rfl, rfl⟩
    · exact ⟨inv, rfl, rfl⟩
  · exact ⟨inv, rfl, rfl⟩

/-- The Repeat Key is not remembered. -/
theorem processLastKey_repeat (record : Record) (s : State) : processLastKey config qkRepeatKey record s = s := by
  have ignored : isIgnored qkRepeatKey record = true := by simp [isIgnored]
  have forgotten : ∀ mods, rememberLastKey config qkRepeatKey record mods = none := fun _ => if_pos ignored
  unfold processLastKey
  rw [forgotten]
  split_ifs <;> rfl

/-! ## The events of other keys -/

/-- The Alternate Repeat Key does nothing, or repeats a record. -/
theorem altRepeatKeyInvoke_cases (config : Config) (event : Event) {s : State} (inv : Inv s) :
    (∃ t, (∀ process, altRepeatKeyInvoke config process event s = some t) ∧ Inv t ∧ t.repetition = s.repetition) ∨
      ∃ record t, (∀ process, altRepeatKeyInvoke config process event s =
          (process record t).bind fun u => some { u with processingRepeatCount := 0 }) ∧
        t.processingRepeatCount ≠ 0 ∧ Inv { t with processingRepeatCount := 0 } ∧ t.repetition = s.repetition := by
  unfold altRepeatKeyInvoke
  simp only [if_neg (not_not_intro inv.idle)]
  generalize registered : (if event.pressed = true then
      { s with altRegisteredRecord := ⟨⟨0, false⟩, 0, config.getAltRepeatKeyKeycode s.lastRecord.keycode s.lastMods⟩ }
    else s) = t
  have same : t.repetition = s.repetition ∧ t.processingRepeatCount = 0 ∧
      (t.registeredRecord.keycode = 0 ↔ t.registeredRepeatCount = 0) ∧
      (event.pressed = false → t.altRegisteredRecord.keycode ≠ 0 → t.altRegisteredRepeatCount ≠ 0) := by
    subst registered
    split
    next pressed => exact ⟨rfl, inv.idle, inv.registered, fun released => by rw [pressed] at released; cases released⟩
    next => exact ⟨rfl, inv.idle, inv.registered, fun _ => inv.alternate⟩
  obtain ⟨same, idle, count, alternate⟩ := same
  by_cases none : t.altRegisteredRecord.keycode = 0
  · exact .inl ⟨t, fun _ => if_pos none, ⟨idle, count, fun some => absurd none some⟩, same⟩
  · simp only [if_neg none]
    generalize counted : (if event.pressed = true then
        { t.updateLastRepeatCount (-1) with
          altRegisteredRepeatCount := (t.updateLastRepeatCount (-1)).lastRepeatCount }
      else t) = u
    have still : u.repetition = t.repetition ∧ u.altRegisteredRecord = t.altRegisteredRecord ∧
        u.altRegisteredRepeatCount ≠ 0 := by
      subst counted
      split
      next =>
        have nonzero := t.updateLastRepeatCount_down
        rw [State.updateLastRepeatCount_same]
        exact ⟨rfl, rfl, nonzero⟩
      next released => exact ⟨rfl, rfl, alternate (Bool.eq_false_iff.mpr released) none⟩
    obtain ⟨still, -, nonzero⟩ := still
    refine .inr ⟨_, _, fun _ => rfl, nonzero, ⟨rfl, ?_, fun _ => nonzero⟩, still.trans same⟩
    show u.repetition.1.keycode = 0 ↔ u.repetition.2.1 = 0
    rw [still]
    exact count

theorem altRepeatKeyInvoke_spec (config : Config) (fuel : Nat) (event : Event) {s : State} (inv : Inv s) :
    ∃ t, altRepeatKeyInvoke config (processRecord config (fuel + 1)) event s = some t ∧ Inv t ∧
      t.repetition = s.repetition := by
  obtain ⟨t, ends, inv, same⟩ | ⟨record, t, calls, repeating, inv, same⟩ := altRepeatKeyInvoke_cases config event inv
  · exact ⟨t, ends _, inv, same⟩
  · rw [calls, processRecord_nested config fuel _ repeating]
    exact ⟨_, rfl, ⟨rfl, inv.registered, inv.alternate⟩, same⟩

theorem begin_inv {s : State} (inv : Inv s) (input : Input) : Inv (s.begin input) :=
  ⟨inv.idle, inv.registered, inv.alternate⟩

/-- Other keys, and the Alternate Repeat Key, leave what the Repeat Key has registered. -/
theorem step_other (config : Config) {s : State} (inv : Inv s) {input : Input} (other : input.keycode ≠ qkRepeatKey) :
    ∃ t, step config s input = some t ∧ Inv t ∧ t.repetition = s.repetition := by
  have begun : (s.begin input).repetition = s.repetition := by
    show (_, _, Function.update s.down input.keycode (!s.down input.keycode) qkRepeatKey) = _
    rw [Function.update_of_ne (Ne.symm other)]
    rfl
  have keycode : (input.record (!s.down input.keycode)).getKeycode = input.keycode := rfl
  obtain ⟨inv, same, -⟩ :=
    processLastKey_spec config input.keycode (input.record (!s.down input.keycode)) (begin_inv inv input)
  rw [step, processRecord, keycode]
  generalize processLastKey config input.keycode (input.record (!s.down input.keycode)) (s.begin input) = t at inv same
  rw [if_neg (not_not_intro inv.idle), if_neg other]
  split
  next =>
    obtain ⟨u, invoked, inv, still⟩ := altRepeatKeyInvoke_spec config 0 _ inv
    exact ⟨u, invoked, inv, (still.trans same).trans begun⟩
  next => exact ⟨_, rfl, ⟨inv.idle, inv.registered, inv.alternate⟩, same.trans begun⟩

/-! ## The events of the Repeat Key -/

theorem processRecord_repeat {fuel : Nat} {record : Record} {s : State} (same : record.getKeycode = qkRepeatKey)
    (idle : s.processingRepeatCount = 0) :
    processRecord config (fuel + 1) record s = repeatKeyInvoke (processRecord config fuel) record.event s := by
  rw [processRecord, same, processLastKey_repeat, if_neg (not_not_intro idle), if_pos rfl]

theorem step_repeat {s : State} (inv : Inv s) {input : Input} (same : input.keycode = qkRepeatKey) :
    step config s input =
      repeatKeyInvoke (processRecord config 1) ⟨qkRepeatKey, !s.down qkRepeatKey⟩ (s.begin input) := by
  have keycode : (input.record (!s.down input.keycode)).getKeycode = qkRepeatKey := same
  rw [step, processRecord_repeat keycode (by exact inv.idle), Input.record, same]

/-- Without a last key, nothing happens. -/
theorem invoke_none {s : State} (fuel : Nat) (event : Event) (none : s.lastRecord.keycode = 0) :
    repeatKeyInvoke (processRecord config fuel) event s = some s := if_pos (.inr none)

theorem repeatKeyPress_eq (s : State) :
    repeatKeyPress s =
      { s with
        weakMods := s.weakMods ||| s.lastMods
        outputs := s.outputs ++ if s.lastMods = 0 then [] else [.registerWeakMods s.lastMods]
        lastRepeatCount := (s.updateLastRepeatCount 1).lastRepeatCount
        registeredRecord := s.lastRecord
        registeredRepeatCount := (s.updateLastRepeatCount 1).lastRepeatCount } := by
  rw [repeatKeyPress, State.updateLastRepeatCount_same, State.registerWeakMods_eq]

theorem invoke_some {s : State} (fuel : Nat) (event : Event) (inv : Inv s) (last : s.lastRecord.keycode ≠ 0) :
    repeatKeyInvoke (processRecord config fuel) event s =
      let s := if event.pressed then repeatKeyPress s else s
      let record := { s.registeredRecord with event := event }
      let s := { s with registeredRecord := record, processingRepeatCount := s.registeredRepeatCount }
      (processRecord config fuel record (s.emit (.feed record.keycode event.pressed))).bind fun s =>
        let s := { s with processingRepeatCount := 0 }
        some (if event.pressed then s else s.unregisterWeakMods s.lastMods) :=
  if_neg (not_or.mpr ⟨not_not_intro inv.idle, last⟩)

/-- The press applies the last modifiers and repeats the last key. -/
theorem invoke_press {s : State} (fuel : Nat) (inv : Inv s) (last : s.lastRecord.keycode ≠ 0) :
    ∃ t, repeatKeyInvoke (processRecord config (fuel + 1)) ⟨qkRepeatKey, true⟩ s = some t ∧ Inv t ∧
      t.down = s.down ∧ t.registeredRecord.keycode = s.lastRecord.keycode ∧
      t.outputs = s.outputs ++ (if s.lastMods = 0 then [] else [.registerWeakMods s.lastMods]) ++
        [.feed s.lastRecord.keycode true, .handle s.lastRecord.keycode true] := by
  have count := s.updateLastRepeatCount_up
  rw [invoke_some _ _ inv last, if_pos rfl, repeatKeyPress_eq]
  dsimp only
  rw [processRecord_nested config fuel _ count]
  refine ⟨_, rfl, ⟨rfl, ⟨fun none => absurd none last, fun none => absurd none count⟩, inv.alternate⟩, rfl, rfl, ?_⟩
  show _ ++ [_] ++ [Output.handle (Record.getKeycode _) true] = _
  rw [Record.getKeycode_of_ne _ (by exact last)]
  simp

/-- The release repeats what is registered, and unregisters the last modifiers. -/
theorem invoke_release {s : State} (fuel : Nat) (inv : Inv s) (last : s.lastRecord.keycode ≠ 0)
    (registered : s.registeredRecord.keycode ≠ 0) :
    ∃ t, repeatKeyInvoke (processRecord config (fuel + 1)) ⟨qkRepeatKey, false⟩ s = some t ∧ Inv t ∧
      t.down = s.down ∧
      t.outputs = s.outputs ++ [.feed s.registeredRecord.keycode false, .handle s.registeredRecord.keycode false] ++
        (if s.lastMods = 0 then [] else [.unregisterWeakMods s.lastMods]) := by
  have count : s.registeredRepeatCount ≠ 0 := fun zero => registered (inv.registered.mpr zero)
  rw [invoke_some _ _ inv last, if_neg Bool.false_ne_true]
  dsimp only
  rw [processRecord_nested config fuel _ count]
  refine ⟨_, rfl, ?_⟩
  rw [if_neg Bool.false_ne_true, State.unregisterWeakMods_eq]
  refine ⟨⟨rfl, inv.registered, inv.alternate⟩, rfl, ?_⟩
  show _ ++ [_] ++ [Output.handle (Record.getKeycode _) false] ++ _ = _
  rw [Record.getKeycode_of_ne _ (by exact registered), List.append_assoc s.outputs]
  rfl

/-- With a last key but nothing registered, the release calls itself without end. -/
theorem invoke_diverges {s : State} (fuel : Nat) (inv : Inv s) (last : s.lastRecord.keycode ≠ 0)
    (empty : s.registeredRecord.keycode = 0) :
    repeatKeyInvoke (processRecord config fuel) ⟨qkRepeatKey, false⟩ s = none := by
  induction fuel generalizing s with
  | zero =>
    rw [invoke_some _ _ inv last, if_neg Bool.false_ne_true]
    rfl
  | succ fuel ih =>
    have count : s.registeredRepeatCount = 0 := inv.registered.mp empty
    rw [invoke_some _ _ inv last, if_neg Bool.false_ne_true]
    dsimp only
    -- the record has no keycode, so the keymap says that it is the Repeat Key
    rw [processRecord_repeat (by simp [Record.getKeycode, empty]) count]
    generalize fed : State.emit (.feed s.registeredRecord.keycode false) _ = t
    have still : Inv t := by
      subst fed
      exact ⟨count, inv.registered, inv.alternate⟩
    rw [ih still (by subst fed; exact last) (by subst fed; exact empty)]
    rfl

/-! ## Fuel -/

theorem invoke_fuel (config : Config) {s : State} (inv : Inv s) (pressed : Bool) (fuel : Nat) :
    repeatKeyInvoke (processRecord config (fuel + 1)) ⟨qkRepeatKey, pressed⟩ s =
      repeatKeyInvoke (processRecord config 1) ⟨qkRepeatKey, pressed⟩ s := by
  by_cases last : s.lastRecord.keycode = 0
  · rw [invoke_none _ _ last, invoke_none _ _ last]
  · cases pressed with
    | true =>
      have count := s.updateLastRepeatCount_up
      rw [invoke_some _ _ inv last, invoke_some _ _ inv last, if_pos rfl, repeatKeyPress_eq]
      dsimp only
      rw [processRecord_nested config fuel _ count, processRecord_nested config 0 _ count]
    | false =>
      by_cases registered : s.registeredRecord.keycode = 0
      · rw [invoke_diverges _ inv last registered, invoke_diverges _ inv last registered]
      · have count : s.registeredRepeatCount ≠ 0 := fun zero => registered (inv.registered.mpr zero)
        rw [invoke_some _ _ inv last, invoke_some _ _ inv last, if_neg Bool.false_ne_true]
        dsimp only
        rw [processRecord_nested config fuel _ count, processRecord_nested config 0 _ count]

/-- The fuel of a step is enough: with more of it the step is the same, also where it does not end. -/
theorem step_fuel (config : Config) {s : State} (inv : Inv s) (input : Input) (fuel : Nat) :
    processRecord config (fuel + 2) (input.record (!s.down input.keycode)) (s.begin input) = step config s input := by
  by_cases same : input.keycode = qkRepeatKey
  · have keycode : (input.record (!s.down input.keycode)).getKeycode = qkRepeatKey := same
    rw [step_repeat inv same, processRecord_repeat keycode (by exact inv.idle), Input.record, same]
    exact invoke_fuel config (begin_inv inv input) _ fuel
  · have keycode : (input.record (!s.down input.keycode)).getKeycode = input.keycode := rfl
    obtain ⟨inv, -⟩ :=
      processLastKey_spec config input.keycode (input.record (!s.down input.keycode)) (begin_inv inv input)
    rw [step, processRecord, processRecord, keycode]
    generalize processLastKey config input.keycode (input.record (!s.down input.keycode)) (s.begin input) = t at inv
    rw [if_neg (not_not_intro inv.idle), if_neg same, if_neg (not_not_intro inv.idle), if_neg same]
    split
    next =>
      obtain ⟨u, ends, -⟩ | ⟨record, u, calls, repeating, -⟩ := altRepeatKeyInvoke_cases config _ inv
      · rw [ends, ends]
      · rw [calls, calls, processRecord_nested config fuel _ repeating, processRecord_nested config 0 _ repeating]
    next => rfl

/-! ## Balance -/

theorem initial_inv : Inv initial := ⟨rfl, ⟨fun _ => rfl, fun _ => rfl⟩, fun some => absurd rfl some⟩

/-- A press of the Repeat Key and its release, in a run that comes to the press in a state `s`, has pressed it in a state
`pressed`, and comes to the release in a state `t`. -/
structure Hold (config : Config) (s : State) (press : Input) (pressed : State) (middle : List Input) (t : State)
    (release : Input) : Prop where
  up : s.down qkRepeatKey = false
  presses : press.keycode = qkRepeatKey
  press : step config s press = some pressed
  others : ∀ input ∈ middle, input.keycode ≠ qkRepeatKey
  middle : middle.foldlM (step config) pressed = some t
  releases : release.keycode = qkRepeatKey

/-- The modifiers that are registered. -/
def registered (outputs : List Output) : List (BitVec 8) :=
  outputs.filterMap fun
    | .registerWeakMods mods => some mods
    | _ => none

def unregistered (outputs : List Output) : List (BitVec 8) :=
  outputs.filterMap fun
    | .unregisterWeakMods mods => some mods
    | _ => none

/-- The release ends, releases each key that the press has pressed, and unregisters the modifiers that the press has
registered. -/
def Balanced (pressed : State) (release : Option State) : Prop :=
  ∃ released, release = some released ∧
    (∀ keycode, .feed keycode true ∈ pressed.outputs → .feed keycode false ∈ released.outputs) ∧
    registered pressed.outputs = unregistered released.outputs

/-- When the Repeat Key is released, there is a last key, with the modifiers as they were when it was pressed.  If there
was none when it was pressed, there is none, or its modifiers are none and an earlier key has been repeated. -/
def Unchanged (s t : State) : Prop :=
  if s.lastRecord.keycode = 0 then
    t.lastRecord.keycode = 0 ∨ (t.lastMods = 0 ∧ t.registeredRecord.keycode ≠ 0)
  else t.lastRecord.keycode ≠ 0 ∧ t.lastMods = s.lastMods

theorem middle_spec {inputs : List Input} (others : ∀ input ∈ inputs, input.keycode ≠ qkRepeatKey) {s t : State}
    (inv : Inv s) (run : inputs.foldlM (step config) s = some t) : Inv t ∧ t.repetition = s.repetition := by
  induction inputs generalizing s with
  | nil =>
    cases run
    exact ⟨inv, rfl⟩
  | cons input inputs ih =>
    obtain ⟨u, stepped, inv, same⟩ := step_other config inv (others input (List.mem_cons_self ..))
    rw [List.foldlM_cons, stepped] at run
    obtain ⟨inv, still⟩ := ih (fun other later => others other (List.mem_cons_of_mem _ later)) inv run
    exact ⟨inv, still.trans same⟩

section Steps

variable {s : State} {input : Input}

theorem begin_down (same : input.keycode = qkRepeatKey) : (s.begin input).down qkRepeatKey = !s.down qkRepeatKey := by
  show Function.update s.down input.keycode _ qkRepeatKey = _
  rw [same, Function.update_self]

/-- Without a last key, the Repeat Key does nothing. -/
theorem step_none (config : Config) (inv : Inv s) (same : input.keycode = qkRepeatKey) (none : s.lastRecord.keycode = 0) :
    step config s input = some (s.begin input) := by
  rw [step_repeat inv same, invoke_none _ _ (by exact none)]

theorem step_press (config : Config) (inv : Inv s) (same : input.keycode = qkRepeatKey)
    (up : s.down qkRepeatKey = false) (last : s.lastRecord.keycode ≠ 0) :
    ∃ t, step config s input = some t ∧ Inv t ∧ t.down qkRepeatKey = true ∧
      t.registeredRecord.keycode = s.lastRecord.keycode ∧
      t.outputs = (if s.lastMods = 0 then [] else [.registerWeakMods s.lastMods]) ++
        [.feed s.lastRecord.keycode true, .handle s.lastRecord.keycode true] := by
  obtain ⟨t, stepped, inv', down, registered, outputs⟩ := @invoke_press config _ 0 (begin_inv inv input) last
  rw [step_repeat inv same, up]
  refine ⟨t, stepped, inv', ?_, registered, outputs⟩
  rw [down, begin_down same, up]
  rfl

theorem step_release (config : Config) (inv : Inv s) (same : input.keycode = qkRepeatKey)
    (down : s.down qkRepeatKey = true) (last : s.lastRecord.keycode ≠ 0) (registered : s.registeredRecord.keycode ≠ 0) :
    ∃ t, step config s input = some t ∧ Inv t ∧
      t.outputs = [.feed s.registeredRecord.keycode false, .handle s.registeredRecord.keycode false] ++
        (if s.lastMods = 0 then [] else [.unregisterWeakMods s.lastMods]) := by
  obtain ⟨t, stepped, inv', -, outputs⟩ := @invoke_release config _ 0 (begin_inv inv input) last registered
  rw [step_repeat inv same, down]
  exact ⟨t, stepped, inv', outputs⟩

theorem step_diverges (config : Config) (inv : Inv s) (same : input.keycode = qkRepeatKey)
    (down : s.down qkRepeatKey = true) (last : s.lastRecord.keycode ≠ 0) (empty : s.registeredRecord.keycode = 0) :
    step config s input = none := by
  rw [step_repeat inv same, down]
  exact invoke_diverges 1 (begin_inv inv input) last empty

theorem step_inv {t : State} (inv : Inv s) (stepped : step config s input = some t) : Inv t := by
  by_cases same : input.keycode = qkRepeatKey
  · by_cases last : s.lastRecord.keycode = 0
    · rw [step_none config inv same last] at stepped
      cases stepped
      exact begin_inv inv input
    · cases down : s.down qkRepeatKey with
      | false =>
        obtain ⟨u, pressed, inv', -⟩ := step_press config inv same down last
        rw [pressed] at stepped
        cases stepped
        exact inv'
      | true =>
        by_cases registered : s.registeredRecord.keycode = 0
        · rw [step_diverges config inv same down last registered] at stepped
          cases stepped
        · obtain ⟨u, released, inv', -⟩ := step_release config inv same down last registered
          rw [released] at stepped
          cases stepped
          exact inv'
  · obtain ⟨u, other, inv', -⟩ := step_other config inv same
    rw [other] at stepped
    cases stepped
    exact inv'

theorem run_inv {inputs : List Input} (inv : Inv s) {t : State} (run : inputs.foldlM (step config) s = some t) :
    Inv t := by
  induction inputs generalizing s with
  | nil =>
    cases run
    exact inv
  | cons input inputs ih =>
    rw [List.foldlM_cons] at run
    obtain ⟨u, stepped, rest⟩ := Option.bind_eq_some_iff.mp run
    exact ih (step_inv inv stepped) rest

end Steps

theorem registered_press (mods : BitVec 8) (keycode : Keycode) :
    registered ((if mods = 0 then [] else [.registerWeakMods mods]) ++ [.feed keycode true, .handle keycode true]) =
      if mods = 0 then [] else [mods] := by
  split <;> rfl

theorem unregistered_release (mods : BitVec 8) (keycode : Keycode) :
    unregistered ([.feed keycode false, .handle keycode false] ++ (if mods = 0 then [] else [.unregisterWeakMods mods])) =
      if mods = 0 then [] else [mods] := by
  split <;> rfl

section Hold

variable {s : State} {press : Input} {pressed : State} {middle : List Input} {t : State} {release : Input}

/-- Before the release, what the press has registered is as it was. -/
theorem Hold.press_none (inv : Inv s) (hold : Hold config s press pressed middle t release)
    (none : s.lastRecord.keycode = 0) :
    pressed.outputs = [] ∧ Inv t ∧ t.down qkRepeatKey = true ∧ t.registeredRecord = s.registeredRecord := by
  have stepped := step_none config inv hold.presses none
  rw [hold.press] at stepped
  cases stepped
  obtain ⟨inv', same⟩ := middle_spec hold.others (begin_inv inv press) hold.middle
  refine ⟨rfl, inv', ?_, congrArg Prod.fst same⟩
  have down : t.down qkRepeatKey = (s.begin press).down qkRepeatKey := congrArg (fun repetition => repetition.2.2) same
  rw [down, begin_down hold.presses, hold.up]
  rfl

theorem Hold.press_some (inv : Inv s) (hold : Hold config s press pressed middle t release)
    (last : s.lastRecord.keycode ≠ 0) :
    pressed.outputs = (if s.lastMods = 0 then [] else [.registerWeakMods s.lastMods]) ++
        [.feed s.lastRecord.keycode true, .handle s.lastRecord.keycode true] ∧
      Inv t ∧ t.down qkRepeatKey = true ∧ t.registeredRecord.keycode = s.lastRecord.keycode := by
  obtain ⟨u, stepped, inv', down, registered, outputs⟩ := step_press config inv hold.presses hold.up last
  rw [hold.press] at stepped
  cases stepped
  obtain ⟨inv', same⟩ := middle_spec hold.others inv' hold.middle
  have still : t.registeredRecord = pressed.registeredRecord := congrArg Prod.fst same
  have kept : t.down qkRepeatKey = pressed.down qkRepeatKey := congrArg (fun repetition => repetition.2.2) same
  exact ⟨outputs, inv', kept.trans down, by rw [still, registered]⟩

theorem mods_eq_iff (mods other : BitVec 8) :
    ((if mods = 0 then [] else [mods]) = if other = 0 then [] else [other]) ↔ other = mods := by
  by_cases none : mods = 0
  · by_cases also : other = 0 <;> simp [none, also]
  · by_cases also : other = 0
    · rw [if_neg none, if_pos also, also]
      exact iff_of_false nofun (Ne.symm none)
    · rw [if_neg none, if_neg also, List.singleton_inj]
      exact eq_comm

theorem balanced_some (pressed released : State) :
    Balanced pressed (some released) ↔
      (∀ keycode, .feed keycode true ∈ pressed.outputs → .feed keycode false ∈ released.outputs) ∧
        registered pressed.outputs = unregistered released.outputs := by
  simp [Balanced]

/-- A hold is balanced exactly if the last key is unchanged. -/
theorem hold_balanced_iff (inv : Inv s) (hold : Hold config s press pressed middle t release) :
    Balanced pressed (step config t release) ↔ Unchanged s t := by
  unfold Unchanged
  split
  next none =>
    obtain ⟨outputs, inv', down, -⟩ := hold.press_none inv none
    by_cases last : t.lastRecord.keycode = 0
    · rw [step_none config inv' hold.releases last, balanced_some, outputs]
      exact iff_of_true ⟨nofun, rfl⟩ (.inl last)
    · by_cases empty : t.registeredRecord.keycode = 0
      · rw [step_diverges config inv' hold.releases down last empty]
        refine iff_of_false ?_ ?_
        · rintro ⟨released, ends, -⟩
          cases ends
        · rintro (gone | ⟨-, earlier⟩)
          · exact last gone
          · exact earlier empty
      · -- an earlier key is released again, with modifiers that this press has not registered
        obtain ⟨u, released, -, after⟩ := step_release config inv' hold.releases down last empty
        rw [released, balanced_some, outputs, after, unregistered_release]
        have mods := mods_eq_iff 0 t.lastMods
        rw [if_pos rfl] at mods
        constructor
        · rintro ⟨-, same⟩
          exact .inr ⟨mods.mp same, empty⟩
        · rintro (gone | ⟨none, -⟩)
          · exact absurd gone last
          · exact ⟨nofun, mods.mpr none⟩
  next last =>
    obtain ⟨outputs, inv', down, same⟩ := hold.press_some inv last
    by_cases gone : t.lastRecord.keycode = 0
    · -- the key that has been pressed is not released
      rw [step_none config inv' hold.releases gone, balanced_some, outputs]
      refine iff_of_false ?_ fun unchanged => unchanged.1 gone
      rintro ⟨released, -⟩
      cases released s.lastRecord.keycode (by simp)
    · have some : t.registeredRecord.keycode ≠ 0 := same ▸ last
      obtain ⟨u, released, -, after⟩ := step_release config inv' hold.releases down gone some
      rw [released, balanced_some, outputs, after, registered_press, unregistered_release, mods_eq_iff, same]
      refine and_congr_left fun _ => iff_of_true ?_ gone
      intro keycode pressed
      have key : keycode = s.lastRecord.keycode := by
        revert pressed
        split <;> simp
      simp [key]

end Hold

/-- Every hold of the Repeat Key in a run has the property. -/
def EveryHold (config : Config) (property : State → Input → State → State → Input → Prop) (inputs : List Input) : Prop :=
  ∀ before press middle release after s pressed t, inputs = before ++ press :: middle ++ release :: after →
    run config before = some s → Hold config s press pressed middle t release → property s press pressed t release

/-- In every run, the holds of the Repeat Key are balanced exactly if each of them finds the last key unchanged. -/
theorem holds_balanced_iff (config : Config) (inputs : List Input) :
    EveryHold config (fun _ _ pressed t release => Balanced pressed (step config t release)) inputs ↔
      EveryHold config (fun s _ _ t _ => Unchanged s t) inputs := by
  constructor
  · intro balanced before press middle release after s pressed t split reached hold
    have inv : Inv s := run_inv initial_inv reached
    exact (hold_balanced_iff inv hold).mp (balanced before press middle release after s pressed t split reached hold)
  · intro unchanged before press middle release after s pressed t split reached hold
    have inv : Inv s := run_inv initial_inv reached
    exact (hold_balanced_iff inv hold).mpr (unchanged before press middle release after s pressed t split reached hold)

/-- A user that lets every key be remembered, and no alternates. -/
def plain : Config := ⟨fun _ _ mods => some mods, fun _ _ => 0⟩

/-- Presses A, repeats it, and presses a key that is `KC_NO` before the Repeat Key is released. -/
def rolledToNothing : List Input :=
  [⟨0x04, 0, 0, 0, 0⟩, ⟨0x04, 0, 0, 0, 0⟩, ⟨qkRepeatKey, 0, 0, 0, 0⟩, ⟨0, 0, 0, 0, 0⟩, ⟨qkRepeatKey, 0, 0, 0, 0⟩]

theorem rolledToNothing_stuck :
    ¬ EveryHold plain (fun _ _ pressed t release => Balanced pressed (step plain t release)) rolledToNothing := by
  intro balanced
  obtain ⟨released, ends, follows, -⟩ := balanced (rolledToNothing.take 2) _ [⟨0, 0, 0, 0, 0⟩] _ [] _ _ _ rfl rfl
    ⟨by decide +kernel, rfl, rfl, by decide, rfl, rfl⟩
  have missing := follows 0x04 (by decide +kernel)
  cases ends
  revert missing
  decide +kernel

end QmkFirmware.RepeatKey
