import QmkFirmware.Action.Held
import QmkFirmware.Keyboard.MatrixTask
import QmkFirmware.Tapping.Model

/-! # From the matrix to the host

Each event of the matrix goes through the tapping, which lets an event of a key that is no tapping key pass at once.  On a
keymap of plain keys the host then has, after each pass, the codes of the keys that are down in the matrix, if its report
has a bit for each key.
-/

namespace QmkFirmware.Action

open QmkFirmware.ActionLayer QmkFirmware.Switches
open QmkFirmware.Keyboard (KeyEvent Pass)

/-- A keymap that has a key code of its own at each position, whatever the layer. -/
structure PlainKeymap (cfg : Config) (codeAt : KeyPos → Keycode) : Prop where
  action : ∀ layer key, cfg.keyboard.InMatrix key → cfg.actionForKey layer key = .ofNat (codeAt key).toNat
  basic : ∀ key, cfg.keyboard.InMatrix key → isBasicKeycode (codeAt key) = true
  injective : ∀ key other, cfg.keyboard.InMatrix key → cfg.keyboard.InMatrix other → codeAt key = codeAt other → key = other

/-- The record of a key that is not a tapping key. -/
def plainRecord (key : KeyPos) (pressed : Bool) : Record where
  key := key
  pressed := pressed
  tapCount := 0
  accepted := true
  releaseAccepted := true

def eventOps (now : BitVec 16) (key : KeyPos) (pressed : Bool) : List (BitVec 16 × Op) :=
  [(now, .exec pressed), (now, .record (plainRecord key pressed))]

section Plain

variable {cfg : Config} {s : State cfg.keyboard} {codeAt : KeyPos → Keycode}

/-! ## Plain keys -/

theorem toNat_plain (code : Keycode) : (UInt16.ofNat code.toNat).toNat = code.toNat :=
  UInt16.toNat_ofNat_of_lt' (Nat.lt_trans code.isLt (by decide))

theorem kindId_plain (code : Keycode) : kindId (.ofNat code.toNat) = .lmods := by
  have small := code.isLt
  have high : code.toNat / 2 ^ 12 = 0 := by omega
  unfold kindId
  rw [toNat_plain, high]
  rfl

theorem keyCode_plain (code : Keycode) : keyCode (.ofNat code.toNat) = code := by
  apply BitVec.eq_of_toNat_eq
  rw [keyCode, BitVec.toNat_setWidth, UInt16.toNat_toBitVec, toNat_plain, Nat.mod_eq_of_lt code.isLt]

theorem actionMods_plain (code : Keycode) : actionMods (.ofNat code.toNat) = 0 := by
  have small := code.isLt
  have high : code.toNat >>> 8 = 0 := by
    rw [Nat.shiftRight_eq_div_pow]
    omega
  have none : keyMods (.ofNat code.toNat) = 0 := by
    apply BitVec.eq_of_toNat_eq
    rw [keyMods, BitVec.toNat_setWidth, BitVec.toNat_and, BitVec.toNat_ushiftRight, UInt16.toNat_toBitVec, toNat_plain, high]
    rfl
  unfold actionMods
  rw [kindId_plain, none]

/-- Nothing is pending. -/
structure Idle (s : State cfg.keyboard) : Prop where
  realMods : s.realMods = 0
  weakMods : s.weakMods = 0
  oneshotMods : s.oneshotMods = 0
  oneshotLayerData : s.oneshotLayerData = 0
  swapHandsOneshot : s.swapHandsOneshot = .off

theorem Idle.sendKeyboardReport (idle : Idle s) : Idle (sendKeyboardReport cfg s) := by
  obtain ⟨left, time, mods, less, -, same⟩ := sendKeyboardReport_spec cfg s
  have none : left = 0 := by
    apply BitVec.eq_of_getLsbD_eq
    intro bit _
    rw [Bool.eq_iff_iff]
    have clear := less bit
    rw [idle.oneshotMods] at clear
    simpa using clear
  rw [same]
  exact ⟨idle.realMods, idle.weakMods, none, idle.oneshotLayerData, idle.swapHandsOneshot⟩

theorem Idle.mods_zero (idle : Idle s) : (Action.sendKeyboardReport cfg s).report.mods = 0 := by
  obtain ⟨left, time, mods, -, carried, same⟩ := sendKeyboardReport_spec cfg s
  rw [same]
  show mods = 0
  apply BitVec.eq_of_getLsbD_eq
  intro bit _
  rw [Bool.eq_iff_iff]
  have clear := carried bit
  rw [idle.realMods, idle.weakMods, idle.oneshotMods] at clear
  simpa using clear

/-- Nothing can time out. -/
theorem Idle.actionExec (idle : Idle s) (pressed : Bool) : actionExec pressed s = s := by
  have weak : (if pressed then clearWeakMods s else s) = s := by
    split
    · rw [clearWeakMods, ← idle.weakMods]
    · rfl
  have layer : clearOneshotLayerState cfg oneshotOtherKeyPressed s = s := by
    have same : s.oneshotLayerData &&& ~~~oneshotOtherKeyPressed = s.oneshotLayerData := by
      rw [idle.oneshotLayerData]
      rfl
    unfold clearOneshotLayerState
    dsimp only
    rw [same, if_neg (fun used => used.1.2 rfl)]
  have mods : clearOneshotMods s = s := if_neg (not_not_intro idle.oneshotMods)
  have swap : hasOneshotSwaphandsTimedOut cfg s = false := by simp [hasOneshotSwaphandsTimedOut, idle.swapHandsOneshot]
  unfold Action.actionExec
  simp only [weak, layer, mods, swap, ite_self, Bool.false_eq_true, and_false, if_false]

theorem Idle.useOneshotSwaphands (idle : Idle s) : useOneshotSwaphands s = s := by
  unfold Action.useOneshotSwaphands
  rw [idle.swapHandsOneshot]

theorem registerCode_basic {code : Keycode} (basic : isBasicKeycode code = true) (up : isKeyPressed code s.report.keys = false) :
    registerCode cfg code s = sendKeyboardReport cfg (addKey code s) := by
  have key : code ≠ kcNo := by
    rintro rfl
    cases basic
  unfold registerCode
  rw [if_neg key, if_pos basic, if_neg (Bool.eq_false_iff.mp up)]

theorem unregisterCode_basic {code : Keycode} (basic : isBasicKeycode code = true) :
    unregisterCode cfg code s = sendKeyboardReport cfg (delKey code s) := by
  have key : code ≠ kcNo := by
    rintro rfl
    cases basic
  unfold unregisterCode
  rw [if_neg key, if_pos basic]

theorem Idle.addKey (idle : Idle s) (code : Keycode) : Idle (addKey code s) :=
  ⟨idle.realMods, idle.weakMods, idle.oneshotMods, idle.oneshotLayerData, idle.swapHandsOneshot⟩

theorem Idle.delKey (idle : Idle s) (code : Keycode) : Idle (delKey code s) :=
  ⟨idle.realMods, idle.weakMods, idle.oneshotMods, idle.oneshotLayerData, idle.swapHandsOneshot⟩

/-- A plain key that is up registers its code, and one that is down unregisters it again. -/
theorem processRecord_plain (keymap : PlainKeymap cfg codeAt) {key : KeyPos} (inside : cfg.keyboard.InMatrix key) (pressed : Bool)
    (idle : Idle s) (changes : isKeyPressed (codeAt key) s.report.keys = !pressed) :
    ∃ caches, processRecord (plainRecord key pressed) s =
      if pressed then registerCode cfg (codeAt key) { s with caches := caches }
      else unregisterCode cfg (codeAt key) { s with caches := caches } := by
  have action : (storeOrGet (plainRecord key pressed) s).1 = .ofNat (codeAt key).toNat := keymap.action _ _ inside
  refine ⟨(storeOrGet (plainRecord key pressed) s).2.caches, ?_⟩
  have inactive : isOneshotLayerActive s = false := by
    rw [isOneshotLayerActive, getOneshotLayerState, idle.oneshotLayerData]
    rfl
  have unused (action : ActionCode) : usesOneshotLayer cfg (plainRecord key pressed) action
      (storeOrGet (plainRecord key pressed) s).2 = false := by
    have same : isOneshotLayerActive (storeOrGet (plainRecord key pressed) s).2 = isOneshotLayerActive s := rfl
    simp [usesOneshotLayer, same, inactive]
  have kind (t : State cfg.keyboard) : processKind cfg (.ofNat (codeAt key).toNat) pressed 0 t =
      if pressed then registerCode cfg (codeAt key) t else unregisterCode cfg (codeAt key) t := by
    unfold processKind
    rw [kindId_plain]
    dsimp only
    unfold processMods
    rw [actionMods_plain, keyCode_plain]
    rfl
  unfold processRecord
  rw [if_pos (show (plainRecord key pressed).accepted = true from rfl)]
  dsimp only
  rw [action]
  unfold processAction
  dsimp only
  rw [unused, if_neg Bool.false_ne_true, if_neg (fun ends => Bool.false_ne_true ends.1.1)]
  show processActionKind cfg (.ofNat (codeAt key).toNat) pressed 0 _ = _
  unfold processActionKind
  rw [kind]
  dsimp only
  split
  · next swaps =>
    have idleStart : Idle (storeOrGet (plainRecord key pressed) s).2 :=
      ⟨idle.realMods, idle.weakMods, idle.oneshotMods, idle.oneshotLayerData, idle.swapHandsOneshot⟩
    rw [if_pos swaps.1, registerCode_basic (keymap.basic key inside) (by rwa [swaps.1] at changes),
      ((idleStart.addKey _).sendKeyboardReport).useOneshotSwaphands, if_pos swaps.1,
      registerCode_basic (keymap.basic key inside) (by rwa [swaps.1] at changes)]
    rfl
  · rfl

theorem eventOps_run (keymap : PlainKeymap cfg codeAt) {key : KeyPos} (inside : cfg.keyboard.InMatrix key) (now : BitVec 16)
    (pressed : Bool) (idle : Idle s) (changes : isKeyPressed (codeAt key) s.report.keys = !pressed) :
    ∃ caches, (eventOps now key pressed).foldl step s =
      sendKeyboardReport cfg (if pressed then addKey (codeAt key) { s with timer := now, caches := caches }
        else delKey (codeAt key) { s with timer := now, caches := caches }) := by
  have timed : Idle { s with timer := now } :=
    ⟨idle.realMods, idle.weakMods, idle.oneshotMods, idle.oneshotLayerData, idle.swapHandsOneshot⟩
  have start : step s (now, .exec pressed) = { s with timer := now } := timed.actionExec pressed
  obtain ⟨caches, same⟩ := processRecord_plain keymap inside pressed timed changes
  refine ⟨caches, ?_⟩
  rw [eventOps, List.foldl_cons, start, List.foldl_cons, List.foldl_nil]
  refine Eq.trans same ?_
  cases pressed with
  | true => exact registerCode_basic (keymap.basic key inside) changes
  | false => exact unregisterCode_basic (keymap.basic key inside)

/-! ## Positions -/

def position (row col : Nat) : KeyPos where
  col := .ofNat col
  row := .ofNat row

theorem position_toNat {keyboard : ActionLayer.Keyboard} {row col : Nat} (rowInside : row < keyboard.matrixRows)
    (colInside : col < keyboard.matrixCols) : (position row col).row.toNat = row ∧ (position row col).col.toNat = col := by
  have rows := keyboard.rows_le
  have cols := keyboard.cols_le
  exact ⟨UInt8.toNat_ofNat_of_lt' (show row < 256 by omega), UInt8.toNat_ofNat_of_lt' (show col < 256 by omega)⟩

theorem position_inMatrix {keyboard : ActionLayer.Keyboard} {row col : Nat} (rowInside : row < keyboard.matrixRows)
    (colInside : col < keyboard.matrixCols) : keyboard.InMatrix (position row col) := by
  obtain ⟨sameRow, sameCol⟩ := position_toNat rowInside colInside
  rw [Keyboard.InMatrix, sameRow, sameCol]
  exact ⟨rowInside, colInside⟩

/-! ## Events -/

theorem isKeyPressed_addKey_basic {code other : Keycode} {keys : Keys} {bits : Vector (BitVec 8) nkroReportBits}
    (basic : isBasicKeycode code = true) (nkro : keys = .nkro bits) :
    isKeyPressed other (addKeyToReport code keys) = true ↔ other = code ∨ isKeyPressed other keys = true := by
  have bounds : 0x04 ≤ code.toNat ∧ code.toNat ≤ 0xA4 := of_decide_eq_true basic
  have nonzero : code ≠ 0#8 := by
    rintro rfl
    exact absurd bounds.1 (by decide)
  rw [nkro, addKeyToReport, isKeyPressed_addKeyBit]
  have inside : code.toNat / 8 < nkroReportBits := by
    rw [nkroReportBits]
    omega
  simp only [nonzero, inside, ne_eq, not_false_eq_true, and_true]

/-- The report has the codes of the keys that are down, and the host has the report. -/
structure Typed (codeAt : KeyPos → Keycode) (down : Nat × Nat → Bool) (s : State cfg.keyboard) : Prop where
  idle : Idle s
  nkro : ∃ bits, s.report.keys = .nkro bits
  keys : ∀ code, isKeyPressed code s.report.keys = true ↔ ∃ row < cfg.keyboard.matrixRows, ∃ col < cfg.keyboard.matrixCols,
    down (row, col) = true ∧ codeAt (position row col) = code
  hostKeys : ∀ code, (host s).pressed code = isKeyPressed code s.report.keys
  hostMods : (host s).mods = 0
  synced : Synced s

theorem Typed.send {down next : Nat × Nat → Bool} {t : State cfg.keyboard} (typed : Typed codeAt down s) (idle : Idle t)
    (calls : t.calls = s.calls) (lastReport : t.lastReport = s.lastReport) (nkro : ∃ bits, t.report.keys = .nkro bits)
    (keys : ∀ code, isKeyPressed code t.report.keys = true ↔ ∃ row < cfg.keyboard.matrixRows,
      ∃ col < cfg.keyboard.matrixCols, next (row, col) = true ∧ codeAt (position row col) = code) :
    Typed codeAt next (sendKeyboardReport cfg t) := by
  have same : host t = host s := by rw [host, calls, host]
  have synced : Synced t := by
    obtain ⟨mods, pressed⟩ := typed.synced
    rw [← same, ← lastReport] at mods
    rw [← same, ← lastReport] at pressed
    exact ⟨mods, pressed⟩
  have sent := @sendKeyboardReport_host _ cfg t synced
  have kept : (sendKeyboardReport cfg t).report.keys = t.report.keys := by
    obtain ⟨left, time, mods, -, -, same⟩ := sendKeyboardReport_spec cfg t
    rw [same]
  refine ⟨idle.sendKeyboardReport, by rwa [kept], by rwa [kept], ?_, ?_, sendKeyboardReport_synced synced⟩
  · rw [sent, kept]
    intro code
    rfl
  · rw [sent]
    exact idle.mods_zero

theorem PlainKeymap.position_eq (keymap : PlainKeymap cfg codeAt) {row col r c : Nat} (rowInside : row < cfg.keyboard.matrixRows)
    (colInside : col < cfg.keyboard.matrixCols) (rInside : r < cfg.keyboard.matrixRows) (cInside : c < cfg.keyboard.matrixCols)
    (same : codeAt (position r c) = codeAt (position row col)) : (r, c) = (row, col) := by
  have equal := keymap.injective _ _ (position_inMatrix rInside cInside) (position_inMatrix rowInside colInside) same
  obtain ⟨rowOf, colOf⟩ := position_toNat rInside cInside
  obtain ⟨ownRow, ownCol⟩ := position_toNat rowInside colInside
  have rows : r = row := rowOf.symm.trans ((congrArg (·.row.toNat) equal).trans ownRow)
  have cols : c = col := colOf.symm.trans ((congrArg (·.col.toNat) equal).trans ownCol)
  rw [rows, cols]

/-- A press adds the code of its key to the codes that are down. -/
theorem codes_press {down : Nat × Nat → Bool} {row col : Nat} (rowInside : row < cfg.keyboard.matrixRows)
    (colInside : col < cfg.keyboard.matrixCols) (code : Keycode) :
    (∃ r < cfg.keyboard.matrixRows, ∃ c < cfg.keyboard.matrixCols,
        turn down ((row, col), true) (r, c) = true ∧ codeAt (position r c) = code) ↔
      code = codeAt (position row col) ∨ ∃ r < cfg.keyboard.matrixRows, ∃ c < cfg.keyboard.matrixCols,
        down (r, c) = true ∧ codeAt (position r c) = code := by
  constructor
  · rintro ⟨r, rInside, c, cInside, set, same⟩
    rw [turn, Function.update_apply] at set
    split at set
    · next equal =>
      cases equal
      exact .inl same.symm
    · exact .inr ⟨r, rInside, c, cInside, set, same⟩
  · rintro (rfl | ⟨r, rInside, c, cInside, set, same⟩)
    · exact ⟨row, rowInside, col, colInside, Function.update_self .., rfl⟩
    · refine ⟨r, rInside, c, cInside, ?_, same⟩
      rw [turn, Function.update_apply]
      split
      · rfl
      · exact set

/-- A release takes the code of its key away, which no other key has. -/
theorem codes_release (keymap : PlainKeymap cfg codeAt) {down : Nat × Nat → Bool} {row col : Nat}
    (rowInside : row < cfg.keyboard.matrixRows) (colInside : col < cfg.keyboard.matrixCols) (code : Keycode) :
    (∃ r < cfg.keyboard.matrixRows, ∃ c < cfg.keyboard.matrixCols,
        turn down ((row, col), false) (r, c) = true ∧ codeAt (position r c) = code) ↔
      code ≠ codeAt (position row col) ∧ ∃ r < cfg.keyboard.matrixRows, ∃ c < cfg.keyboard.matrixCols,
        down (r, c) = true ∧ codeAt (position r c) = code := by
  constructor
  · rintro ⟨r, rInside, c, cInside, set, same⟩
    have elsewhere : (r, c) ≠ (row, col) := by
      intro equal
      rw [turn, equal, Function.update_self] at set
      cases set
    rw [turn, Function.update_of_ne elsewhere] at set
    exact ⟨fun equal => elsewhere (keymap.position_eq rowInside colInside rInside cInside (same.trans equal)),
      r, rInside, c, cInside, set, same⟩
  · rintro ⟨apart, r, rInside, c, cInside, set, same⟩
    have elsewhere : (r, c) ≠ (row, col) := by
      intro equal
      cases equal
      exact apart same.symm
    refine ⟨r, rInside, c, cInside, ?_, same⟩
    rwa [turn, Function.update_of_ne elsewhere]

theorem typed_event (keymap : PlainKeymap cfg codeAt) {down : Nat × Nat → Bool} (typed : Typed codeAt down s) {row col : Nat}
    (rowInside : row < cfg.keyboard.matrixRows) (colInside : col < cfg.keyboard.matrixCols) (now : BitVec 16) (pressed : Bool)
    (changes : down (row, col) = !pressed) :
    Typed codeAt (turn down ((row, col), pressed)) ((eventOps now (position row col) pressed).foldl step s) := by
  have inside := position_inMatrix rowInside colInside
  -- the code is in the report as long as its key is down, since no other key has it
  have before : isKeyPressed (codeAt (position row col)) s.report.keys = !pressed := by
    rw [← changes, Bool.eq_iff_iff, typed.keys]
    constructor
    · rintro ⟨r, rInside, c, cInside, set, same⟩
      rwa [keymap.position_eq rowInside colInside rInside cInside same] at set
    · exact fun set => ⟨row, rowInside, col, colInside, set, rfl⟩
  obtain ⟨caches, same⟩ := eventOps_run keymap inside now pressed typed.idle before
  rw [same]
  have idle : Idle { s with timer := now, caches := caches } := by
    obtain ⟨realMods, weakMods, oneshotMods, layerData, swap⟩ := typed.idle
    exact ⟨realMods, weakMods, oneshotMods, layerData, swap⟩
  obtain ⟨bits, nkro⟩ := typed.nkro
  have basic := keymap.basic _ inside
  cases pressed with
  | true =>
    rw [if_pos rfl]
    refine typed.send (idle.addKey _) rfl rfl ⟨addKeyBit bits (codeAt (position row col)), ?_⟩ fun code => ?_
    · show addKeyToReport _ s.report.keys = _
      rw [nkro]
      rfl
    · show isKeyPressed code (addKeyToReport _ s.report.keys) = true ↔ _
      rw [isKeyPressed_addKey_basic basic nkro, typed.keys, codes_press rowInside colInside]
  | false =>
    rw [if_neg Bool.false_ne_true]
    refine typed.send (idle.delKey _) rfl rfl ⟨delKeyBit bits (codeAt (position row col)), ?_⟩ fun code => ?_
    · show delKeyFromReport _ s.report.keys = _
      rw [nkro]
      rfl
    · show isKeyPressed code (delKeyFromReport _ s.report.keys) = true ↔ _
      rw [isKeyPressed_delKey, typed.keys, codes_release keymap rowInside colInside]

end Plain

/-! ## Tapping -/

/-- What the tapping reads of an action; an unknown kind is no tap action, like a usage. -/
def tapAction (action : ActionCode) : Tapping.Action where
  kind :=
    match kindId action with
    | .lmods => .lmods
    | .rmods => .rmods
    | .lmodsTap => .lmodsTap
    | .rmodsTap => .rmodsTap
    | .usage | .unknown => .usage
    | .mousekey => .mousekey
    | .swapHands => .swapHands
    | .layer => .layer
    | .layerMods => .layerMods
    | .layerTap => .layerTap
    | .layerTapExt => .layerTapExt
  mods := (keyMods action).setWidth 4
  code := ⟨keyCode action⟩

/-- A call of the tapping, with records that everything lets pass. -/
def ofCall : Tapping.Call KeyPos → Op
  | .processRecord record => .record
      { key := record.event.key
        pressed := record.event.pressed
        tapCount := record.tap.count
        accepted := true
        releaseAccepted := true }
  | .processRecordTapHint record => .tapHint record.event.key
  | .clearKeyboard => .clearKeyboard

/-- `action_exec`: what comes before the tapping, and what the tapping calls. -/
def execOps (settings : Tapping.Settings KeyPos) (s : Tapping.State KeyPos) (event : Tapping.Event KeyPos) :
    List (BitVec 16 × Op) :=
  (event.time.toBitVec, .exec event.pressed) ::
    ((Tapping.actionExec settings s event).calls.drop s.calls.length).map fun call => (event.time.toBitVec, ofCall call)

def tapOps (settings : Tapping.Settings KeyPos) : Tapping.State KeyPos → List (Tapping.Event KeyPos) → List (BitVec 16 × Op)
  | _, [] => []
  | s, event :: events => execOps settings s event ++ tapOps settings (Tapping.actionExec settings s event) events

/-- The event of a call of `action_exec`. -/
def tapEvent : Keyboard.Call → Option (Tapping.Event KeyPos)
  | .actionExec event => some ⟨position event.row event.col, ⟨event.time⟩, .key, event.pressed⟩
  | .tickEvent time => some ⟨⟨0, 0⟩, ⟨time⟩, .tick, false⟩
  | .switchEvents _ _ _ => none

/-! ## Passes -/

/-- A matrix, the keymap that its keys go through, and the options of the tapping with the layers that it finds keys on. -/
structure Pipeline where
  matrix : Keyboard.Config
  action : Config
  rows : matrix.matrixRows = action.keyboard.matrixRows
  cols : matrix.matrixCols = action.keyboard.matrixCols
  options : Tapping.Settings KeyPos
  layerSwitchGetLayer : List (Tapping.Call KeyPos) → KeyPos → Nat

def Pipeline.settings (p : Pipeline) : Tapping.Settings KeyPos :=
  { p.options with
    layerSwitchGetAction := fun calls key => tapAction (p.action.actionForKey (p.layerSwitchGetLayer calls key) key) }

/-- The firmware after some passes, on a keyboard with an NKRO report. -/
def typed (p : Pipeline) (passes : List (Pass p.matrix)) : State p.action.keyboard :=
  run p.action (.nkro (.replicate _ 0)) (tapOps p.settings {} ((Keyboard.run passes).calls.filterMap tapEvent))

variable {p : Pipeline} {codeAt : KeyPos → Keycode}

theorem isTapAction_plain (code : Keycode) : Tapping.isTapAction (tapAction (.ofNat code.toNat)) = false := by
  unfold Tapping.isTapAction tapAction
  rw [kindId_plain]

/-- What is no tapping key passes at once. -/
theorem actionExec_key (settings : Tapping.Settings KeyPos) (calls : List (Tapping.Call KeyPos))
    {event : Tapping.Event KeyPos} (key : event.isEvent = true)
    (plain : Tapping.isTapAction (settings.layerSwitchGetAction calls event.key) = false) :
    Tapping.actionExec settings { calls := calls } event = { calls := calls ++ [.processRecord { event := event }] } := by
  unfold Tapping.actionExec Tapping.actionTappingProcess Tapping.acceptRecord Tapping.processTapping Tapping.processIdle
  simp [key, plain, Tapping.isTapRecord, Tapping.State.processRecord, Tapping.processWaitingBuffer]

/-- A tick goes no further. -/
theorem actionExec_tick (settings : Tapping.Settings KeyPos) (calls : List (Tapping.Call KeyPos))
    {event : Tapping.Event KeyPos} (tick : event.isEvent = false) :
    Tapping.actionExec settings { calls := calls } event = { calls := calls } := by
  unfold Tapping.actionExec Tapping.actionTappingProcess Tapping.acceptRecord Tapping.processTapping Tapping.processIdle
  simp [tick, Tapping.processWaitingBuffer]

/-- What comes of a call of the matrix task. -/
def callOps : Keyboard.Call → List (BitVec 16 × Op)
  | .actionExec event => eventOps event.time (position event.row event.col) event.pressed
  | .tickEvent time => [(time, .exec false)]
  | .switchEvents _ _ _ => []

theorem tapOps_plain (keymap : PlainKeymap p.action codeAt) (earlier : List (Tapping.Call KeyPos))
    (calls : List Keyboard.Call) (inside : ∀ event ∈ Keyboard.keyEvents calls,
      event.row < p.action.keyboard.matrixRows ∧ event.col < p.action.keyboard.matrixCols) :
    tapOps p.settings { calls := earlier } (calls.filterMap tapEvent) = calls.flatMap callOps := by
  induction calls generalizing earlier with
  | nil => rfl
  | cons call calls ih =>
    have rest : ∀ event ∈ Keyboard.keyEvents calls,
        event.row < p.action.keyboard.matrixRows ∧ event.col < p.action.keyboard.matrixCols := by
      intro event member
      apply inside event
      rw [← List.singleton_append, Keyboard.keyEvents_append]
      exact List.mem_append_right _ member
    rw [List.flatMap_cons]
    cases call with
    | switchEvents row col pressed => exact ih earlier rest
    | tickEvent time =>
      show execOps p.settings { calls := earlier } ⟨⟨0, 0⟩, ⟨time⟩, .tick, false⟩ ++
        tapOps p.settings (Tapping.actionExec p.settings { calls := earlier } _) (calls.filterMap tapEvent) = _
      rw [execOps, actionExec_tick p.settings earlier rfl, ih earlier rest, List.drop_length]
      rfl
    | actionExec event =>
      obtain ⟨rowInside, colInside⟩ := inside event (by simp [Keyboard.keyEvents])
      have plain : Tapping.isTapAction (p.settings.layerSwitchGetAction earlier (position event.row event.col)) = false := by
        show Tapping.isTapAction (tapAction (p.action.actionForKey _ _)) = false
        rw [keymap.action _ _ (position_inMatrix rowInside colInside)]
        exact isTapAction_plain _
      show execOps p.settings { calls := earlier } ⟨position event.row event.col, ⟨event.time⟩, .key, event.pressed⟩ ++
        tapOps p.settings (Tapping.actionExec p.settings { calls := earlier } _) (calls.filterMap tapEvent) = _
      rw [execOps, actionExec_key p.settings earlier rfl plain, ih _ rest]
      simp [callOps, eventOps, ofCall, plainRecord]

/-- A tick changes nothing while nothing is pending. -/
theorem Typed.tick {down : Nat × Nat → Bool} {s : State p.action.keyboard} (typed : Typed codeAt down s) (now : BitVec 16) :
    Typed codeAt down (step s (now, .exec false)) := by
  obtain ⟨⟨realMods, weakMods, oneshotMods, layerData, swap⟩, nkro, keys, hostKeys, hostMods, synced⟩ := typed
  have idle : Idle { s with timer := now } := ⟨realMods, weakMods, oneshotMods, layerData, swap⟩
  have same : step s (now, .exec false) = { s with timer := now } := idle.actionExec false
  rw [same]
  exact ⟨idle, nkro, keys, hostKeys, hostMods, ⟨synced.mods, synced.pressed⟩⟩

theorem typed_calls (keymap : PlainKeymap p.action codeAt) (calls : List Keyboard.Call)
    (inside : ∀ event ∈ Keyboard.keyEvents calls,
      event.row < p.action.keyboard.matrixRows ∧ event.col < p.action.keyboard.matrixCols)
    (toggling : Toggling ((Keyboard.keyEvents calls).map KeyEvent.change)) :
    Typed codeAt (replay ((Keyboard.keyEvents calls).map KeyEvent.change))
      (run p.action (.nkro (.replicate _ 0)) (calls.flatMap callOps)) := by
  induction calls using List.reverseRecOn with
  | nil =>
    refine ⟨⟨rfl, rfl, rfl, rfl, rfl⟩, ⟨_, rfl⟩, fun code => ?_, fun code => ?_, rfl, rfl, fun code => ?_⟩
    · rw [show (run p.action (.nkro (.replicate _ 0)) (List.flatMap callOps [])).report.keys =
        clearKeysFromReport (.nkro (.replicate _ 0)) from rfl, isKeyPressed_clearKeys]
      simp [Keyboard.keyEvents]
    · exact (isKeyPressed_clearKeys code (.nkro (.replicate _ 0))).symm
    · exact (isKeyPressed_clearKeys code (.nkro (.replicate _ 0))).symm
  | append_singleton calls call ih =>
    rw [Keyboard.keyEvents_append] at inside toggling
    have split : run p.action (.nkro (.replicate _ 0)) ((calls ++ [call]).flatMap callOps) =
        (callOps call).foldl step (run p.action (.nkro (.replicate _ 0)) (calls.flatMap callOps)) := by
      rw [run, run, List.flatMap_append, List.foldl_append, List.flatMap_singleton]
    have before := fun toggling => ih (fun event member => inside event (List.mem_append_left _ member)) toggling
    rw [split, Keyboard.keyEvents_append]
    cases call with
    | switchEvents row col pressed =>
      rw [show Keyboard.keyEvents [.switchEvents row col pressed] = [] from rfl, List.append_nil] at toggling ⊢
      exact before toggling
    | tickEvent time =>
      rw [show Keyboard.keyEvents [.tickEvent time] = [] from rfl, List.append_nil] at toggling ⊢
      exact (before toggling).tick time
    | actionExec event =>
      rw [show Keyboard.keyEvents [.actionExec event] = [event] from rfl, List.map_append, List.map_singleton] at toggling ⊢
      rw [toggling_concat] at toggling
      obtain ⟨rowInside, colInside⟩ := inside event (List.mem_append_right _ (List.mem_singleton.mpr rfl))
      have after := typed_event keymap (before toggling.1) rowInside colInside event.time event.pressed toggling.2
      have turned : replay ((Keyboard.keyEvents calls).map KeyEvent.change ++ [event.change]) =
          turn (replay ((Keyboard.keyEvents calls).map KeyEvent.change)) event.change := List.foldl_append
      rw [turned]
      exact after

/-- After each pass that reads the matrix without ghosts, the host has the codes of exactly the keys that the matrix has
down, and no modifiers. -/
theorem typed_matrix (p : Pipeline) (codeAt : KeyPos → Keycode) (keymap : PlainKeymap p.action codeAt)
    (passes : List (Pass p.matrix)) (pass : Pass p.matrix)
    (processing : ∀ earlier ∈ passes ++ [pass], earlier.shouldProcessKeypress = true) (readable : pass.matrixCanRead = true)
    (clear : ∀ row < p.matrix.matrixRows, Keyboard.hasGhostInRow p.matrix pass.matrix row (pass.matrix row) = false) :
    (host (typed p (passes ++ [pass]))).mods = 0 ∧
      ∀ code, (host (typed p (passes ++ [pass]))).pressed code = true ↔
        ∃ row < p.matrix.matrixRows, ∃ col < p.matrix.matrixCols,
          (pass.matrix row).getLsbD col = true ∧ codeAt (position row col) = code := by
  have follows := Keyboard.matrixTask_follows (passes ++ [pass])
  have processed := follows.processed processing
  have inside : ∀ event ∈ Keyboard.keyEvents (Keyboard.run (passes ++ [pass])).calls,
      event.row < p.action.keyboard.matrixRows ∧ event.col < p.action.keyboard.matrixCols := by
    intro event member
    rw [← p.rows, ← p.cols]
    apply follows.inside event.change
    rw [← processed]
    exact List.mem_map_of_mem member
  have sent : Typed codeAt (replay ((Keyboard.keyEvents (Keyboard.run (passes ++ [pass])).calls).map KeyEvent.change))
      (typed p (passes ++ [pass])) := by
    rw [typed, tapOps_plain keymap [] _ inside]
    exact typed_calls keymap _ inside (processed ▸ follows.toggling)
  rw [processed] at sent
  have current := follows.current passes pass rfl
  refine ⟨sent.hostMods, fun code => ?_⟩
  rw [show (host (typed p (passes ++ [pass]))).pressed code = _ from sent.hostKeys code, sent.keys, ← p.rows, ← p.cols]
  constructor
  · rintro ⟨row, rowInside, col, colInside, down, same⟩
    rw [current row rowInside col colInside, if_pos ⟨readable, clear row rowInside⟩] at down
    exact ⟨row, rowInside, col, colInside, down, same⟩
  · rintro ⟨row, rowInside, col, colInside, down, same⟩
    refine ⟨row, rowInside, col, colInside, ?_, same⟩
    rw [current row rowInside col colInside, if_pos ⟨readable, clear row rowInside⟩]
    exact down

/-- One key, for A. -/
def lonePipeline : Pipeline where
  matrix :=
    { matrixRows := 1
      matrixCols := 1
      width := 8
      cols_le_width := by omega
      matrixHasGhost := false
      keycodeAtKeymapLocation := fun _ _ _ => 0x04 }
  action := lone
  rows := rfl
  cols := rfl
  options :=
    { layerSwitchGetAction := fun _ _ => tapAction 0
      getTappingTerm := fun _ _ => 200
      getQuickTapTerm := fun _ _ => 200
      getPermissiveHold := fun _ _ => false
      getHoldOnOtherKeyPress := fun _ => false }
  layerSwitchGetLayer _ _ := 0

theorem lone_plain : PlainKeymap lonePipeline.action fun _ => 0x04 where
  action _ _ _ := rfl
  basic _ _ := rfl
  injective key other inside otherInside _ := by
    obtain ⟨col, row⟩ := key
    obtain ⟨otherCol, otherRow⟩ := other
    have small : row.toNat < 1 ∧ col.toNat < 1 := inside
    have otherSmall : otherRow.toNat < 1 ∧ otherCol.toNat < 1 := otherInside
    rw [KeyPos.mk.injEq]
    constructor
    · apply UInt8.toNat_inj.mp
      omega
    · apply UInt8.toNat_inj.mp
      omega

def lonePass (down : Bool) : Pass lonePipeline.matrix where
  matrixCanRead := true
  matrix _ := if down then 1 else 0
  shouldProcessKeypress := true
  now := 0

theorem lone_typed : (host (typed lonePipeline [lonePass true, lonePass false, lonePass true])).pressed 0x04 = true := by
  have after := (typed_matrix lonePipeline (fun _ => 0x04) lone_plain [lonePass true, lonePass false] (lonePass true)
    (by simp [lonePass]) rfl (fun _ _ => rfl)).2 0x04
  exact after.mpr ⟨0, by decide, 0, by decide, rfl, rfl⟩

end QmkFirmware.Action
