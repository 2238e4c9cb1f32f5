import QmkFirmware.Foundations.Bits
import QmkFirmware.ActionLayer.Model

/-! # Hand swap

`process_hand_swap` of `quantum/action.c`, which moves the events of one hand to the other while the hands are swapped.
A bit for each key and each encoder keeps what its press has met, for the release.
-/

namespace QmkFirmware.Action

open QmkFirmware.ActionLayer

inductive EventType where
  | tick
  | key
  | encoderCw
  | encoderCcw
  | combo
  deriving DecidableEq

structure SwapEvent where
  key : KeyPos
  pressed : Bool
  type : EventType
  deriving DecidableEq

/-- A state has the bits of the entries, eight in a byte. -/
abbrev SwapBits := Nat → BitVec 8

structure HandSwap where
  keyboard : Keyboard
  handSwapConfig : KeyPos → KeyPos
  encoderHandSwapConfig : UInt8 → UInt8

structure SwapState where
  matrixSwapState : SwapBits
  encoderSwapState : SwapBits

def shouldSwapHands (swapHands : Bool) (index : Nat) (swapState : SwapBits) (pressed : Bool) : Bool :=
  if pressed then swapHands else swapState (index / charBit) &&& 1#8 <<< (index % charBit) ≠ 0

def setSwapHandsState (index : Nat) (swapState : SwapBits) (on : Bool) : SwapBits :=
  let byte := swapState (index / charBit)
  let bitVal := 1#8 <<< (index % charBit)
  Function.update swapState (index / charBit) (if on then byte ||| bitVal else byte &&& ~~~bitVal)

/-- The state of `swap_hands` comes with the event. -/
structure SwapInput where
  swapHands : Bool
  event : SwapEvent

variable (config : HandSwap)

def HandSwap.index (key : KeyPos) : Nat := key.row.toNat * config.keyboard.matrixCols + key.col.toNat

def HandSwap.IsKey (event : SwapEvent) : Prop := event.type = .key ∧ config.keyboard.InMatrix event.key

instance (event : SwapEvent) : Decidable (config.IsKey event) := inferInstanceAs (Decidable (_ ∧ _))

def HandSwap.IsEncoder (event : SwapEvent) : Prop :=
  (event.type = .encoderCw ∨ event.type = .encoderCcw) ∧ config.keyboard.IsEncoder event.key

instance (event : SwapEvent) : Decidable (config.IsEncoder event) := inferInstanceAs (Decidable (_ ∧ _))

def processHandSwap (s : SwapState) (input : SwapInput) : SwapState × SwapEvent :=
  let event := input.event
  if config.IsKey event then
    let index := config.index event.key
    let doSwap := shouldSwapHands input.swapHands index s.matrixSwapState event.pressed
    ({ s with matrixSwapState := setSwapHandsState index s.matrixSwapState doSwap },
      if doSwap then { event with key := config.handSwapConfig event.key } else event)
  else if config.IsEncoder event then
    let index := event.key.col.toNat
    let doSwap := shouldSwapHands input.swapHands index s.encoderSwapState event.pressed
    ({ s with encoderSwapState := setSwapHandsState index s.encoderSwapState doSwap },
      if doSwap then { event with key := { event.key with col := config.encoderHandSwapConfig event.key.col } } else event)
  else (s, event)

def swapAll (s : SwapState) (inputs : List SwapInput) : SwapState :=
  inputs.foldl (fun s input => (processHandSwap config s input).1) s

/-- What becomes of an event after these. -/
def swapped (inputs : List SwapInput) (input : SwapInput) : SwapEvent :=
  (processHandSwap config (swapAll config ⟨fun _ => 0, fun _ => 0⟩ inputs) input).2

/-! ## Entries -/

def SwapBits.at (swapState : SwapBits) (index : Nat) : Bool := (swapState (index / charBit)).getLsbD (index % charBit)

theorem shouldSwapHands_eq (swapHands : Bool) (index : Nat) (swapState : SwapBits) (pressed : Bool) :
    shouldSwapHands swapHands index swapState pressed = if pressed then swapHands else swapState.at index := by
  rw [shouldSwapHands, SwapBits.at, Bool.eq_iff_iff]
  cases pressed
  · simpa using Bits.and_mask_ne_zero (swapState (index / charBit)) (index % charBit)
  · simp

theorem setSwapHandsState_at (index other : Nat) (swapState : SwapBits) (on : Bool) :
    (setSwapHandsState index swapState on).at other = if other = index then on else swapState.at other := by
  have inside : index % charBit < 8 := Nat.mod_lt _ (by decide)
  have split : other = index ↔ other / charBit = index / charBit ∧ other % charBit = index % charBit := by
    constructor
    · rintro rfl
      exact ⟨rfl, rfl⟩
    · rintro ⟨same, rest⟩
      rw [← Nat.div_add_mod other charBit, same, rest, Nat.div_add_mod]
  rw [setSwapHandsState, SwapBits.at, SwapBits.at]
  by_cases sameByte : other / charBit = index / charBit
  · rw [sameByte, Function.update_self]
    have low : other % charBit < 8 := Nat.mod_lt _ (by decide)
    by_cases sameBit : other % charBit = index % charBit
    · rw [if_pos (split.mpr ⟨sameByte, sameBit⟩), sameBit]
      cases on <;> simp only [Bool.false_eq_true, if_false, if_true, BitVec.getLsbD_or, BitVec.getLsbD_and,
        BitVec.getLsbD_not, Bits.getLsbD_mask] <;> simp [inside]
    · rw [if_neg fun same => sameBit (split.mp same).2]
      cases on <;> simp only [Bool.false_eq_true, if_false, if_true, BitVec.getLsbD_or, BitVec.getLsbD_and,
        BitVec.getLsbD_not, Bits.getLsbD_mask] <;> simp [sameBit, low]
  · rw [Function.update_of_ne sameByte, if_neg fun same => sameByte (split.mp same).1]

/-- The entry of an event. -/
inductive Entry where
  | key (index : Nat)
  | encoder (index : Nat)
  deriving DecidableEq

def HandSwap.entry? (event : SwapEvent) : Option Entry :=
  if config.IsKey event then some (.key (config.index event.key))
  else if config.IsEncoder event then some (.encoder event.key.col.toNat)
  else none

def SwapState.at (s : SwapState) : Entry → Bool
  | .key index => s.matrixSwapState.at index
  | .encoder index => s.encoderSwapState.at index

variable {config}

/-- What an event decides is kept in its entry. -/
theorem processHandSwap_at (s : SwapState) (input : SwapInput) (entry : Entry) :
    (processHandSwap config s input).1.at entry =
      if config.entry? input.event = some entry ∧ input.event.pressed = true then input.swapHands else s.at entry := by
  unfold processHandSwap HandSwap.entry?
  dsimp only
  split_ifs with isKey pressed isEncoder <;> cases entry <;>
    simp_all [SwapState.at, setSwapHandsState_at, shouldSwapHands_eq]

/-- Entries change with presses only. -/
theorem swapAll_at {inputs : List SwapInput} {entry : Entry} (s : SwapState)
    (releases : ∀ input ∈ inputs, config.entry? input.event = some entry → input.event.pressed = false) :
    (swapAll config s inputs).at entry = s.at entry := by
  induction inputs generalizing s with
  | nil => rfl
  | cons input inputs ih =>
    rw [swapAll, List.foldl_cons, ← swapAll, ih _ fun other member => releases other (List.mem_cons_of_mem _ member),
      processHandSwap_at, if_neg]
    rintro ⟨own, pressed⟩
    rw [releases input List.mem_cons_self own] at pressed
    exact Bool.false_ne_true pressed

/-- Where an event goes. -/
def HandSwap.place (config : HandSwap) (type : EventType) (key : KeyPos) (doSwap : Bool) : KeyPos :=
  if doSwap then
    if type = .key ∧ config.keyboard.InMatrix key then config.handSwapConfig key
    else { key with col := config.encoderHandSwapConfig key.col }
  else key

/-- Whether an event goes to the other hand. -/
def SwapState.decides (config : HandSwap) (s : SwapState) (input : SwapInput) : Bool :=
  match config.entry? input.event with
  | some entry => if input.event.pressed then input.swapHands else s.at entry
  | none => false

theorem processHandSwap_key (s : SwapState) (input : SwapInput) :
    (processHandSwap config s input).2.key = config.place input.event.type input.event.key (s.decides config input) := by
  unfold processHandSwap HandSwap.place SwapState.decides HandSwap.entry?
  by_cases isKey : config.IsKey input.event
  · have inMatrix : input.event.type = .key ∧ config.keyboard.InMatrix input.event.key := isKey
    simp only [isKey, if_true, shouldSwapHands_eq, inMatrix, and_self, SwapState.at]
    split <;> exact apply_ite SwapEvent.key _ _ _
  · have notInMatrix : ¬(input.event.type = .key ∧ config.keyboard.InMatrix input.event.key) := isKey
    by_cases isEncoder : config.IsEncoder input.event
    · simp only [isKey, isEncoder, if_true, if_false, shouldSwapHands_eq, notInMatrix, SwapState.at]
      split <;> exact apply_ite SwapEvent.key _ _ _
    · simp only [isKey, isEncoder, if_false]
      rfl

theorem entry?_congr {event other : SwapEvent} (sameKey : event.key = other.key) (sameType : event.type = other.type) :
    config.entry? event = config.entry? other := by
  cases event
  cases other
  cases sameKey
  cases sameType
  rfl

/-- A release goes where its press went, whatever has happened to the hands and to other keys in between. -/
theorem release_follows_press {before between : List SwapInput} {press release : SwapInput}
    (sameKey : release.event.key = press.event.key) (sameType : release.event.type = press.event.type)
    (isPress : press.event.pressed = true) (isRelease : release.event.pressed = false)
    (noPress : ∀ input ∈ between, ∀ entry ∈ config.entry? press.event,
      config.entry? input.event = some entry → input.event.pressed = false) :
    (swapped config (before ++ press :: between) release).key = (swapped config before press).key := by
  have sameEntry := @entry?_congr config _ _ sameKey sameType
  rw [swapped, swapped, processHandSwap_key, processHandSwap_key, sameKey, sameType]
  congr 1
  rw [SwapState.decides, SwapState.decides, sameEntry]
  cases found : config.entry? press.event with
  | none => rfl
  | some entry =>
    simp only [isPress, isRelease, if_true, Bool.false_eq_true, if_false]
    rw [swapAll, List.foldl_append, List.foldl_cons, ← swapAll, ← swapAll,
      swapAll_at _ fun input member own => noPress input member entry found own, processHandSwap_at, if_pos ⟨found, isPress⟩]

/-- A board of three rows, split between the columns 1 and 2. -/
def splitBoard : HandSwap where
  keyboard :=
    { matrixRows := 3
      matrixCols := 4
      encoderMapEnable := false
      numEncoders := 0
      maxLayerBits := 3
      maxLayer := 8
      rows_le := by decide
      cols_le := by decide
      bits_le := by decide
      layers_le := Nat.le_refl _ }
  handSwapConfig key := { key with col := 3 - key.col }
  encoderHandSwapConfig := id

def leftKey (pressed : Bool) : SwapEvent := ⟨⟨0, 1⟩, pressed, .key⟩

/-- The key is released on the right, although the hands are no longer swapped. -/
theorem leftKey_released_right :
    (swapped splitBoard [⟨true, leftKey true⟩, ⟨false, ⟨⟨1, 2⟩, true, .key⟩⟩] ⟨false, leftKey false⟩).key = ⟨3, 1⟩ :=
  @release_follows_press splitBoard [] [⟨false, ⟨⟨1, 2⟩, true, .key⟩⟩] ⟨true, leftKey true⟩ ⟨false, leftKey false⟩
    rfl rfl rfl rfl (by decide)

end QmkFirmware.Action
