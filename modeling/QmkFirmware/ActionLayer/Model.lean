import Mathlib.Data.UInt
import QmkFirmware.Foundations.Bits
import QmkFirmware.Foundations.Sweep

/-! # Source layers

A shallow embedding of the source layer cache of `quantum/action_layer.c`.  The layer a
key was pressed on is kept bit by bit: for eight entries there is one byte for each bit of
the layer.
-/

namespace QmkFirmware.ActionLayer

structure KeyPos where
  col : UInt8
  row : UInt8
  deriving DecidableEq, Repr

/-- The constants of a keyboard.  The state of the layers has `2 ^ maxLayerBits` bits. -/
structure Keyboard where
  matrixRows : Nat
  matrixCols : Nat
  encoderMapEnable : Bool
  numEncoders : Nat
  maxLayerBits : Nat
  maxLayer : Nat
  rows_le : matrixRows ≤ 255
  cols_le : matrixCols ≤ 255
  bits_le : maxLayerBits ≤ 5
  layers_le : maxLayer ≤ 2 ^ maxLayerBits

abbrev Cache := Nat → Nat → BitVec 8

def charBit : Nat := 8
def keylocEncoderCw : UInt8 := 253
def keylocEncoderCcw : UInt8 := 252

/-! ## Cache -/

def Cache.set (cache : Cache) (idx bit : Nat) (byte : BitVec 8) : Cache :=
  fun i b => if i = idx ∧ b = bit then byte else cache i b

/-- One step of the loop over the bits of a layer. -/
def updateBit (layer : BitVec 8) (entryNumber : Nat) (cache : Cache) (bitNumber : Nat) : Cache :=
  let storageIdx := entryNumber / charBit
  let storageBit := entryNumber % charBit
  let byte := cache storageIdx bitNumber
  let source : BitVec 8 := if layer &&& 1#8 <<< bitNumber ≠ 0 then -1 else 0
  cache.set storageIdx bitNumber (byte ^^^ (source ^^^ byte) &&& 1#8 <<< storageBit)

def updateSourceLayersCacheImpl (maxLayerBits : Nat) (layer : BitVec 8) (entryNumber : Nat) (cache : Cache) :
    Cache :=
  (List.range maxLayerBits).foldl (updateBit layer entryNumber) cache

def readBit (entryNumber : Nat) (cache : Cache) (layer : BitVec 8) (bitNumber : Nat) : BitVec 8 :=
  let storageIdx := entryNumber / charBit
  let storageBit := entryNumber % charBit
  layer ||| (if cache storageIdx bitNumber &&& 1#8 <<< storageBit ≠ 0 then 1#8 else 0) <<< bitNumber

def readSourceLayersCacheImpl (maxLayerBits entryNumber : Nat) (cache : Cache) : BitVec 8 :=
  (List.range maxLayerBits).foldl (readBit entryNumber cache) 0

structure Caches where
  sourceLayersCache : Cache
  encoderSourceLayersCache : Cache

section

variable (keyboard : Keyboard)

def Keyboard.InMatrix (key : KeyPos) : Prop :=
  key.row.toNat < keyboard.matrixRows ∧ key.col.toNat < keyboard.matrixCols

instance (key : KeyPos) : Decidable (keyboard.InMatrix key) := inferInstanceAs (Decidable (_ ∧ _))

/-- The rows of the two directions of the encoders. -/
def Keyboard.IsEncoder (key : KeyPos) : Prop :=
  keyboard.encoderMapEnable = true ∧ (key.row = keylocEncoderCw ∨ key.row = keylocEncoderCcw)

instance (key : KeyPos) : Decidable (keyboard.IsEncoder key) := inferInstanceAs (Decidable (_ ∧ _))

def Keyboard.entryNumber (key : KeyPos) : Nat :=
  (key.row.toNat * keyboard.matrixCols % 2 ^ 16 + key.col.toNat) % 2 ^ 16

def updateSourceLayersCache (key : KeyPos) (layer : BitVec 8) (caches : Caches) : Caches :=
  let update := updateSourceLayersCacheImpl keyboard.maxLayerBits layer
  if keyboard.InMatrix key then
    { caches with sourceLayersCache := update (keyboard.entryNumber key) caches.sourceLayersCache }
  else if keyboard.IsEncoder key then
    { caches with encoderSourceLayersCache := update key.col.toNat caches.encoderSourceLayersCache }
  else caches

def readSourceLayersCache (key : KeyPos) (caches : Caches) : BitVec 8 :=
  if keyboard.InMatrix key then
    readSourceLayersCacheImpl keyboard.maxLayerBits (keyboard.entryNumber key) caches.sourceLayersCache
  else if keyboard.IsEncoder key then
    readSourceLayersCacheImpl keyboard.maxLayerBits key.col.toNat caches.encoderSourceLayersCache
  else 0

/-! ## Actions -/

abbrev Keyboard.LayerState := BitVec (2 ^ keyboard.maxLayerBits)

def actionTransparent : UInt16 := 1

/-- The keymap, which gives an action for each layer and key. -/
abbrev ActionForKey := Nat → KeyPos → UInt16

structure LayerStates where
  layerState : keyboard.LayerState
  defaultLayerState : keyboard.LayerState

def layerSwitchGetLayer (actionForKey : ActionForKey) (states : LayerStates keyboard) (key : KeyPos) : Nat :=
  let layers := states.layerState ||| states.defaultLayerState
  let found := (List.range keyboard.maxLayer).reverse.find? fun i =>
    layers &&& BitVec.ofNat (2 ^ keyboard.maxLayerBits) 1 <<< i ≠ 0 ∧ actionForKey i key ≠ actionTransparent
  found.getD 0

def layerSwitchGetAction (actionForKey : ActionForKey) (states : LayerStates keyboard) (key : KeyPos) :
    UInt16 :=
  actionForKey (layerSwitchGetLayer keyboard actionForKey states key) key

/-- The layer whose action a press or a release of a key stands for. -/
def sourceLayer (actionForKey : ActionForKey) (states : LayerStates keyboard) (pressed : Bool) (key : KeyPos)
    (caches : Caches) : Nat :=
  if pressed then layerSwitchGetLayer keyboard actionForKey states key
  else (readSourceLayersCache keyboard key caches).toNat

def storeOrGetAction (disableActionCache : Bool) (actionForKey : ActionForKey)
    (states : LayerStates keyboard) (pressed : Bool) (key : KeyPos) (caches : Caches) : UInt16 × Caches :=
  if disableActionCache then (layerSwitchGetAction keyboard actionForKey states key, caches)
  else
    let layer := sourceLayer keyboard actionForKey states pressed key caches
    (actionForKey layer key,
      if pressed then updateSourceLayersCache keyboard key (.ofNat 8 layer) caches else caches)

end

end QmkFirmware.ActionLayer
