import Mathlib.Data.UInt
import QmkFirmware.Foundations.Memory
import QmkFirmware.Foundations.Traced

/-! # Dynamic keymaps

A shallow embedding of the storage functions of `quantum/dynamic_keymap.c`.  The
functions work on the EEPROM and on a buffer of their caller; each access to the
buffer is recorded as an event.  `int` has 32 bits on the target, so that the sums
of 16-bit offsets and counters do not wrap.
-/

namespace QmkFirmware.DynamicKeymap

open QmkFirmware.Memory QmkFirmware.Traced

/-! ## Layout of the EEPROM -/

/-- The constants the address macros are computed from. -/
structure Geometry where
  eepromAddr : Nat
  layerCount : Nat
  rows : Nat
  cols : Nat
  encoderMap : Bool
  numEncoders : Nat
  macroCount : Nat
  maxAddr : Nat

namespace Geometry

variable (g : Geometry)

def keymapSize : Nat := g.layerCount * g.rows * g.cols * 2

def encoderAddr : Nat := g.eepromAddr + g.keymapSize

def encoderSize : Nat := g.layerCount * g.numEncoders * 2 * 2

/-- Macros start after the encoders, but only when the encoder map is used. -/
def macroAddr : Nat := if g.encoderMap then g.encoderAddr + g.encoderSize else g.encoderAddr

def macroSize : Nat := g.maxAddr - g.macroAddr + 1

end Geometry

/-- A geometry that passes the checks at compile time. -/
structure Layout extends Geometry where
  room : toGeometry.macroAddr + 100 ≤ maxAddr
  addressable : maxAddr ≤ 65535

/-! ## State -/

/-- EEPROM and the buffer that the caller passes, seen from the buffer's address. -/
structure Board where
  eeprom : Nat → UInt8
  data : Nat → UInt8

/-- Accesses to the caller's buffer; `κ` are the requests to other parts. -/
inductive BufferEvent (κ : Type) where
  | read (index : Nat)
  | write (index : Nat)
  | call (request : κ)
  deriving DecidableEq, Repr

abbrev Action (κ : Type) := Traced (BufferEvent κ) Board

section Primitives

variable {κ : Type}

def load (index : Nat) : Action κ UInt8 := fun s => ⟨s.data index, s, [.read index]⟩

def store (index : Nat) (value : UInt8) : Action κ Unit :=
  fun s => ⟨(), { s with data := Function.update s.data index value }, [.write index]⟩

def eepromReadByte (address : Nat) : Action κ UInt8 := fun s => ⟨s.eeprom address, s, []⟩

def eepromUpdateByte (address : Nat) (value : UInt8) : Action κ Unit :=
  update fun s => { s with eeprom := Function.update s.eeprom address value }

end Primitives

/-! ## Keycodes as byte pairs -/

/-- Big endian, so that the host can read and write the EEPROM directly. -/
def joinBytes (high low : UInt8) : UInt16 := high.toUInt16 <<< 8 ||| low.toUInt16

def highByte (keycode : UInt16) : UInt8 := (keycode >>> 8).toUInt8

def lowByte (keycode : UInt16) : UInt8 := (keycode &&& 0xFF).toUInt8

section Functions

variable {κ : Type} (layout : Layout)

def kcNo : UInt16 := 0

def readKeycode (address : Nat) : Action κ UInt16 := do
  let high ← eepromReadByte address
  let low ← eepromReadByte (address + 1)
  pure (joinBytes high low)

def updateKeycode (address : Nat) (keycode : UInt16) : Action κ Unit := do
  eepromUpdateByte address (highByte keycode)
  eepromUpdateByte (address + 1) (lowByte keycode)

/-! ## Keys -/

def dynamicKeymapKeyToEepromAddress (layer row column : Nat) : Nat :=
  layout.eepromAddr + layer * layout.rows * layout.cols * 2 + row * layout.cols * 2 + column * 2

def dynamicKeymapGetKeycode (layer row column : Nat) : Action κ UInt16 :=
  if layer ≥ layout.layerCount ∨ row ≥ layout.rows ∨ column ≥ layout.cols then pure kcNo
  else readKeycode (dynamicKeymapKeyToEepromAddress layout layer row column)

def dynamicKeymapSetKeycode (layer row column : Nat) (keycode : UInt16) : Action κ Unit :=
  if layer ≥ layout.layerCount ∨ row ≥ layout.rows ∨ column ≥ layout.cols then pure ()
  else updateKeycode (dynamicKeymapKeyToEepromAddress layout layer row column) keycode

/-! ## Encoders -/

def dynamicKeymapEncoderToEepromAddress (layer encoderId : Nat) : Nat :=
  layout.encoderAddr + layer * layout.numEncoders * 2 * 2 + encoderId * 2 * 2

def turnOffset (clockwise : Bool) : Nat := if clockwise then 0 else 2

def dynamicKeymapGetEncoder (layer encoderId : Nat) (clockwise : Bool) : Action κ UInt16 :=
  if layer ≥ layout.layerCount ∨ encoderId ≥ layout.numEncoders then pure kcNo
  else readKeycode (dynamicKeymapEncoderToEepromAddress layout layer encoderId + turnOffset clockwise)

def dynamicKeymapSetEncoder (layer encoderId : Nat) (clockwise : Bool) (keycode : UInt16) :
    Action κ Unit :=
  if layer ≥ layout.layerCount ∨ encoderId ≥ layout.numEncoders then pure ()
  else updateKeycode (dynamicKeymapEncoderToEepromAddress layout layer encoderId + turnOffset clockwise)
    keycode

/-! ## Reset -/

/-- What is in flash, for the keymaps and the encoder maps. -/
structure FlashKeymap where
  keycodeAt : Nat → Nat → Nat → UInt16
  encoderAt : Nat → Nat → Bool → UInt16

def dynamicKeymapReset (flash : FlashKeymap) : Action κ Unit :=
  loop (fun layer => do
    loop (fun row =>
      loop (fun column =>
        dynamicKeymapSetKeycode layout layer row column (flash.keycodeAt layer row column))
        layout.cols 0) layout.rows 0
    if layout.encoderMap then
      loop (fun encoder => do
        dynamicKeymapSetEncoder layout layer encoder true (flash.encoderAt layer encoder true)
        dynamicKeymapSetEncoder layout layer encoder false (flash.encoderAt layer encoder false))
        layout.numEncoders 0
    else pure ()) layout.layerCount 0

/-! ## Buffers

The transfers of keymap and macro buffers differ in the region they work on. -/

def getRegionByte (start regionSize offset buffer i : Nat) : Action κ Unit := do
  if offset + i < regionSize then
    store (buffer + i) (← eepromReadByte (start + offset + i))
  else store (buffer + i) 0

/-- Copies `size` bytes of a region to the buffer, with zeros behind its end. -/
def getRegion (start regionSize offset size buffer : Nat) : Action κ Unit :=
  loop (getRegionByte start regionSize offset buffer) size 0

def setRegionByte (start regionSize offset buffer i : Nat) : Action κ Unit := do
  if offset + i < regionSize then
    eepromUpdateByte (start + offset + i) (← load (buffer + i))
  else pure ()

/-- Copies `size` bytes of the buffer to a region, dropping those behind its end. -/
def setRegion (start regionSize offset size buffer : Nat) : Action κ Unit :=
  loop (setRegionByte start regionSize offset buffer) size 0

/-- The size of the keymap is kept in 16 bits. -/
def keymapEepromSize : Nat := layout.keymapSize % 2 ^ 16

def dynamicKeymapGetBuffer (offset size buffer : Nat) : Action κ Unit :=
  getRegion layout.eepromAddr (keymapEepromSize layout) offset size buffer

def dynamicKeymapSetBuffer (offset size buffer : Nat) : Action κ Unit :=
  setRegion layout.eepromAddr (keymapEepromSize layout) offset size buffer

def dynamicKeymapMacroGetBuffer (offset size buffer : Nat) : Action κ Unit :=
  getRegion layout.macroAddr layout.macroSize offset size buffer

def dynamicKeymapMacroSetBuffer (offset size buffer : Nat) : Action κ Unit :=
  setRegion layout.macroAddr layout.macroSize offset size buffer

def dynamicKeymapMacroReset : Action κ Unit :=
  loop (fun i => eepromUpdateByte (layout.macroAddr + i) 0) layout.macroSize 0

end Functions

end QmkFirmware.DynamicKeymap
