import Mathlib.Data.BitVec

/-! # Unicode input

A shallow embedding of `quantum/unicode/utf8.c` and of the functions of `quantum/unicode/unicode.c` that type a code
point, with the functions of `action.c` and `quantum.c` that register keys as far as they change the modifiers.  A string
is a place in the memory.
-/

namespace QmkFirmware.Unicode

/-! ## UTF-8 -/

section Decoder

variable (memory : Nat → UInt8)

/-- The code point of `decode_utf8`, before surrogates are refused, and the number of bytes that it has read. -/
def decodeLead (str : Nat) : Int × Nat :=
  let byte (i : Nat) : Nat := (memory (str + i)).toNat
  if byte 0 < 0x80 then (byte 0, 1)
  else if byte 0 &&& 0xE0 = 0xC0 then (↑((byte 0 &&& 0x1F) <<< 6 ||| (byte 1 &&& 0x3F)), 2)
  else if byte 0 &&& 0xF0 = 0xE0 then
    (↑((byte 0 &&& 0x0F) <<< 12 ||| (byte 1 &&& 0x3F) <<< 6 ||| (byte 2 &&& 0x3F)), 3)
  else if byte 0 &&& 0xF8 = 0xF0 ∧ byte 0 ≤ 0xF4 then
    (↑((byte 0 &&& 0x07) <<< 18 ||| (byte 1 &&& 0x3F) <<< 12 ||| (byte 2 &&& 0x3F) <<< 6 ||| (byte 3 &&& 0x3F)), 4)
  else (-1, 1)

/-- `decode_utf8`: the code point and the next string. -/
def decodeUtf8 (str : Nat) : Int × Nat :=
  let codePoint := (decodeLead memory str).1
  (if 0xD800 ≤ codePoint ∧ codePoint ≤ 0xDFFF then -1 else codePoint, str + (decodeLead memory str).2)

/-- The bytes that `decode_utf8` reads. -/
def decodeReads (str : Nat) : List Nat := (List.range (decodeLead memory str).2).map (str + ·)

end Decoder

/-! ## Keys -/

/-- The values of `unicode_input_modes`; with any other value, as with that of BSD, nothing is typed around the
digits. -/
def unicodeModeMacos : UInt8 := 0
def unicodeModeLinux : UInt8 := 1
def unicodeModeWindows : UInt8 := 2
def unicodeModeWincompose : UInt8 := 4
def unicodeModeEmacs : UInt8 := 5

def kcA : BitVec 8 := 0x04
def kcU : BitVec 8 := 0x18
def kcX : BitVec 16 := 0x1B
def kc8 : BitVec 16 := 0x25
def kcEnter : BitVec 8 := 0x28
def kcSpace : BitVec 8 := 0x2C
def kcCapsLock : BitVec 8 := 0x39
def kcNumLock : BitVec 8 := 0x53
def kcKpPlus : BitVec 8 := 0x57
def kcKp1 : BitVec 8 := 0x59
def kcLeftAlt : BitVec 8 := 0xE2

/-- `LCTL` of a keycode. -/
def lctl (keycode : BitVec 16) : BitVec 16 := 0x0100 ||| keycode

structure Led where
  capsLock : Bool
  numLock : Bool
deriving DecidableEq

/-- `tap_code`, `tap_code16`, `register_code`, `unregister_code`, `send_char` and `wait_ms`. -/
inductive Output where
  | tap (code : BitVec 8)
  | tap16 (code : BitVec 16)
  | register (code : BitVec 8)
  | unregister (code : BitVec 8)
  | char (asciiCode : UInt8)
  | wait (ms : Nat)
deriving DecidableEq

/-- The LEDs of the host after what it has been sent, and the keys that start Unicode input: `UNICODE_KEY_MAC`,
`UNICODE_KEY_LNX` and `UNICODE_KEY_WINC`. -/
structure Env where
  hostKeyboardLedState : List Output → Led
  unicodeKeyMac : BitVec 8
  unicodeKeyLnx : BitVec 16
  unicodeKeyWinc : BitVec 8

/-- The keys where none are configured: Left Alt, Ctrl+Shift+U and Right Alt. -/
def Env.default (hostKeyboardLedState : List Output → Led) : Env := ⟨hostKeyboardLedState, kcLeftAlt, 0x0318, 0xE6⟩

/-- The variables of `unicode.c`, the modifiers, what has been typed, and the places that have been read. -/
structure State where
  inputMode : UInt8
  savedMods : BitVec 8
  savedLedState : Led
  mods : BitVec 8
  weakMods : BitVec 8
  outputs : List Output
  reads : List Nat

def isModifierKeycode (code : BitVec 8) : Bool := 0xE0 ≤ code && code ≤ 0xE7

def modBit (code : BitVec 8) : BitVec 8 := 1#8 <<< (code &&& 0x07)

def extractModBits (code : BitVec 16) : BitVec 8 :=
  if 0x0100 ≤ code && code ≤ 0x1FFF then
    let side (mod : BitVec 8) : BitVec 8 := if code &&& 0x1000 ≠ 0 then mod <<< 4 else mod
    (if code &&& 0x0100 ≠ 0 then side 0x01 else 0) ||| (if code &&& 0x0200 ≠ 0 then side 0x02 else 0) |||
      (if code &&& 0x0400 ≠ 0 then side 0x04 else 0) ||| (if code &&& 0x0800 ≠ 0 then side 0x08 else 0)
  else 0

namespace State

def emit (output : Output) (s : State) : State := { s with outputs := s.outputs ++ [output] }

def read (places : List Nat) (s : State) : State := { s with reads := s.reads ++ places }

/-- The modifier of a code that is registered. -/
def press (code : BitVec 8) (s : State) : State :=
  if isModifierKeycode code then { s with mods := s.mods ||| modBit code } else s

def release (code : BitVec 8) (s : State) : State :=
  if isModifierKeycode code then { s with mods := s.mods &&& ~~~modBit code } else s

def registerCode (code : BitVec 8) (s : State) : State := (s.emit (.register code)).press code

def unregisterCode (code : BitVec 8) (s : State) : State := (s.emit (.unregister code)).release code

def tapCode (code : BitVec 8) (s : State) : State := ((s.emit (.tap code)).press code).release code

/-- The modifiers of the code are weak, unless it is a modifier itself or none. -/
def tapCode16 (code : BitVec 16) (s : State) : State :=
  let bits := extractModBits code
  let strong : Bool := (0xE0 ≤ code && code ≤ 0xE7) || code == 0
  let s := s.emit (.tap16 code)
  let s := if strong then { s with mods := s.mods ||| bits } else { s with weakMods := s.weakMods ||| bits }
  let s := (s.press (code.setWidth 8)).release (code.setWidth 8)
  if strong then { s with mods := s.mods &&& ~~~bits } else { s with weakMods := s.weakMods &&& ~~~bits }

def sendNibble (number : Nat) (s : State) : State :=
  let number := number &&& 0xF
  s.emit (.char (.ofNat (if number ≤ 9 then number + 0x30 else number - 10 + 0x61)))

def sendNibbleWrapper (digit : Nat) (s : State) : State :=
  if s.inputMode = unicodeModeWindows then
    s.tapCode (if digit < 10 then kcKp1 + .ofNat 8 ((10 + digit - 1) % 10) else kcA + .ofNat 8 (digit - 10))
  else s.sendNibble digit

end State

section Typing

variable (env : Env)

/-- `UNICODE_TYPE_DELAY`. -/
def unicodeTypeDelay : Nat := 10

def unicodeInputStart (s : State) : State :=
  let s := { s with savedLedState := env.hostKeyboardLedState s.outputs }
  let s := if s.inputMode = unicodeModeLinux ∧ s.savedLedState.capsLock then s.tapCode kcCapsLock else s
  let s := { s with savedMods := s.mods, mods := 0, weakMods := 0 }
  let s :=
    if s.inputMode = unicodeModeMacos then s.registerCode env.unicodeKeyMac
    else if s.inputMode = unicodeModeLinux then s.tapCode16 env.unicodeKeyLnx
    else if s.inputMode = unicodeModeWindows then
      let s := if !s.savedLedState.numLock then s.tapCode kcNumLock else s
      ((s.registerCode kcLeftAlt).emit (.wait unicodeTypeDelay)).tapCode kcKpPlus
    else if s.inputMode = unicodeModeWincompose then (s.tapCode env.unicodeKeyWinc).tapCode kcU
    else if s.inputMode = unicodeModeEmacs then ((s.tapCode16 (lctl kcX)).tapCode16 kc8).tapCode16 (kcEnter.setWidth 16)
    else s
  s.emit (.wait unicodeTypeDelay)

def unicodeInputFinish (s : State) : State :=
  let s :=
    if s.inputMode = unicodeModeMacos then s.unregisterCode env.unicodeKeyMac
    else if s.inputMode = unicodeModeLinux then
      let s := s.tapCode kcSpace
      if s.savedLedState.capsLock then s.tapCode kcCapsLock else s
    else if s.inputMode = unicodeModeWindows then
      let s := s.unregisterCode kcLeftAlt
      if !s.savedLedState.numLock then s.tapCode kcNumLock else s
    else if s.inputMode = unicodeModeWincompose then s.tapCode kcEnter
    else if s.inputMode = unicodeModeEmacs then s.tapCode16 (kcEnter.setWidth 16)
    else s
  { s with mods := s.savedMods }

/-- The loop of `register_hex32` for the nibbles below one. -/
def registerNibbles (hex : Nat) : Nat → Bool → State → State
  | 0, _, s => s
  | i + 1, firstDigit, s =>
    let needsLeadingZero := s.inputMode == unicodeModeWincompose
    let digit := (hex >>> (i * 4)) &&& 0xF
    let s := if firstDigit && needsLeadingZero && 9 < digit then s.sendNibbleWrapper 0 else s
    if digit ≠ 0 ∨ firstDigit = false ∨ i < 4 then registerNibbles hex i false (s.sendNibbleWrapper digit)
    else registerNibbles hex i firstDigit s

def registerHex32 (hex : Nat) (s : State) : State := registerNibbles hex 8 true s

def registerUnicode (codePoint : Nat) (s : State) : State :=
  if 0x10FFFF < codePoint ∨ (0xFFFF < codePoint ∧ s.inputMode = unicodeModeWindows) then s
  else
    let s := unicodeInputStart env s
    let s :=
      if 0xFFFF < codePoint ∧ s.inputMode = unicodeModeMacos then
        let codePoint := codePoint - 0x10000
        let lo := codePoint &&& 0x3FF
        let hi := (codePoint &&& 0xFFC00) >>> 10
        registerHex32 (lo + 0xDC00) (registerHex32 (hi + 0xD800) s)
      else registerHex32 codePoint s
    unicodeInputFinish env s

/-- `send_unicode_string`, with fuel for its loop. -/
def sendUnicodeString (memory : Nat → UInt8) : Nat → Nat → State → Option State
  | 0, _, _ => none
  | fuel + 1, str, s =>
    let s := s.read [str]
    if memory str = 0 then some s
    else
      let (codePoint, next) := decodeUtf8 memory str
      let s := s.read (decodeReads memory str)
      sendUnicodeString memory fuel next (if 0 ≤ codePoint then registerUnicode env codePoint.toNat s else s)

end Typing

end QmkFirmware.Unicode
