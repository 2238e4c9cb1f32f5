import QmkFirmware.DynamicKeymap.Model
import QmkFirmware.Qmkata.SysexHandler
import QmkFirmware.Wireless.DfuBridge

/-! # VIA

A shallow embedding of `raw_hid_receive` of `quantum/via.c`.  The packet is the buffer
of the board, so that `data[i]` is `load i` and `store i`; `command_data` starts at 1
and the value id of a custom command at 2.

`via_command_kb` sees every packet first.  A board that does not override it declines all of
them; Keychron's boards share the one of `keychron_common.c`, less the analog matrix, which no
board has and whose code is not there.  `via_custom_value_command_kb` is the weak function of
`via.c`, which reports the command as unhandled.
-/

namespace QmkFirmware.Via

open QmkFirmware.Memory QmkFirmware.Traced QmkFirmware.DynamicKeymap

/-! ## The rest of the keyboard -/

/-- Calls to other modules, and the report that is sent back. -/
inductive ViaRequest where
  | rawHidSend (bytes : List UInt8)
  | setLayoutOptionsKb (value : Nat)
  | setDeviceIndication (value : UInt8)
  | setChannelValue (channelId valueId : UInt8) (valueData : List UInt8)
  | saveChannel (channelId : UInt8)
  | lkbt51Spi (packet : Option (List UInt8))
  | factoryTest (commandId : UInt8) (arguments : List UInt8)
  | qmkata (calls : List Qmkata.Call)
  deriving DecidableEq, Repr

/-- The options and data of `keychron_common.c`.  `buildDate` is `QMK_BUILDDATE` with the zero at
its end. -/
structure Keychron where
  supportFeature : UInt8
  deviceVer : UInt16
  buildDate : List UInt8
  defaultLayer : UInt8
  lkWirelessEnable : Bool
  bridge : Wireless.DfuBridge.State
  factoryTestEnable : Bool
  qmkataEnable : Bool
  environment : Qmkata.Environment
  qmkata : Qmkata.Firmware
  /-- A date and a time of day, as in "2019-11-05-11:29:54". -/
  dated : buildDate.length = 20

/-- What the commands read from other modules, and the build options. -/
structure Keyboard where
  layout : Layout
  flash : FlashKeymap
  channelEnabled : UInt8 → Bool
  channelValue : UInt8 → UInt8 → Nat → UInt8
  eepromAllowReset : Bool
  magicAddr : Nat
  magic : Nat → UInt8
  layoutOptionsAddr : Nat
  layoutOptionsSize : Nat
  layoutOptionsDefault : Nat
  firmwareVersion : Nat
  timerRead32 : Nat
  matrixRow : Nat → Nat
  keychron : Option Keychron

def Keyboard.qmkataEnable (keyboard : Keyboard) : Bool :=
  match keyboard.keychron with
  | none => false
  | some keychron => keychron.qmkataEnable

abbrev Command := Action ViaRequest

def request (call : ViaRequest) : Command Unit := record (.call call)

def loadBytes : Nat → Nat → Command (List UInt8)
  | _, 0 => pure []
  | index, count + 1 => do
    let byte ← load index
    let rest ← loadBytes (index + 1) count
    pure (byte :: rest)

def storeBytes : Nat → List UInt8 → Command Unit
  | _, [] => pure ()
  | index, byte :: bytes => do
    store index byte
    storeBytes (index + 1) bytes

def rawHidSend (length : Nat) : Command Unit := do
  let bytes ← loadBytes 0 length
  request (.rawHidSend bytes)

/-! ## Command ids -/

def idGetProtocolVersion : UInt8 := 0x01
def idGetKeyboardValue : UInt8 := 0x02
def idSetKeyboardValue : UInt8 := 0x03
def idDynamicKeymapGetKeycode : UInt8 := 0x04
def idDynamicKeymapSetKeycode : UInt8 := 0x05
def idDynamicKeymapReset : UInt8 := 0x06
def idCustomSetValue : UInt8 := 0x07
def idCustomGetValue : UInt8 := 0x08
def idCustomSave : UInt8 := 0x09
def idEepromReset : UInt8 := 0x0A
def idDynamicKeymapMacroGetCount : UInt8 := 0x0C
def idDynamicKeymapMacroGetBufferSize : UInt8 := 0x0D
def idDynamicKeymapMacroGetBuffer : UInt8 := 0x0E
def idDynamicKeymapMacroSetBuffer : UInt8 := 0x0F
def idDynamicKeymapMacroReset : UInt8 := 0x10
def idDynamicKeymapGetLayerCount : UInt8 := 0x11
def idDynamicKeymapGetBuffer : UInt8 := 0x12
def idDynamicKeymapSetBuffer : UInt8 := 0x13
def idDynamicKeymapGetEncoder : UInt8 := 0x14
def idDynamicKeymapSetEncoder : UInt8 := 0x15
def idUnhandled : UInt8 := 0xFF

def idUptime : UInt8 := 0x01
def idLayoutOptions : UInt8 := 0x02
def idSwitchMatrixState : UInt8 := 0x03
def idFirmwareVersion : UInt8 := 0x04
def idDeviceIndication : UInt8 := 0x05

def viaProtocolVersion : Nat := 0x000C

/-! ## Commands of Keychron's boards -/

def kcGetProtocolVersion : UInt8 := 0xA0
def kcGetFirmwareVersion : UInt8 := 0xA1
def kcGetSupportFeature : UInt8 := 0xA2
def kcGetDefaultLayer : UInt8 := 0xA3
def lkbt51DfuMsg : UInt8 := 0xAA
def factoryTestMsg : UInt8 := 0xAB
def protocolVersion : UInt8 := 0x02

section Keychron

variable (keychron : Keychron) (length : Nat)

/-- A hexadecimal digit as `itoa` writes it. -/
def hexDigit (value : UInt16) : UInt8 :=
  if value < 10 then 0x30 + value.toUInt8 else 0x57 + value.toUInt8

/-- `itoa` of a single digit, with the zero behind it. -/
def itoa (value : UInt16) (index : Nat) : Command Unit := storeBytes index [hexDigit value, 0]

/-- The first digit is left out if it is zero. -/
def firstDigit (version : UInt16) : Command Unit :=
  if version &&& 0xF000 ≠ 0 then itoa (version >>> 12) 2 else pure ()

def getFirmwareVersion : Command Unit := do
  let version := keychron.deviceVer
  let i := if version &&& 0xF000 ≠ 0 then 3 else 2
  store 1 0x76
  firstDigit version
  itoa ((version >>> 8) &&& 0xF) i
  store (i + 1) 0x2E
  itoa ((version >>> 4) &&& 0xF) (i + 2)
  store (i + 3) 0x2E
  itoa (version &&& 0xF) (i + 4)
  store (i + 5) 0x20
  storeBytes (i + 6) keychron.buildDate

/-- `lkbt51_dfu_rx` of a packet with these bytes: what it reads, and what it sends. -/
def lkbt51DfuRx (bridge : Wireless.DfuBridge.State) (data : Nat → UInt8) : Command Unit := do
  let _ ← loadBytes 0 4
  let start := Wireless.DfuBridge.packetHeaderLen
  let payloadLen := (data 2).toNat
  if Wireless.DfuBridge.headerValid data then
    if Wireless.DfuBridge.rawEpsize - start < payloadLen then pure ()
    else
      let _ ← loadBytes start (payloadLen - 2)
      let _ ← load (start + payloadLen - 2)
      let _ ← load (start + payloadLen - 1)
      if Wireless.DfuBridge.dfuChecksumValid data then
        let _ ← loadBytes 4 2
        if data start &&& 0xF0 = 0x60 then
          let _ ← loadBytes start (data 2 - 2).toNat
          request (.lkbt51Spi (Wireless.DfuBridge.lkbt51DfuRx bridge data length.toUInt8).2)
        else pure ()
      else pure ()
  else pure ()

/-- The size of a packet in `factory_test.c`, which does not see the one of the USB driver. -/
def factoryTestEpsize : Nat := 32

/-- What a factory test command takes from the packet, in a build with all of them. -/
def factoryTestArguments (commandId : UInt8) : Command (List UInt8) := do
  -- backlight, OS switch and radio carrier
  if commandId = 1 ∨ commandId = 2 ∨ commandId = 7 then loadBytes 2 1
  -- interrupt pin: the test and the level
  else if commandId = 4 then
    let action ← load 2
    if action = 0xA1 ∨ action = 0xA2 then loadBytes 2 2 else pure [action]
  -- ADC of the charging monitor
  else if commandId = 6 ∨ commandId = 0xA1 then loadBytes 3 1
  else pure []

/-- `factory_test_rx`, whose commands leave the packet alone once they have their arguments. -/
def factoryTestRx : Command Unit := do
  let bytes ← loadBytes 1 (factoryTestEpsize - 4)
  let low ← load (factoryTestEpsize - 2)
  let high ← load (factoryTestEpsize - 1)
  let checksum := Wireless.DfuBridge.payloadChecksum bytes
  if checksum &&& 0xFF ≠ low.toUInt16 ∨ checksum >>> 8 ≠ high.toUInt16 then pure ()
  else
    let commandId ← load 1
    request (.factoryTest commandId (← factoryTestArguments commandId))

/-- The reads of a handler of QMKata; it does not write to the packet. -/
def packetReads : Qmkata.PacketEvent → List (BufferEvent ViaRequest)
  | .read index count => (List.range count).map fun k => .read (index + k)
  | .subtract .. | .codeBuffer .. | .functionTable _ => []

def recordAll (events : List (BufferEvent ViaRequest)) : Command Unit := fun s => ⟨(), s, events⟩

def qmkataRecvData : Command Unit := do
  let board ← read
  let handled := Qmkata.qmkataRecvData keychron.environment board.data length.toUInt8 keychron.qmkata
  recordAll (handled.events.flatMap packetReads)
  request (.qmkata (handled.state.calls.drop keychron.qmkata.calls.length))

/-- Whether the command is one of the keyboard's, which answers it. -/
def keychronCommand (commandId : UInt8) : Command Bool :=
  if commandId = kcGetProtocolVersion then do
    store 1 protocolVersion
    rawHidSend length
    pure true
  else if commandId = kcGetFirmwareVersion then do
    getFirmwareVersion keychron
    rawHidSend length
    pure true
  else if commandId = kcGetSupportFeature then do
    -- one byte behind the place of the other answers
    store 2 keychron.supportFeature
    rawHidSend length
    pure true
  else if commandId = kcGetDefaultLayer then do
    store 1 keychron.defaultLayer
    rawHidSend length
    pure true
  else if keychron.lkWirelessEnable ∧ commandId = lkbt51DfuMsg then do
    let board ← read
    lkbt51DfuRx length keychron.bridge board.data
    pure true
  else if keychron.factoryTestEnable ∧ commandId = factoryTestMsg then do
    factoryTestRx
    pure true
  else if keychron.qmkataEnable ∧ commandId = Qmkata.rawhidQmkataMsg then do
    qmkataRecvData keychron length
    pure true
  else pure false

end Keychron

section Commands

variable (keyboard : Keyboard)

/-! ## Layout options and reset -/

def viaEepromSetValid (valid : Bool) : Command Unit :=
  loop (fun i => eepromUpdateByte (keyboard.magicAddr + i) (if valid then keyboard.magic i else 0xFF)) 3 0

/-- Most significant byte first. -/
def viaGetLayoutOptions : Nat → Nat → Command Nat
  | 0, _ => pure 0
  | count + 1, address => do
    let byte ← eepromReadByte address
    let rest ← viaGetLayoutOptions count (address + 1)
    pure (byte.toNat * 2 ^ (8 * count) + rest)

def viaSetLayoutOptions (value : Nat) : Command Unit := do
  request (.setLayoutOptionsKb value)
  loop (fun i => eepromUpdateByte (keyboard.layoutOptionsAddr + keyboard.layoutOptionsSize - 1 - i)
    (UInt8.ofNat (value / 2 ^ (8 * i)))) keyboard.layoutOptionsSize 0

def eeconfigInitVia : Command Unit := do
  viaEepromSetValid keyboard false
  viaSetLayoutOptions keyboard keyboard.layoutOptionsDefault
  dynamicKeymapReset keyboard.layout keyboard.flash
  dynamicKeymapMacroReset keyboard.layout
  viaEepromSetValid keyboard true

/-! ## Keyboard values -/

/-- `command_data[1..4]` from a 32-bit value, most significant byte first. -/
def storeValue32 (value : Nat) : Command Unit := do
  store 2 (UInt8.ofNat (value / 2 ^ 24))
  store 3 (UInt8.ofNat (value / 2 ^ 16))
  store 4 (UInt8.ofNat (value / 2 ^ 8))
  store 5 (UInt8.ofNat value)

/-- Bytes of a matrix row in the report, by the number of columns. -/
def rowBytes (cols : Nat) : Nat :=
  if cols > 24 then 4 else if cols > 16 then 3 else if cols > 8 then 2 else 1

def storeRow (value : Nat) (bytes index : Nat) : Command Unit :=
  loop (fun k => store (index + k) (UInt8.ofNat (value / 2 ^ (8 * (bytes - 1 - k))))) bytes 0

def switchMatrixState : Command Unit := do
  let offset := (← load 2).toNat
  let rows := 28 / ((keyboard.layout.cols + 7) / 8)
  let bytes := rowBytes keyboard.layout.cols
  loop (fun row => storeRow (keyboard.matrixRow (row + offset)) bytes (3 + row * bytes))
    (min rows (keyboard.layout.rows - offset)) 0

def unhandled : Command Unit := store 0 idUnhandled

def getKeyboardValue : Command Unit := do
  let valueId ← load 1
  if valueId = idUptime then storeValue32 keyboard.timerRead32
  else if valueId = idLayoutOptions then
    storeValue32 (← viaGetLayoutOptions keyboard.layoutOptionsSize keyboard.layoutOptionsAddr)
  else if valueId = idSwitchMatrixState then switchMatrixState keyboard
  else if valueId = idFirmwareVersion then storeValue32 keyboard.firmwareVersion
  else unhandled

def setKeyboardValue : Command Unit := do
  let valueId ← load 1
  if valueId = idLayoutOptions then
    let bytes ← loadBytes 2 4
    viaSetLayoutOptions keyboard (bytes.foldl (fun value byte => value * 2 ^ 8 + byte.toNat) 0)
  else if valueId = idDeviceIndication then
    request (.setDeviceIndication (← load 2))
  else unhandled

/-! ## Custom values

The handlers of the channels differ in the values they know and in their size. -/

/-- Bytes of the value data: one, but two for a colour, and none for unknown ids. -/
def valueBytes (channelId valueId : UInt8) : Nat :=
  match channelId.toNat, valueId.toNat with
  -- backlight: brightness and effect
  | 1, 1 => 1
  | 1, 2 => 1
  -- rgblight and rgb matrix: brightness, effect, speed and colour
  | 2, 1 => 1
  | 2, 2 => 1
  | 2, 3 => 1
  | 2, 4 => 2
  | 3, 1 => 1
  | 3, 2 => 1
  | 3, 3 => 1
  | 3, 4 => 2
  -- audio: enable and clicky
  | 4, 1 => 1
  | 4, 2 => 1
  -- led matrix: brightness, effect and speed
  | 5, 1 => 1
  | 5, 2 => 1
  | 5, 3 => 1
  | _, _ => 0

def channelGetValue (channelId : UInt8) : Command Unit := do
  let valueId ← load 2
  loop (fun k => store (3 + k) (keyboard.channelValue channelId valueId k)) (valueBytes channelId valueId) 0

def channelSetValue (channelId : UInt8) : Command Unit := do
  let valueId ← load 2
  let valueData ← loadBytes 3 (valueBytes channelId valueId)
  request (.setChannelValue channelId valueId valueData)

def channelCommand (channelId : UInt8) : Command Unit := do
  let commandId ← load 0
  if commandId = idCustomSetValue then channelSetValue channelId
  else if commandId = idCustomGetValue then channelGetValue keyboard channelId
  else if commandId = idCustomSave then request (.saveChannel channelId)
  else unhandled

def viaCustomValueCommand : Command Unit := do
  let channelId ← load 1
  if keyboard.channelEnabled channelId then channelCommand keyboard channelId
  else unhandled

/-! ## Dynamic keymap -/

def getKeycodeCommand : Command Unit := do
  let layer ← load 1
  let row ← load 2
  let column ← load 3
  let keycode ← dynamicKeymapGetKeycode keyboard.layout layer.toNat row.toNat column.toNat
  store 4 (highByte keycode)
  store 5 (lowByte keycode)

def setKeycodeCommand : Command Unit := do
  let layer ← load 1
  let row ← load 2
  let column ← load 3
  let high ← load 4
  let low ← load 5
  dynamicKeymapSetKeycode keyboard.layout layer.toNat row.toNat column.toNat (joinBytes high low)

def getEncoderCommand : Command Unit := do
  let layer ← load 1
  let encoderId ← load 2
  let clockwise ← load 3
  let keycode ← dynamicKeymapGetEncoder keyboard.layout layer.toNat encoderId.toNat (clockwise ≠ 0)
  store 4 (highByte keycode)
  store 5 (lowByte keycode)

def setEncoderCommand : Command Unit := do
  let layer ← load 1
  let encoderId ← load 2
  let clockwise ← load 3
  let high ← load 4
  let low ← load 5
  dynamicKeymapSetEncoder keyboard.layout layer.toNat encoderId.toNat (clockwise ≠ 0) (joinBytes high low)

/-- The buffer commands take offset and size from the host, and data from byte 4 on. -/
def bufferCommand (transfer : Nat → Nat → Nat → Command Unit) : Command Unit := do
  let high ← load 1
  let low ← load 2
  let size ← load 3
  transfer (joinBytes high low).toNat size.toNat 4

/-! ## Dispatch -/

def handleCommand (commandId : UInt8) : Command Unit :=
  if commandId = idGetProtocolVersion then do
    store 1 (UInt8.ofNat (viaProtocolVersion / 2 ^ 8))
    store 2 (UInt8.ofNat viaProtocolVersion)
  else if commandId = idGetKeyboardValue then getKeyboardValue keyboard
  else if commandId = idSetKeyboardValue then setKeyboardValue keyboard
  else if commandId = idDynamicKeymapGetKeycode then getKeycodeCommand keyboard
  else if commandId = idDynamicKeymapSetKeycode then setKeycodeCommand keyboard
  else if commandId = idDynamicKeymapReset then dynamicKeymapReset keyboard.layout keyboard.flash
  else if commandId = idCustomSetValue ∨ commandId = idCustomGetValue ∨ commandId = idCustomSave then
    viaCustomValueCommand keyboard
  else if keyboard.eepromAllowReset ∧ commandId = idEepromReset then do
    viaEepromSetValid keyboard false
    eeconfigInitVia keyboard
  else if commandId = idDynamicKeymapMacroGetCount then
    store 1 (UInt8.ofNat keyboard.layout.macroCount)
  else if commandId = idDynamicKeymapMacroGetBufferSize then do
    store 1 (UInt8.ofNat (keyboard.layout.macroSize / 2 ^ 8))
    store 2 (UInt8.ofNat keyboard.layout.macroSize)
  else if commandId = idDynamicKeymapMacroGetBuffer then
    bufferCommand (dynamicKeymapMacroGetBuffer keyboard.layout)
  else if commandId = idDynamicKeymapMacroSetBuffer then
    bufferCommand (dynamicKeymapMacroSetBuffer keyboard.layout)
  else if commandId = idDynamicKeymapMacroReset then dynamicKeymapMacroReset keyboard.layout
  else if commandId = idDynamicKeymapGetLayerCount then
    store 1 (UInt8.ofNat keyboard.layout.layerCount)
  else if commandId = idDynamicKeymapGetBuffer then
    bufferCommand (dynamicKeymapGetBuffer keyboard.layout)
  else if commandId = idDynamicKeymapSetBuffer then
    bufferCommand (dynamicKeymapSetBuffer keyboard.layout)
  else if keyboard.layout.encoderMap ∧ commandId = idDynamicKeymapGetEncoder then getEncoderCommand keyboard
  else if keyboard.layout.encoderMap ∧ commandId = idDynamicKeymapSetEncoder then setEncoderCommand keyboard
  else unhandled

def viaCommandKb (length : Nat) : Command Bool := do
  match keyboard.keychron with
  | none => pure false
  | some keychron => do
    let commandId ← load 0
    keychronCommand keychron length commandId

def rawHidReceive (length : Nat) : Command Unit := do
  let handled ← viaCommandKb keyboard length
  if handled then pure ()
  else
    let commandId ← load 0
    handleCommand keyboard commandId
    rawHidSend length

end Commands

end QmkFirmware.Via
