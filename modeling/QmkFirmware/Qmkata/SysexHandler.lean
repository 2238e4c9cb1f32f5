import QmkFirmware.Foundations.Memory
import QmkFirmware.Foundations.Traced
import QmkFirmware.Qmkata.Stream

/-! # The QMKata receive path

A shallow embedding of `qmkata_recv_data` of `keyboards/keychron/qmkata/QMKata.cpp`
and of the handlers in `keyboards/keychron/q3_max/qmkata_sysex_handler.c`.  The
7-bit path is not compiled in (`QMKATA_7BIT_SYSEX_ENABLE` is never set).

A packet is seen through its address: `data i` is the byte `i` places behind its
first one, also where that lies behind the packet.  Pointers into the packet are
such offsets.  Each access to the packet, to the code buffers and to the function
table is recorded, and so is each subtraction of a header from a length.  Debug
output is left out; it reads nothing that the handlers do not read themselves.
-/

namespace QmkFirmware.Qmkata

open QmkFirmware.Memory QmkFirmware.Traced

/-! ## State -/

inductive PacketEvent where
  | read (index count : Nat)
  | subtract (length header : UInt8)
  | codeBuffer (funId offset count : Nat)
  | functionTable (funId : Nat)
  deriving DecidableEq, Repr

/-- Calls out of the handlers, with the arguments they pass. -/
inductive Call where
  | sendVersion
  | sendSysex (cmd : UInt8) (payload : List UInt8)
  | defaultLayerSet (layer : UInt8)
  | setMacwinMode (mode : Int)
  | writeMemory (addr width val : Nat)
  | updateEeprom (addr width val : Nat)
  | callFunction (addr : Nat)
  | debugLedOn (led : Nat)
  | execute (funId : Nat)
  deriving DecidableEq, Repr

structure HostLed where
  duration : UInt8
  r : UInt8
  g : UInt8
  b : UInt8
  deriving DecidableEq, Repr

/-- `func` maps a function id to the code buffer its pointer refers to, if any.
    `config` holds the bytes of the variables in `s_config_table`. -/
structure Firmware where
  started : Bool
  led : Nat → HostLed
  written : Bool
  config : Nat → Nat → UInt8
  dynldFuncBuf : Nat → Nat → UInt8
  func : Nat → Option Nat
  calls : List Call

/-- What the handlers read from the rest of the firmware, and the build option. -/
structure Environment where
  develBuild : Bool
  memory : Nat → UInt8
  eeprom : Nat → UInt8
  eepromLayout : List (Nat × Nat)
  macwinMode : UInt8
  batteryPercentage : UInt8
  batteryVoltage : Nat
  dipSwitchState : UInt8
  rawMatrix : List UInt8
  execute : Nat → Nat

abbrev Handler := Traced PacketEvent Firmware

def call (request : Call) : Handler Unit :=
  update fun s => { s with calls := s.calls ++ [request] }

/-! ## Constants -/

def qmkataCmdSet : UInt8 := 1
def qmkataCmdGet : UInt8 := 2
def qmkataCmdResponse : UInt8 := 0x0F

def qmkataIdRgbMatrixBuf : UInt8 := 1
def qmkataIdDefaultLayer : UInt8 := 2
def qmkataIdCli : UInt8 := 3
def qmkataIdStatus : UInt8 := 4
def qmkataIdMacwinMode : UInt8 := 5
def qmkataIdStructLayout : UInt8 := 8
def qmkataIdConfig : UInt8 := 9
def qmkataIdControl : UInt8 := 0xFF
def qmkataIdDynldFunction : UInt8 := 250
def qmkataIdDynldFunexec : UInt8 := 251

def rawSysexStart : UInt8 := 0xF1

def rgbMatrixLedCount : Nat := 87
def matrixRows : Nat := 6
def matrixCols : Nat := 17

def dynldFunIdExec : Nat := 1
def dynldFunIdTest : Nat := 2
def dynldFunIdMax : Nat := 3
def dynldFuncSize : Nat := 1024

def configIdKeymapLayout : Nat := 5
def configIdMax : Nat := 8

/-- The sizes in `s_config_table`. -/
def configSize : Nat → Nat
  | 1 => 1
  | 2 => 4
  | 3 => 8
  | 4 => 2
  | 5 => 2 * matrixRows * matrixCols
  | 6 => 1
  | 7 => 4
  | _ => 0

/-! ## Bytes -/

/-- `low | high << 8`. -/
def word16 (low high : UInt8) : Nat := low.toNat + 2 ^ 8 * high.toNat

/-- An integer from its bytes, least significant first. -/
def fromBytes : List UInt8 → Nat
  | [] => 0
  | byte :: rest => byte.toNat + 2 ^ 8 * fromBytes rest

/-- The first `count` bytes of an integer, least significant first. -/
def toBytes : Nat → Nat → List UInt8
  | 0, _ => []
  | count + 1, value => UInt8.ofNat value :: toBytes count (value / 2 ^ 8)

def subtractHeader (length header : UInt8) : Handler UInt8 := do
  record (.subtract length header)
  pure (length - header)

def respond (payload : List UInt8) : Handler Unit :=
  call (.sendSysex qmkataCmdResponse payload)

section Packet

variable (data : Nat → UInt8)

def readByte (index : Nat) : Handler UInt8 := do
  record (.read index 1)
  pure (data index)

/-- `memcpy` from the packet. -/
def readBytes (index count : Nat) : Handler (List UInt8) := do
  record (.read index count)
  pure (slice data index count)

end Packet

/-! ## Struct layouts -/

def structFlagReadOnly : UInt8 := 1

def structLayout (lid sid size flags : UInt8) : List UInt8 :=
  [qmkataIdStructLayout, lid, sid, size, flags]

/-- Bit positions count from the least significant bit on this target. -/
def bitfield (id index nbits : UInt8) : List UInt8 := [id, 1, index, nbits]

def bytefield (id offset : UInt8) : List UInt8 := [id, 2, offset, 1]

def u16field (id offset : UInt8) : List UInt8 := [id, 3, offset, 2]

def arrayfield (id type offset size : UInt8) : List UInt8 := [id, 0x80 ||| type, offset, size]

def sendStructLayoutStatus (seqnum : UInt8) : Handler Unit := do
  respond (seqnum :: structLayout qmkataIdStatus 1 6 structFlagReadOnly ++
    bytefield 1 0 ++ u16field 2 2 ++ bytefield 3 4)
  respond (seqnum :: structLayout qmkataIdStatus 2 1 structFlagReadOnly ++ bytefield 1 0)
  respond (seqnum :: structLayout qmkataIdStatus 3 (4 * matrixRows).toUInt8 structFlagReadOnly ++
    arrayfield 1 4 0 matrixRows.toUInt8)

def sendStructLayoutConfig (seqnum : UInt8) : Handler Unit := do
  let announce (sid : Nat) (flags : UInt8) (fields : List UInt8) : Handler Unit :=
    respond (seqnum :: structLayout qmkataIdConfig sid.toUInt8 (configSize sid).toUInt8 flags ++ fields)
  announce 1 0 (bitfield 1 0 1 ++ bitfield 2 1 1 ++ bitfield 3 2 1 ++ bitfield 4 3 1)
  announce 2 0 (bitfield 1 0 1 ++ bitfield 2 1 1 ++ bitfield 3 2 1)
  announce 3 0 (bitfield 1 0 2 ++ bitfield 2 2 6 ++ bytefield 3 1 ++ bytefield 4 2 ++
    bytefield 5 3 ++ bytefield 6 4 ++ bytefield 7 5)
  announce 4 0 ((List.range 13).flatMap fun bit => bitfield (bit + 1).toUInt8 bit.toUInt8 1)
  announce 5 structFlagReadOnly (arrayfield 1 3 0 (matrixRows * matrixCols).toUInt8)
  announce 6 0 (bytefield 1 0)
  announce 7 0 (bitfield 1 0 1 ++ bitfield 2 1 1)

/-! ## Dynamic functions -/

section Handlers

variable (env : Environment) (data : Nat → UInt8)

def dynldFuncBufSet (funId offset : Nat) (bytes : List UInt8) : Handler Unit := do
  record (.codeBuffer funId offset bytes.length)
  update fun s => { s with
    dynldFuncBuf := Function.update s.dynldFuncBuf funId (blit (s.dynldFuncBuf funId) offset bytes) }

def funcSet (funId : Nat) (pointer : Option Nat) : Handler Unit := do
  record (.functionTable funId)
  update fun s => { s with func := Function.update s.func funId pointer }

/-- `memset` of a whole code buffer. -/
def clearFunction (funId : Nat) : Handler Unit :=
  dynldFuncBufSet funId 0 (List.replicate dynldFuncSize 0)

def loadFunction (funId source offset len : Nat) : Handler Int := do
  if offset = 0xFFFF then
    record (.codeBuffer funId 0 2)
    let s ← read
    if slice (s.dynldFuncBuf funId) 0 2 ≠ [0, 0] then
      funcSet funId (some funId)
      pure 0
    else pure 0
  else if offset + len > dynldFuncSize then
    clearFunction funId
    funcSet funId none
    pure (-1)
  else if funId ≥ dynldFunIdMax then
    pure (-1)
  else if offset = 0 then
    funcSet funId none
    clearFunction funId
    -- `memcmp` looks at the data before anything is copied
    let front ← if len ≥ 2 then readBytes data source 2 else pure []
    if front = [0, 0] then pure 0
    else
      dynldFuncBufSet funId offset (← readBytes data source len)
      pure 0
  else
    dynldFuncBufSet funId offset (← readBytes data source len)
    pure 0

def handleCmdSetDynldFunction (seqnum len : UInt8) (buf : Nat) : Handler Unit := do
  let funId := word16 (← readByte data buf) (← readByte data (buf + 1))
  let offset := word16 (← readByte data (buf + 2)) (← readByte data (buf + 3))
  let len ← subtractHeader len 4
  let rc ← loadFunction data funId (buf + 4) offset len.toNat
  respond [seqnum, qmkataIdDynldFunction, if rc = 0 then 0 else 0xFF]

def handleCmdSetDynldFunexec (seqnum len : UInt8) (buf : Nat) : Handler Unit := do
  let funId := word16 (← readByte data buf) (← readByte data (buf + 1))
  let _ ← subtractHeader len 2
  if funId = dynldFunIdExec then
    record (.functionTable funId)
    let s ← read
    if (s.func funId).isSome then
      call (.execute funId)
      respond ([seqnum, qmkataIdDynldFunexec] ++ toBytes 4 (env.execute funId))
    else respond ([seqnum, qmkataIdDynldFunexec] ++ toBytes 4 (2 ^ 32 - 1))
  else if funId = dynldFunIdTest then
    -- the pointer of the test function is called without a check
    record (.functionTable funId)
    call (.execute funId)
    respond ([seqnum, qmkataIdDynldFunexec] ++ toBytes 4 (env.execute funId))
  else respond ([seqnum, qmkataIdDynldFunexec] ++ toBytes 4 (2 ^ 32 - 1))

/-! ## LEDs and modes -/

/-- The loop of the rgb matrix buffer handler; each round takes at least one byte,
    so `fuel` need not exceed the length. -/
def rgbMatrixBufLoop (len : UInt8) (buf : Nat) : Nat → Nat → Handler Unit
  | 0, _ => pure ()
  | fuel + 1, i =>
    if i < len.toNat then do
      let li ← readByte data (buf + i)
      if li.toNat < rgbMatrixLedCount then
        let duration ← readByte data (buf + (i + 1))
        let r ← readByte data (buf + (i + 2))
        let g ← readByte data (buf + (i + 3))
        let b ← readByte data (buf + (i + 4))
        update fun s => { s with
          led := Function.update s.led li.toNat ⟨duration, r, g, b⟩
          written := true }
        rgbMatrixBufLoop len buf fuel (i + 5)
      else pure ()
    else pure ()

def handleCmdSetRgbMatrixBuf (len : UInt8) (buf : Nat) : Handler Unit :=
  rgbMatrixBufLoop data len buf len.toNat 0

def handleCmdSetDefaultLayer (buf : Nat) : Handler Unit := do
  call (.defaultLayerSet (← readByte data buf))

def handleCmdSetMacwinMode (buf : Nat) : Handler Unit := do
  let mode ← readByte data buf
  call (.setMacwinMode (if mode = 0x2D then -1 else mode.toNat))

def handleCmdGetMacwinMode (seqnum : UInt8) : Handler Unit :=
  respond [seqnum, qmkataIdMacwinMode, env.macwinMode]

/-! ## Status and configuration -/

/-- The bytes behind `s_status_table`, with the padding of `struct battery_status`. -/
def statusBytes : Nat → List UInt8
  | 1 => [env.batteryPercentage, 0] ++ toBytes 2 env.batteryVoltage ++ [1, 0]
  | 2 => [env.dipSwitchState]
  | 3 => env.rawMatrix
  | _ => []

def handleCmdGetStatus (seqnum : UInt8) (buf : Nat) : Handler Unit := do
  let statusId ← readByte data buf
  if statusId = 0 ∨ statusId.toNat ≥ 4 then pure ()
  else respond ([seqnum, qmkataIdStatus, statusId] ++ statusBytes env statusId.toNat)

def handleCmdGetStructLayout (seqnum : UInt8) (buf : Nat) : Handler Unit := do
  let structLayoutId ← readByte data buf
  if structLayoutId = qmkataIdStatus then sendStructLayoutStatus seqnum
  else if structLayoutId = qmkataIdControl then pure ()
  else if structLayoutId = qmkataIdConfig then sendStructLayoutConfig seqnum
  else pure ()

def handleCmdSetConfig (buf : Nat) : Handler Unit := do
  let configId := (← readByte data buf).toNat
  if configId = 0 ∨ configId ≥ configIdMax then pure ()
  else
    let bytes ← readBytes data (buf + 1) (configSize configId)
    update fun s => { s with
      config := Function.update s.config configId (blit (s.config configId) 0 bytes) }

def handleCmdGetConfig (seqnum : UInt8) (buf : Nat) : Handler Unit := do
  let configId ← readByte data buf
  if configId = 0 ∨ configId.toNat ≥ configIdMax then pure ()
  else
    let s ← read
    respond ([seqnum, qmkataIdConfig, configId] ++
      slice (s.config configId.toNat) 0 (configSize configId.toNat))

/-! ## Command line -/

def maxReadLen : Nat := 64

def returnCliError (seqnum cliSeq err : UInt8) : Handler Unit :=
  respond [seqnum, qmkataIdCli, cliSeq, err]

/-- The write of a value of one, two or four bytes; other widths are reported and
    then, like every write, acknowledged. -/
def cliWrite (seqnum cliSeq : UInt8) (width : Nat) (request : Call) : Handler Unit := do
  if width = 1 ∨ width = 2 ∨ width = 4 then call request
  else returnCliError seqnum cliSeq 0x69
  returnCliError seqnum cliSeq 0

/-- A read or write of memory or EEPROM, as the two commands share it. -/
def cliAccess (seqnum cliSeq : UInt8) (buf : Nat) (write : Bool) (source : Nat → UInt8)
    (request : Nat → Nat → Nat → Call) : Handler Unit := do
  let addr := fromBytes (← readBytes data (buf + 2) 4)
  let len := (← readByte data (buf + 6)).toNat
  if write then
    let val := fromBytes (← readBytes data (buf + 7) 4)
    cliWrite seqnum cliSeq len (request addr len (val % 2 ^ (8 * len)))
  else if len > maxReadLen then returnCliError seqnum cliSeq 0x69
  else respond ([seqnum, qmkataIdCli, cliSeq] ++ slice source addr len)

def cliEepromLayout (seqnum cliSeq : UInt8) : Handler Unit :=
  respond ([seqnum, qmkataIdCli, cliSeq] ++ env.eepromLayout.zipIdx.flatMap fun entry =>
    UInt8.ofNat (entry.2 + 1) :: (toBytes 4 entry.1.1 ++ toBytes 4 entry.1.2))

def handleCmdSetCli (seqnum : UInt8) (buf : Nat) : Handler Unit := do
  if env.develBuild then
    let cliSeq ← readByte data buf
    let cliCmd ← readByte data (buf + 1)
    let write := cliCmd &&& 0x80 ≠ 0
    let layout := cliCmd &&& 0x40 ≠ 0
    let cliCmd := cliCmd &&& 0x3F
    if cliCmd = 1 then
      if layout then returnCliError seqnum cliSeq 0x75
      else cliAccess data seqnum cliSeq buf write env.memory .writeMemory
    else if cliCmd = 2 then
      if layout then cliEepromLayout env seqnum cliSeq
      else cliAccess data seqnum cliSeq buf write env.eeprom .updateEeprom
    else if cliCmd = 3 then
      let funAddr := fromBytes (← readBytes data (buf + 2) 4)
      call (if funAddr ≠ 0 then .callFunction funAddr else .debugLedOn 0)
      returnCliError seqnum cliSeq 0
    else returnCliError seqnum cliSeq 0x75
  else pure ()

/-! ## Dispatch -/

def qmkataSysexHandler (cmd len : UInt8) (buf : Nat) : Handler Unit := do
  if len < 2 then pure ()
  else
    let seqnum ← readByte data buf
    let len ← subtractHeader len 1
    let id ← readByte data (buf + 1)
    let len ← subtractHeader len 1
    let buf := buf + 2
    if cmd = qmkataCmdSet then
      if id = qmkataIdCli then handleCmdSetCli env data seqnum buf
      else if id = qmkataIdRgbMatrixBuf then handleCmdSetRgbMatrixBuf data len buf
      else if id = qmkataIdDefaultLayer then handleCmdSetDefaultLayer data buf
      else if id = qmkataIdMacwinMode then handleCmdSetMacwinMode data buf
      else if id = qmkataIdDynldFunction then handleCmdSetDynldFunction data seqnum len buf
      else if id = qmkataIdDynldFunexec then handleCmdSetDynldFunexec env data seqnum len buf
      else if id = qmkataIdConfig then handleCmdSetConfig data buf
      else pure ()
    else if cmd = qmkataCmdGet then
      -- the handler for the default layer is empty
      if id = qmkataIdMacwinMode then handleCmdGetMacwinMode env seqnum
      else if id = qmkataIdStatus then handleCmdGetStatus env data seqnum buf
      else if id = qmkataIdStructLayout then handleCmdGetStructLayout data seqnum buf
      else if id = qmkataIdConfig then handleCmdGetConfig data seqnum buf
      else pure ()
    else pure ()

/-- Starting sends the protocol and firmware versions once. -/
def startOnce : Handler Unit :=
  update fun s => if s.started then s else { s with started := true, calls := s.calls ++ [.sendVersion] }

/-- The packet starts at offset 0, with the id byte by which VIA hands it over. -/
def qmkataRecvData (len : UInt8) : Handler Int := do
  startOnce
  let len ← subtractHeader len 1
  let start ← readByte data 1
  if start = rawSysexStart then
    let len ← subtractHeader len 1
    let cmd ← readByte data 2
    if cmd = reportFirmware then
      call .sendVersion
      pure 0
    else
      qmkataSysexHandler env data cmd len 3
      pure 0
  else pure (-1)

end Handlers

end QmkFirmware.Qmkata
