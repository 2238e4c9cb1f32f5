import Mathlib.Data.UInt
import Mathlib.Tactic
import QmkFirmware.Foundations.Memory

/-! # The QMKata device-to-host stream

A shallow embedding of the transmit side of `keyboards/keychron/qmkata`:
`BufferStream` and `_rawhid_send_data` of `QMKata.cpp`, the sysex encoder of
`FirmataMarshaller.cpp` and the version messages with which `Firmata.cpp` opens
a stream.  A message is written byte by byte into a fixed buffer, and the buffer
leaves in HID packets of a fixed size.

The console stream that `qmkata_task` also serves is fed by `sendchar` only and
stays empty here.
-/

namespace QmkFirmware.Qmkata

open QmkFirmware.Memory

def startSysex : UInt8 := 0xF0

def endSysex : UInt8 := 0xF7

def reportVersion : UInt8 := 0xF9

def reportFirmware : UInt8 := 0x79

/-- The first byte of every packet, by which the host tells QMKata from VIA. -/
def rawhidQmkataMsg : UInt8 := 0xFA

def rawEpsizeQmkata : Nat := 64

def txBufReserve : Nat := 4

/-- `sizeof(_qmkata_tx_buf) - TX_BUF_RESERVE`. -/
def txBufferSize : Nat := 512

/-! ## Encoding -/

/-- The local variables of `encodeByteStream` and the bytes it has written. -/
structure Encoder where
  bytesSent : Nat
  outstandingBits : Nat
  outstandingBitCache : UInt8
  out : List UInt8

def transmitBits : Nat := 7

def transmitMask : UInt8 := 0x7F

def Encoder.transmit (encoder : Encoder) (byte : UInt8) : Encoder :=
  { encoder with
    bytesSent := encoder.bytesSent + 1
    out := encoder.out ++ [transmitMask &&& byte] }

/-- The inner loop; `fuel` bounds its rounds by the number of outstanding bits. -/
def Encoder.drain (maxBytes : Nat) : Nat → Encoder → Encoder
  | 0, encoder => encoder
  | fuel + 1, encoder =>
    if encoder.outstandingBits ≥ transmitBits ∧ encoder.bytesSent < maxBytes then
      Encoder.drain maxBytes fuel
        { encoder.transmit encoder.outstandingBitCache with
          outstandingBitCache := encoder.outstandingBitCache >>> transmitBits.toUInt8
          outstandingBits := encoder.outstandingBits - transmitBits }
    else encoder

/-- One round of the outer loop; once `maxBytes` is reached, nothing more happens. -/
def Encoder.push (maxBytes : Nat) (encoder : Encoder) (byte : UInt8) : Encoder :=
  if encoder.bytesSent < maxBytes then
    let shifted := encoder.outstandingBitCache ||| (byte <<< encoder.outstandingBits.toUInt8)
    let next := { encoder.transmit shifted with
      outstandingBitCache := byte >>> (transmitBits - encoder.outstandingBits).toUInt8
      outstandingBits := encoder.outstandingBits + (8 - transmitBits) }
    next.drain maxBytes next.outstandingBits
  else encoder

/-- The bytes that `FirmataMarshaller::encodeByteStream` writes to the stream.
    A `maxBytes` of zero means no limit. -/
def encodeByteStream (bytev : List UInt8) (maxBytes : Nat) : List UInt8 :=
  let maxBytes := if maxBytes = 0 then 2 ^ 32 - 1 else maxBytes
  let final := bytev.foldl (Encoder.push maxBytes) ⟨0, 0, bytev.getD 0 0, []⟩
  if final.outstandingBits ≠ 0 ∧ final.bytesSent < maxBytes then
    final.out ++ [((1 <<< final.outstandingBits.toUInt8) - 1) &&& final.outstandingBitCache]
  else final.out

/-- The bytes that `FirmataMarshaller::sendSysex` writes: every payload byte is
    encoded on its own. -/
def sysexBytes (command : UInt8) (bytev : List UInt8) : List UInt8 :=
  [startSysex, command] ++ bytev.flatMap (fun byte => encodeByteStream [byte] 0) ++ [endSysex]

/-! ## Transmit buffer -/

/-- The transmit half of `BufferStream` over `_qmkata_tx_buf`, with the packets
    handed to `raw_hid_send` so far.  `_tx_buffer` is `memory + txBufReserve`. -/
structure BufferStream where
  memory : Nat → UInt8
  txBufferHead : Nat
  txBufferTail : Nat
  txWritten : Bool
  txFlush : Bool
  packets : List (List UInt8)

/-- The loop of `_rawhid_send_data`: `hdr` points to the packet header, which is
    in place.  The next header overwrites the last byte already sent.  Every full
    round sends `rawEpsizeQmkata - 1` bytes, so `fuel = len` is enough. -/
def rawhidSendLoop : Nat → Nat → Nat → (Nat → UInt8) → List (List UInt8) → (Nat → UInt8) × List (List UInt8)
  | 0, _, _, memory, packets => (memory, packets)
  | fuel + 1, hdr, len, memory, packets =>
    if len = 0 then (memory, packets)
    else
      let sendLen := min rawEpsizeQmkata (len + 1)
      if sendLen < rawEpsizeQmkata then
        (memory, packets ++ [slice memory hdr sendLen ++ List.replicate (rawEpsizeQmkata - sendLen) 0])
      else
        let packets := packets ++ [slice memory hdr rawEpsizeQmkata]
        let len := len - (sendLen - 1)
        if len ≠ 0 then
          let hdr := hdr + (sendLen - 1)
          rawhidSendLoop fuel hdr len (blit memory hdr [rawhidQmkataMsg]) packets
        else (memory, packets)

/-- `_rawhid_send_data`, from the address of the data on. -/
def rawhidSendData (data len : Nat) (memory : Nat → UInt8) (packets : List (List UInt8)) :
    (Nat → UInt8) × List (List UInt8) :=
  rawhidSendLoop len (data - 1) len (blit memory (data - 1) [rawhidQmkataMsg]) packets

def BufferStream.flush (stream : BufferStream) : BufferStream :=
  if stream.txWritten then
    let sent :=
      if stream.txBufferHead ≠ stream.txBufferTail then
        rawhidSendData (txBufReserve + stream.txBufferTail) (stream.txBufferHead - stream.txBufferTail)
          stream.memory stream.packets
      else (stream.memory, stream.packets)
    { memory := sent.1, packets := sent.2, txBufferHead := 0, txBufferTail := 0, txWritten := false,
      txFlush := false }
  else stream

def BufferStream.write (stream : BufferStream) (c : UInt8) : BufferStream :=
  let stream := { stream with
    memory := blit stream.memory (txBufReserve + stream.txBufferHead) [c]
    txBufferHead := stream.txBufferHead + 1
    txWritten := true }
  let nextHead := stream.txBufferHead % txBufferSize
  if nextHead = 0 then stream.flush
  else
    { stream with
      txBufferHead := nextHead
      txFlush := stream.txFlush || decide (nextHead ≥ txBufferSize / 2) }

def BufferStream.availableForWrite (stream : BufferStream) : Bool :=
  decide (stream.txBufferHead < txBufferSize)

/-! ## Versions -/

def protocolMajorVersion : UInt8 := 2

def protocolMinorVersion : UInt8 := 5

def qmkataMajorVersion : UInt8 := 0

def qmkataMinorVersion : UInt8 := 4

/-- The name given to `qmkata_init`, a C string.  `firmwareVersionCount` is a byte
    and counts the two version numbers too; a longer name wraps it, and `strncpy`
    then runs over the end of `firmwareVersionVector`. -/
structure FirmwareName where
  chars : List UInt8
  terminated : 0 ∉ chars
  short : chars.length ≤ 253

structure FirmwareVersion where
  firmwareVersionCount : Nat
  firmwareVersionVector : List UInt8

def firmwareVersionSize : Nat := 32

/-- What follows the last `c`. -/
def afterLast (c : UInt8) (name : List UInt8) : Option (List UInt8) :=
  if c ∈ name then some (name.reverse.takeWhile fun other => other ≠ c).reverse else none

/-- Where `pattern` begins for the first time. -/
def strstr (name pattern : List UInt8) : Option Nat := name.tails.findIdx? fun tail => pattern.isPrefixOf tail

/-- Directories and the extension are left out.  The extension is looked for in
    the whole name, so it may lie in front of the last part. -/
def setFirmwareNameAndVersion (name : FirmwareName) (major minor : UInt8) : FirmwareVersion :=
  let firmwareName := ((afterLast 0x2F name.chars).or (afterLast 0x5C name.chars)).getD name.chars
  let firmwareVersionCount :=
    match strstr name.chars [0x2E, 0x63, 0x70, 0x70] with
    | none => (firmwareName.length + 2) % 256
    | some extension =>
      (((extension : Int) - (name.chars.length - firmwareName.length : Nat) + 2) % 256).toNat
  let firmwareVersionCount :=
    if firmwareVersionCount > firmwareVersionSize - 1 then firmwareVersionSize - 1 else firmwareVersionCount
  let copied := firmwareName.take (firmwareVersionCount - 2)
  { firmwareVersionCount
    firmwareVersionVector := [major, minor] ++ copied ++
      List.replicate (firmwareVersionSize - 2 - copied.length) 0 }

/-- The bytes that `FirmataClass::printVersion` writes. -/
def printVersion : List UInt8 := [reportVersion, protocolMajorVersion, protocolMinorVersion]

/-- The bytes that `FirmataMarshaller::sendFirmwareVersion` writes. -/
def sendFirmwareVersion (major minor : UInt8) (bytev : List UInt8) : List UInt8 :=
  [startSysex, reportFirmware, major, minor] ++ bytev.flatMap (fun byte => encodeByteStream [byte] 0) ++
    [endSysex]

/-- The bytes that `FirmataClass::printFirmwareVersion` writes. -/
def printFirmwareVersion (firmware : FirmwareVersion) : List UInt8 :=
  if firmware.firmwareVersionCount ≠ 0 then
    sendFirmwareVersion (firmware.firmwareVersionVector.getD 0 0) (firmware.firmwareVersionVector.getD 1 0)
      ((firmware.firmwareVersionVector.drop 2).take (firmware.firmwareVersionCount - 2))
  else []

/-! ## Entry points -/

/-- `s_qmkata` with its stream. -/
structure Device where
  started : Bool
  firmware : FirmwareVersion
  stream : BufferStream

def qmkataInit (firmware : FirmwareName) (qmkata : Device) : Device :=
  { qmkata with firmware := setFirmwareNameAndVersion firmware qmkataMajorVersion qmkataMinorVersion }

/-- `FirmataClass::begin` reports the versions on the stream it is given. -/
def qmkataStart (qmkata : Device) : Device :=
  { qmkata with
    started := true
    stream := (printVersion ++ printFirmwareVersion qmkata.firmware).foldl BufferStream.write qmkata.stream }

/-- `FirmataClass::sendSysex` takes the length as a byte, so it is cut to eight bits. -/
def qmkataSendSysex (cmd : UInt8) (data : List UInt8) (qmkata : Device) : Device :=
  if qmkata.started then
    { qmkata with
      stream := (sysexBytes cmd (data.take (data.length % 256))).foldl BufferStream.write qmkata.stream }
  else qmkata

def qmkataTask (qmkata : Device) : Device :=
  if qmkata.started then
    if qmkata.stream.availableForWrite then { qmkata with stream := qmkata.stream.flush } else qmkata
  else qmkata

/-- Statically initialised: no firmware name, nothing buffered, nothing sent. -/
def bootDevice : Device :=
  { started := false
    firmware := { firmwareVersionCount := 0, firmwareVersionVector := List.replicate firmwareVersionSize 0 }
    stream :=
      { memory := fun _ => 0, txBufferHead := 0, txBufferTail := 0, txWritten := false, txFlush := false,
        packets := [] } }

/-! ## What the encoder writes -/

private theorem top_bit (byte : UInt8) : ((1 : UInt8) <<< 1 - (1 : UInt8)) &&& byte >>> 7 = byte >>> 7 := by
  have bits : ∀ value : BitVec 8,
      ((1 : UInt8) <<< 1 - (1 : UInt8)) &&& (⟨value⟩ : UInt8) >>> 7 = (⟨value⟩ : UInt8) >>> 7 := by
    decide
  exact bits byte.toBitVec

/-- A single byte leaves as its low seven bits and its top bit. -/
theorem encodeByteStream_singleton (byte : UInt8) :
    encodeByteStream [byte] 0 = [transmitMask &&& byte, byte >>> 7] := by
  simp [encodeByteStream, Encoder.push, Encoder.transmit, Encoder.drain, transmitBits, top_bit]

end QmkFirmware.Qmkata
