import QmkFirmware.Midi.Sysex
import QmkFirmware.Foundations.Ring
import QmkFirmware.Foundations.Transducer

/-! # MIDI devices

`midi.c`, `midi_device.c` and `bytequeue.c`: the messages that are sent, and the bytes that are received through a queue
and taken apart into messages again.  `uint16_t` counts are reduced modulo `2 ^ 16`.
-/

namespace QmkFirmware.Midi

open QmkFirmware.Transducer

def sysexBegin : Byte := 0xF0
def sysexEnd : Byte := 0xF7
def midiStatusmask : Byte := 0x80
def midiChanmask : Byte := 0x0F
def midiCc : Byte := 0xB0
def midiNoteon : Byte := 0x90
def midiNoteoff : Byte := 0x80
def midiAftertouch : Byte := 0xA0
def midiPitchbend : Byte := 0xE0
def midiProgchange : Byte := 0xC0
def midiChanpressure : Byte := 0xD0
def midiClock : Byte := 0xF8
def midiTick : Byte := 0xF9
def midiStart : Byte := 0xFA
def midiContinue : Byte := 0xFB
def midiStop : Byte := 0xFC
def midiActivesense : Byte := 0xFE
def midiReset : Byte := 0xFF
def midiTcQuarterframe : Byte := 0xF1
def midiSongposition : Byte := 0xF2
def midiSongselect : Byte := 0xF3
def midiTunerequest : Byte := 0xF6

def uint16 (value : Nat) : Nat := value % 2 ^ 16

def midiIsStatusbyte (theByte : Byte) : Bool := theByte &&& midiStatusmask != 0#8

def midiIsRealtime (theByte : Byte) : Bool := midiClock ≤ theByte

inductive PacketLength where
  | undefined
  | one
  | two
  | three
deriving DecidableEq

/-- The value of the enumeration. -/
def PacketLength.count : PacketLength → Nat
  | .undefined => 0
  | .one => 1
  | .two => 2
  | .three => 3

def midiPacketLength (status : Byte) : PacketLength :=
  let kind := status &&& 0xF0#8
  if kind ∈ [midiCc, midiNoteon, midiNoteoff, midiAftertouch, midiPitchbend] then .three
  else if kind ∈ [midiProgchange, midiChanpressure, midiSongselect] then .two
  else if kind = 0xF0#8 then
    if status ∈ [midiClock, midiTick, midiStart, midiContinue, midiStop, midiActivesense, midiReset, midiTunerequest] then
      .one
    else if status = midiSongposition then .three
    else if status ∈ [midiTcQuarterframe, midiSongselect] then .two
    else .undefined
  else .undefined

/-! ## Sending -/

/-- A call to the send function of a device. -/
structure Sent where
  count : Nat
  byte0 : Byte
  byte1 : Byte
  byte2 : Byte
deriving DecidableEq

def midiSendCc (chan num val : Byte) : Sent :=
  ⟨3, midiCc ||| (chan &&& midiChanmask), num &&& 0x7F#8, val &&& 0x7F#8⟩

def midiSendNoteon (chan num vel : Byte) : Sent :=
  ⟨3, midiNoteon ||| (chan &&& midiChanmask), num &&& 0x7F#8, vel &&& 0x7F#8⟩

def midiSendNoteoff (chan num vel : Byte) : Sent :=
  ⟨3, midiNoteoff ||| (chan &&& midiChanmask), num &&& 0x7F#8, vel &&& 0x7F#8⟩

def midiSendAftertouch (chan noteNum amt : Byte) : Sent :=
  ⟨3, midiAftertouch ||| (chan &&& midiChanmask), noteNum &&& 0x7F#8, amt &&& 0x7F#8⟩

/-- The amount that is sent for a bend, from 0 to 0x3FFF. -/
def pitchbendAmount (amt : Int) : Nat :=
  if 0x1fff < amt then 0x3FFF else if amt < -0x2000 then 0 else (amt + 0x2000).toNat

def midiSendPitchbend (chan : Byte) (amt : Int) : Sent :=
  let uAmt := BitVec.ofNat 16 (pitchbendAmount amt)
  ⟨3, midiPitchbend ||| (chan &&& midiChanmask), (uAmt &&& 0x7F#16).setWidth 8, ((uAmt >>> 7) &&& 0x7F#16).setWidth 8⟩

def midiSendProgramchange (chan num : Byte) : Sent :=
  ⟨2, midiProgchange ||| (chan &&& midiChanmask), num &&& 0x7F#8, 0⟩

def midiSendChannelpressure (chan amt : Byte) : Sent :=
  ⟨2, midiChanpressure ||| (chan &&& midiChanmask), amt &&& 0x7F#8, 0⟩

def midiSendClock : Sent := ⟨1, midiClock, 0, 0⟩
def midiSendTick : Sent := ⟨1, midiTick, 0, 0⟩
def midiSendStart : Sent := ⟨1, midiStart, 0, 0⟩
def midiSendContinue : Sent := ⟨1, midiContinue, 0, 0⟩
def midiSendStop : Sent := ⟨1, midiStop, 0, 0⟩
def midiSendActivesense : Sent := ⟨1, midiActivesense, 0, 0⟩
def midiSendReset : Sent := ⟨1, midiReset, 0, 0⟩

def midiSendTcquarterframe (time : Byte) : Sent := ⟨2, midiTcQuarterframe, time &&& 0x7F#8, 0⟩

def midiSendSongposition (pos : BitVec 16) : Sent :=
  ⟨3, midiSongposition, (pos &&& 0x7F#16).setWidth 8, ((pos >>> 7) &&& 0x7F#16).setWidth 8⟩

def midiSendSongselect (song : Byte) : Sent := ⟨2, midiSongselect, song &&& 0x7F#8, 0⟩

def midiSendTunerequest : Sent := ⟨1, midiTunerequest, 0, 0⟩

/-- Three bytes at a time. -/
def midiSendArray : List Byte → List Sent
  | [] => []
  | [a] => [⟨1, a, 0, 0⟩]
  | [a, b] => [⟨2, a, b, 0⟩]
  | a :: b :: c :: array => ⟨3, a, b, c⟩ :: midiSendArray array

/-! ## Callbacks -/

inductive Callback where
  | cc
  | noteon
  | noteoff
  | aftertouch
  | pitchbend
  | songposition
  | progchange
  | chanpressure
  | songselect
  | tcQuarterframe
  | realtime
  | tunerequest
  | sysex
  | fallthrough
  | catchall
deriving DecidableEq

inductive Call where
  | one (callback : Callback) (byte : Byte)
  | two (callback : Callback) (byte0 byte1 : Byte)
  | three (callback : Callback) (byte0 byte1 byte2 : Byte)
  | sysex (startByte dataLength : Nat) (data : List Byte)
  | varByte (callback : Callback) (count : Nat) (byte0 byte1 byte2 : Byte)
deriving DecidableEq

inductive InputState where
  | idle
  | oneByteMessage
  | twoByteMessage
  | threeByteMessage
  | sysexMessage
deriving DecidableEq

/-- The internal state of the input processing. -/
structure Parser where
  inputState : InputState
  inputCount : Nat
  inputBuffer : Fin 3 → Byte

def threeByteFunc (byte0 : Byte) : Option Callback :=
  let kind := byte0 &&& 0xF0#8
  if kind = midiCc then some .cc
  else if kind = midiNoteon then some .noteon
  else if kind = midiNoteoff then some .noteoff
  else if kind = midiAftertouch then some .aftertouch
  else if kind = midiPitchbend then some .pitchbend
  else if kind = 0xF0#8 ∧ byte0 = midiSongposition then some .songposition
  else none

def twoByteFunc (byte0 : Byte) : Option Callback :=
  let kind := byte0 &&& 0xF0#8
  if kind = midiProgchange then some .progchange
  else if kind = midiChanpressure then some .chanpressure
  else if kind = 0xF0#8 then
    if byte0 = midiSongselect then some .songselect
    else if byte0 = midiTcQuarterframe then some .tcQuarterframe
    else none
  else none

def oneByteFunc (byte0 : Byte) : Option Callback :=
  if midiIsRealtime byte0 then some .realtime
  else if byte0 = midiTunerequest then some .tunerequest
  else none

/-- The call of a specific callback, if there is one and it is registered. -/
def specificCall (registered : Callback → Bool) (state : InputState) (cnt : Nat) (byte0 byte1 byte2 : Byte) :
    List Call :=
  if state = .sysexMessage then
    let start := (cnt - 1) / 3 * 3
    if registered .sysex then [.sysex start (cnt - start) [byte0, byte1, byte2]] else []
  else if cnt = 3 then
    match (threeByteFunc byte0).filter registered with
    | some func => [.three func (if byte0 = midiSongposition then byte0 else byte0 &&& 0x0F#8) byte1 byte2]
    | none => []
  else if cnt = 2 then
    match (twoByteFunc byte0).filter registered with
    | some func =>
      [.two func (if byte0 = midiSongselect ∨ byte0 = midiTcQuarterframe then byte0 else byte0 &&& 0x0F#8) byte1]
    | none => []
  else if cnt = 1 then
    match (oneByteFunc byte0).filter registered with
    | some func => [.one func byte0]
    | none => []
  else []

def midiInputCallbacks (registered : Callback → Bool) (state : InputState) (cnt : Nat) (byte0 byte1 byte2 : Byte) :
    List Call :=
  let specific := specificCall registered state cnt byte0 byte1 byte2
  let cnt := if state ≠ .sysexMessage ∧ 3 < cnt then 0 else cnt
  specific ++
    (if specific = [] ∧ registered .fallthrough then [.varByte .fallthrough cnt byte0 byte1 byte2] else []) ++
    (if registered .catchall then [.varByte .catchall cnt byte0 byte1 byte2] else [])

/-! ## Receiving -/

def Parser.store (parser : Parser) (input : Byte) : Parser :=
  { parser with
    inputBuffer := Function.update parser.inputBuffer (Fin.ofNat 3 parser.inputCount) input
    inputCount := uint16 (parser.inputCount + 1) }

/-- The callbacks for the bytes in the buffer. -/
def Parser.callbacks (registered : Callback → Bool) (parser : Parser) : List Call :=
  midiInputCallbacks registered parser.inputState parser.inputCount (parser.inputBuffer 0) (parser.inputBuffer 1)
    (parser.inputBuffer 2)

def processStatusByte (registered : Callback → Bool) (parser : Parser) (input : Byte) : Parser × List Call :=
  let parser :=
    if parser.inputState ≠ .sysexMessage then
      { parser with inputBuffer := Function.update parser.inputBuffer 0 input, inputCount := 1 }
    else parser
  match midiPacketLength input with
  | .one => ({ parser with inputState := .idle }, midiInputCallbacks registered .oneByteMessage 1 input 0 0)
  | .two => ({ parser with inputState := .twoByteMessage }, [])
  | .three => ({ parser with inputState := .threeByteMessage }, [])
  | .undefined =>
    if input = sysexBegin then
      ({ inputState := .sysexMessage, inputBuffer := Function.update parser.inputBuffer 0 input, inputCount := 1 }, [])
    else if input = sysexEnd then
      let parser := parser.store input
      ({ parser with inputState := .idle }, parser.callbacks registered)
    else ({ parser with inputState := .idle, inputCount := 0 }, [])

def processDataByte (registered : Callback → Bool) (parser : Parser) (input : Byte) : Parser × List Call :=
  if parser.inputState = .idle then (parser, [])
  else
    let prev := parser.inputCount % 3
    let parser := parser.store input
    let kept := if parser.inputState ≠ .sysexMessage then { parser with inputCount := 1 } else parser
    if prev = 2 then (kept, parser.callbacks registered)
    else if prev = 1 ∧ parser.inputState = .twoByteMessage then
      (kept, midiInputCallbacks registered parser.inputState parser.inputCount (parser.inputBuffer 0)
        (parser.inputBuffer 1) 0)
    else (parser, [])

def midiProcessByte (registered : Callback → Bool) (parser : Parser) (input : Byte) : Parser × List Call :=
  if midiIsRealtime input then (parser, midiInputCallbacks registered .oneByteMessage 1 input 0 0)
  else if midiIsStatusbyte input then processStatusByte registered parser input
  else processDataByte registered parser input

/-! ## The queue -/

def midiInputQueueLength : Nat := 192

structure ByteQueue where
  start : Nat
  stop : Nat
  data : Nat → Byte

def bytequeueEnqueue (queue : ByteQueue) (item : Byte) : ByteQueue :=
  if (queue.stop + 1) % midiInputQueueLength = queue.start then queue
  else
    { queue with
      data := Function.update queue.data queue.stop item
      stop := (queue.stop + 1) % midiInputQueueLength }

def bytequeueLength (queue : ByteQueue) : Nat :=
  if queue.start ≤ queue.stop then queue.stop - queue.start else midiInputQueueLength - queue.start + queue.stop

def bytequeueGet (queue : ByteQueue) (index : Nat) : Byte := queue.data ((queue.start + index) % midiInputQueueLength)

def bytequeueRemove (queue : ByteQueue) (numToRemove : Nat) : ByteQueue :=
  { queue with start := (queue.start + numToRemove) % midiInputQueueLength }

structure Device where
  parser : Parser
  inputQueue : ByteQueue

def midiDeviceInput (device : Device) (input : List Byte) : Device :=
  { device with inputQueue := input.foldl bytequeueEnqueue device.inputQueue }

/-- One round of the loop that takes bytes from the queue. -/
def processNext (registered : Callback → Bool) (device : Device) : Device × List Call :=
  let (parser, calls) := midiProcessByte registered device.parser (bytequeueGet device.inputQueue 0)
  ({ parser := parser, inputQueue := bytequeueRemove device.inputQueue 1 }, calls)

def processRounds (registered : Callback → Bool) : Nat → Device → Device × List Call
  | 0, device => (device, [])
  | count + 1, device =>
    let (device, now) := processNext registered device
    let (device, later) := processRounds registered count device
    (device, now ++ later)

end QmkFirmware.Midi
