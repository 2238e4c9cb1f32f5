import QmkFirmware.Midi.Device

/-! # MIDI over USB

`qmk_midi.c`: the event packets that a device sends, and what it takes from the packets that it receives.  The macro that
makes the first byte of a packet is not part of the repository; it is a parameter.
-/

namespace QmkFirmware.Midi

def sysexStartOrCont : Byte := 0x40
def sysexEndsIn1 : Byte := 0x50
def sysexEndsIn2 : Byte := 0x60
def sysexEndsIn3 : Byte := 0x70
def sysCommon2 : Byte := 0x20
def sysCommon3 : Byte := 0x30

structure EventPacket where
  event : Byte
  data1 : Byte
  data2 : Byte
  data3 : Byte
deriving DecidableEq

/-- The code of a packet of a system exclusive message, if the count is valid. -/
def sysexCode (sent : Sent) : Option Byte :=
  if sent.count = 3 then some (if sent.byte2 = sysexEnd then sysexEndsIn3 else sysexStartOrCont)
  else if sent.count = 2 then some (if sent.byte1 = sysexEnd then sysexEndsIn2 else sysexStartOrCont)
  else if sent.count = 1 then some (if sent.byte0 = sysexEnd then sysexEndsIn1 else sysexStartOrCont)
  else none

def usbSendFunc (midiEvent : Byte → Byte) (sent : Sent) : Option EventPacket :=
  let packet (code : Byte) : EventPacket := ⟨midiEvent code, sent.byte0, sent.byte1, sent.byte2⟩
  if midiPacketLength sent.byte0 = .undefined then (sysexCode sent).map packet
  else
    let kind := sent.byte0 &&& 0xF0#8
    if kind = midiSongposition then some (packet sysCommon3)
    else if kind = midiSongselect ∨ kind = midiTcQuarterframe then some (packet sysCommon2)
    else some (packet sent.byte0)

/-- How many bytes of a packet are passed on. -/
def inputLength (midiEvent : Byte → Byte) (packet : EventPacket) : Nat :=
  if midiPacketLength packet.data1 = .undefined then
    if packet.event = midiEvent sysexStartOrCont ∨ packet.event = midiEvent sysexEndsIn3 then 3
    else if packet.event = midiEvent sysexEndsIn2 then 2
    else if packet.event = midiEvent sysexEndsIn1 then 1
    else 0
  else (midiPacketLength packet.data1).count

def packetInput (midiEvent : Byte → Byte) (packet : EventPacket) : List Byte :=
  [packet.data1, packet.data2, packet.data3].take (inputLength midiEvent packet)

/-- The packets that have arrived are passed to the queue. -/
def usbGetMidi (midiEvent : Byte → Byte) (packets : List EventPacket) (device : Device) : Device :=
  packets.foldl (fun device packet => midiDeviceInput device (packetInput midiEvent packet)) device

def midiDeviceProcess (midiEvent : Byte → Byte) (registered : Callback → Bool) (device : Device)
    (packets : List EventPacket) : Device × List Call :=
  let device := usbGetMidi midiEvent packets device
  processRounds registered (bytequeueLength device.inputQueue) device

def midiDeviceInit : Device where
  parser := ⟨.idle, 0, fun _ => 0⟩
  inputQueue := ⟨0, 0, fun _ => 0⟩

/-! ## Messages -/

/-- A call to one of the functions that send; `sysex` sends an array that begins and ends as a system exclusive message. -/
inductive Message where
  | cc (chan num val : Byte)
  | noteon (chan num vel : Byte)
  | noteoff (chan num vel : Byte)
  | aftertouch (chan noteNum amt : Byte)
  | pitchbend (chan : Byte) (amt : Int)
  | programchange (chan num : Byte)
  | channelpressure (chan amt : Byte)
  | clock
  | tick
  | start
  | resume
  | stop
  | activesense
  | reset
  | tcquarterframe (time : Byte)
  | songposition (pos : BitVec 16)
  | songselect (song : Byte)
  | tunerequest
  | sysex (payload : List Byte)

def Message.sends : Message → List Sent
  | .cc chan num val => [midiSendCc chan num val]
  | .noteon chan num vel => [midiSendNoteon chan num vel]
  | .noteoff chan num vel => [midiSendNoteoff chan num vel]
  | .aftertouch chan noteNum amt => [midiSendAftertouch chan noteNum amt]
  | .pitchbend chan amt => [midiSendPitchbend chan amt]
  | .programchange chan num => [midiSendProgramchange chan num]
  | .channelpressure chan amt => [midiSendChannelpressure chan amt]
  | .clock => [midiSendClock]
  | .tick => [midiSendTick]
  | .start => [midiSendStart]
  | .resume => [midiSendContinue]
  | .stop => [midiSendStop]
  | .activesense => [midiSendActivesense]
  | .reset => [midiSendReset]
  | .tcquarterframe time => [midiSendTcquarterframe time]
  | .songposition pos => [midiSendSongposition pos]
  | .songselect song => [midiSendSongselect song]
  | .tunerequest => [midiSendTunerequest]
  | .sysex payload => midiSendArray (sysexBegin :: payload ++ [sysexEnd])

def Message.packets (midiEvent : Byte → Byte) (message : Message) : List EventPacket :=
  message.sends.filterMap (usbSendFunc midiEvent)

end QmkFirmware.Midi
