import QmkFirmware.Midi.RoundTrip

/-! # Messages arrive

From the packets of one device to the callbacks of another, through the queue: `midi_device_process` takes whatever has
arrived since its last call.
-/

namespace QmkFirmware.Midi

open QmkFirmware.Transducer

/-! ## The queue -/

def ByteQueue.contents (queue : ByteQueue) : List Byte :=
  Ring.contents midiInputQueueLength queue.data queue.stop queue.start

structure ByteQueue.Inside (queue : ByteQueue) : Prop where
  start : queue.start < midiInputQueueLength
  stop : queue.stop < midiInputQueueLength

variable {queue : ByteQueue}

theorem bytequeueEnqueue_contents (inside : queue.Inside) (item : Byte) (free : queue.contents.length < 191) :
    (bytequeueEnqueue queue item).Inside ∧ (bytequeueEnqueue queue item).contents = queue.contents ++ [item] := by
  have notFull : (queue.stop + 1) % midiInputQueueLength ≠ queue.start := by
    intro full
    have held := Ring.held_full inside.stop inside.start full
    rw [ByteQueue.contents, Ring.length_contents, held] at free
    exact absurd free (by decide)
  rw [bytequeueEnqueue, if_neg notFull]
  exact ⟨⟨inside.start, Ring.next_lt inside.stop⟩, Ring.contents_write inside.stop inside.start notFull item⟩

theorem bytequeueEnqueue_foldl (inside : queue.Inside) (items : List Byte)
    (free : queue.contents.length + items.length ≤ 191) :
    (items.foldl bytequeueEnqueue queue).Inside ∧
      (items.foldl bytequeueEnqueue queue).contents = queue.contents ++ items := by
  induction items generalizing queue with
  | nil => exact ⟨inside, (List.append_nil _).symm⟩
  | cons item items ih =>
    rw [List.length_cons] at free
    obtain ⟨next, contents⟩ := bytequeueEnqueue_contents inside item (by omega)
    have rest := ih next (by rw [contents, List.length_append, List.length_singleton]; omega)
    rwa [contents, List.append_assoc, List.singleton_append] at rest

theorem bytequeueLength_eq (inside : queue.Inside) : bytequeueLength queue = queue.contents.length := by
  obtain ⟨start, stop⟩ := inside
  rw [ByteQueue.contents, Ring.length_contents, Ring.held, bytequeueLength]
  split_ifs with before
  · rw [show queue.stop + midiInputQueueLength - queue.start = queue.stop - queue.start + midiInputQueueLength by omega,
      Nat.add_mod_right, Nat.mod_eq_of_lt (by omega)]
  · rw [Nat.mod_eq_of_lt (by omega)]
    omega

theorem bytequeueRemove_contents (inside : queue.Inside) {item : Byte} {rest : List Byte}
    (contents : queue.contents = item :: rest) :
    bytequeueGet queue 0 = item ∧ (bytequeueRemove queue 1).Inside ∧ (bytequeueRemove queue 1).contents = rest := by
  have some : queue.stop ≠ queue.start := by
    intro same
    rw [ByteQueue.contents, (Ring.contents_eq_nil_iff inside.stop inside.start).mpr same] at contents
    exact absurd contents (by simp)
  rw [ByteQueue.contents, Ring.contents_eq_cons inside.stop inside.start some] at contents
  obtain ⟨first, others⟩ := List.cons.inj contents
  refine ⟨?_, ⟨Ring.next_lt inside.start, inside.stop⟩, others⟩
  rw [bytequeueGet, Nat.add_zero, Nat.mod_eq_of_lt inside.start]
  exact first

/-! ## A call of `midi_device_process` -/

variable {registered : Callback → Bool} {midiEvent : Byte → Byte}

/-- The bytes in the queue are processed one by one. -/
theorem processRounds_eq {device : Device} {bytes : List Byte} (inside : device.inputQueue.Inside)
    (contents : device.inputQueue.contents = bytes) :
    let processed := processRounds registered bytes.length device
    let ran := run (midiProcessByte registered) device.parser bytes
    (processed.1.inputQueue.Inside ∧ processed.1.inputQueue.contents = []) ∧ processed.1.parser = ran.1 ∧
      processed.2 = ran.2 := by
  induction bytes generalizing device with
  | nil => exact ⟨⟨inside, contents⟩, rfl, rfl⟩
  | cons byte bytes ih =>
    obtain ⟨first, restInside, rest⟩ := bytequeueRemove_contents inside contents
    have later := @ih (processNext registered device).1 restInside rest
    have parser : (processNext registered device).1.parser = (midiProcessByte registered device.parser byte).1 := by
      rw [← first]
      rfl
    have calls : (processNext registered device).2 = (midiProcessByte registered device.parser byte).2 := by
      rw [← first]
      rfl
    rw [parser] at later
    obtain ⟨empty, lastParser, lastCalls⟩ := later
    refine ⟨empty, lastParser, ?_⟩
    rw [run_cons, ← lastCalls, ← calls]
    rfl

/-- Between the calls the queue is empty. -/
structure Between (device : Device) (parser : Parser) : Prop where
  inside : device.inputQueue.Inside
  empty : device.inputQueue.contents = []
  parser : device.parser = parser

theorem usbGetMidi_eq (packets : List EventPacket) (device : Device) :
    usbGetMidi midiEvent packets device = midiDeviceInput device (packets.flatMap (packetInput midiEvent)) := by
  induction packets generalizing device with
  | nil => rfl
  | cons packet packets ih =>
    rw [usbGetMidi, List.foldl_cons, ← usbGetMidi, ih, List.flatMap_cons, midiDeviceInput, midiDeviceInput, midiDeviceInput,
      List.foldl_append]

theorem length_input_le (packets : List EventPacket) :
    (packets.flatMap (packetInput midiEvent)).length ≤ 3 * packets.length := by
  induction packets with
  | nil => simp
  | cons packet packets ih =>
    have first : (packetInput midiEvent packet).length ≤ 3 := by simp [packetInput]
    rw [List.flatMap_cons, List.length_append, List.length_cons]
    omega

theorem midiDeviceProcess_eq {device : Device} {parser : Parser} (between : Between device parser)
    {packets : List EventPacket} (few : packets.length ≤ 63) :
    Between (midiDeviceProcess midiEvent registered device packets).1
        (run (midiProcessByte registered) parser (packets.flatMap (packetInput midiEvent))).1 ∧
      (midiDeviceProcess midiEvent registered device packets).2 =
        (run (midiProcessByte registered) parser (packets.flatMap (packetInput midiEvent))).2 := by
  have length := @length_input_le midiEvent packets
  obtain ⟨inside, contents⟩ := bytequeueEnqueue_foldl between.inside (packets.flatMap (packetInput midiEvent))
    (by rw [between.empty, List.length_nil]; omega)
  rw [between.empty, List.nil_append] at contents
  have count := bytequeueLength_eq inside
  rw [contents] at count
  have processed := @processRounds_eq registered
    (midiDeviceInput device (packets.flatMap (packetInput midiEvent))) _ inside contents
  obtain ⟨⟨lastInside, empty⟩, lastParser, calls⟩ := processed
  rw [midiDeviceProcess, usbGetMidi_eq, show bytequeueLength (midiDeviceInput device (packets.flatMap (packetInput midiEvent))).inputQueue =
    (packets.flatMap (packetInput midiEvent)).length from count, ← between.parser]
  exact ⟨⟨lastInside, empty, lastParser⟩, calls⟩

/-- What is heard in a run does not depend on how the packets are spread over the calls. -/
theorem heard_run {passes : List (List EventPacket)} (few : ∀ packets ∈ passes, packets.length ≤ 63) :
    (run (midiDeviceProcess midiEvent registered) midiDeviceInit passes).2 =
      (run (midiProcessByte registered) midiDeviceInit.parser (passes.flatten.flatMap (packetInput midiEvent))).2 := by
  have initial : Between midiDeviceInit midiDeviceInit.parser := ⟨⟨by decide, by decide⟩, rfl, rfl⟩
  have simulates := run_simulates initial fun packets member device parser (between : Between device parser) =>
    @midiDeviceProcess_eq registered midiEvent device parser between packets (few packets member)
  rw [simulates.2, ← @List.flatMap_id _ passes, List.flatMap_assoc]
  rfl

/-- What is heard of the bytes of messages. -/
theorem heard_messages {messages : List Message} (valid : ∀ message ∈ messages, message.Valid) :
    (run (midiProcessByte registered) midiDeviceInit.parser (messages.flatMap Message.bytes)).2.filterMap Call.heard? =
      (messages.flatMap Message.heard).filter fun call => registered call.callback := by
  have heard := @gives_flatMap _ _ _ (hear registered) midiDeviceInit.parser Parser.Ready _ Message.bytes
    (fun message => message.heard.filter fun call => registered call.callback) messages
    (fun message member parser ready => gives_message ready (valid message member)) (by simp [Parser.Ready, midiDeviceInit])
  have hears := @run_filterMap _ _ _ (midiProcessByte registered) midiDeviceInit.parser _ Call.heard?
    (messages.flatMap Message.bytes)
  rw [List.filter_flatMap, ← heard.outputs]
  exact (congrArg Prod.snd hears).symm

/-- What is sent arrives: the registered callbacks are called for the messages in their order, however their packets are
spread over the calls, as long as the queue can hold those of one call. -/
theorem messages_arrive (distinct : Distinct midiEvent) {messages : List Message}
    (valid : ∀ message ∈ messages, message.Valid) {passes : List (List EventPacket)}
    (few : ∀ packets ∈ passes, packets.length ≤ 63)
    (packets : passes.flatten = messages.flatMap (Message.packets midiEvent)) :
    (run (midiDeviceProcess midiEvent registered) midiDeviceInit passes).2.filterMap Call.heard? =
      (messages.flatMap Message.heard).filter fun call => registered call.callback := by
  have bytes : passes.flatten.flatMap (packetInput midiEvent) = messages.flatMap Message.bytes := by
    rw [packets, List.flatMap_assoc]
    exact List.flatMap_congr fun message member => packets_input distinct (valid message member)
  rw [heard_run few, bytes, heard_messages valid]

def exampleMessages : List Message := [.noteon 0x12 60 200, .clock, .sysex [1, 2, 3], .pitchbend 1 (-9000)]

/-- A note, a clock and a system exclusive message in three calls. -/
theorem example_arrives :
    ((run (midiDeviceProcess (· >>> 4) fun _ => true) midiDeviceInit
      [[⟨0x09, 0x92, 60, 72⟩], [], [⟨0x0F, 0xF8, 0, 0⟩, ⟨0x04, 0xF0, 1, 2⟩],
        [⟨0x06, 3, 0xF7, 0⟩, ⟨0x0E, 0xE1, 0, 0⟩]]).2.filterMap Call.heard?) =
      [.three .noteon 2 60 72, .one .realtime 0xF8, .sysex 0 3 [0xF0, 1, 2], .sysex 3 2 [3, 0xF7],
        .three .pitchbend 1 0 0] := by
  have valid : ∀ message ∈ exampleMessages, message.Valid := by
    simp only [exampleMessages, List.mem_cons, List.not_mem_nil, or_false]
    rintro message (rfl | rfl | rfl | rfl)
    · trivial
    · trivial
    · exact ⟨by decide, by decide⟩
    · trivial
  rw [messages_arrive (by decide) valid (by decide) (by decide)]
  decide

/-! ## Data in a message -/

/-- The data that the callback for system exclusive messages is given. -/
def Call.sysexData : Call → List Byte
  | .sysex _ _ data => data
  | _ => []

theorem pieces_sysexData (startByte : Nat) (bytes : List Byte) :
    (pieces startByte bytes).flatMap Call.sysexData = bytes := by
  fun_induction pieces startByte bytes with
  | case1 => rfl
  | case2 => rfl
  | case3 => rfl
  | case4 startByte a b c bytes ih =>
    rw [List.flatMap_cons, ih]
    rfl

theorem pieces_callback {startByte : Nat} {bytes : List Byte} {call : Call} (member : call ∈ pieces startByte bytes) :
    call.callback = .sysex := by
  fun_induction pieces startByte bytes with
  | case1 => exact absurd member (by simp)
  | case2 startByte a =>
    rw [List.mem_singleton.mp member]
    rfl
  | case3 startByte a b =>
    rw [List.mem_singleton.mp member]
    rfl
  | case4 startByte a b c bytes ih =>
    rcases List.mem_cons.mp member with rfl | later
    · rfl
    · exact ih later

theorem sysexEncode_valid {source : List Byte} (fits : source.length < 57342) :
    (Message.sysex (sysexEncode source)).Valid := by
  refine ⟨sysexEncode_data source, ?_⟩
  rw [length_sysexEncode]
  split_ifs <;> omega

/-- Data that has been encoded for a system exclusive message is decoded from what the callback is given. -/
theorem data_arrives (distinct : Distinct midiEvent) (isRegistered : registered .sysex = true) {source : List Byte}
    (fits : source.length < 57342) {passes : List (List EventPacket)} (few : ∀ packets ∈ passes, packets.length ≤ 63)
    (packets : passes.flatten = (Message.sysex (sysexEncode source)).packets midiEvent) :
    ∃ payload, ((run (midiDeviceProcess midiEvent registered) midiDeviceInit passes).2.filterMap Call.heard?).flatMap
        Call.sysexData = sysexBegin :: payload ++ [sysexEnd] ∧
      payload.length = sysexEncodedLength source.length ∧ sysexDecodedLength payload.length = source.length ∧
      sysexDecode payload = source := by
  have valid := sysexEncode_valid fits
  have heard := @heard_messages registered [.sysex (sysexEncode source)] fun message member => by
    rwa [List.mem_singleton.mp member]
  have all : ∀ call ∈ pieces 0 (sysexBegin :: sysexEncode source ++ [sysexEnd]), registered call.callback = true := by
    intro call member
    rw [pieces_callback member, isRegistered]
  rw [List.flatMap_singleton, List.flatMap_singleton, Message.heard, List.filter_eq_self.mpr all] at heard
  have length := sysexEncodedLength_eq (Nat.lt_trans fits (by decide))
  refine ⟨sysexEncode source, ?_, length.symm, ?_, sysexDecode_sysexEncode source⟩
  · rw [heard_run few, packets, packets_input distinct valid, heard, pieces_sysexData]
  · rw [← length]
    exact sysexDecodedLength_sysexEncodedLength (Nat.lt_trans fits (by decide))

/-- Three bytes of data in two calls. -/
theorem example_data_arrives :
    ∃ payload, ((run (midiDeviceProcess (· >>> 4) fun _ => true) midiDeviceInit
        [[⟨0x04, 0xF0, 0x50, 0⟩], [⟨0x07, 1, 0x7F, 0xF7⟩]]).2.filterMap Call.heard?).flatMap
        Call.sysexData = sysexBegin :: payload ++ [sysexEnd] ∧
      payload.length = sysexEncodedLength [0x80#8, 1, 0xFF].length ∧
      sysexDecodedLength payload.length = [0x80#8, 1, 0xFF].length ∧ sysexDecode payload = [0x80, 1, 0xFF] :=
  data_arrives (by decide) rfl (by decide) (by decide) (by decide)

/-! ## Realtime messages on the way -/

/-- The bytes of a message whose packets are no realtime messages. -/
theorem bytes_not_realtime {message : Message} (valid : message.Valid)
    (packets : ∀ packet ∈ message.packets midiEvent, midiIsRealtime packet.data1 = false) :
    ∀ byte ∈ message.bytes, midiIsRealtime byte = false := by
  rcases sentBy_cases message with ⟨payload, rfl⟩ | ⟨sent, sends, bytes, whole⟩
  · intro byte member
    simp only [Message.bytes, List.cons_append, List.mem_cons, List.mem_append, List.not_mem_nil, or_false] at member
    rcases member with rfl | inside | rfl
    · decide
    · exact (not_status_of_data (valid.1 byte inside)).2
    · decide
  · obtain ⟨event, packet⟩ := @usbSendFunc_status midiEvent sent whole.defined
    have first := packets ⟨event, sent.byte0, sent.byte1, sent.byte2⟩ (by simp [Message.packets, sends, packet])
    intro byte member
    rw [bytes] at member
    have among := List.mem_of_mem_take member
    simp only [List.mem_cons, List.not_mem_nil, or_false] at among
    rcases among with rfl | rfl | rfl
    · exact first
    · exact (not_status_of_data whole.data1).2
    · exact (not_status_of_data whole.data2).2

/-- The bytes of packets among which there are realtime messages. -/
theorem realtime_bytes {messages : List Message} (distinct : Distinct midiEvent)
    (valid : ∀ message ∈ messages, message.Valid) {arrived : List EventPacket}
    (packets : arrived.filter (fun packet => !midiIsRealtime packet.data1) =
      messages.flatMap (Message.packets midiEvent))
    (single : ∀ packet ∈ arrived, midiIsRealtime packet.data1 = true → midiPacketLength packet.data1 = .one) :
    (arrived.flatMap (packetInput midiEvent)).filter (fun byte => !midiIsRealtime byte) =
        messages.flatMap Message.bytes ∧
      (arrived.flatMap (packetInput midiEvent)).filter midiIsRealtime =
        (arrived.filter fun packet => midiIsRealtime packet.data1).map EventPacket.data1 := by
  have realtimeInput : ∀ packet ∈ arrived, midiIsRealtime packet.data1 = true →
      packetInput midiEvent packet = [packet.data1] := by
    intro packet member realtime
    have length := single packet member realtime
    simp [packetInput, inputLength, length, PacketLength.count]
  have otherInput : ∀ packet ∈ arrived, midiIsRealtime packet.data1 = false →
      ∀ byte ∈ packetInput midiEvent packet, midiIsRealtime byte = false := by
    intro packet member other byte inside
    have among : packet ∈ messages.flatMap (Message.packets midiEvent) := by
      rw [← packets]
      exact List.mem_filter.mpr ⟨member, by simp [other]⟩
    obtain ⟨message, isMessage, isPacket⟩ := List.mem_flatMap.mp among
    have nonRealtime : ∀ packet ∈ message.packets midiEvent, midiIsRealtime packet.data1 = false := by
      intro packet own
      have kept : packet ∈ arrived.filter fun packet => !midiIsRealtime packet.data1 := by
        rw [packets]
        exact List.mem_flatMap.mpr ⟨message, isMessage, own⟩
      simpa using (List.mem_filter.mp kept).2
    refine bytes_not_realtime (valid message isMessage) nonRealtime byte ?_
    rw [← packets_input distinct (valid message isMessage)]
    exact List.mem_flatMap.mpr ⟨packet, isPacket, inside⟩
  constructor
  · rw [filter_flatMap_eq (fun packet => !midiIsRealtime packet.data1), packets, List.flatMap_assoc]
    · exact List.flatMap_congr fun message member => packets_input distinct (valid message member)
    · intro packet member kept byte inside
      simp [otherInput packet member (by simpa using kept) byte inside]
    · intro packet member dropped byte inside
      have realtime : midiIsRealtime packet.data1 = true := by simpa using dropped
      rw [realtimeInput packet member realtime, List.mem_singleton] at inside
      simp [inside, realtime]
  · rw [filter_flatMap_eq fun packet => midiIsRealtime packet.data1]
    · rw [← List.flatMap_pure_eq_map]
      refine List.flatMap_congr fun packet member => ?_
      exact realtimeInput packet (List.mem_filter.mp member).1 (List.mem_filter.mp member).2
    · intro packet member kept byte inside
      rw [realtimeInput packet member kept, List.mem_singleton] at inside
      rw [inside, kept]
    · exact otherInput

/-- A call for a realtime byte; a catch-all or fallthrough callback is given the byte too. -/
def Call.isRealtime : Call → Bool
  | .one _ byte => midiIsRealtime byte
  | .varByte _ _ byte0 _ _ => midiIsRealtime byte0
  | _ => false

/-- The calls for a realtime byte. -/
def realtimeCalls (registered : Callback → Bool) (byte : Byte) : List Call :=
  (if registered .realtime then [.one .realtime byte]
    else if registered .fallthrough then [.varByte .fallthrough 1 byte 0 0] else []) ++
  (if registered .catchall then [.varByte .catchall 1 byte 0 0] else [])

theorem processByte_realtime (parser : Parser) {byte : Byte} (realtime : midiIsRealtime byte = true) :
    midiProcessByte registered parser byte = (parser, realtimeCalls registered byte) := by
  have specific : specificCall registered .oneByteMessage 1 byte 0 0 =
      if registered .realtime then [.one .realtime byte] else [] := by
    cases isRegistered : registered .realtime <;>
      simp [specificCall, oneByteFunc, realtime, Option.filter, isRegistered]
  rw [midiProcessByte, if_pos realtime, midiInputCallbacks, specific, realtimeCalls]
  cases registered .realtime <;> simp

theorem realtimeCalls_isRealtime {byte : Byte} (realtime : midiIsRealtime byte = true) :
    ∀ call ∈ realtimeCalls registered byte, call.isRealtime = true := by
  intro call member
  simp only [realtimeCalls, List.mem_append, List.mem_ite_nil_right, List.mem_singleton] at member
  rcases member with specific | ⟨-, rfl⟩
  · split_ifs at specific with isRegistered fallthrough
    · rw [List.mem_singleton.mp specific]
      exact realtime
    · rw [List.mem_singleton.mp specific]
      exact realtime
    · exact absurd specific List.not_mem_nil
  · exact realtime

theorem specificCall_not_realtime {state : InputState} {cnt : Nat} {byte0 byte1 byte2 : Byte}
    (plain : midiIsRealtime byte0 = false) :
    ∀ call ∈ specificCall registered state cnt byte0 byte1 byte2, call.isRealtime = false := by
  intro call member
  rw [specificCall] at member
  split_ifs at member
  all_goals try split at member
  all_goals first
    | exact absurd member List.not_mem_nil
    | (rw [List.mem_singleton.mp member]
       first
         | rfl
         | exact plain)

theorem midiInputCallbacks_not_realtime {state : InputState} {cnt : Nat} {byte0 byte1 byte2 : Byte}
    (plain : midiIsRealtime byte0 = false) :
    ∀ call ∈ midiInputCallbacks registered state cnt byte0 byte1 byte2, call.isRealtime = false := by
  intro call member
  rw [midiInputCallbacks, List.mem_append, List.mem_append] at member
  simp only [List.mem_ite_nil_right, List.mem_singleton] at member
  rcases member with (specific | ⟨-, rfl⟩) | ⟨-, rfl⟩
  · exact specificCall_not_realtime plain call specific
  · exact plain
  · exact plain

/-- No realtime byte gets into the buffer. -/
def Parser.Plain (parser : Parser) : Prop := ∀ index, midiIsRealtime (parser.inputBuffer index) = false

theorem update_plain {buffer : Fin 3 → Byte} (plain : ∀ index, midiIsRealtime (buffer index) = false) (at_ : Fin 3)
    {input : Byte} (inputPlain : midiIsRealtime input = false) (index : Fin 3) :
    midiIsRealtime (Function.update buffer at_ input index) = false := by
  rw [Function.update_apply]
  split
  · exact inputPlain
  · exact plain index

theorem processStatusByte_plain {parser : Parser} (plain : parser.Plain) {input : Byte}
    (inputPlain : midiIsRealtime input = false) :
    (processStatusByte registered parser input).1.Plain ∧
      ∀ call ∈ (processStatusByte registered parser input).2, call.isRealtime = false := by
  -- the message before is dropped, unless it is a system exclusive one
  have restarted : (if parser.inputState ≠ .sysexMessage then
      { parser with inputBuffer := Function.update parser.inputBuffer 0 input, inputCount := 1 }
      else parser : Parser).Plain := by
    split
    · exact update_plain plain 0 inputPlain
    · exact plain
  rw [processStatusByte]
  generalize (if parser.inputState ≠ .sysexMessage then
    { parser with inputBuffer := Function.update parser.inputBuffer 0 input, inputCount := 1 } else parser) = parser
    at restarted
  cases midiPacketLength input with
  | one => exact ⟨restarted, midiInputCallbacks_not_realtime inputPlain⟩
  | two => exact ⟨restarted, by simp⟩
  | three => exact ⟨restarted, by simp⟩
  | undefined =>
    have stored := update_plain restarted (Fin.ofNat 3 parser.inputCount) inputPlain
    simp only
    split_ifs
    · exact ⟨update_plain restarted 0 inputPlain, by simp⟩
    · exact ⟨stored, midiInputCallbacks_not_realtime (stored 0)⟩
    · exact ⟨restarted, by simp⟩

theorem processDataByte_plain {parser : Parser} (plain : parser.Plain) {input : Byte}
    (inputPlain : midiIsRealtime input = false) :
    (processDataByte registered parser input).1.Plain ∧
      ∀ call ∈ (processDataByte registered parser input).2, call.isRealtime = false := by
  have stored := update_plain plain (Fin.ofNat 3 parser.inputCount) inputPlain
  rw [processDataByte]
  split_ifs
  · exact ⟨plain, by simp⟩
  · simp only
    split_ifs
    · exact ⟨stored, midiInputCallbacks_not_realtime (stored 0)⟩
    · exact ⟨stored, midiInputCallbacks_not_realtime (stored 0)⟩
    · exact ⟨stored, midiInputCallbacks_not_realtime (stored 0)⟩
    · exact ⟨stored, midiInputCallbacks_not_realtime (stored 0)⟩
    · exact ⟨stored, by simp⟩

theorem midiProcessByte_plain {parser : Parser} (plain : parser.Plain) (input : Byte) :
    (midiProcessByte registered parser input).1.Plain ∧
      (midiIsRealtime input = false → ∀ call ∈ (midiProcessByte registered parser input).2, call.isRealtime = false) := by
  cases isRealtime : midiIsRealtime input with
  | true => exact ⟨by rwa [processByte_realtime parser isRealtime], by simp⟩
  | false =>
    rw [midiProcessByte, if_neg (by simp [isRealtime])]
    split_ifs
    · exact ⟨(processStatusByte_plain plain isRealtime).1, fun _ => (processStatusByte_plain plain isRealtime).2⟩
    · exact ⟨(processDataByte_plain plain isRealtime).1, fun _ => (processDataByte_plain plain isRealtime).2⟩

/-- Bytes in a row: without the realtime bytes the others are answered as before, and each realtime byte has its own
calls. -/
theorem bytes_interleave (bytes : List Byte) :
    let calls (bytes : List Byte) := (run (midiProcessByte registered) midiDeviceInit.parser bytes).2
    (calls bytes).filter (fun call => !call.isRealtime) = calls (bytes.filter fun byte => !midiIsRealtime byte) ∧
      (calls bytes).filter Call.isRealtime = (bytes.filter midiIsRealtime).flatMap (realtimeCalls registered) := by
  intro calls
  let log := replies (midiProcessByte registered) midiDeviceInit.parser bytes
  have calls_eq : calls bytes = log.flatMap Prod.snd := run_snd_eq_flatMap _
  have step : ∀ reply ∈ log, ∃ parser : Parser, parser.Plain ∧ reply.2 = (midiProcessByte registered parser reply.1).2 :=
    fun reply member => exists_of_mem_replies (fun _ => rfl) (fun parser input plain =>
      (midiProcessByte_plain plain input).1) member
  have realtimeReplies : ∀ reply ∈ log, midiIsRealtime reply.1 = true → reply.2 = realtimeCalls registered reply.1 := by
    intro reply member realtime
    obtain ⟨parser, -, called⟩ := step reply member
    rw [called, processByte_realtime parser realtime]
  have realtimeCalled : ∀ reply ∈ log, midiIsRealtime reply.1 = true → ∀ call ∈ reply.2, call.isRealtime = true := by
    intro reply member realtime
    rw [realtimeReplies reply member realtime]
    exact realtimeCalls_isRealtime realtime
  have otherCalled : ∀ reply ∈ log, midiIsRealtime reply.1 = false → ∀ call ∈ reply.2, call.isRealtime = false := by
    intro reply member other
    obtain ⟨parser, plain, called⟩ := step reply member
    rw [called]
    exact (midiProcessByte_plain plain reply.1).2 other
  rw [calls_eq]
  constructor
  · -- a realtime byte leaves the parser as it is
    have stays (parser : Parser) (byte : Byte) (realtime : (!midiIsRealtime byte) = false) :
        (midiProcessByte registered parser byte).1 = parser := by
      rw [processByte_realtime parser (by simpa using realtime)]
    have filtered := @replies_filter _ _ _ (midiProcessByte registered) midiDeviceInit.parser
      (fun byte => !midiIsRealtime byte) stays bytes
    rw [filter_flatMap_eq fun reply => !midiIsRealtime reply.1, filtered]
    · exact (run_snd_eq_flatMap _).symm
    · intro reply member kept call isCall
      simp [otherCalled reply member (by simpa using kept) call isCall]
    · intro reply member dropped call isCall
      simp [realtimeCalled reply member (by simpa using dropped) call isCall]
  · have inputs : (log.filter fun reply => midiIsRealtime reply.1).map Prod.fst = bytes.filter midiIsRealtime := by
      rw [← @map_fst_replies _ _ _ (midiProcessByte registered) midiDeviceInit.parser bytes, List.filter_map]
      rfl
    have answers : (log.filter fun reply => midiIsRealtime reply.1).flatMap Prod.snd =
        ((log.filter fun reply => midiIsRealtime reply.1).map Prod.fst).flatMap (realtimeCalls registered) := by
      rw [List.flatMap_map]
      exact List.flatMap_congr fun reply member =>
        realtimeReplies reply (List.mem_filter.mp member).1 (List.mem_filter.mp member).2
    rw [filter_flatMap_eq fun reply => midiIsRealtime reply.1, answers, inputs]
    · exact realtimeCalled
    · exact otherCalled

/-- The messages arrive as if alone also if realtime messages come between their packets: all other calls, those of
catch-all and fallthrough callbacks included, are the same; and each realtime message has its own. -/
theorem realtime_interleaves (distinct : Distinct midiEvent) {messages : List Message}
    (valid : ∀ message ∈ messages, message.Valid) {alone passes : List (List EventPacket)}
    (aloneFew : ∀ packets ∈ alone, packets.length ≤ 63) (few : ∀ packets ∈ passes, packets.length ≤ 63)
    (packets : alone.flatten = messages.flatMap (Message.packets midiEvent))
    (mixed : passes.flatten.filter (fun packet => !midiIsRealtime packet.data1) = alone.flatten)
    (single : ∀ packet ∈ passes.flatten, midiIsRealtime packet.data1 = true → midiPacketLength packet.data1 = .one) :
    let calls (passes : List (List EventPacket)) := (run (midiDeviceProcess midiEvent registered) midiDeviceInit passes).2
    (calls passes).filter (fun call => !call.isRealtime) = calls alone ∧
      (calls passes).filter Call.isRealtime =
        (passes.flatten.filter fun packet => midiIsRealtime packet.data1).flatMap fun packet =>
          realtimeCalls registered packet.data1 := by
  intro calls
  obtain ⟨others, realtimes⟩ := realtime_bytes distinct valid (mixed.trans packets) single
  have aloneBytes : alone.flatten.flatMap (packetInput midiEvent) = messages.flatMap Message.bytes := by
    rw [packets, List.flatMap_assoc]
    exact List.flatMap_congr fun message member => packets_input distinct (valid message member)
  obtain ⟨otherCalls, ownCalls⟩ := @bytes_interleave registered (passes.flatten.flatMap (packetInput midiEvent))
  have calls_alone : calls alone = _ := heard_run aloneFew
  have calls_eq : calls passes = _ := heard_run few
  constructor
  · rw [calls_eq, otherCalls, others, calls_alone, aloneBytes]
  · rw [calls_eq, ownCalls, realtimes, List.flatMap_map]

/-- A clock inside a system exclusive message, for a device with a fallthrough callback and a catch-all. -/
theorem example_interleaves :
    let calls (passes : List (List EventPacket)) := (run (midiDeviceProcess (· >>> 4) fun callback =>
      callback ∈ [Callback.sysex, .fallthrough, .catchall]) midiDeviceInit passes).2
    (calls [[⟨0x04, 0xF0, 1, 2⟩, ⟨0x0F, 0xF8, 0, 0⟩], [⟨0x06, 3, 0xF7, 0⟩]]).filter (fun call => !call.isRealtime) =
        calls [[⟨0x04, 0xF0, 1, 2⟩], [⟨0x06, 3, 0xF7, 0⟩]] ∧
      (calls [[⟨0x04, 0xF0, 1, 2⟩, ⟨0x0F, 0xF8, 0, 0⟩], [⟨0x06, 3, 0xF7, 0⟩]]).filter Call.isRealtime =
        [.varByte .fallthrough 1 0xF8 0 0, .varByte .catchall 1 0xF8 0 0] := by
  have valid : ∀ message ∈ [Message.sysex [1, 2, 3]], message.Valid := by
    intro message member
    rw [List.mem_singleton.mp member]
    exact ⟨by decide, by decide⟩
  exact realtime_interleaves (by decide) valid (by decide) (by decide) (by decide) (by decide) (by decide)

end QmkFirmware.Midi
