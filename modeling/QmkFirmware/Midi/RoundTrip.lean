import QmkFirmware.Midi.Usb

/-! # Messages arrive

What a device sends in packets, a device receives as the same messages, however the packets are spread over the calls that
process them.
-/

namespace QmkFirmware.Midi

open QmkFirmware.Transducer

/-! ## What is heard -/

def Call.callback : Call → Callback
  | .one callback _ => callback
  | .two callback _ _ => callback
  | .three callback _ _ _ => callback
  | .sysex _ _ _ => .sysex
  | .varByte callback _ _ _ _ => callback

/-- The calls of specific callbacks, with the data that is valid. -/
def Call.heard? : Call → Option Call
  | .varByte _ _ _ _ _ => none
  | .sysex startByte dataLength data => some (.sysex startByte dataLength (data.take dataLength))
  | call => some call

/-- The parts of a system exclusive message, three bytes at a time. -/
def pieces (startByte : Nat) : List Byte → List Call
  | [] => []
  | [a] => [.sysex startByte 1 [a]]
  | [a, b] => [.sysex startByte 2 [a, b]]
  | a :: b :: c :: bytes => .sysex startByte 3 [a, b, c] :: pieces (startByte + 3) bytes

def Message.heard : Message → List Call
  | .cc chan num val => [.three .cc (chan &&& 0x0F#8) (num &&& 0x7F#8) (val &&& 0x7F#8)]
  | .noteon chan num vel => [.three .noteon (chan &&& 0x0F#8) (num &&& 0x7F#8) (vel &&& 0x7F#8)]
  | .noteoff chan num vel => [.three .noteoff (chan &&& 0x0F#8) (num &&& 0x7F#8) (vel &&& 0x7F#8)]
  | .aftertouch chan noteNum amt => [.three .aftertouch (chan &&& 0x0F#8) (noteNum &&& 0x7F#8) (amt &&& 0x7F#8)]
  | .pitchbend chan amt =>
    [.three .pitchbend (chan &&& 0x0F#8) (BitVec.ofNat 8 (pitchbendAmount amt % 128)) (BitVec.ofNat 8 (pitchbendAmount amt / 128))]
  | .programchange chan num => [.two .progchange (chan &&& 0x0F#8) (num &&& 0x7F#8)]
  | .channelpressure chan amt => [.two .chanpressure (chan &&& 0x0F#8) (amt &&& 0x7F#8)]
  | .clock => [.one .realtime midiClock]
  | .tick => [.one .realtime midiTick]
  | .start => [.one .realtime midiStart]
  | .resume => [.one .realtime midiContinue]
  | .stop => [.one .realtime midiStop]
  | .activesense => [.one .realtime midiActivesense]
  | .reset => [.one .realtime midiReset]
  | .tcquarterframe time => [.two .tcQuarterframe midiTcQuarterframe (time &&& 0x7F#8)]
  | .songposition pos =>
    [.three .songposition midiSongposition (BitVec.ofNat 8 (pos.toNat % 128)) (BitVec.ofNat 8 (pos.toNat / 128 % 128))]
  | .songselect song => [.two .songselect midiSongselect (song &&& 0x7F#8)]
  | .tunerequest => [.one .tunerequest midiTunerequest]
  | .sysex payload => pieces 0 (sysexBegin :: payload ++ [sysexEnd])

variable {registered : Callback → Bool} {parser : Parser}

/-- Hears the callbacks of a byte. -/
def hear (registered : Callback → Bool) (parser : Parser) (input : Byte) : Parser × List Call :=
  ((midiProcessByte registered parser input).1, (midiProcessByte registered parser input).2.filterMap Call.heard?)

theorem heard_midiInputCallbacks (state : InputState) (cnt : Nat) (byte0 byte1 byte2 : Byte) :
    (midiInputCallbacks registered state cnt byte0 byte1 byte2).filterMap Call.heard? =
      (specificCall registered state cnt byte0 byte1 byte2).filterMap Call.heard? := by
  have none (cnt : Nat) (callback : Callback) :
      [Call.varByte callback cnt byte0 byte1 byte2].filterMap Call.heard? = [] := rfl
  rw [midiInputCallbacks, List.filterMap_append, List.filterMap_append]
  split_ifs <;> simp [none]

/-! ## Bytes -/

theorem not_status_of_data {byte : Byte} (data : byte.getLsbD 7 = false) :
    midiIsStatusbyte byte = false ∧ midiIsRealtime byte = false := by
  revert data
  exact (by decide +kernel : ∀ byte : Byte, byte.getLsbD 7 = false →
    midiIsStatusbyte byte = false ∧ midiIsRealtime byte = false) byte

/-- A status byte of a message of more than one byte. -/
structure Status (byte : Byte) (packetLength : PacketLength) : Prop where
  status : midiIsStatusbyte byte = true
  realtime : midiIsRealtime byte = false
  length : midiPacketLength byte = packetLength

/-- The parser is not inside a system exclusive message. -/
def Parser.Ready (parser : Parser) : Prop := parser.inputState ≠ .sysexMessage

/-- The byte goes to its place among three. -/
theorem store_eq (state : InputState) (k : Nat) (j : Fin 3) (buffer : Fin 3 → Byte) (input : Byte)
    (small : 3 * k + j.val + 1 < 2 ^ 16) :
    Parser.store ⟨state, 3 * k + j, buffer⟩ input = ⟨state, 3 * k + j + 1, Function.update buffer j input⟩ := by
  have place : Fin.ofNat 3 (3 * k + j.val) = j := by
    apply Fin.ext
    have inside := j.isLt
    simp only [Fin.ofNat]
    omega
  rw [Parser.store, place, uint16, Nat.mod_eq_of_lt small]

theorem processes_status (ready : parser.Ready) {byte : Byte} {packetLength : PacketLength}
    (isStatus : Status byte packetLength) :
    (packetLength = .three → midiProcessByte registered parser byte =
      (⟨.threeByteMessage, 1, Function.update parser.inputBuffer 0 byte⟩, [])) ∧
    (packetLength = .two → midiProcessByte registered parser byte =
      (⟨.twoByteMessage, 1, Function.update parser.inputBuffer 0 byte⟩, [])) ∧
    (packetLength = .one → midiProcessByte registered parser byte =
      (⟨.idle, 1, Function.update parser.inputBuffer 0 byte⟩, midiInputCallbacks registered .oneByteMessage 1 byte 0 0)) := by
  obtain ⟨status, realtime, rfl⟩ := isStatus
  have outside : parser.inputState ≠ .sysexMessage := ready
  refine ⟨fun length => ?_, fun length => ?_, fun length => ?_⟩ <;>
    rw [midiProcessByte, realtime, status, if_neg Bool.false_ne_true, if_pos rfl, processStatusByte, if_pos outside, length]

theorem processes_data {byte : Byte} (data : byte.getLsbD 7 = false) :
    midiProcessByte registered parser byte = processDataByte registered parser byte := by
  obtain ⟨notStatus, notRealtime⟩ := not_status_of_data data
  rw [midiProcessByte, notRealtime, notStatus, if_neg Bool.false_ne_true, if_neg Bool.false_ne_true]

theorem gives_three (ready : parser.Ready) {status a b : Byte} (isStatus : Status status .three)
    (aData : a.getLsbD 7 = false) (bData : b.getLsbD 7 = false) :
    Gives (hear registered) Parser.Ready [status, a, b]
      ((specificCall registered .threeByteMessage 3 status a b).filterMap Call.heard?) parser := by
  have second (buffer : Fin 3 → Byte) : processDataByte registered ⟨.threeByteMessage, 1, buffer⟩ a =
      (⟨.threeByteMessage, 2, Function.update buffer 1 a⟩, []) := rfl
  have third (buffer : Fin 3 → Byte) : processDataByte registered ⟨.threeByteMessage, 2, buffer⟩ b =
      (⟨.threeByteMessage, 1, Function.update buffer 2 b⟩,
        midiInputCallbacks registered .threeByteMessage 3 (buffer 0) (buffer 1) b) := rfl
  have first := (@processes_status registered parser ready status _ isStatus).1 rfl
  constructor
  · simp [run_cons, hear, first, processes_data aData, processes_data bData, second, third, Parser.Ready]
  · simp [run_cons, hear, first, processes_data aData, processes_data bData, second, third, heard_midiInputCallbacks]

theorem gives_two (ready : parser.Ready) {status a : Byte} (isStatus : Status status .two) (aData : a.getLsbD 7 = false) :
    Gives (hear registered) Parser.Ready [status, a]
      ((specificCall registered .twoByteMessage 2 status a 0).filterMap Call.heard?) parser := by
  have second (buffer : Fin 3 → Byte) : processDataByte registered ⟨.twoByteMessage, 1, buffer⟩ a =
      (⟨.twoByteMessage, 1, Function.update buffer 1 a⟩,
        midiInputCallbacks registered .twoByteMessage 2 (buffer 0) a 0) := rfl
  have first := (@processes_status registered parser ready status _ isStatus).2.1 rfl
  constructor
  · simp [run_cons, hear, first, processes_data aData, second, Parser.Ready]
  · simp [run_cons, hear, first, processes_data aData, second, heard_midiInputCallbacks]

/-- A byte that is a message of its own; a realtime byte leaves the parser as it is. -/
theorem gives_one (ready : parser.Ready) {byte : Byte} (alone : midiIsRealtime byte = true ∨ Status byte .one) :
    Gives (hear registered) Parser.Ready [byte]
      ((specificCall registered .oneByteMessage 1 byte 0 0).filterMap Call.heard?) parser := by
  rcases alone with realtime | isStatus
  · have stays : midiProcessByte registered parser byte =
        (parser, midiInputCallbacks registered .oneByteMessage 1 byte 0 0) := by
      rw [midiProcessByte, if_pos realtime]
    constructor
    · simpa [run_cons, hear, stays] using ready
    · simp [run_cons, hear, stays, heard_midiInputCallbacks]
  · have first := (@processes_status registered parser ready byte _ isStatus).2.2 rfl
    constructor
    · simp [run_cons, hear, first, Parser.Ready]
    · simp [run_cons, hear, first, heard_midiInputCallbacks]

/-! ## System exclusive messages -/

variable {buffer : Fin 3 → Byte} {k : Nat}

theorem heard_sysexCall (j : Fin 3) (byte0 byte1 byte2 : Byte) :
    (specificCall registered .sysexMessage (3 * k + j + 1) byte0 byte1 byte2).filterMap Call.heard? =
      ([.sysex (3 * k) (j + 1) ([byte0, byte1, byte2].take (j + 1))] : List Call).filter fun call =>
        registered call.callback := by
  have start : (3 * k + j.val + 1 - 1) / 3 * 3 = 3 * k := by
    have inside := j.isLt
    omega
  have length : 3 * k + j.val + 1 - 3 * k = j + 1 := by omega
  rw [specificCall, if_pos rfl, start]
  dsimp only
  rw [length]
  cases heard : registered .sysex <;> simp [heard, Call.heard?, Call.callback]

/-- Inside a message, a byte of data completes a group or not. -/
theorem hear_sysex_data {j : Fin 3} {byte : Byte} (data : byte.getLsbD 7 = false) (small : 3 * k + j.val + 1 < 2 ^ 16) :
    hear registered ⟨.sysexMessage, 3 * k + j, buffer⟩ byte =
      (⟨.sysexMessage, 3 * k + j + 1, Function.update buffer j byte⟩,
        if j = 2 then ([.sysex (3 * k) 3 [buffer 0, buffer 1, byte]] : List Call).filter fun call =>
          registered call.callback
        else []) := by
  have place : (3 * k + j.val) % 3 = j.val := by
    have inside := j.isLt
    omega
  rw [hear, processes_data data, processDataByte, store_eq _ _ _ _ _ small]
  by_cases last : j = 2
  · subst last
    have group := @heard_sysexCall registered k 2 (buffer 0) (buffer 1) byte
    simp only [Fin.coe_ofNat_eq_mod, Nat.reduceMod, Nat.reduceAdd, List.take_succ_cons, List.take_zero] at group place
    simp [place, Parser.callbacks, heard_midiInputCallbacks, group]
  · have notLast : j.val ≠ 2 := fun same => last (Fin.ext same)
    simp [place, last, notLast]

theorem hear_sysexEnd {j : Fin 3} (small : 3 * k + j.val + 1 < 2 ^ 16) :
    ((hear registered ⟨.sysexMessage, 3 * k + j, buffer⟩ sysexEnd).1.Ready) ∧
      (hear registered ⟨.sysexMessage, 3 * k + j, buffer⟩ sysexEnd).2 =
        ([.sysex (3 * k) (j + 1) (([buffer 0, buffer 1, buffer 2].take j) ++ [sysexEnd])] : List Call).filter fun call =>
          registered call.callback := by
  have processed : midiProcessByte registered ⟨.sysexMessage, 3 * k + j, buffer⟩ sysexEnd =
      (⟨.idle, 3 * k + j + 1, Function.update buffer j sysexEnd⟩,
        midiInputCallbacks registered .sysexMessage (3 * k + j + 1) (Function.update buffer j sysexEnd 0)
          (Function.update buffer j sysexEnd 1) (Function.update buffer j sysexEnd 2)) := by
    have realtime : midiIsRealtime sysexEnd = false := by decide
    have status : midiIsStatusbyte sysexEnd = true := by decide
    have length : midiPacketLength sysexEnd = .undefined := by decide
    rw [midiProcessByte, realtime, status, if_neg Bool.false_ne_true, if_pos rfl, processStatusByte, if_neg (by simp), length]
    dsimp only
    rw [if_neg (by decide), if_pos rfl, store_eq _ _ _ _ _ small]
    rfl
  have taken : [Function.update buffer j sysexEnd 0, Function.update buffer j sysexEnd 1,
      Function.update buffer j sysexEnd 2].take (j + 1) = [buffer 0, buffer 1, buffer 2].take j ++ [sysexEnd] := by
    fin_cases j <;> rfl
  rw [hear, processed]
  refine ⟨by simp [Parser.Ready], ?_⟩
  dsimp only
  rw [heard_midiInputCallbacks, heard_sysexCall, taken]

theorem gives_sysexEnd {j : Fin 3} (small : 3 * k + j.val + 1 < 2 ^ 16) :
    Gives (hear registered) Parser.Ready [sysexEnd]
      (([.sysex (3 * k) (j + 1) (([buffer 0, buffer 1, buffer 2].take j) ++ [sysexEnd])] : List Call).filter fun call =>
        registered call.callback) ⟨.sysexMessage, 3 * k + j, buffer⟩ := by
  obtain ⟨ready, heard⟩ := @hear_sysexEnd registered buffer k j small
  constructor
  · rw [run_cons]
    exact ready
  · rw [run_cons, heard]
    simp

theorem filter_pieces (keep : Call → Bool) (startByte : Nat) (a b c : Byte) (bytes : List Byte) :
    (pieces startByte (a :: b :: c :: bytes)).filter keep =
      ([.sysex startByte 3 [a, b, c]] : List Call).filter keep ++ (pieces (startByte + 3) bytes).filter keep := by
  rw [pieces, ← List.singleton_append, List.filter_append]

/-- The rest of a message, after the first byte of a group. -/
theorem gives_tail : ∀ (rest : List Byte) {k : Nat} {buffer : Fin 3 → Byte},
    (∀ byte ∈ rest, byte.getLsbD 7 = false) → 3 * k + 1 + rest.length + 1 < 2 ^ 16 →
      Gives (hear registered) Parser.Ready (rest ++ [sysexEnd])
        ((pieces (3 * k) (buffer 0 :: rest ++ [sysexEnd])).filter fun call => registered call.callback)
        ⟨.sysexMessage, 3 * k + 1, buffer⟩
  | [], k, buffer, _, small => @gives_sysexEnd registered buffer k 1 (by simpa using small)
  | [a], k, buffer, data, small => by
    simp only [List.length_cons, List.length_nil] at small
    have aData := @hear_sysex_data registered buffer k 1 a (data a (by simp)) (by simp only [Fin.val_one]; omega)
    have all := gives_cons aData (@gives_sysexEnd registered (Function.update buffer 1 a) k 2
      (by simp only [Fin.val_two]; omega))
    simpa [pieces] using all
  | [a, b], k, buffer, data, small => by
    simp only [List.length_cons, List.length_nil] at small
    have aData := @hear_sysex_data registered buffer k 1 a (data a (by simp)) (by simp only [Fin.val_one]; omega)
    have bData := @hear_sysex_data registered (Function.update buffer 1 a) k 2 b (data b (by simp))
      (by simp only [Fin.val_two]; omega)
    have closed := @gives_sysexEnd registered (Function.update (Function.update buffer 1 a) 2 b) (k + 1) 0
      (by simp only [Fin.val_zero]; omega)
    have all := gives_cons aData (gives_cons bData closed)
    have last : pieces (3 * k + 3) [sysexEnd] = [.sysex (3 * k + 3) 1 [sysexEnd]] := rfl
    simpa [filter_pieces, last, Nat.mul_add] using all
  | a :: b :: c :: rest, k, buffer, data, small => by
    simp only [List.length_cons] at small
    have aData := @hear_sysex_data registered buffer k 1 a (data a (by simp)) (by simp only [Fin.val_one]; omega)
    have bData := @hear_sysex_data registered (Function.update buffer 1 a) k 2 b (data b (by simp))
      (by simp only [Fin.val_two]; omega)
    have cData := @hear_sysex_data registered (Function.update (Function.update buffer 1 a) 2 b) (k + 1) 0 c
      (data c (by simp)) (by simp only [Fin.val_zero]; omega)
    have later := @gives_tail rest (k + 1) (Function.update (Function.update (Function.update buffer 1 a) 2 b) 0 c)
      (fun byte member => data byte (by simp [member])) (by omega)
    have all := gives_cons aData (gives_cons bData (gives_cons cData later))
    simpa [filter_pieces, Nat.mul_add] using all

theorem gives_sysex (ready : parser.Ready) {payload : List Byte} (data : ∀ byte ∈ payload, byte.getLsbD 7 = false)
    (small : payload.length + 2 < 2 ^ 16) :
    Gives (hear registered) Parser.Ready (sysexBegin :: payload ++ [sysexEnd])
      ((Message.sysex payload).heard.filter fun call => registered call.callback) parser := by
  have outside : parser.inputState ≠ .sysexMessage := ready
  have begun : hear registered parser sysexBegin =
      (⟨.sysexMessage, 3 * 0 + 1, Function.update parser.inputBuffer 0 sysexBegin⟩, []) := by
    have realtime : midiIsRealtime sysexBegin = false := by decide
    have status : midiIsStatusbyte sysexBegin = true := by decide
    have length : midiPacketLength sysexBegin = .undefined := by decide
    rw [hear, midiProcessByte, realtime, status, if_neg Bool.false_ne_true, if_pos rfl, processStatusByte, if_pos outside,
      length]
    simp
  have rest := @gives_tail registered payload 0 (Function.update parser.inputBuffer 0 sysexBegin) data (by omega)
  rw [Function.update_self] at rest
  exact gives_cons begun rest

/-! ## Messages -/

/-- A message that is sent whole: data without status bytes, and a length that `uint16_t` can count. -/
def Message.Valid : Message → Prop
  | .sysex payload => (∀ byte ∈ payload, byte.getLsbD 7 = false) ∧ payload.length + 2 < 2 ^ 16
  | _ => True

/-- The bytes of a call to the send function. -/
def Sent.bytes (sent : Sent) : List Byte := [sent.byte0, sent.byte1, sent.byte2].take sent.count

theorem heard_three {func : Callback} {status : Byte} (isFunc : threeByteFunc status = some func) (a b : Byte) :
    (specificCall registered .threeByteMessage 3 status a b).filterMap Call.heard? =
      ([.three func (if status = midiSongposition then status else status &&& 0x0F#8) a b] : List Call).filter fun call =>
        registered call.callback := by
  cases heard : registered func <;> simp [specificCall, isFunc, Option.filter, heard, Call.heard?, Call.callback]

theorem heard_two {func : Callback} {status : Byte} (isFunc : twoByteFunc status = some func) (a b : Byte) :
    (specificCall registered .twoByteMessage 2 status a b).filterMap Call.heard? =
      ([.two func (if status = midiSongselect ∨ status = midiTcQuarterframe then status else status &&& 0x0F#8) a] :
        List Call).filter fun call => registered call.callback := by
  cases heard : registered func <;> simp [specificCall, isFunc, Option.filter, heard, Call.heard?, Call.callback]

theorem heard_one {func : Callback} {byte : Byte} (isFunc : oneByteFunc byte = some func) :
    (specificCall registered .oneByteMessage 1 byte 0 0).filterMap Call.heard? =
      ([.one func byte] : List Call).filter fun call => registered call.callback := by
  cases heard : registered func <;> simp [specificCall, isFunc, Option.filter, heard, Call.heard?, Call.callback]

theorem data_mask (byte : Byte) : (byte &&& 0x7F#8).getLsbD 7 = false := by
  rw [BitVec.and_comm]
  exact getLsbD_mask_high byte

/-- The status bytes of the channel messages with two bytes of data. -/
theorem channelThree {kind : Byte} {func : Callback}
    (member : (kind, func) ∈ [(midiCc, Callback.cc), (midiNoteon, .noteon), (midiNoteoff, .noteoff),
      (midiAftertouch, .aftertouch), (midiPitchbend, .pitchbend)]) (chan : Byte) :
    Status (kind ||| (chan &&& midiChanmask)) .three ∧ threeByteFunc (kind ||| (chan &&& midiChanmask)) = some func ∧
      kind ||| (chan &&& midiChanmask) ≠ midiSongposition ∧
      (kind ||| (chan &&& midiChanmask)) &&& 0x0F#8 = chan &&& 0x0F#8 := by
  have all : ∀ chan : Byte, ∀ entry ∈ [(midiCc, Callback.cc), (midiNoteon, .noteon), (midiNoteoff, .noteoff),
      (midiAftertouch, .aftertouch), (midiPitchbend, .pitchbend)],
      (midiIsStatusbyte (entry.1 ||| (chan &&& midiChanmask)) = true ∧
        midiIsRealtime (entry.1 ||| (chan &&& midiChanmask)) = false ∧
        midiPacketLength (entry.1 ||| (chan &&& midiChanmask)) = .three) ∧
      threeByteFunc (entry.1 ||| (chan &&& midiChanmask)) = some entry.2 ∧
      entry.1 ||| (chan &&& midiChanmask) ≠ midiSongposition ∧
      (entry.1 ||| (chan &&& midiChanmask)) &&& 0x0F#8 = chan &&& 0x0F#8 := by decide +kernel
  obtain ⟨⟨status, realtime, length⟩, rest⟩ := all chan (kind, func) member
  exact ⟨⟨status, realtime, length⟩, rest⟩

/-- The status bytes of the channel messages with one byte of data. -/
theorem channelTwo {kind : Byte} {func : Callback}
    (member : (kind, func) ∈ [(midiProgchange, Callback.progchange), (midiChanpressure, .chanpressure)]) (chan : Byte) :
    Status (kind ||| (chan &&& midiChanmask)) .two ∧ twoByteFunc (kind ||| (chan &&& midiChanmask)) = some func ∧
      ¬(kind ||| (chan &&& midiChanmask) = midiSongselect ∨ kind ||| (chan &&& midiChanmask) = midiTcQuarterframe) ∧
      (kind ||| (chan &&& midiChanmask)) &&& 0x0F#8 = chan &&& 0x0F#8 := by
  have all : ∀ chan : Byte, ∀ entry ∈ [(midiProgchange, Callback.progchange), (midiChanpressure, .chanpressure)],
      (midiIsStatusbyte (entry.1 ||| (chan &&& midiChanmask)) = true ∧
        midiIsRealtime (entry.1 ||| (chan &&& midiChanmask)) = false ∧
        midiPacketLength (entry.1 ||| (chan &&& midiChanmask)) = .two) ∧
      twoByteFunc (entry.1 ||| (chan &&& midiChanmask)) = some entry.2 ∧
      ¬(entry.1 ||| (chan &&& midiChanmask) = midiSongselect ∨
        entry.1 ||| (chan &&& midiChanmask) = midiTcQuarterframe) ∧
      (entry.1 ||| (chan &&& midiChanmask)) &&& 0x0F#8 = chan &&& 0x0F#8 := by decide +kernel
  obtain ⟨⟨status, realtime, length⟩, rest⟩ := all chan (kind, func) member
  exact ⟨⟨status, realtime, length⟩, rest⟩

theorem gives_channelThree (ready : parser.Ready) {kind : Byte} {func : Callback}
    (member : (kind, func) ∈ [(midiCc, Callback.cc), (midiNoteon, .noteon), (midiNoteoff, .noteoff),
      (midiAftertouch, .aftertouch), (midiPitchbend, .pitchbend)]) (chan : Byte) {a b : Byte}
    (aData : a.getLsbD 7 = false) (bData : b.getLsbD 7 = false) :
    Gives (hear registered) Parser.Ready [kind ||| (chan &&& midiChanmask), a, b]
      (([.three func (chan &&& 0x0F#8) a b] : List Call).filter fun call => registered call.callback) parser := by
  obtain ⟨isStatus, isFunc, notPosition, channel⟩ := channelThree member chan
  have gives := @gives_three registered parser ready _ a b isStatus aData bData
  rwa [heard_three isFunc, if_neg notPosition, channel] at gives

theorem gives_channelTwo (ready : parser.Ready) {kind : Byte} {func : Callback}
    (member : (kind, func) ∈ [(midiProgchange, Callback.progchange), (midiChanpressure, .chanpressure)]) (chan : Byte)
    {a : Byte} (aData : a.getLsbD 7 = false) :
    Gives (hear registered) Parser.Ready [kind ||| (chan &&& midiChanmask), a]
      (([.two func (chan &&& 0x0F#8) a] : List Call).filter fun call => registered call.callback) parser := by
  obtain ⟨isStatus, isFunc, notSelect, channel⟩ := channelTwo member chan
  have gives := @gives_two registered parser ready _ a isStatus aData
  rwa [heard_two isFunc, if_neg notSelect, channel] at gives

/-- Seven bits of a word as a byte of data. -/
theorem low7 (word : BitVec 16) :
    (word &&& 0x7F#16).setWidth 8 = BitVec.ofNat 8 (word.toNat % 128) ∧
      ((word &&& 0x7F#16).setWidth 8).getLsbD 7 = false := by
  have value : word.toNat &&& 127 = word.toNat % 128 := Nat.and_two_pow_sub_one_eq_mod word.toNat 7
  constructor
  · apply BitVec.eq_of_toNat_eq
    rw [BitVec.toNat_setWidth, BitVec.toNat_and, BitVec.toNat_ofNat]
    exact congrArg (· % 2 ^ 8) value
  · rw [BitVec.getLsbD_setWidth, BitVec.getLsbD_and]
    simp

theorem high7 (word : BitVec 16) :
    ((word >>> 7) &&& 0x7F#16).setWidth 8 = BitVec.ofNat 8 (word.toNat / 128 % 128) ∧
      (((word >>> 7) &&& 0x7F#16).setWidth 8).getLsbD 7 = false := by
  obtain ⟨value, data⟩ := low7 (word >>> 7)
  refine ⟨?_, data⟩
  rw [value, BitVec.toNat_ushiftRight, Nat.shiftRight_eq_div_pow]

theorem pitchbendAmount_lt (amt : Int) : pitchbendAmount amt < 2 ^ 14 := by
  unfold pitchbendAmount
  split_ifs <;> omega

/-- The bytes that a message is on the way. -/
def Message.bytes : Message → List Byte
  | .sysex payload => sysexBegin :: payload ++ [sysexEnd]
  | message => message.sends.flatMap Sent.bytes

theorem gives_realtime (ready : parser.Ready) {byte : Byte} (realtime : midiIsRealtime byte = true) :
    Gives (hear registered) Parser.Ready [byte]
      (([.one .realtime byte] : List Call).filter fun call => registered call.callback) parser := by
  have gives := @gives_one registered parser ready byte (Or.inl realtime)
  rwa [heard_one (show oneByteFunc byte = some .realtime by rw [oneByteFunc, if_pos realtime])] at gives

theorem gives_message (ready : parser.Ready) {message : Message} (valid : message.Valid) :
    Gives (hear registered) Parser.Ready message.bytes (message.heard.filter fun call => registered call.callback)
      parser := by
  cases message with
  | cc chan num val => exact gives_channelThree ready (by simp) chan (data_mask num) (data_mask val)
  | noteon chan num vel => exact gives_channelThree ready (by simp) chan (data_mask num) (data_mask vel)
  | noteoff chan num vel => exact gives_channelThree ready (by simp) chan (data_mask num) (data_mask vel)
  | aftertouch chan noteNum amt => exact gives_channelThree ready (by simp) chan (data_mask noteNum) (data_mask amt)
  | pitchbend chan amt =>
    have small := pitchbendAmount_lt amt
    have amount : (BitVec.ofNat 16 (pitchbendAmount amt)).toNat = pitchbendAmount amt := by
      rw [BitVec.toNat_ofNat]
      exact Nat.mod_eq_of_lt (Nat.lt_trans small (by decide))
    have low := low7 (BitVec.ofNat 16 (pitchbendAmount amt))
    have high := high7 (BitVec.ofNat 16 (pitchbendAmount amt))
    rw [amount] at low high
    rw [@Nat.mod_eq_of_lt (pitchbendAmount amt / 128) 128 (by omega)] at high
    have gives := @gives_channelThree registered parser ready midiPitchbend .pitchbend (by simp) chan _ _ low.2 high.2
    rw [Message.heard, ← low.1, ← high.1]
    exact gives
  | programchange chan num => exact gives_channelTwo ready (by simp) chan (data_mask num)
  | channelpressure chan amt => exact gives_channelTwo ready (by simp) chan (data_mask amt)
  | clock => exact gives_realtime ready (by decide)
  | tick => exact gives_realtime ready (by decide)
  | start => exact gives_realtime ready (by decide)
  | resume => exact gives_realtime ready (by decide)
  | stop => exact gives_realtime ready (by decide)
  | activesense => exact gives_realtime ready (by decide)
  | reset => exact gives_realtime ready (by decide)
  | tcquarterframe time =>
    have gives := @gives_two registered parser ready midiTcQuarterframe _ ⟨by decide, by decide, by decide⟩ (data_mask time)
    rwa [heard_two (show twoByteFunc midiTcQuarterframe = some .tcQuarterframe by decide), if_pos (Or.inr rfl)] at gives
  | songposition pos =>
    have low := low7 pos
    have high := high7 pos
    have gives := @gives_three registered parser ready midiSongposition _ _ ⟨by decide, by decide, by decide⟩ low.2 high.2
    rw [heard_three (show threeByteFunc midiSongposition = some .songposition by decide), if_pos rfl] at gives
    rw [Message.heard, ← low.1, ← high.1]
    exact gives
  | songselect song =>
    have gives := @gives_two registered parser ready midiSongselect _ ⟨by decide, by decide, by decide⟩ (data_mask song)
    rwa [heard_two (show twoByteFunc midiSongselect = some .songselect by decide), if_pos (Or.inl rfl)] at gives
  | tunerequest =>
    have gives := @gives_one registered parser ready midiTunerequest (Or.inr ⟨by decide, by decide, by decide⟩)
    rwa [heard_one (show oneByteFunc midiTunerequest = some .tunerequest by decide)] at gives
  | sysex payload => exact gives_sysex ready valid.1 valid.2

/-! ## Packets -/

/-- The codes of the packets of system exclusive messages can be told apart. -/
def Distinct (midiEvent : Byte → Byte) : Prop :=
  ([sysexStartOrCont, sysexEndsIn1, sysexEndsIn2, sysexEndsIn3].map midiEvent).Nodup

instance (midiEvent : Byte → Byte) : Decidable (Distinct midiEvent) := inferInstanceAs (Decidable (List.Nodup _))

variable {midiEvent : Byte → Byte}

/-- What is passed on of the packets of calls. -/
def passedOn (midiEvent : Byte → Byte) (sends : List Sent) : List Byte :=
  (sends.filterMap (usbSendFunc midiEvent)).flatMap (packetInput midiEvent)

theorem passedOn_cons (sent : Sent) (sends : List Sent) :
    passedOn midiEvent (sent :: sends) = passedOn midiEvent [sent] ++ passedOn midiEvent sends := by
  rw [passedOn, ← List.singleton_append, List.filterMap_append, List.flatMap_append]
  rfl

theorem usbSendFunc_status (sent : Sent) (defined : midiPacketLength sent.byte0 ≠ .undefined) :
    ∃ event, usbSendFunc midiEvent sent = some ⟨event, sent.byte0, sent.byte1, sent.byte2⟩ := by
  unfold usbSendFunc
  rw [if_neg defined]
  dsimp only
  split_ifs <;> exact ⟨_, rfl⟩

/-- Calls with a status byte are passed on by its length. -/
theorem passedOn_status (sent : Sent) (defined : midiPacketLength sent.byte0 ≠ .undefined)
    (count : (midiPacketLength sent.byte0).count = sent.count) : passedOn midiEvent [sent] = sent.bytes := by
  obtain ⟨event, sends⟩ := @usbSendFunc_status midiEvent sent defined
  rw [passedOn, List.filterMap_cons, sends, List.filterMap_nil, List.flatMap_singleton, packetInput, inputLength,
    if_neg defined, count, Sent.bytes]

/-- A part of a system exclusive message. -/
theorem passedOn_part (sent : Sent) (undefined : midiPacketLength sent.byte0 = .undefined) {code : Byte}
    (isCode : sysexCode sent = some code) :
    passedOn midiEvent [sent] = [sent.byte0, sent.byte1, sent.byte2].take
      (if midiEvent code = midiEvent sysexStartOrCont ∨ midiEvent code = midiEvent sysexEndsIn3 then 3
        else if midiEvent code = midiEvent sysexEndsIn2 then 2
        else if midiEvent code = midiEvent sysexEndsIn1 then 1
        else 0) := by
  have sends : usbSendFunc midiEvent sent = some ⟨midiEvent code, sent.byte0, sent.byte1, sent.byte2⟩ := by
    rw [usbSendFunc, if_pos undefined, isCode]
    rfl
  rw [passedOn, List.filterMap_cons, sends, List.filterMap_nil, List.flatMap_singleton, packetInput, inputLength,
    if_pos undefined]

theorem Distinct.ends (distinct : Distinct midiEvent) :
    (midiEvent sysexEndsIn1 ≠ midiEvent sysexStartOrCont ∧ midiEvent sysexEndsIn1 ≠ midiEvent sysexEndsIn3 ∧
      midiEvent sysexEndsIn1 ≠ midiEvent sysexEndsIn2) ∧
      midiEvent sysexEndsIn2 ≠ midiEvent sysexStartOrCont ∧ midiEvent sysexEndsIn2 ≠ midiEvent sysexEndsIn3 := by
  simp only [Distinct, List.map_cons, List.map_nil, List.nodup_cons, List.mem_cons, List.not_mem_nil, not_or, or_false]
    at distinct
  obtain ⟨⟨one, two, -⟩, ⟨oneTwo, oneThree⟩, twoThree, -⟩ := distinct
  exact ⟨⟨Ne.symm one, oneThree, oneTwo⟩, Ne.symm two, twoThree⟩

/-- An array that ends a system exclusive message is passed on as it is. -/
theorem passedOn_array (distinct : Distinct midiEvent) : ∀ bytes : List Byte,
    (∀ byte ∈ bytes, midiPacketLength byte = .undefined ∧ byte ≠ sysexEnd) →
      passedOn midiEvent (midiSendArray (bytes ++ [sysexEnd])) = bytes ++ [sysexEnd]
  | [], _ => by
    have part := @passedOn_part midiEvent ⟨1, sysexEnd, 0, 0⟩ (by decide) sysexEndsIn1 (by decide)
    simpa [distinct.ends, midiSendArray] using part
  | [a], kinds => by
    have part := @passedOn_part midiEvent ⟨2, a, sysexEnd, 0⟩ (kinds a (by simp)).1 sysexEndsIn2 (by simp [sysexCode])
    simpa [distinct.ends, midiSendArray] using part
  | [a, b], kinds => by
    have part := @passedOn_part midiEvent ⟨3, a, b, sysexEnd⟩ (kinds a (by simp)).1 sysexEndsIn3 (by simp [sysexCode])
    simpa [midiSendArray] using part
  | a :: b :: c :: bytes, kinds => by
    have part := @passedOn_part midiEvent ⟨3, a, b, c⟩ (kinds a (by simp)).1 sysexStartOrCont
      (by simp [sysexCode, (kinds c (by simp)).2])
    have rest := passedOn_array distinct bytes fun byte member => kinds byte (by simp [member])
    rw [List.cons_append, List.cons_append, List.cons_append, midiSendArray, passedOn_cons, part, rest]
    simp

theorem undefined_of_data {byte : Byte} (data : byte.getLsbD 7 = false) :
    midiPacketLength byte = .undefined ∧ byte ≠ sysexEnd := by
  revert data
  exact (by decide +kernel : ∀ byte : Byte, byte.getLsbD 7 = false →
    midiPacketLength byte = .undefined ∧ byte ≠ sysexEnd) byte

/-- A call that sends a whole message. -/
structure Sent.Whole (sent : Sent) : Prop where
  defined : midiPacketLength sent.byte0 ≠ .undefined
  count : (midiPacketLength sent.byte0).count = sent.count
  data1 : sent.byte1.getLsbD 7 = false
  data2 : sent.byte2.getLsbD 7 = false

/-- The messages that are not system exclusive are sent by one call. -/
structure Message.SentBy (message : Message) (sent : Sent) : Prop where
  sends : message.sends = [sent]
  bytes : message.bytes = sent.bytes
  whole : sent.Whole

theorem sentBy_cases (message : Message) : (∃ payload, message = .sysex payload) ∨ ∃ sent, message.SentBy sent := by
  have three (func : Callback) {kind : Byte} (member : (kind, func) ∈ [(midiCc, Callback.cc), (midiNoteon, .noteon),
      (midiNoteoff, .noteoff), (midiAftertouch, .aftertouch), (midiPitchbend, .pitchbend)]) (chan : Byte) {a b : Byte}
      (aData : a.getLsbD 7 = false) (bData : b.getLsbD 7 = false) :
      Sent.Whole ⟨3, kind ||| (chan &&& midiChanmask), a, b⟩ := by
    have length := (channelThree member chan).1.length
    exact ⟨by simp [length], by simp [length, PacketLength.count], aData, bData⟩
  have two (func : Callback) {kind : Byte} (member : (kind, func) ∈ [(midiProgchange, Callback.progchange),
      (midiChanpressure, .chanpressure)]) (chan : Byte) {a : Byte} (aData : a.getLsbD 7 = false) :
      Sent.Whole ⟨2, kind ||| (chan &&& midiChanmask), a, 0⟩ := by
    have length := (channelTwo member chan).1.length
    exact ⟨by simp [length], by simp [length, PacketLength.count], aData, by simp⟩
  have common {status : Byte} {count : Nat} (defined : midiPacketLength status ≠ .undefined)
      (isCount : (midiPacketLength status).count = count) {a b : Byte} (aData : a.getLsbD 7 = false)
      (bData : b.getLsbD 7 = false) : Sent.Whole ⟨count, status, a, b⟩ := ⟨defined, isCount, aData, bData⟩
  cases message with
  | sysex payload => exact Or.inl ⟨payload, rfl⟩
  | cc chan num val => exact Or.inr ⟨_, rfl, rfl, three .cc (by simp) chan (data_mask num) (data_mask val)⟩
  | noteon chan num vel => exact Or.inr ⟨_, rfl, rfl, three .noteon (by simp) chan (data_mask num) (data_mask vel)⟩
  | noteoff chan num vel => exact Or.inr ⟨_, rfl, rfl, three .noteoff (by simp) chan (data_mask num) (data_mask vel)⟩
  | aftertouch chan noteNum amt =>
    exact Or.inr ⟨_, rfl, rfl, three .aftertouch (by simp) chan (data_mask noteNum) (data_mask amt)⟩
  | pitchbend chan amt => exact Or.inr ⟨_, rfl, rfl, three .pitchbend (by simp) chan (low7 _).2 (high7 _).2⟩
  | programchange chan num => exact Or.inr ⟨_, rfl, rfl, two .progchange (by simp) chan (data_mask num)⟩
  | channelpressure chan amt => exact Or.inr ⟨_, rfl, rfl, two .chanpressure (by simp) chan (data_mask amt)⟩
  | clock => exact Or.inr ⟨_, rfl, rfl, common (by decide) (by decide) (by decide) (by decide)⟩
  | tick => exact Or.inr ⟨_, rfl, rfl, common (by decide) (by decide) (by decide) (by decide)⟩
  | start => exact Or.inr ⟨_, rfl, rfl, common (by decide) (by decide) (by decide) (by decide)⟩
  | resume => exact Or.inr ⟨_, rfl, rfl, common (by decide) (by decide) (by decide) (by decide)⟩
  | stop => exact Or.inr ⟨_, rfl, rfl, common (by decide) (by decide) (by decide) (by decide)⟩
  | activesense => exact Or.inr ⟨_, rfl, rfl, common (by decide) (by decide) (by decide) (by decide)⟩
  | reset => exact Or.inr ⟨_, rfl, rfl, common (by decide) (by decide) (by decide) (by decide)⟩
  | tcquarterframe time => exact Or.inr ⟨_, rfl, rfl, common (by decide) (by decide) (data_mask time) (by decide)⟩
  | songposition pos => exact Or.inr ⟨_, rfl, rfl, common (by decide) (by decide) (low7 pos).2 (high7 pos).2⟩
  | songselect song => exact Or.inr ⟨_, rfl, rfl, common (by decide) (by decide) (data_mask song) (by decide)⟩
  | tunerequest => exact Or.inr ⟨_, rfl, rfl, common (by decide) (by decide) (by decide) (by decide)⟩

/-- The packets of a message are passed on as its bytes. -/
theorem packets_input (distinct : Distinct midiEvent) {message : Message} (valid : message.Valid) :
    (message.packets midiEvent).flatMap (packetInput midiEvent) = message.bytes := by
  change passedOn midiEvent message.sends = message.bytes
  rcases sentBy_cases message with ⟨payload, rfl⟩ | ⟨sent, sends, bytes, whole⟩
  · refine passedOn_array distinct (sysexBegin :: payload) fun byte member => ?_
    rcases List.mem_cons.mp member with rfl | later
    · decide
    · exact undefined_of_data (valid.1 byte later)
  · rw [sends, bytes, passedOn_status sent whole.defined whole.count]

end QmkFirmware.Midi
