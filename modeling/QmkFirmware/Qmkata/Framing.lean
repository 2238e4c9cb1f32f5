import QmkFirmware.Foundations.Runs
import QmkFirmware.Qmkata.Stream

/-! # Framing of the device-to-host stream

What the host finds when it strips the packet ids and parses the rest as
Firmata messages.  The stream opens with the versions of the protocol and of the
firmware.  From there on messages and padding alternate as long as the transmit
buffer is only emptied between messages; `lossless_iff_unsplit` shows that this
is also necessary, since padding inside a message makes it unreadable.
-/

namespace QmkFirmware.Qmkata

open QmkFirmware.Memory

/-! ## The host side -/

structure SysexMessage where
  command : UInt8
  payload : List UInt8
  deriving DecidableEq, Repr

/-- Payload bytes from pairs of seven and one bits. -/
def decodePairs : List UInt8 → Option (List UInt8)
  | [] => some []
  | [_] => none
  | low :: high :: rest => (decodePairs rest).map ((low ||| high <<< 7) :: ·)

def decodeSysex : List UInt8 → Option SysexMessage
  | [] => none
  | command :: data => (decodePairs data).map fun payload => ⟨command, payload⟩

inductive HostMessage where
  | version (major minor : UInt8)
  | sysex (message : SysexMessage)
  deriving DecidableEq, Repr

inductive Framing where
  | idle
  | version (major : Option UInt8)
  | sysex (collected : List UInt8)
  | malformed
  deriving DecidableEq, Repr

structure FirmataParser where
  framing : Framing
  messages : List HostMessage
  deriving DecidableEq, Repr

/-- One byte of input.  Between messages only padding and the start of the next
    message are expected; everything up to the end marker belongs to a message. -/
def FirmataParser.parse (parser : FirmataParser) (inputData : UInt8) : FirmataParser :=
  match parser.framing with
  | .malformed => parser
  | .idle =>
    if inputData = 0 then parser
    else if inputData = startSysex then { parser with framing := .sysex [] }
    else if inputData = reportVersion then { parser with framing := .version none }
    else { parser with framing := .malformed }
  | .version none => { parser with framing := .version (some inputData) }
  | .version (some major) =>
    { framing := .idle, messages := parser.messages ++ [.version major inputData] }
  | .sysex collected =>
    if inputData = endSysex then
      match decodeSysex collected with
      | some message => { framing := .idle, messages := parser.messages ++ [.sysex message] }
      | none => { parser with framing := .malformed }
    else { parser with framing := .sysex (collected ++ [inputData]) }

def newParser : FirmataParser := ⟨.idle, []⟩

def parseStream (bytes : List UInt8) : FirmataParser := bytes.foldl FirmataParser.parse newParser

/-- Everything after the id byte of each packet. -/
def payloads (packets : List (List UInt8)) : List UInt8 := packets.flatMap List.tail

/-! ## Runs -/

/-- A message whose length fits the length byte. -/
structure Outgoing where
  message : SysexMessage
  short : message.payload.length ≤ 255

inductive Action where
  | send (outgoing : Outgoing)
  | task

def Action.run (device : Device) : Action → Device
  | .send outgoing => qmkataSendSysex outgoing.message.command outgoing.message.payload device
  | .task => qmkataTask device

def Action.sent? : Action → Option HostMessage
  | .send outgoing => some (.sysex outgoing.message)
  | .task => none

/-- `qmkata_init` may have been called before the stream opens. -/
def startedDevice (name : Option FirmwareName) : Device :=
  qmkataStart (name.elim bootDevice fun name => qmkataInit name bootDevice)

def runActions (name : Option FirmwareName) (actions : List Action) : Device :=
  actions.foldl Action.run (startedDevice name)

/-- What the host reads first.  The version numbers of the firmware report are not
    encoded; read as a pair they are the first byte of its payload. -/
def greeting (firmware : FirmwareVersion) : List HostMessage :=
  .version protocolMajorVersion protocolMinorVersion ::
    if firmware.firmwareVersionCount ≠ 0 then
      [.sysex ⟨reportFirmware,
        (firmware.firmwareVersionVector.getD 0 0 ||| firmware.firmwareVersionVector.getD 1 0 <<< 7) ::
          (firmware.firmwareVersionVector.drop 2).take (firmware.firmwareVersionCount - 2)⟩]
    else []

/-- Once everything is flushed, the host reads exactly the messages that were sent. -/
def Lossless (name : Option FirmwareName) (actions : List Action) : Prop :=
  parseStream (payloads (runActions name (actions ++ [.task])).stream.packets) =
    ⟨.idle, greeting (startedDevice name).firmware ++ actions.filterMap Action.sent?⟩

/-- The message ends no later than the transmit buffer, and its command is not the end marker. -/
def Outgoing.Fits (outgoing : Outgoing) (device : Device) : Prop :=
  outgoing.message.command ≠ endSysex ∧
    device.stream.txBufferHead + (3 + 2 * outgoing.message.payload.length) ≤ txBufferSize

/-- Every message of the run fits when it is sent. -/
def Unsplit : Device → List Action → Prop
  | _, [] => True
  | device, .send outgoing :: actions =>
    outgoing.Fits device ∧ Unsplit ((Action.send outgoing).run device) actions
  | device, .task :: actions => Unsplit (Action.task.run device) actions

/-! ## Packets -/

/-- The zeros that fill up the last packet of `len` bytes. -/
def padding (len : Nat) : List UInt8 := List.replicate ((63 - len % 63) % 63) 0

theorem rawhidSendLoop_payloads (fuel hdr len : Nat) (memory : Nat → UInt8) (packets : List (List UInt8))
    (enough : len ≤ fuel) :
    payloads (rawhidSendLoop fuel hdr len memory packets).2 =
      payloads packets ++ (slice memory (hdr + 1) len ++ padding len) := by
  induction fuel generalizing hdr len memory packets with
  | zero =>
    have none : len = 0 := by omega
    simp [none, rawhidSendLoop, slice, padding]
  | succ fuel ih =>
    rw [rawhidSendLoop]
    by_cases none : len = 0
    · simp [none, slice, padding]
    · simp only [none, if_false, rawEpsizeQmkata]
      by_cases last : len + 1 < 64
      · have sendLen : min 64 (len + 1) = len + 1 := by omega
        have zeros : 64 - (len + 1) = (63 - len % 63) % 63 := by omega
        simp only [sendLen, last, if_true, payloads, List.flatMap_append, List.flatMap_singleton, slice,
          List.cons_append, List.tail_cons, padding, zeros]
      · have sendLen : min 64 (len + 1) = 64 := by omega
        have split : slice memory (hdr + 1) len =
            slice memory (hdr + 1) 63 ++ slice memory (hdr + 64) (len - 63) := by
          rw [← slice_add, Nat.add_sub_cancel' (by omega : 63 ≤ len)]
        have full : payloads (packets ++ [slice memory hdr 64]) =
            payloads packets ++ slice memory (hdr + 1) 63 := by
          simp only [payloads, List.flatMap_append, List.flatMap_singleton]
          rfl
        simp only [sendLen, Nat.lt_irrefl, if_false, Nat.reduceSub]
        by_cases more : len - 63 = 0
        · have len63 : len = 63 := by omega
          simp only [ne_eq, not_true_eq_false, if_false, full, len63]
          simp [padding]
        · simp only [more, ne_eq, not_false_eq_true, if_true]
          rw [ih _ _ _ _ (by omega), full, slice_blit_of_disjoint (by simp), split]
          have zeros : padding (len - 63) = padding len := by
            rw [padding, padding]
            congr 1
            omega
          rw [zeros]
          simp

theorem rawhidSendData_payloads {data : Nat} (reserve : 0 < data) (len : Nat) (memory : Nat → UInt8)
    (packets : List (List UInt8)) :
    payloads (rawhidSendData data len memory packets).2 =
      payloads packets ++ (slice memory data len ++ padding len) := by
  rw [rawhidSendData, rawhidSendLoop_payloads _ _ _ _ _ (Nat.le_refl _), Nat.sub_add_cancel reserve,
    slice_blit_of_disjoint (by simp; omega)]

/-! ## The buffer -/

namespace BufferStream

/-- The bytes waiting in the buffer. -/
def pending (stream : BufferStream) : List UInt8 := slice stream.memory txBufReserve stream.txBufferHead

/-- Everything the host will have read once the buffer is flushed, padding behind it aside. -/
def transcript (stream : BufferStream) : List UInt8 := payloads stream.packets ++ stream.pending

/-- Between two calls the buffer is not full, and marked as written unless it is empty. -/
structure Ready (stream : BufferStream) : Prop where
  tail : stream.txBufferTail = 0
  room : stream.txBufferHead < txBufferSize
  written : stream.txBufferHead ≠ 0 → stream.txWritten = true

variable {stream : BufferStream}

/-- Flushing a buffer, which may be full, sends its bytes and pads the last packet. -/
theorem flush_spec (tail : stream.txBufferTail = 0)
    (written : stream.txBufferHead ≠ 0 → stream.txWritten = true) :
    stream.flush.Ready ∧ stream.flush.txBufferHead = 0 ∧
      stream.flush.transcript = stream.transcript ++ padding stream.txBufferHead := by
  by_cases empty : stream.txBufferHead = 0
  · have idle : stream.flush.txBufferHead = 0 ∧ stream.flush.txBufferTail = 0 ∧
        stream.flush.packets = stream.packets := by
      rw [flush]
      split <;> simp [empty, tail]
    obtain ⟨head, tail, packets⟩ := idle
    refine ⟨⟨tail, by rw [head]; decide, fun nonempty => absurd head nonempty⟩, head, ?_⟩
    simp [transcript, pending, head, packets, empty, slice, padding]
  · have sent : stream.txBufferHead ≠ stream.txBufferTail := by rwa [tail]
    have payload := rawhidSendData_payloads (by decide : 0 < txBufReserve) stream.txBufferHead
      stream.memory stream.packets
    rw [flush, if_pos (written empty)]
    simp only [tail, Nat.add_zero, Nat.sub_zero, ne_eq, empty, not_false_eq_true, if_true]
    refine ⟨⟨rfl, show 0 < txBufferSize by decide, fun nonempty => absurd rfl nonempty⟩, trivial, ?_⟩
    simp only [transcript, pending, slice, List.append_nil, payload, List.append_assoc]

theorem pending_push (memory : Nat → UInt8) (head : Nat) (c : UInt8) :
    slice (blit memory (txBufReserve + head) [c]) txBufReserve (head + 1) =
      slice memory txBufReserve head ++ [c] := by
  rw [slice_add, slice_blit_of_disjoint (by omega)]
  have written := slice_blit memory (txBufReserve + head) [c]
  rw [List.length_singleton] at written
  rw [written]

/-- A byte that does not fill the buffer. -/
theorem Ready.write_room (ready : stream.Ready) (c : UInt8) (room : stream.txBufferHead + 1 < txBufferSize) :
    (stream.write c).Ready ∧ (stream.write c).txBufferHead = stream.txBufferHead + 1 ∧
      (stream.write c).transcript = stream.transcript ++ [c] := by
  have next : (stream.txBufferHead + 1) % txBufferSize = stream.txBufferHead + 1 := Nat.mod_eq_of_lt room
  rw [write]
  simp only [next, Nat.succ_ne_zero, if_false]
  refine ⟨⟨ready.tail, room, fun _ => rfl⟩, trivial, ?_⟩
  simp only [transcript, pending, pending_push, List.append_assoc]

/-- The byte that fills the buffer. -/
theorem Ready.write_full (ready : stream.Ready) (c : UInt8) (full : stream.txBufferHead + 1 = txBufferSize) :
    (stream.write c).Ready ∧ (stream.write c).txBufferHead = 0 ∧
      (stream.write c).transcript = stream.transcript ++ [c] ++ padding txBufferSize := by
  rw [write]
  simp only [full, Nat.mod_self, if_true]
  let filled : BufferStream := { stream with
    memory := blit stream.memory (txBufReserve + stream.txBufferHead) [c]
    txBufferHead := txBufferSize
    txWritten := true }
  obtain ⟨ready', head, sent⟩ := @flush_spec filled ready.tail fun _ => rfl
  refine ⟨ready', head, sent.trans ?_⟩
  simp only [filled, transcript, pending, ← full, pending_push, List.append_assoc]

/-- Bytes that do not fill the buffer. -/
theorem Ready.write_all_room {bytes : List UInt8} (ready : stream.Ready)
    (room : stream.txBufferHead + bytes.length < txBufferSize) :
    (bytes.foldl write stream).Ready ∧
      (bytes.foldl write stream).txBufferHead = stream.txBufferHead + bytes.length ∧
      (bytes.foldl write stream).transcript = stream.transcript ++ bytes := by
  induction bytes generalizing stream with
  | nil => simpa using ready
  | cons c bytes ih =>
    rw [List.length_cons] at room
    obtain ⟨ready', head, sent⟩ := ready.write_room c (by omega)
    obtain ⟨ready', head', sent'⟩ := ih ready' (by omega)
    refine ⟨ready', ?_, ?_⟩
    · rw [List.foldl_cons, head', head, List.length_cons]
      omega
    · rw [List.foldl_cons, sent', sent, List.append_assoc, List.singleton_append]

/-- Bytes that end exactly where the buffer is full. -/
theorem Ready.write_all_full {bytes : List UInt8} (ready : stream.Ready)
    (full : stream.txBufferHead + bytes.length = txBufferSize) :
    (bytes.foldl write stream).Ready ∧ (bytes.foldl write stream).txBufferHead = 0 ∧
      (bytes.foldl write stream).transcript = stream.transcript ++ bytes ++ padding txBufferSize := by
  have room := ready.room
  have nonempty : bytes ≠ [] := by
    rintro rfl
    rw [List.length_nil] at full
    omega
  obtain ⟨front, last, rfl⟩ := List.eq_nil_or_concat bytes |>.resolve_left nonempty
  rw [List.concat_eq_append, List.length_append, List.length_singleton] at full
  have front_room : stream.txBufferHead + front.length < txBufferSize := by omega
  obtain ⟨ready', head, sent⟩ := ready.write_all_room front_room
  obtain ⟨ready', head', sent'⟩ := ready'.write_full last (by omega)
  rw [List.concat_eq_append, List.foldl_append, List.foldl_cons, List.foldl_nil]
  exact ⟨ready', head', by rw [sent', sent, List.append_assoc _ front]⟩

/-- Bytes that end in the next buffer: the padding of a full buffer stands between them. -/
theorem Ready.write_all_split {bytes : List UInt8} (ready : stream.Ready)
    (overflows : txBufferSize < stream.txBufferHead + bytes.length) (short : bytes.length ≤ txBufferSize + 1) :
    ∃ first second zeros, bytes = first ++ second ∧ first ≠ [] ∧ second ≠ [] ∧
      (bytes.foldl write stream).Ready ∧
      (bytes.foldl write stream).transcript =
        stream.transcript ++ first ++ padding txBufferSize ++ second ++ zeros := by
  have room := ready.room
  have first_length : (bytes.take (txBufferSize - stream.txBufferHead)).length =
      txBufferSize - stream.txBufferHead := by
    rw [List.length_take]
    omega
  have second_length : (bytes.drop (txBufferSize - stream.txBufferHead)).length =
      bytes.length - (txBufferSize - stream.txBufferHead) := List.length_drop
  generalize front : bytes.take (txBufferSize - stream.txBufferHead) = first at first_length
  generalize back : bytes.drop (txBufferSize - stream.txBufferHead) = second at second_length
  have joined : bytes = first ++ second := by rw [← front, ← back, List.take_append_drop]
  have full : stream.txBufferHead + first.length = txBufferSize := by omega
  obtain ⟨ready', head, sent⟩ := ready.write_all_full full
  have first_nonempty : first ≠ [] := List.ne_nil_of_length_pos (by omega)
  have second_nonempty : second ≠ [] := List.ne_nil_of_length_pos (by omega)
  have all : bytes.foldl write stream = second.foldl write (first.foldl write stream) := by
    rw [joined, List.foldl_append]
  rw [all]
  by_cases again : second.length < txBufferSize
  · have fits : (first.foldl write stream).txBufferHead + second.length < txBufferSize := by omega
    obtain ⟨ready', _, sent'⟩ := ready'.write_all_room fits
    exact ⟨first, second, [], joined, first_nonempty, second_nonempty, ready', by rw [sent', sent]; simp⟩
  · have fills : (first.foldl write stream).txBufferHead + second.length = txBufferSize := by omega
    obtain ⟨ready', _, sent'⟩ := ready'.write_all_full fills
    exact ⟨first, second, padding txBufferSize, joined, first_nonempty, second_nonempty, ready',
      by rw [sent', sent]⟩

/-- Bytes that end no later than the buffer: padding, if any, follows them. -/
theorem Ready.write_all_unsplit {bytes : List UInt8} (ready : stream.Ready)
    (fits : stream.txBufferHead + bytes.length ≤ txBufferSize) :
    (bytes.foldl write stream).Ready ∧
      ∃ count, (bytes.foldl write stream).transcript = stream.transcript ++ bytes ++ List.replicate count 0 := by
  cases Nat.lt_or_eq_of_le fits with
  | inl room =>
    obtain ⟨ready', _, sent⟩ := ready.write_all_room room
    exact ⟨ready', 0, by simp [sent]⟩
  | inr full =>
    obtain ⟨ready', _, sent⟩ := ready.write_all_full full
    exact ⟨ready', _, sent⟩

end BufferStream

/-! ## Parsing -/

section Parsing

variable {messages : List HostMessage}

theorem parse_malformed (bytes : List UInt8) {parser : FirmataParser} (bad : parser.framing = .malformed) :
    (bytes.foldl FirmataParser.parse parser).framing = .malformed := by
  induction bytes generalizing parser with
  | nil => exact bad
  | cons byte bytes ih =>
    apply ih
    rw [FirmataParser.parse, bad]
    exact bad

theorem parse_padding (count : Nat) :
    (List.replicate count (0 : UInt8)).foldl FirmataParser.parse ⟨.idle, messages⟩ = ⟨.idle, messages⟩ := by
  induction count with
  | zero => rfl
  | succ count ih => exact ih

/-- Inside a message every byte but the end marker is collected. -/
theorem parse_collect {bytes : List UInt8} (open' : endSysex ∉ bytes) (collected : List UInt8) :
    bytes.foldl FirmataParser.parse ⟨.sysex collected, messages⟩ =
      ⟨.sysex (collected ++ bytes), messages⟩ := by
  induction bytes generalizing collected with
  | nil => simp
  | cons byte bytes ih =>
    have inside : byte ≠ endSysex := fun equal => open' (by simp [equal])
    have step : FirmataParser.parse ⟨.sysex collected, messages⟩ byte =
        ⟨.sysex (collected ++ [byte]), messages⟩ := by
      simp [FirmataParser.parse, inside]
    rw [List.foldl_cons, step, ih fun member => open' (by simp [member]), List.append_assoc,
      List.singleton_append]

private theorem pair_bits (byte : UInt8) :
    (transmitMask &&& byte) ||| (byte >>> 7) <<< 7 = byte ∧ transmitMask &&& byte < startSysex ∧
      byte >>> 7 < startSysex := by
  have bits : ∀ value : BitVec 8,
      (transmitMask &&& (⟨value⟩ : UInt8)) ||| ((⟨value⟩ : UInt8) >>> 7) <<< 7 = ⟨value⟩ ∧
        transmitMask &&& (⟨value⟩ : UInt8) < startSysex ∧ (⟨value⟩ : UInt8) >>> 7 < startSysex := by
    decide
  exact bits byte.toBitVec

/-- The encoded payload of a message. -/
def encodedPayload (payload : List UInt8) : List UInt8 :=
  payload.flatMap fun byte => encodeByteStream [byte] 0

theorem encodedPayload_cons (byte : UInt8) (payload : List UInt8) :
    encodedPayload (byte :: payload) = (transmitMask &&& byte) :: byte >>> 7 :: encodedPayload payload := by
  simp [encodedPayload, encodeByteStream_singleton]

theorem length_encodedPayload (payload : List UInt8) :
    (encodedPayload payload).length = 2 * payload.length := by
  induction payload with
  | nil => rfl
  | cons byte payload ih =>
    rw [encodedPayload_cons, List.length_cons, List.length_cons, List.length_cons, ih]
    omega

/-- No encoded byte is one of the markers, all of which are `startSysex` or more. -/
theorem encodedPayload_lt (payload : List UInt8) : ∀ byte ∈ encodedPayload payload, byte < startSysex := by
  induction payload with
  | nil => simp [encodedPayload]
  | cons byte payload ih =>
    obtain ⟨_, low, high⟩ := pair_bits byte
    rw [encodedPayload_cons]
    exact List.forall_mem_cons.mpr ⟨low, List.forall_mem_cons.mpr ⟨high, ih⟩⟩

theorem endSysex_not_mem_encodedPayload (payload : List UInt8) : endSysex ∉ encodedPayload payload :=
  fun member => absurd (encodedPayload_lt payload _ member) (by decide)

theorem decodePairs_encodedPayload (payload : List UInt8) :
    decodePairs (encodedPayload payload) = some payload := by
  induction payload with
  | nil => rfl
  | cons byte payload ih => rw [encodedPayload_cons, decodePairs, ih, (pair_bits byte).1]; rfl

/-- An odd number of data bytes is no sequence of pairs. -/
theorem decodePairs_odd : ∀ {data : List UInt8}, data.length % 2 = 1 → decodePairs data = none
  | [], odd => by simp at odd
  | [_], _ => rfl
  | low :: high :: rest, odd => by
    have even : rest.length % 2 = 1 := by
      simp only [List.length_cons] at odd
      omega
    rw [decodePairs, decodePairs_odd even]
    rfl

theorem sysexBytes_eq (command : UInt8) (payload : List UInt8) :
    sysexBytes command payload = startSysex :: command :: encodedPayload payload ++ [endSysex] := rfl

theorem length_sysexBytes (command : UInt8) (payload : List UInt8) :
    (sysexBytes command payload).length = 3 + 2 * payload.length := by
  rw [sysexBytes_eq, List.length_append, List.length_cons, List.length_cons, length_encodedPayload,
    List.length_singleton]
  omega

theorem parse_start : FirmataParser.parse ⟨.idle, messages⟩ startSysex = ⟨.sysex [], messages⟩ := rfl

/-- A whole message between messages is read. -/
theorem parse_sysexBytes {command : UInt8} (valid : command ≠ endSysex) (payload : List UInt8) :
    (sysexBytes command payload).foldl FirmataParser.parse ⟨.idle, messages⟩ =
      ⟨.idle, messages ++ [.sysex ⟨command, payload⟩]⟩ := by
  have open' : endSysex ∉ command :: encodedPayload payload := by
    simp [endSysex_not_mem_encodedPayload payload, valid.symm]
  rw [sysexBytes_eq, List.cons_append, List.foldl_cons, parse_start, List.foldl_append,
    parse_collect open', List.nil_append, List.foldl_cons, List.foldl_nil]
  simp [FirmataParser.parse, decodeSysex, decodePairs_encodedPayload]

/-- An odd number of padding bytes inside a message makes it unreadable. -/
theorem parse_split {command : UInt8} {payload first second zeros : List UInt8}
    (valid : command ≠ endSysex) (split : sysexBytes command payload = first ++ second)
    (begun : first ≠ []) (unfinished : second ≠ []) (padded : endSysex ∉ zeros)
    (odd : zeros.length % 2 = 1) :
    ((first ++ zeros ++ second).foldl FirmataParser.parse ⟨.idle, messages⟩).framing = .malformed := by
  obtain ⟨start, front, rfl⟩ := List.exists_cons_of_ne_nil begun
  obtain ⟨back, last, rfl⟩ := List.eq_nil_or_concat second |>.resolve_left unfinished
  rw [sysexBytes_eq, List.concat_eq_append, ← List.append_assoc] at split
  obtain ⟨fronts, ends⟩ := List.append_inj' split rfl
  rw [List.cons_append] at fronts
  obtain ⟨rfl, body⟩ := List.cons.inj fronts
  cases ends
  have open' : endSysex ∉ front ++ zeros ++ back := by
    have inner : endSysex ∉ front ++ back := by
      rw [← body]
      simp [endSysex_not_mem_encodedPayload payload, valid.symm]
    simp only [List.mem_append, not_or] at inner ⊢
    exact ⟨⟨inner.1, padded⟩, inner.2⟩
  -- command and pairs are an odd number of bytes, and the padding makes it even
  have length : (front ++ zeros ++ back).length % 2 = 0 := by
    have total := congrArg List.length body
    rw [List.length_cons, length_encodedPayload, List.length_append] at total
    simp only [List.length_append]
    omega
  have unreadable : decodeSysex (front ++ zeros ++ back) = none := by
    cases collected : front ++ zeros ++ back with
    | nil => rfl
    | cons first rest =>
      rw [collected, List.length_cons] at length
      rw [decodeSysex, decodePairs_odd (by omega)]
      rfl
  have whole : startSysex :: front ++ zeros ++ List.concat back endSysex =
      startSysex :: ((front ++ zeros ++ back) ++ [endSysex]) := by
    simp
  rw [whole, List.foldl_cons, parse_start, List.foldl_append, parse_collect open', List.nil_append,
    List.foldl_cons, List.foldl_nil]
  simp only [FirmataParser.parse, unreadable, if_true]

/-- No message is open. -/
def FirmataParser.Closed (parser : FirmataParser) : Prop :=
  parser.framing = .idle ∨ parser.framing = .malformed

theorem parse_closed {bytes : List UInt8} (unopened : ∀ byte ∈ bytes, byte < startSysex) {parser : FirmataParser}
    (closed : parser.Closed) : (bytes.foldl FirmataParser.parse parser).Closed := by
  induction bytes generalizing parser with
  | nil => exact closed
  | cons byte bytes ih =>
    obtain ⟨small, unopened⟩ := List.forall_mem_cons.mp unopened
    refine ih unopened ?_
    cases closed with
    | inl idle =>
      rw [FirmataParser.parse, idle]
      by_cases zero : byte = 0
      · exact .inl (by simp [zero, idle])
      · have noSysex : byte ≠ startSysex := by
          rintro rfl
          exact absurd small (by decide)
        have noVersion : byte ≠ reportVersion := by
          rintro rfl
          exact absurd small (by decide)
        exact .inr (by simp [zero, noSysex, noVersion])
    | inr bad => exact .inr (parse_malformed [byte] bad)

/-- A message whose command is the end marker cannot be read, padded or not. -/
theorem parse_end_command {payload first second : List UInt8} {count : Nat}
    (split : sysexBytes endSysex payload = first ++ second) (begun : first ≠ []) :
    ((first ++ List.replicate count 0 ++ second).foldl FirmataParser.parse ⟨.idle, messages⟩).framing =
      .malformed := by
  obtain ⟨start, front, rfl⟩ := List.exists_cons_of_ne_nil begun
  simp only [sysexBytes_eq, List.cons_append] at split
  obtain ⟨rfl, body⟩ := List.cons.inj split
  cases front with
  | cons byte front =>
    -- The message ends before it has a command.
    rw [List.cons_append] at body
    obtain ⟨rfl, _⟩ := List.cons.inj body
    simp only [List.cons_append, List.foldl_cons]
    exact parse_malformed _ rfl
  | nil =>
    -- Padding takes the place of the command, and the rest follows a closed message.
    rw [List.nil_append] at body
    subst body
    have zeros : endSysex ∉ List.replicate count (0 : UInt8) := fun member =>
      absurd (List.eq_of_mem_replicate member) (by decide)
    rw [List.singleton_append, List.cons_append, List.foldl_cons, parse_start, List.foldl_append,
      parse_collect zeros, List.nil_append, List.foldl_cons, List.foldl_append]
    generalize after : FirmataParser.parse ⟨.sysex (List.replicate count 0), messages⟩ endSysex = parser
    have closed : parser.Closed := by
      rw [← after, FirmataParser.parse]
      simp only [if_true]
      cases decodeSysex (List.replicate count 0) with
      | none => exact .inr rfl
      | some message => exact .inl rfl
    cases parse_closed (encodedPayload_lt payload) closed with
    | inl idle =>
      rw [List.foldl_cons, List.foldl_nil, FirmataParser.parse, idle]
      rfl
    | inr bad => exact parse_malformed [endSysex] bad

end Parsing

/-! ## Runs -/

section Runs

theorem parseStream_append (first second : List UInt8) :
    parseStream (first ++ second) = second.foldl FirmataParser.parse (parseStream first) :=
  List.foldl_append

/-- The host is between messages and has read `sent`. -/
structure Tracks (device : Device) (sent : List HostMessage) : Prop where
  started : device.started = true
  ready : device.stream.Ready
  parsed : parseStream device.stream.transcript = ⟨.idle, sent⟩

/-- The host has met something it cannot read. -/
structure Broken (device : Device) : Prop where
  started : device.started = true
  ready : device.stream.Ready
  parsed : (parseStream device.stream.transcript).framing = .malformed

theorem run_send {device : Device} (started : device.started = true) (outgoing : Outgoing) :
    (Action.send outgoing).run device = { device with
      stream := (sysexBytes outgoing.message.command outgoing.message.payload).foldl BufferStream.write
        device.stream } := by
  have whole : outgoing.message.payload.length % 256 = outgoing.message.payload.length :=
    Nat.mod_eq_of_lt (by have := outgoing.short; omega)
  rw [Action.run, qmkataSendSysex, if_pos started, whole, List.take_length]

theorem run_task {device : Device} (started : device.started = true) (ready : device.stream.Ready) :
    Action.task.run device = { device with stream := device.stream.flush } := by
  rw [Action.run, qmkataTask, if_pos started, BufferStream.availableForWrite,
    if_pos (decide_eq_true ready.room)]

theorem length_outgoing (outgoing : Outgoing) :
    (sysexBytes outgoing.message.command outgoing.message.payload).length ≤ txBufferSize + 1 := by
  have := outgoing.short
  rw [length_sysexBytes, txBufferSize]
  omega

theorem Tracks.send {device : Device} {sent : List HostMessage} (tracks : Tracks device sent)
    {outgoing : Outgoing} (fits : outgoing.Fits device) :
    Tracks ((Action.send outgoing).run device) (sent ++ [.sysex outgoing.message]) := by
  rw [run_send tracks.started]
  obtain ⟨valid, room⟩ := fits
  rw [← length_sysexBytes outgoing.message.command] at room
  obtain ⟨ready, count, transcript⟩ := tracks.ready.write_all_unsplit room
  refine ⟨tracks.started, ready, ?_⟩
  rw [transcript, parseStream_append, parseStream_append, tracks.parsed, parse_sysexBytes valid,
    parse_padding]

/-- A message that does not fit cannot be read. -/
theorem Tracks.send_split {device : Device} {sent : List HostMessage} (tracks : Tracks device sent)
    {outgoing : Outgoing} (overflows : ¬ outgoing.Fits device) :
    Broken ((Action.send outgoing).run device) := by
  have odd : (padding txBufferSize).length % 2 = 1 := by decide
  have zeros : endSysex ∉ padding txBufferSize := fun member =>
    absurd (List.eq_of_mem_replicate member) (by decide)
  rw [run_send tracks.started]
  by_cases room : device.stream.txBufferHead +
      (sysexBytes outgoing.message.command outgoing.message.payload).length ≤ txBufferSize
  · have command : outgoing.message.command = endSysex := by
      by_contra valid
      rw [length_sysexBytes] at room
      exact overflows ⟨valid, room⟩
    obtain ⟨ready, count, transcript⟩ := tracks.ready.write_all_unsplit room
    refine ⟨tracks.started, ready, ?_⟩
    have whole : sysexBytes endSysex outgoing.message.payload =
        sysexBytes endSysex outgoing.message.payload ++ [] := (List.append_nil _).symm
    have unread := @parse_end_command sent _ _ _ 0 whole (by simp [sysexBytes])
    rw [List.replicate_zero, List.append_nil, List.append_nil] at unread
    rw [transcript, parseStream_append, parseStream_append, tracks.parsed, command]
    exact parse_malformed _ unread
  · obtain ⟨first, second, rest, split, begun, unfinished, ready, transcript⟩ :=
      tracks.ready.write_all_split (Nat.not_le.mp room) (length_outgoing outgoing)
    refine ⟨tracks.started, ready, ?_⟩
    have grouped : device.stream.transcript ++ first ++ padding txBufferSize ++ second ++ rest =
        device.stream.transcript ++ ((first ++ padding txBufferSize ++ second) ++ rest) := by
      simp only [List.append_assoc]
    rw [transcript, grouped, parseStream_append, tracks.parsed, List.foldl_append]
    apply parse_malformed
    by_cases valid : outgoing.message.command = endSysex
    · rw [valid] at split
      exact parse_end_command split begun
    · exact parse_split valid split begun unfinished zeros odd

theorem Tracks.task {device : Device} {sent : List HostMessage} (tracks : Tracks device sent) :
    Tracks (Action.task.run device) sent := by
  rw [run_task tracks.started tracks.ready]
  obtain ⟨ready, _, transcript⟩ := BufferStream.flush_spec tracks.ready.tail tracks.ready.written
  refine ⟨tracks.started, ready, ?_⟩
  rw [transcript, parseStream_append, tracks.parsed]
  exact parse_padding _

theorem parseStream_malformed {transcript : List UInt8}
    (bad : (parseStream transcript).framing = .malformed) (extra : List UInt8) :
    (parseStream (transcript ++ extra)).framing = .malformed := by
  rw [parseStream_append]
  exact parse_malformed extra bad

theorem Broken.run {device : Device} (broken : Broken device) (action : Action) :
    Broken (action.run device) := by
  cases action with
  | task =>
    rw [run_task broken.started broken.ready]
    obtain ⟨ready, _, transcript⟩ := BufferStream.flush_spec broken.ready.tail broken.ready.written
    refine ⟨broken.started, ready, ?_⟩
    rw [transcript]
    exact parseStream_malformed broken.parsed _
  | send outgoing =>
    rw [run_send broken.started]
    cases Nat.lt_or_ge txBufferSize (device.stream.txBufferHead +
        (sysexBytes outgoing.message.command outgoing.message.payload).length) with
    | inl overflows =>
      obtain ⟨first, second, rest, _, _, _, ready, transcript⟩ :=
        broken.ready.write_all_split overflows (length_outgoing outgoing)
      refine ⟨broken.started, ready, ?_⟩
      simp only [transcript, List.append_assoc]
      exact parseStream_malformed broken.parsed _
    | inr room =>
      obtain ⟨ready, count, transcript⟩ := broken.ready.write_all_unsplit room
      refine ⟨broken.started, ready, ?_⟩
      simp only [transcript, List.append_assoc]
      exact parseStream_malformed broken.parsed _

/-- Either every message of a run fits and the host has read them all, or it met
    something unreadable. -/
theorem run_tracks {device : Device} {sent : List HostMessage} (tracks : Tracks device sent)
    (actions : List Action) :
    (Unsplit device actions ∧
        Tracks (actions.foldl Action.run device) (sent ++ actions.filterMap Action.sent?)) ∨
      (¬ Unsplit device actions ∧ Broken (actions.foldl Action.run device)) := by
  induction actions generalizing device sent with
  | nil => exact .inl ⟨trivial, by simpa using tracks⟩
  | cons action actions ih =>
    cases action with
    | task => exact ih tracks.task
    | send outgoing =>
      by_cases fits : outgoing.Fits device
      · rcases ih (tracks.send fits) with ⟨unsplit, good⟩ | ⟨split, bad⟩
        · refine .inl ⟨⟨fits, unsplit⟩, ?_⟩
          rw [List.append_assoc] at good
          exact good
        · exact .inr ⟨fun all => split all.2, bad⟩
      · refine .inr ⟨fun all => fits all.1, ?_⟩
        exact Runs.foldl_invariant (fun _ action broken => broken.run action) (tracks.send_split fits) actions

/-- After `qmkata_task` nothing is pending. -/
theorem task_transcript {device : Device} (started : device.started = true) (ready : device.stream.Ready) :
    (Action.task.run device).stream.transcript = payloads (Action.task.run device).stream.packets := by
  have empty : (Action.task.run device).stream.txBufferHead = 0 := by
    rw [run_task started ready]
    exact (BufferStream.flush_spec ready.tail ready.written).2.1
  rw [BufferStream.transcript, BufferStream.pending, empty, slice, List.append_nil]

theorem parse_printVersion :
    printVersion.foldl FirmataParser.parse ⟨.idle, messages⟩ =
      ⟨.idle, messages ++ [.version protocolMajorVersion protocolMinorVersion]⟩ := rfl

/-- The version numbers are sent as they are, so neither may be the end marker. -/
theorem parse_sendFirmwareVersion {major minor : UInt8} (majorOk : major ≠ endSysex) (minorOk : minor ≠ endSysex)
    (name : List UInt8) :
    (sendFirmwareVersion major minor name).foldl FirmataParser.parse ⟨.idle, messages⟩ =
      ⟨.idle, messages ++ [.sysex ⟨reportFirmware, (major ||| minor <<< 7) :: name⟩]⟩ := by
  have open' : endSysex ∉ reportFirmware :: major :: minor :: encodedPayload name := by
    have command : endSysex ≠ reportFirmware := by decide
    simp [endSysex_not_mem_encodedPayload, majorOk.symm, minorOk.symm, command]
  have bytes : sendFirmwareVersion major minor name =
      startSysex :: ((reportFirmware :: major :: minor :: encodedPayload name) ++ [endSysex]) := rfl
  rw [bytes, List.foldl_cons, parse_start, List.foldl_append, parse_collect open', List.nil_append,
    List.foldl_cons, List.foldl_nil]
  simp [FirmataParser.parse, decodeSysex, decodePairs, decodePairs_encodedPayload]

/-- A firmware version as `bootDevice` and `qmkataInit` leave it. -/
structure FirmwareVersion.Reportable (firmware : FirmwareVersion) : Prop where
  count : firmware.firmwareVersionCount < firmwareVersionSize
  major : firmware.firmwareVersionVector.getD 0 0 ≠ endSysex
  minor : firmware.firmwareVersionVector.getD 1 0 ≠ endSysex

theorem setFirmwareNameAndVersion_reportable (name : FirmwareName) :
    (setFirmwareNameAndVersion name qmkataMajorVersion qmkataMinorVersion).Reportable := by
  refine ⟨?_, show qmkataMajorVersion ≠ endSysex by decide, show qmkataMinorVersion ≠ endSysex by decide⟩
  have capped : ∀ count : Nat,
      (if count > firmwareVersionSize - 1 then firmwareVersionSize - 1 else count) < firmwareVersionSize := by
    intro count
    split <;> simp only [firmwareVersionSize] at * <;> omega
  exact capped _

theorem startedDevice_reportable (name : Option FirmwareName) : (startedDevice name).firmware.Reportable := by
  cases name with
  | none => exact ⟨by decide, by decide, by decide⟩
  | some name => exact setFirmwareNameAndVersion_reportable name

theorem length_sendFirmwareVersion (major minor : UInt8) (name : List UInt8) :
    (sendFirmwareVersion major minor name).length = 5 + 2 * name.length := by
  have encoded := length_encodedPayload name
  rw [encodedPayload] at encoded
  rw [sendFirmwareVersion, List.length_append, List.length_append, encoded, List.length_singleton]
  simp only [List.length_cons, List.length_nil]
  omega

/-- The version reports leave most of the buffer free. -/
theorem FirmwareVersion.Reportable.length {firmware : FirmwareVersion} (reportable : firmware.Reportable) :
    (printVersion ++ printFirmwareVersion firmware).length ≤ 66 := by
  have count := reportable.count
  have taken := List.length_take_le (firmware.firmwareVersionCount - 2) (firmware.firmwareVersionVector.drop 2)
  rw [firmwareVersionSize] at count
  rw [List.length_append, printFirmwareVersion]
  have version : printVersion.length = 3 := rfl
  split
  · rw [length_sendFirmwareVersion]
    omega
  · rw [List.length_nil]
    omega

theorem FirmwareVersion.Reportable.parse {firmware : FirmwareVersion} (reportable : firmware.Reportable) :
    parseStream (printVersion ++ printFirmwareVersion firmware) = ⟨.idle, greeting firmware⟩ := by
  rw [parseStream_append, parseStream, newParser, parse_printVersion, printFirmwareVersion, greeting]
  split
  · exact parse_sendFirmwareVersion reportable.major reportable.minor _
  · rfl

/-- The host has read the versions, and the rest of the buffer is free. -/
theorem start_tracks (name : Option FirmwareName) :
    Tracks (startedDevice name) (greeting (startedDevice name).firmware) := by
  have reportable := startedDevice_reportable name
  let opening := printVersion ++ printFirmwareVersion (startedDevice name).firmware
  have stream : (startedDevice name).stream = opening.foldl BufferStream.write bootDevice.stream := by
    cases name <;> rfl
  have ready : bootDevice.stream.Ready :=
    ⟨rfl, show 0 < txBufferSize by decide, fun nonempty => absurd rfl nonempty⟩
  have short : bootDevice.stream.txBufferHead + opening.length < txBufferSize := by
    have length : opening.length ≤ 66 := reportable.length
    show 0 + opening.length < 512
    omega
  obtain ⟨ready, _, transcript⟩ := ready.write_all_room short
  refine ⟨rfl, stream ▸ ready, ?_⟩
  rw [stream, transcript]
  exact reportable.parse

theorem lossless_of_unsplit {name : Option FirmwareName} {actions : List Action}
    (unsplit : Unsplit (startedDevice name) actions) : Lossless name actions := by
  rw [Lossless, runActions, List.foldl_append, List.foldl_cons, List.foldl_nil]
  rcases run_tracks (start_tracks name) actions with ⟨_, tracks⟩ | ⟨split, _⟩
  · rw [← task_transcript tracks.started tracks.ready]
    exact tracks.task.parsed
  · exact absurd unsplit split

theorem not_lossless_of_split {name : Option FirmwareName} {actions : List Action}
    (split : ¬ Unsplit (startedDevice name) actions) : ¬ Lossless name actions := by
  rw [Lossless, runActions, List.foldl_append, List.foldl_cons, List.foldl_nil]
  rcases run_tracks (start_tracks name) actions with ⟨unsplit, _⟩ | ⟨_, broken⟩
  · exact absurd unsplit split
  · intro lossless
    rw [← task_transcript broken.started broken.ready] at lossless
    have bad := (broken.run .task).parsed
    rw [lossless] at bad
    cases bad

/-- The stream is lossless exactly when no message runs over the end of the
    transmit buffer (and none has the end marker for a command). -/
theorem lossless_iff_unsplit (name : Option FirmwareName) (actions : List Action) :
    Lossless name actions ↔ Unsplit (startedDevice name) actions :=
  ⟨fun lossless => by_contra fun split => not_lossless_of_split split lossless, lossless_of_unsplit⟩

end Runs

instance (outgoing : Outgoing) (device : Device) : Decidable (outgoing.Fits device) :=
  inferInstanceAs (Decidable (_ ∧ _))

instance decidableUnsplit : ∀ device actions, Decidable (Unsplit device actions)
  | _, [] => .isTrue trivial
  | device, .send outgoing :: actions =>
    have := decidableUnsplit ((Action.send outgoing).run device) actions
    inferInstanceAs (Decidable (_ ∧ _))
  | device, .task :: actions => decidableUnsplit (Action.task.run device) actions

/-- A report of 100 bytes, 203 bytes when encoded. -/
def longReport : Outgoing := ⟨⟨9, List.replicate 100 1⟩, by decide⟩

/-- "Keychron QMKata". -/
def keychronQmkata : FirmwareName where
  chars := [75, 101, 121, 99, 104, 114, 111, 110, 32, 81, 77, 75, 97, 116, 97]
  terminated := by decide
  short := by decide

/-- The third of three reports runs over the end of the buffer. -/
theorem three_long_reports_not_lossless :
    ¬ Lossless (some keychronQmkata) [.send longReport, .send longReport, .send longReport] :=
  not_lossless_of_split (by decide +kernel)

end QmkFirmware.Qmkata
