import QmkFirmware.Wireless.Receiver

/-! # Bounds of the receiver's buffers

`lkbt51_read` exchanges the bytes it is asked for and four more, with one buffer of 64 bytes for each
direction.  `lkbt51_task` then takes the place and the length of a packet from what it received.  The model
lists the offsets that both touch; the buffers are large enough for an exchange of up to 60 bytes and for
a packet that ends inside the buffer.
-/

namespace QmkFirmware.Wireless

open QmkFirmware.Runs

/-- The static variables behind a read. -/
structure Driver where
  receiver : Receiver
  expectLen : UInt8

def Driver.start : Driver := ⟨.start, 22⟩

/-- What happens at the SPI bus: the commands that change the expected length, and the task with the bytes
that the module sends, or with the interrupt pin high. -/
inductive Transfer where
  | sendProtocolVer
  | sendCmd
  | task (received : Option Buffer)

/-! ## Accesses -/

/-- The number of bytes of an exchange, as the `uint8_t` of `lkbt51_read`. -/
def exchangeLen (len : UInt8) : Nat := (4 + len).toNat

/-- The offsets of `pkt` and `payload` in `lkbt51_read`: the four bytes of the command, and the exchange. -/
def readAccesses (len : UInt8) : List Nat := List.range 4 ++ List.range (exchangeLen len)

/-- The buffer after the exchange. -/
def exchanged (len : UInt8) (received : Buffer) : Buffer :=
  fun k => if k < exchangeLen len then received k else 0

def protocolAccesses (pbuf : Buffer) : List Nat :=
  0 :: if pbuf 0 = 0xAA then
    1 :: if pbuf 1 = 0x54 then
      4 :: if pbuf 4 = ~~~0x54 then [5] else []
    else []
  else []

/-- The offsets from `pbuf` in the status register part. -/
def statusAccesses (pbuf : Buffer) : List Nat :=
  protocolAccesses pbuf ++
    if isProtocolVersion pbuf then [3, 2]
    else if pbuf 0 = 0xAA then
      let evtMask := pbuf 1
      [1] ++ (if evtMask &&& evtMskReset ≠ 0 then [2] else []) ++
        (if evtMask &&& evtMskConnection ≠ 0 then [2, 3] else []) ++
        (if evtMask &&& evtMskLed ≠ 0 then [4] else []) ++
        (if evtMask &&& evtMskRptInterval ≠ 0 then [8] else []) ++
        (if evtMask &&& evtMskBatt ≠ 0 then [6, 5] else [])
    else []

/-- The offsets of one round of the header scan. -/
def scanAccesses (buf : Buffer) (i : Nat) : List Nat :=
  i :: if buf i = 0xAA then
    (i + 1) :: if buf (i + 1) = 0x57 then
      [i + 2, i + 3] ++ if isHeader buf i then [i + 4] else []
    else []
  else []

/-- The low byte of the checksum is right. -/
def checksumLowValid (buf : Buffer) (pbuf : Nat) (len : UInt8) : Bool :=
  checksum buf pbuf len &&& 0xff = (buf (pbuf + len.toNat - 2)).toUInt16

/-- The offsets of the checksum loop, of the comparison with the checksum, whose second half runs only when
the first is right, and of the event type. -/
def packetAccesses (buf : Buffer) (pbuf : Nat) (len : UInt8) : List Nat :=
  (List.range (len.toNat - 2)).map (pbuf + ·) ++ [pbuf + len.toNat - 2] ++
    (if checksumLowValid buf pbuf len then [pbuf + len.toNat - 1] else []) ++
    (if checksumValid buf pbuf len then [pbuf] else [])

/-- The offsets of `buf` in `lkbt51_task`, with the contents of the buffer. -/
def taskAccesses (r : Receiver) (buf : Buffer) : List Nat :=
  (statusAccesses fun k => buf (4 + k)).map (4 + ·) ++
    (if r.waitForNewPkt then scanned.flatMap (scanAccesses buf) else []) ++
    if !(scan buf r).1.waitForNewPkt ∧ (scan buf r).1.len.toNat ≤ bufferSize - 5 then
      packetAccesses buf (scan buf r).2 (scan buf r).1.len
    else []

/-- The offsets that a transfer touches in buffers of 64 bytes. -/
def accesses (s : Driver) : Transfer → List Nat
  | .task (some received) =>
    readAccesses s.expectLen ++ taskAccesses s.receiver (exchanged s.expectLen received)
  | _ => []

/-! ## Steps -/

def ReceiverCall.isSendConnEvtAck : ReceiverCall → Bool
  | .sendConnEvtAck => true
  | _ => false

/-- Every `lkbt51_send_cmd` sets the expected length, also the one that acknowledges a connection event. -/
def Driver.step (s : Driver) : Transfer → Driver
  | .sendProtocolVer => { s with expectLen := 10 }
  | .sendCmd => { s with expectLen := 64 }
  | .task received =>
    let task := lkbt51Task s.receiver (received.map (exchanged s.expectLen))
    { receiver := task.1
      expectLen := if task.2.any ReceiverCall.isSendConnEvtAck then 64 else s.expectLen }

def Driver.run (transfers : List Transfer) : Driver := transfers.foldl Driver.step .start

/-- Every access of every transfer stays inside its buffer. -/
def AllInside (transfers : List Transfer) : Prop :=
  ∀ before transfer after, transfers = before ++ transfer :: after →
    ∀ offset ∈ accesses (Driver.run before) transfer, offset < bufferSize

/-! ## What fits -/

/-- The packet with the header at `i` ends inside the buffer, or one byte behind it where the comparison
already fails at the low byte of the checksum. -/
def PacketFits (buf : Buffer) (i : Nat) : Prop :=
  i + 5 + (buf (i + 2)).toNat ≤ bufferSize ∨
    (i + 5 + (buf (i + 2)).toNat = bufferSize + 1 ∧
      checksumLowValid buf (i + 5) (buf (i + 2)) = false)

/-- The last packet that a waiting receiver finds in the buffer fits, unless it is too long to be taken. -/
def TaskFits (r : Receiver) (buf : Buffer) : Prop :=
  r.waitForNewPkt = true → ∀ i, (headers buf).getLast? = some i →
    (buf (i + 2)).toNat ≤ bufferSize - 5 → PacketFits buf i

/-- The exchange and the packet fit. -/
def Fits (s : Driver) : Transfer → Prop
  | .task (some received) =>
    exchangeLen s.expectLen ≤ bufferSize ∧ TaskFits s.receiver (exchanged s.expectLen received)
  | _ => True

theorem readAccesses_inside (len : UInt8) :
    (∀ offset ∈ readAccesses len, offset < bufferSize) ↔ exchangeLen len ≤ bufferSize := by
  simp only [readAccesses, List.mem_append, List.mem_range, bufferSize]
  constructor
  · intro inside
    by_contra long
    have last := inside 64 (.inr (by omega))
    omega
  · rintro short offset (command | exchange) <;> omega

theorem protocolAccesses_inside (pbuf : Buffer) : ∀ offset ∈ protocolAccesses pbuf, offset < 9 := by
  intro offset member
  unfold protocolAccesses at member
  split_ifs at member <;> simp at member <;> omega

theorem statusAccesses_inside (pbuf : Buffer) : ∀ offset ∈ statusAccesses pbuf, offset < 9 := by
  intro offset member
  rw [statusAccesses, List.mem_append] at member
  cases member with
  | inl protocol => exact protocolAccesses_inside pbuf offset protocol
  | inr register =>
    split_ifs at register with version marked
    · simp at register
      omega
    · simp only [List.mem_append, List.mem_ite_nil_right, List.mem_cons, List.not_mem_nil, or_false] at register
      omega
    · cases register

theorem scanAccesses_inside (buf : Buffer) {i : Nat} (member : i ∈ scanned) :
    ∀ offset ∈ scanAccesses buf i, offset < bufferSize := by
  intro offset touched
  have below : i < 59 := by
    rw [scanned, List.mem_range'_1] at member
    simp only [bufferSize] at member
    omega
  unfold scanAccesses at touched
  simp only [bufferSize]
  split_ifs at touched <;> simp at touched <;> omega

/-- The accesses to a packet inside the scanned part. -/
theorem packetAccesses_inside (buf : Buffer) {i : Nat} (low : i < 59) :
    (∀ offset ∈ packetAccesses buf (i + 5) (buf (i + 2)), offset < bufferSize) ↔ PacketFits buf i := by
  generalize size : (buf (i + 2)).toNat = len
  have members (offset : Nat) : offset ∈ packetAccesses buf (i + 5) (buf (i + 2)) ↔
      (∃ k < len - 2, i + 5 + k = offset) ∨ offset = i + 5 + len - 2 ∨
        (checksumLowValid buf (i + 5) (buf (i + 2)) = true ∧ offset = i + 5 + len - 1) ∨
        (checksumValid buf (i + 5) (buf (i + 2)) = true ∧ offset = i + 5) := by
    simp [packetAccesses, size]
  simp only [members, PacketFits, size, bufferSize]
  cases lowByte : checksumLowValid buf (i + 5) (buf (i + 2)) with
  | true =>
    constructor
    · intro inside
      have last := inside (i + 5 + len - 1) (.inr (.inr (.inl ⟨rfl, rfl⟩)))
      omega
    · intro fits
      have inside := fits.resolve_right fun wrong => by cases wrong.2
      rintro offset (⟨k, below, rfl⟩ | rfl | ⟨-, rfl⟩ | ⟨-, rfl⟩) <;> omega
  | false =>
    constructor
    · intro inside
      have first := inside (i + 5 + len - 2) (.inr (.inl rfl))
      by_cases whole : i + 5 + len ≤ 64
      · exact .inl whole
      · exact .inr ⟨by omega, rfl⟩
    · rintro fits offset (⟨k, below, rfl⟩ | rfl | ⟨wrong, rfl⟩ | ⟨-, rfl⟩)
      · omega
      · omega
      · cases wrong
      · omega

/-- The packet part of the task. -/
theorem packetPart_inside {r : Receiver} (sound : r.Sound) (buf : Buffer) :
    (∀ offset ∈ if !(scan buf r).1.waitForNewPkt ∧ (scan buf r).1.len.toNat ≤ bufferSize - 5 then
        packetAccesses buf (scan buf r).2 (scan buf r).1.len else [], offset < bufferSize) ↔
      TaskFits r buf := by
  unfold TaskFits
  rw [scan]
  cases waits : r.waitForNewPkt with
  | false =>
    have long := sound waits
    simp [waits, Nat.not_le.mpr long]
  | true =>
    rw [if_pos rfl, scanStep_foldl]
    cases found : (headers buf).getLast? with
    | none =>
      rw [headers] at found
      simp [found, waits]
    | some i =>
      have place : i ∈ headers buf := List.mem_of_getLast? found
      rw [headers] at found
      have low : i < 59 := by
        rw [headers, List.mem_filter, scanned, List.mem_range'_1] at place
        simp only [bufferSize] at place
        omega
      simp only [found, Bool.not_false, true_and]
      by_cases short : (buf (i + 2)).toNat ≤ bufferSize - 5
      · rw [if_pos short, packetAccesses_inside buf low]
        simp [short]
      · -- a packet that is too long is not looked at
        rw [if_neg short]
        simp [short]

theorem taskAccesses_inside {r : Receiver} (sound : r.Sound) (buf : Buffer) :
    (∀ offset ∈ taskAccesses r buf, offset < bufferSize) ↔ TaskFits r buf := by
  rw [← packetPart_inside sound buf]
  simp only [taskAccesses, List.forall_mem_append]
  refine and_iff_right ⟨?_, ?_⟩
  · intro offset member
    obtain ⟨relative, touched, rfl⟩ := List.mem_map.mp member
    have small := statusAccesses_inside _ relative touched
    simp only [bufferSize]
    omega
  · intro offset member
    split_ifs at member with waits
    · obtain ⟨i, place, touched⟩ := List.mem_flatMap.mp member
      exact scanAccesses_inside buf place offset touched
    · cases member

/-- The accesses of one transfer. -/
theorem accesses_inside {s : Driver} (sound : s.receiver.Sound) (transfer : Transfer) :
    (∀ offset ∈ accesses s transfer, offset < bufferSize) ↔ Fits s transfer := by
  cases transfer with
  | sendProtocolVer => simp [accesses, Fits]
  | sendCmd => simp [accesses, Fits]
  | task received =>
    cases received with
    | none => simp [accesses, Fits]
    | some received =>
      rw [accesses, List.forall_mem_append, readAccesses_inside, taskAccesses_inside sound, Fits]

/-! ## Runs -/

theorem Driver.step_sound {s : Driver} (sound : s.receiver.Sound) (transfer : Transfer) :
    (s.step transfer).receiver.Sound := by
  cases transfer with
  | sendProtocolVer => exact sound
  | sendCmd => exact sound
  | task received => exact task_sound sound _

theorem Driver.run_sound (transfers : List Transfer) : (Driver.run transfers).receiver.Sound :=
  @foldl_invariant _ _ Driver.step (fun s => s.receiver.Sound) (fun _ transfer sound => Driver.step_sound sound transfer)
    .start start_sound transfers

/-- The accesses of a run stay inside the buffers exactly when every transfer fits. -/
theorem accesses_inside_iff (transfers : List Transfer) :
    AllInside transfers ↔ EveryStep (fun before transfer => Fits (Driver.run before) transfer) transfers := by
  rw [everyStep_iff_split, AllInside]
  refine forall_congr' fun before => forall_congr' fun transfer => forall_congr' fun after =>
    forall_congr' fun split => ?_
  exact accesses_inside (Driver.run_sound before) transfer

/-- After a command the exchange is four bytes longer than its buffers. -/
theorem command_read_overflows : ¬AllInside [.sendCmd, .task (some fun _ => 0)] := by
  rw [accesses_inside_iff]
  intro every
  have fits : exchangeLen 64 ≤ bufferSize := (every 1 (by decide)).1
  exact absurd fits (by decide)

end QmkFirmware.Wireless
