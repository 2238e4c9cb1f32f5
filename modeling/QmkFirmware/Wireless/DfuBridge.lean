import QmkFirmware.Wireless.ReceiverBounds

/-! # The firmware update bridge of the LKBT51 module

`lkbt51_dfu_rx` unpacks commands for the module from raw HID packets and sends them on over SPI;
`lkbt51_dfu_tx` packs the module's responses into raw HID packets.  An access outside the packet buffer of
`lkbt51_dfu_tx` or outside the response has no result in the model.
-/

namespace QmkFirmware.Wireless.DfuBridge

/-- The size of a raw HID packet in this file, which does not see the one of the USB driver. -/
def rawEpsize : Nat := 32

def packetHeaderLen : Nat := 5

def packetMaxLen : Nat := 64

/-- The static variables: the sequence number of the commands, of the host's packets, and the number of
bytes expected from the module. -/
structure State where
  sn : UInt8
  dfuSn : UInt8
  expectLen : UInt8

/-! ## Commands to the module -/

def nextSn (sn : UInt8) (retry : Bool) : UInt8 :=
  let sn := if retry then sn else sn + 1
  if sn = 0 then 1 else sn

def payloadChecksum (payload : List UInt8) : UInt16 :=
  payload.foldl (fun sum byte => sum + byte.toUInt16) 0

/-- The packet that `lkbt51_send_cmd` sends over SPI. -/
def lkbt51SendCmd (s : State) (payload : List UInt8) (ackEnable retry : Bool) : State × List UInt8 :=
  let len := UInt8.ofNat payload.length
  let sn := nextSn s.sn retry
  let checksum := payloadChecksum payload
  ({ s with sn, expectLen := 64 },
    [0x84, 0x7e, 0, 0, 0xAA, if ackEnable then 0x56 else 0x55, len + 2, ~~~(len + 2), sn] ++ payload ++
      [(checksum &&& 0xFF).toUInt8, ((checksum >>> 8) &&& 0xFF).toUInt8])

/-! ## Packets from the host -/

def headerValid (data : Buffer) : Bool :=
  data 0 = 0xAA ∧ (data 1 = 0x55 ∨ data 1 = 0x56) ∧ data 2 = ~~~data 3

/-- The test of the two bytes behind the payload, which is also made where there is no room for them. -/
def dfuChecksumValid (data : Buffer) : Bool :=
  checksum data packetHeaderLen (data 2) &&& 0xFF = (data (packetHeaderLen + (data 2).toNat - 2)).toUInt16 ∧
    checksum data packetHeaderLen (data 2) >>> 8 = (data (packetHeaderLen + (data 2).toNat - 1)).toUInt16

/-- The first `len` bytes of the payload. -/
def payloadBytes (data : Buffer) (len : UInt8) : List UInt8 :=
  (List.range len.toNat).map fun k => data (packetHeaderLen + k)

/-- The packet that goes to the module, if any.  The length of the packet is not looked at. -/
def lkbt51DfuRx (s : State) (data : Buffer) (_length : UInt8) : State × Option (List UInt8) :=
  if headerValid data then
    if rawEpsize - packetHeaderLen < (data 2).toNat then (s, none)
    else if !dfuChecksumValid data then (s, none)
    else
      let retry := decide (s.dfuSn = data 4)
      let s := { s with dfuSn := data 4 }
      if data packetHeaderLen &&& 0xF0 = 0x60 then
        let sent := lkbt51SendCmd s (payloadBytes data (data 2 - 2)) (data 1 = 0x56) retry
        (sent.1, some sent.2)
      else (s, none)
  else (s, none)

/-! ## Responses to the host -/

/-- Copies `n` bytes, inside both buffers. -/
def memcpy (buf : List UInt8) (start : Nat) (data : List UInt8) (offset n : Nat) : Option (List UInt8) :=
  if start + n ≤ buf.length ∧ offset + n ≤ data.length then
    some (buf.take start ++ (data.drop offset).take n ++ buf.drop (start + n))
  else none

/-- The packets that leave the USB driver, which takes only packets of its own size. -/
def rawHidSend (usbEpsize : Nat) (packet : List UInt8) : List (List UInt8) :=
  if packet.length = usbEpsize then [packet] else []

/-- A response of the module. -/
structure Response where
  rsp : UInt8
  data : List UInt8
  sn : UInt8
  short : data.length < 256

def Response.len (r : Response) : UInt8 := UInt8.ofNat r.data.length

def Response.header (r : Response) : List UInt8 := [0x03, 0xAA, 0x57, r.len, ~~~r.len, r.sn, r.rsp]

def emptyPacket : List UInt8 := List.replicate rawEpsize 0

/-- The second packet, for what does not fit into the first. -/
def secondPacket (r : Response) : Option (List UInt8) :=
  memcpy (emptyPacket.set 0 0x03) 1 r.data 25 (r.len.toNat - 25)

/-- The packets that `lkbt51_dfu_tx` sends.  Its checksum loop reads the byte behind the data. -/
def lkbt51DfuTx (usbEpsize : Nat) (r : Response) : Option (List (List UInt8)) := do
  let buf ← memcpy emptyPacket 0 r.header 0 7
  let buf ← memcpy buf 7 r.data 0 r.len.toNat
  let _ ← buf[(7 + r.len).toNat]?
  let first := rawHidSend usbEpsize buf
  if 25 < r.len.toNat then
    let second ← secondPacket r
    return first ++ rawHidSend usbEpsize second
  else return first

/-! ## What the bridge is for -/

/-- The payload ends with the sum of the bytes before. -/
def TrailingChecksum (data : Buffer) : Prop :=
  ((payloadBytes data (data 2 - 2)).map UInt8.toNat).sum % 2 ^ 16 =
    (data (packetHeaderLen + (data 2).toNat - 2)).toNat + 256 * (data (packetHeaderLen + (data 2).toNat - 1)).toNat

/-- Only a packet that holds its payload, with the right checksum, is sent on, in one SPI packet. -/
def RxSafe (s : State) (data : Buffer) (length : UInt8) : Prop :=
  ∀ packet, (lkbt51DfuRx s data length).2 = some packet →
    (2 ≤ (data 2).toNat ∧ packetHeaderLen + (data 2).toNat ≤ length.toNat) ∧ TrailingChecksum data ∧
      packet.length ≤ packetMaxLen

/-- The data in a list of raw HID packets: behind the header in the first, behind the report number in the
others, up to the announced length. -/
def carried : List (List UInt8) → Option (List UInt8)
  | [] => none
  | first :: rest => some ((first.drop 7 ++ rest.flatMap (List.drop 1)).take (first.getD 3 0).toNat)

/-- The packets carry the response. -/
def TxExact (usbEpsize : Nat) (r : Response) : Prop :=
  ∃ packets, lkbt51DfuTx usbEpsize r = some packets ∧ carried packets = some r.data

/-- The packet passes the tests of `lkbt51_dfu_rx` and holds a command. -/
structure Accepted (data : Buffer) : Prop where
  header : headerValid data = true
  long : 2 ≤ (data 2).toNat
  fits : (data 2).toNat ≤ rawEpsize - packetHeaderLen
  sum : TrailingChecksum data
  command : data packetHeaderLen &&& 0xF0 = 0x60

/-! ## Commands -/

theorem payloadChecksum_toNat (payload : List UInt8) :
    (payloadChecksum payload).toNat = (payload.map UInt8.toNat).sum % 2 ^ 16 := by
  induction payload using List.reverseRecOn with
  | nil => rfl
  | append_singleton payload byte ih =>
    rw [payloadChecksum, List.foldl_append, List.foldl_cons, List.foldl_nil, ← payloadChecksum,
      UInt16.toNat_add, ih, List.map_append, List.sum_append, Nat.mod_add_mod]
    simp

/-- The two bytes of a checksum. -/
theorem bytes_iff (sum : UInt16) (low high : UInt8) :
    sum &&& 0xFF = low.toUInt16 ∧ sum >>> 8 = high.toUInt16 ↔ sum.toNat = low.toNat + 256 * high.toNat := by
  have lowByte : (sum &&& 0xFF).toNat = sum.toNat % 256 := by
    rw [UInt16.toNat_and]
    exact Nat.and_two_pow_sub_one_eq_mod sum.toNat 8
  have highByte : (sum >>> 8).toNat = sum.toNat / 256 := by
    rw [UInt16.toNat_shiftRight]
    exact Nat.shiftRight_eq_div_pow sum.toNat 8
  rw [← UInt16.toNat_inj, ← UInt16.toNat_inj, lowByte, highByte, UInt8.toNat_toUInt16, UInt8.toNat_toUInt16]
  have small := low.toNat_lt
  omega

theorem checksum_eq (data : Buffer) (len : UInt8) (long : 2 ≤ len.toNat) :
    checksum data packetHeaderLen len = payloadChecksum (payloadBytes data (len - 2)) := by
  have shorter : (len - 2).toNat = len.toNat - 2 := UInt8.toNat_sub_of_le len 2 long
  rw [checksum, payloadChecksum, payloadBytes, List.foldl_map, shorter]

theorem dfuChecksumValid_iff (data : Buffer) (long : 2 ≤ (data 2).toNat) :
    dfuChecksumValid data = true ↔ TrailingChecksum data := by
  rw [dfuChecksumValid, decide_eq_true_iff, bytes_iff, checksum_eq data (data 2) long, payloadChecksum_toNat,
    TrailingChecksum]

/-- A payload without room for a checksum does not pass as a command. -/
theorem command_long {data : Buffer} (header : headerValid data = true) (valid : dfuChecksumValid data = true)
    (command : data packetHeaderLen &&& 0xF0 = 0x60) : 2 ≤ (data 2).toNat := by
  by_contra short
  rw [dfuChecksumValid, decide_eq_true_iff] at valid
  have empty : checksum data packetHeaderLen (data 2) = 0 := by
    rw [checksum, show (data 2).toNat - 2 = 0 by omega]
    rfl
  rw [empty] at valid
  obtain none | one : (data 2).toNat = 0 ∨ (data 2).toNat = 1 := by omega
  · -- the first byte of the comparison is the complement of the length
    rw [headerValid, decide_eq_true_iff] at header
    have zero : data 2 = 0 := UInt8.toNat_inj.mp none
    have complement : data 3 = ~~~0 := by
      rw [← zero, header.2.2, UInt8.not_not]
    have compared := valid.1
    rw [none, show packetHeaderLen + 0 - 2 = 3 from rfl, complement] at compared
    exact absurd compared (by decide)
  · -- the second byte of the comparison is the command
    have compared := valid.2
    rw [one, show packetHeaderLen + 1 - 1 = packetHeaderLen from rfl] at compared
    have zero : data packetHeaderLen = 0 := by
      have same := congrArg UInt16.toNat compared
      rw [UInt8.toNat_toUInt16] at same
      exact UInt8.toNat_inj.mp same.symm
    rw [zero] at command
    exact absurd command (by decide)

/-- The commands that are sent on. -/
theorem forwards_iff (s : State) (data : Buffer) (length : UInt8) :
    (lkbt51DfuRx s data length).2.isSome = true ↔ Accepted data := by
  rw [lkbt51DfuRx]
  by_cases header : headerValid data = true
  · rw [if_pos header]
    by_cases fits : rawEpsize - packetHeaderLen < (data 2).toNat
    · rw [if_pos fits]
      exact ⟨fun sent => absurd sent Bool.false_ne_true, fun accepted => absurd accepted.fits (by omega)⟩
    · rw [if_neg fits]
      cases valid : dfuChecksumValid data with
      | false =>
        simp only [Bool.not_false, if_true, Option.isSome_none, Bool.false_eq_true, false_iff]
        intro accepted
        have sum := (dfuChecksumValid_iff data accepted.long).mpr accepted.sum
        rw [valid] at sum
        cases sum
      | true =>
        simp only [Bool.not_true, Bool.false_eq_true, if_false]
        by_cases command : data packetHeaderLen &&& 0xF0 = 0x60
        · rw [if_pos command]
          have long := command_long header valid command
          exact iff_of_true rfl ⟨header, long, Nat.le_of_not_lt fits, (dfuChecksumValid_iff data long).mp valid, command⟩
        · rw [if_neg command]
          exact ⟨fun sent => absurd sent Bool.false_ne_true, fun accepted => absurd accepted.command command⟩
  · rw [if_neg header]
    exact ⟨fun sent => absurd sent Bool.false_ne_true, fun accepted => absurd accepted.header header⟩

theorem lkbt51SendCmd_length (s : State) (payload : List UInt8) (ackEnable retry : Bool) :
    (lkbt51SendCmd s payload ackEnable retry).2.length = payload.length + 11 := by
  simp [lkbt51SendCmd]

/-- A packet for the module is the command with a header and a checksum. -/
theorem forwarded_length {s : State} {data : Buffer} {length : UInt8} {packet : List UInt8}
    (sent : (lkbt51DfuRx s data length).2 = some packet) : packet.length = (data 2).toNat + 9 := by
  have accepted := (forwards_iff s data length).mp (by rw [sent]; rfl)
  have shorter : (data 2 - 2).toNat = (data 2).toNat - 2 := UInt8.toNat_sub_of_le (data 2) 2 accepted.long
  have valid := (dfuChecksumValid_iff data accepted.long).mpr accepted.sum
  rw [lkbt51DfuRx, if_pos accepted.header, if_neg (Nat.not_lt.mpr accepted.fits), valid] at sent
  simp only [Bool.not_true, Bool.false_eq_true, if_false] at sent
  rw [if_pos accepted.command] at sent
  obtain rfl := Option.some.inj sent
  have long := accepted.long
  rw [lkbt51SendCmd_length, payloadBytes, List.length_map, List.length_range, shorter]
  omega

/-- What comes from the host is handled safely unless a command is shorter than it announces. -/
theorem rxSafe_iff (s : State) (data : Buffer) (length : UInt8) :
    RxSafe s data length ↔ (Accepted data → packetHeaderLen + (data 2).toNat ≤ length.toNat) := by
  constructor
  · intro safe accepted
    obtain ⟨packet, sent⟩ := Option.isSome_iff_exists.mp ((forwards_iff s data length).mpr accepted)
    exact (safe packet sent).1.2
  · intro holds packet sent
    have accepted := (forwards_iff s data length).mp (by rw [sent]; rfl)
    refine ⟨⟨accepted.long, holds accepted⟩, accepted.sum, ?_⟩
    have fits := accepted.fits
    rw [forwarded_length sent]
    simp only [rawEpsize, packetHeaderLen, packetMaxLen] at fits ⊢
    omega

/-! ## Responses -/

@[simp] theorem Response.len_toNat (r : Response) : r.len.toNat = r.data.length := by
  rw [Response.len, UInt8.toNat_ofNat', Nat.mod_eq_of_lt r.short]

@[simp] theorem Response.header_length (r : Response) : r.header.length = 7 := rfl

/-- The first packet of a response. -/
def firstPacket (r : Response) : List UInt8 :=
  r.header ++ r.data ++ List.replicate (25 - r.data.length) 0

theorem firstPacket_length (r : Response) (short : r.data.length ≤ 25) : (firstPacket r).length = rawEpsize := by
  simp [firstPacket, rawEpsize]
  omega

theorem copyHeader (r : Response) :
    memcpy emptyPacket 0 r.header 0 7 = some (r.header ++ List.replicate 25 0) := by
  rw [memcpy, if_pos ⟨by decide, Nat.le_refl 7⟩]
  simp [emptyPacket, rawEpsize]

theorem copyData (r : Response) : memcpy (r.header ++ List.replicate 25 0) 7 r.data 0 r.len.toNat =
    if r.data.length ≤ 25 then some (firstPacket r) else none := by
  rw [memcpy]
  by_cases short : r.data.length ≤ 25
  · have rest : (r.header ++ List.replicate 25 (0 : UInt8)).drop (7 + r.data.length) =
        List.replicate (25 - r.data.length) 0 := by
      rw [← r.header_length, List.drop_length_add_append, List.drop_replicate]
    rw [if_pos (by simp; omega), if_pos short, List.take_left' r.header_length, List.drop_zero, r.len_toNat,
      List.take_length, rest, firstPacket]
  · rw [if_neg (by simp; omega), if_neg short]

/-- A response of up to 24 bytes goes out in one packet; a longer one leaves the buffer. -/
theorem lkbt51DfuTx_eq (usbEpsize : Nat) (r : Response) :
    lkbt51DfuTx usbEpsize r = if r.data.length ≤ 24 then some (rawHidSend usbEpsize (firstPacket r)) else none := by
  rw [lkbt51DfuTx, copyHeader, Option.bind_eq_bind, Option.bind_some, copyData]
  by_cases short : r.data.length ≤ 25
  · have index : (7 + r.len).toNat = 7 + r.data.length := by
      rw [UInt8.toNat_add, Response.len_toNat]
      exact Nat.mod_eq_of_lt (by simp; omega)
    rw [if_pos short, Option.bind_eq_bind, Option.bind_some, index]
    by_cases inside : r.data.length ≤ 24
    · have bound : 7 + r.data.length < (firstPacket r).length := by
        rw [firstPacket_length r short, rawEpsize]
        omega
      rw [if_pos inside, List.getElem?_eq_getElem bound, Option.bind_some]
      dsimp only
      rw [if_neg (by rw [Response.len_toNat]; omega)]
      rfl
    · -- the checksum loop reads behind the buffer
      have behind : (firstPacket r).length ≤ 7 + r.data.length := by
        rw [firstPacket_length r short, rawEpsize]
        omega
      rw [if_neg inside, List.getElem?_eq_none behind]
      rfl
  · rw [if_neg short, if_neg (by omega)]
    rfl

theorem firstPacket_carried (r : Response) : carried [firstPacket r] = some r.data := by
  have announced : (firstPacket r).getD 3 0 = r.len := rfl
  have data : (firstPacket r).drop 7 = r.data ++ List.replicate (25 - r.data.length) 0 := by
    simp [firstPacket, List.drop_append]
  rw [carried, announced, data, Response.len_toNat]
  simp

theorem txExact_iff (usbEpsize : Nat) (r : Response) :
    TxExact usbEpsize r ↔ r.data.length ≤ 24 ∧ usbEpsize = rawEpsize := by
  rw [TxExact, lkbt51DfuTx_eq]
  by_cases short : r.data.length ≤ 24
  · rw [if_pos short, rawHidSend, firstPacket_length r (by omega)]
    by_cases same : rawEpsize = usbEpsize
    · rw [if_pos same]
      exact iff_of_true ⟨_, rfl, firstPacket_carried r⟩ ⟨short, same.symm⟩
    · -- the driver drops the packet
      rw [if_neg same]
      refine iff_of_false ?_ fun fits => same fits.2.symm
      rintro ⟨packets, sent, carries⟩
      obtain rfl := Option.some.inj sent
      cases carries
  · rw [if_neg short]
    refine iff_of_false ?_ fun fits => short fits.1
    rintro ⟨packets, sent, -⟩
    cases sent

/-- The bridge is safe in the direction to the module, and exact in the other. -/
theorem bridge_iff (usbEpsize : Nat) (s : State) (data : Buffer) (length : UInt8) (r : Response) :
    RxSafe s data length ∧ TxExact usbEpsize r ↔
      (Accepted data → packetHeaderLen + (data 2).toNat ≤ length.toNat) ∧
        r.data.length ≤ 24 ∧ usbEpsize = rawEpsize := by
  rw [rxSafe_iff, txExact_iff]

/-- The shortest response for which `lkbt51_dfu_tx` prepares a second packet. -/
def longResponse : Response := ⟨0xA3, List.replicate 26 0, 1, by simp⟩

theorem longResponse_overflows : lkbt51DfuTx rawEpsize longResponse = none ∧ ¬TxExact rawEpsize longResponse := by
  refine ⟨by decide, ?_⟩
  rintro ⟨packets, sent, -⟩
  cases sent

end QmkFirmware.Wireless.DfuBridge
