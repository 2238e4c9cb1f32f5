import Mathlib.Data.List.Basic
import Mathlib.Data.UInt
import QmkFirmware.Foundations.Runs
import QmkFirmware.Wireless.Events

/-! # The receiver of the LKBT51 module

A shallow embedding of `lkbt51_task`.  A read fills a buffer of 64 bytes; since the code
may look behind it, a buffer is a function that also gives the bytes of the stack that
follow.  The first part of a read is a status register, the second part may hold a packet.
-/

namespace QmkFirmware.Wireless

open QmkFirmware.Runs

abbrev Buffer := Nat → UInt8

def bufferSize : Nat := 64

/-- A packet as `lkbt51_event_handler` gets it. -/
structure Packet where
  evtType : UInt8
  data : Buffer
  len : UInt8
  sn : UInt8

/-- What the receiver asks of the rest of the firmware. -/
inductive ReceiverCall where
  | enqueue (event : WirelessEvent)
  | sendConnEvtAck
  | batteryCalculateVoltage (value : UInt16)
  | eventHandler (packet : Packet)

/-- The static variables. -/
structure Receiver where
  waitForNewPkt : Bool
  len : UInt8
  sn : UInt8
  connectionInterval : UInt16

def Receiver.start : Receiver := ⟨true, 0xff, 0, 1⟩

/-! ## Status register -/

def evtMskConnection : UInt8 := 0x01
def evtMskLed : UInt8 := 0x02
def evtMskBatt : UInt8 := 0x04
def evtMskReset : UInt8 := 0x08
def evtMskRptInterval : UInt8 := 0x10

/-- The type of a connection event; other values keep the type that the event has. -/
def connectionEventType (state : UInt8) (current : EventType) : EventType :=
  if state = 0x20 then .connected
  else if state = 0x21 then .discoverable
  else if state = 0x22 then .reconnecting
  else if state = 0x23 then .disconnected
  else if state = 0x24 then .btPincodeEntry
  else if state = 0x25 then .exitBtPincodeEntry
  else if state = 0x26 then .sleep
  else current

/-- The connection interval in milliseconds. -/
def reportInterval (value : UInt8) : UInt16 :=
  let interval := if value &&& 0x80 ≠ 0 then (value &&& 0x7F).toUInt32 * 1250
    else (value &&& 0x7F).toUInt32 * 125
  let connectionInterval := (interval / 1000).toUInt16
  if 7 < connectionInterval then connectionInterval / 3 else connectionInterval

def isProtocolVersion (pbuf : Buffer) : Bool :=
  pbuf 0 = 0xAA ∧ pbuf 1 = 0x54 ∧ pbuf 4 = ~~~0x54 ∧ pbuf 5 = ~~~0xAA

/-- The calls for the status register, and the connection interval after them. -/
def statusRegister (pbuf : Buffer) (interval : UInt16) : List ReceiverCall × UInt16 :=
  if isProtocolVersion pbuf then ([], interval)
  else if pbuf 0 = 0xAA then
    let evtMask := pbuf 1
    let event : WirelessEvent := if evtMask &&& evtMskReset ≠ 0 then ⟨.reset, pbuf 2⟩ else ⟨.none, 0⟩
    let reset := if evtMask &&& evtMskReset ≠ 0 then [.enqueue event] else []
    let connection := if evtMask &&& evtMskConnection ≠ 0 then
      [.sendConnEvtAck, .enqueue ⟨connectionEventType (pbuf 2) event.evtType, pbuf 3⟩] else []
    let led := if evtMask &&& evtMskLed ≠ 0 then [.enqueue ⟨.hidIndicator, pbuf 4⟩] else []
    let newInterval := if evtMask &&& evtMskRptInterval ≠ 0 then reportInterval (pbuf 8) else interval
    let rptInterval := if evtMask &&& evtMskRptInterval ≠ 0 then
      [.enqueue ⟨.conectionInterval, newInterval.toUInt8⟩] else []
    let batt := if evtMask &&& evtMskBatt ≠ 0 then
      [.batteryCalculateVoltage ((pbuf 6).toUInt16 <<< 8 ||| (pbuf 5).toUInt16)] else []
    (reset ++ connection ++ led ++ rptInterval ++ batt, newInterval)
  else ([], interval)

/-! ## Packets -/

def isHeader (buf : Buffer) (i : Nat) : Bool :=
  buf i = 0xAA ∧ buf (i + 1) = 0x57 ∧ ~~~buf (i + 2) = buf (i + 3)

/-- The variables of the packet part: the receiver, and the offset `pbuf` in the buffer. -/
def scanStep (buf : Buffer) (state : Receiver × Nat) (i : Nat) : Receiver × Nat :=
  if isHeader buf i then
    ({ state.1 with len := buf (i + 2), sn := buf (i + 4), waitForNewPkt := false }, i + 5)
  else state

/-- The places where a header may stand. -/
def scanned : List Nat := List.range' 10 (bufferSize - 5 - 10)

def scan (buf : Buffer) (r : Receiver) : Receiver × Nat :=
  if r.waitForNewPkt then scanned.foldl (scanStep buf) (r, 0) else (r, 0)

def checksum (buf : Buffer) (pbuf : Nat) (len : UInt8) : UInt16 :=
  (List.range (len.toNat - 2)).foldl (fun sum i => sum + (buf (pbuf + i)).toUInt16) 0

/-- The last two bytes are the checksum of the others. -/
def checksumValid (buf : Buffer) (pbuf : Nat) (len : UInt8) : Bool :=
  checksum buf pbuf len &&& 0xff = (buf (pbuf + len.toNat - 2)).toUInt16 ∧
    (checksum buf pbuf len >>> 8) &&& 0xff = (buf (pbuf + len.toNat - 1)).toUInt16

def packetAt (buf : Buffer) (pbuf : Nat) (len sn : UInt8) : Packet :=
  ⟨buf pbuf, fun k => buf (pbuf + 1 + k), len - 3, sn⟩

/-- The packet part of a read, with the packet that is handed to the event handler. -/
def receivePacket (buf : Buffer) (r : Receiver) : Receiver × Option Packet :=
  let (r, pbuf) := scan buf r
  if !r.waitForNewPkt ∧ r.len.toNat ≤ bufferSize - 5 then
    ({ r with waitForNewPkt := true },
      if checksumValid buf pbuf r.len then some (packetAt buf pbuf r.len r.sn) else none)
  else (r, none)

/-- The receiver after it has looked at the status register. -/
def Receiver.afterStatus (r : Receiver) (buf : Buffer) : Receiver :=
  { r with connectionInterval := (statusRegister (fun k => buf (4 + k)) r.connectionInterval).2 }

/-- The task with the contents of the buffer, or `none` while the interrupt pin is high. -/
def lkbt51Task (r : Receiver) : Option Buffer → Receiver × List ReceiverCall
  | none => (r, [])
  | some buf =>
    let (calls, _) := statusRegister (fun k => buf (4 + k)) r.connectionInterval
    let (r, packet) := receivePacket buf (r.afterStatus buf)
    (r, calls ++ packet.toList.map .eventHandler)

/-! ## One read -/

/-- The headers of a read; the last one wins. -/
def headers (buf : Buffer) : List Nat := scanned.filter (isHeader buf)

/-- A read whose last header announces more bytes than the buffer can hold. -/
def Oversized (buf : Buffer) : Prop :=
  ∃ i, (headers buf).getLast? = some i ∧ bufferSize - 5 < (buf (i + 2)).toNat

theorem scanStep_foldl (buf : Buffer) (state : Receiver × Nat) (indices : List Nat) :
    indices.foldl (scanStep buf) state =
      match (indices.filter (isHeader buf)).getLast? with
      | none => state
      | some i => ({ state.1 with len := buf (i + 2), sn := buf (i + 4), waitForNewPkt := false }, i + 5) := by
  induction indices using List.reverseRecOn with
  | nil => rfl
  | append_singleton indices i ih =>
    rw [List.foldl_append, ih, List.foldl_cons, List.foldl_nil, List.filter_append, scanStep]
    by_cases header : isHeader buf i = true
    · rw [if_pos header, List.filter_cons_of_pos header, List.filter_nil, List.getLast?_concat]
      split <;> rfl
    · rw [if_neg header, List.filter_cons_of_neg header, List.filter_nil, List.append_nil]

/-- Between reads the receiver only waits for a rest that never comes. -/
def Receiver.Sound (r : Receiver) : Prop := r.waitForNewPkt = false → bufferSize - 5 < r.len.toNat

@[simp] theorem afterStatus_waitForNewPkt (r : Receiver) (buf : Buffer) :
    (r.afterStatus buf).waitForNewPkt = r.waitForNewPkt := rfl

@[simp] theorem afterStatus_sound (r : Receiver) (buf : Buffer) :
    (r.afterStatus buf).Sound ↔ r.Sound := Iff.rfl

/-- What the packet part does, for a receiver that waits for a packet or does not. -/
inductive PacketStep (buf : Buffer) (r : Receiver) : Receiver × Option Packet → Prop where
  | closed (closed : r.waitForNewPkt = false) : PacketStep buf r (r, none)
  | nothing (waits : r.waitForNewPkt = true) (empty : headers buf = []) : PacketStep buf r (r, none)
  | oversized (waits : r.waitForNewPkt = true) (i : Nat) (last : (headers buf).getLast? = some i)
      (long : bufferSize - 5 < (buf (i + 2)).toNat) :
      PacketStep buf r ({ r with len := buf (i + 2), sn := buf (i + 4), waitForNewPkt := false }, none)
  | complete (waits : r.waitForNewPkt = true) (i : Nat) (last : (headers buf).getLast? = some i)
      (fits : (buf (i + 2)).toNat ≤ bufferSize - 5) :
      PacketStep buf r ({ r with len := buf (i + 2), sn := buf (i + 4), waitForNewPkt := true },
        if checksumValid buf (i + 5) (buf (i + 2)) then
          some (packetAt buf (i + 5) (buf (i + 2)) (buf (i + 4))) else none)

theorem receivePacket_step {r : Receiver} (sound : r.Sound) (buf : Buffer) :
    PacketStep buf r (receivePacket buf r) := by
  rw [receivePacket, scan]
  cases waits : r.waitForNewPkt with
  | false =>
    -- no scan: the receiver still waits for the rest of a packet that cannot fit
    have long := sound waits
    simp only [Bool.false_eq_true, if_false, waits, Bool.not_false, true_and, Nat.not_le.mpr long]
    exact .closed waits
  | true =>
    rw [if_pos rfl, scanStep_foldl]
    cases found : (headers buf).getLast? with
    | none =>
      have empty := List.getLast?_eq_none_iff.mp found
      rw [headers] at found
      simp only [found, waits, Bool.not_true, Bool.false_eq_true, false_and, if_false]
      exact .nothing waits empty
    | some i =>
      have last := found
      rw [headers] at found
      simp only [found, Bool.not_false, true_and]
      by_cases fits : (buf (i + 2)).toNat ≤ bufferSize - 5
      · rw [if_pos fits]
        exact .complete waits i last fits
      · -- the flag stays cleared, and the length is never looked at again
        rw [if_neg fits]
        exact .oversized waits i last (Nat.lt_of_not_le fits)

/-- The read hands the packet to the event handler. -/
def Dispatches (r : Receiver) (buf : Buffer) (packet : Packet) : Prop :=
  .eventHandler packet ∈ (lkbt51Task r (some buf)).2

theorem eventHandler_notMem_statusRegister (pbuf : Buffer) (interval : UInt16) (packet : Packet) :
    ReceiverCall.eventHandler packet ∉ (statusRegister pbuf interval).1 := by
  intro member
  simp only [statusRegister] at member
  split_ifs at member <;> simp at member

theorem dispatches_iff (r : Receiver) (buf : Buffer) (packet : Packet) :
    Dispatches r buf packet ↔
      (receivePacket buf (r.afterStatus buf)).2 = some packet := by
  rw [Dispatches, lkbt51Task, List.mem_append, or_iff_right (eventHandler_notMem_statusRegister _ _ _)]
  simp [Option.mem_toList]

section

variable {r : Receiver} (sound : r.Sound)

include sound

theorem task_sound (read : Option Buffer) : (lkbt51Task r read).1.Sound := by
  cases read with
  | none => exact sound
  | some buf =>
    rw [lkbt51Task]
    have step := receivePacket_step ((afterStatus_sound r buf).mpr sound) buf
    generalize receivePacket buf (r.afterStatus buf) = result at step ⊢
    cases step with
    | closed => exact sound
    | nothing => exact sound
    | oversized _ i _ long => exact fun _ => long
    | complete =>
      intro closed
      cases closed

/-- After a read the receiver waits for a packet, unless it did not before or the read is oversized. -/
theorem task_waits (buf : Buffer) :
    (lkbt51Task r (some buf)).1.waitForNewPkt = true ↔ r.waitForNewPkt = true ∧ ¬Oversized buf := by
  rw [lkbt51Task]
  have step := receivePacket_step ((afterStatus_sound r buf).mpr sound) buf
  generalize receivePacket buf (r.afterStatus buf) = result at step ⊢
  cases step with
  | closed closed =>
    rw [afterStatus_waitForNewPkt] at closed
    simp [closed]
  | nothing waits empty => simp [empty, Oversized]
  | oversized waits i last long => simp [long, Oversized, last]
  | complete waits i last fits =>
    rw [afterStatus_waitForNewPkt] at waits
    simp [fits, Oversized, last, waits]

/-- A receiver that does not wait for a packet never looks for one. -/
theorem not_dispatches (closed : r.waitForNewPkt = false) (buf : Buffer) (packet : Packet) :
    ¬Dispatches r buf packet := by
  rw [dispatches_iff]
  have step := receivePacket_step ((afterStatus_sound r buf).mpr sound) buf
  have same : (r.afterStatus buf).waitForNewPkt = false := closed
  generalize receivePacket buf (r.afterStatus buf) = result at step ⊢
  cases step with
  | closed => simp
  | nothing => simp
  | oversized => simp
  | complete waits =>
    rw [same] at waits
    cases waits

end

/-! ## Runs -/

/-- The receiver after the reads. -/
def Receiver.run (r : Receiver) (reads : List (Option Buffer)) : Receiver :=
  reads.foldl (fun r read => (lkbt51Task r read).1) r

theorem run_sound {r : Receiver} (sound : r.Sound) (reads : List (Option Buffer)) :
    (r.run reads).Sound :=
  @foldl_invariant _ _ (fun r read => (lkbt51Task r read).1) Receiver.Sound
    (fun _ read sound => task_sound sound read) r sound reads

theorem start_sound : Receiver.start.Sound := by
  intro closed
  cases closed

theorem run_waits {r : Receiver} (sound : r.Sound) (reads : List (Option Buffer)) :
    (r.run reads).waitForNewPkt = true ↔
      r.waitForNewPkt = true ∧ ∀ buf, some buf ∈ reads → ¬Oversized buf := by
  induction reads using List.reverseRecOn with
  | nil => simp [Receiver.run]
  | append_singleton reads read ih =>
    have last : r.run (reads ++ [read]) = (lkbt51Task (r.run reads) read).1 := by
      simp [Receiver.run]
    rw [last]
    cases read with
    | none => simp [lkbt51Task, ih]
    | some buf =>
      rw [task_waits (run_sound sound reads), ih]
      simp only [List.mem_append, List.mem_singleton, Option.some.injEq]
      constructor
      · rintro ⟨⟨waits, earlier⟩, fits⟩
        refine ⟨waits, fun other member => ?_⟩
        cases member with
        | inl before => exact earlier other before
        | inr same => exact same ▸ fits
      · rintro ⟨waits, every⟩
        exact ⟨⟨waits, fun other member => every other (.inl member)⟩, every buf (.inr rfl)⟩

/-! ## Wedged receivers -/

/-- A read that holds one complete packet, with the header at `i` and nothing else that
looks like a header. -/
structure Alone (buf : Buffer) (i : Nat) : Prop where
  only : headers buf = [i]
  within : i + 5 + (buf (i + 2)).toNat ≤ bufferSize
  valid : checksumValid buf (i + 5) (buf (i + 2)) = true

/-- Every packet that arrives alone is dispatched. -/
def Receptive (r : Receiver) : Prop :=
  ∀ buf i, Alone buf i → Dispatches r buf (packetAt buf (i + 5) (buf (i + 2)) (buf (i + 4)))

/-- Whatever is read from now on, no packet is dispatched any more. -/
def Deaf (r : Receiver) : Prop :=
  ∀ later buf packet, ¬Dispatches (r.run later) buf packet

theorem receptive_of_waits {r : Receiver} (waits : r.waitForNewPkt = true) : Receptive r := by
  intro buf i alone
  rw [dispatches_iff]
  have sound : r.Sound := by
    intro closed
    rw [waits] at closed
    cases closed
  -- the only header is the last one
  have last : (headers buf).getLast? = some i := by rw [alone.only]; rfl
  have step := receivePacket_step ((afterStatus_sound r buf).mpr sound) buf
  have same : (r.afterStatus buf).waitForNewPkt = true := waits
  generalize receivePacket buf (r.afterStatus buf) = result at step ⊢
  cases step with
  | closed closed =>
    rw [same] at closed
    cases closed
  | nothing _ empty =>
    rw [alone.only] at empty
    cases empty
  | oversized _ j there long =>
    obtain rfl : i = j := Option.some.inj (last.symm.trans there)
    have within := alone.within
    omega
  | complete _ j there =>
    obtain rfl : i = j := Option.some.inj (last.symm.trans there)
    rw [if_pos alone.valid]

theorem deaf_of_not_waits {r : Receiver} (sound : r.Sound) (closed : r.waitForNewPkt = false) :
    Deaf r := by
  intro later buf packet
  -- a receiver that is closed stays closed
  refine not_dispatches (run_sound sound later) ?_ buf packet
  rw [← Bool.not_eq_true, run_waits sound, closed]
  simp

/-- The packet with the event `event` and no data. -/
def shortPacket (event : UInt8) (k : Nat) : UInt8 :=
  [0xAA, 0x57, 3, 0xFC, 0, event, event, 0].getD (k - 10) 0

theorem shortPacket_alone : Alone (shortPacket 0xA1) 10 where
  only := by decide
  within := by decide
  valid := by decide

theorem not_deaf_of_receptive {r : Receiver} (receptive : Receptive r) : ¬Deaf r := by
  intro deaf
  exact deaf [] _ _ (receptive _ _ shortPacket_alone)

/-- The receiver takes packets as long as no read was oversized, and then none any more. -/
theorem receptive_iff (reads : List (Option Buffer)) :
    (Receptive (Receiver.start.run reads) ↔ ∀ buf, some buf ∈ reads → ¬Oversized buf) ∧
    (Deaf (Receiver.start.run reads) ↔ ¬∀ buf, some buf ∈ reads → ¬Oversized buf) := by
  have waits := run_waits start_sound reads
  rw [and_iff_right (show Receiver.start.waitForNewPkt = true from rfl)] at waits
  have sound := run_sound start_sound reads
  rw [← waits, Bool.not_eq_true]
  constructor
  · constructor
    · intro receptive
      by_contra closed
      exact not_deaf_of_receptive receptive (deaf_of_not_waits sound (Bool.not_eq_true _ ▸ closed))
    · exact receptive_of_waits
  · constructor
    · intro deaf
      by_contra open_
      exact not_deaf_of_receptive (receptive_of_waits (Bool.not_eq_false _ ▸ open_)) deaf
    · exact deaf_of_not_waits sound

/-- A header that announces 255 bytes. -/
def oversizedHeader (k : Nat) : UInt8 := [0xAA, 0x57, 0xFF, 0].getD (k - 10) 0

theorem oversizedHeader_wedges :
    ¬Receptive (Receiver.start.run [some oversizedHeader]) ∧
      Deaf (Receiver.start.run [some oversizedHeader]) := by
  have sound := run_sound start_sound [some oversizedHeader]
  have deaf : Deaf (Receiver.start.run [some oversizedHeader]) := deaf_of_not_waits sound (by decide)
  exact ⟨fun receptive => not_deaf_of_receptive receptive deaf, deaf⟩

end QmkFirmware.Wireless
