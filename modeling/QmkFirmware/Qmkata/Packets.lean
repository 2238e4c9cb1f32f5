import QmkFirmware.Qmkata.Framing

/-! # Packets on the wire

How `flush` cuts the transmit buffer into packets.  The id byte of a packet is written into the
buffer, where its header goes; `Sending.Intact` says that this only ever hits bytes that have been
sent before.
-/

namespace QmkFirmware.Qmkata

open QmkFirmware.Memory

/-- A packet of the fixed size that begins with the id byte. -/
def IsPacket (packet : List UInt8) : Prop :=
  packet.length = rawEpsizeQmkata ∧ packet.head? = some rawhidQmkataMsg

/-! ## Rounds of the send loop -/

/-- The variables of `_rawhid_send_data` at the head of its loop. -/
structure Sending where
  hdr : Nat
  len : Nat
  memory : Nat → UInt8
  packets : List (List UInt8)

/-- Before the first round the id byte is in front of the data. -/
def Sending.start (data len : Nat) (memory : Nat → UInt8) (packets : List (List UInt8)) : Sending :=
  ⟨data - 1, len, blit memory (data - 1) [rawhidQmkataMsg], packets⟩

/-- A round that is followed by another one: it sends a full packet and writes the next id byte. -/
inductive Sending.Round : Sending → Sending → Prop where
  | next (s : Sending) (more : rawEpsizeQmkata - 1 < s.len) :
      Round s ⟨s.hdr + (rawEpsizeQmkata - 1), s.len - (rawEpsizeQmkata - 1),
        blit s.memory (s.hdr + (rawEpsizeQmkata - 1)) [rawhidQmkataMsg],
        s.packets ++ [slice s.memory s.hdr rawEpsizeQmkata]⟩

/-- The bytes that are left are the last ones of the data, and the others have been sent. -/
structure Sending.Intact (data : List UInt8) (before : List (List UInt8)) (s : Sending) : Prop where
  left : s.len ≤ data.length
  unsent : slice s.memory (s.hdr + 1) s.len = data.drop (data.length - s.len)
  sent : payloads s.packets = payloads before ++ data.take (data.length - s.len)
  marked : s.memory s.hdr = rawhidQmkataMsg

namespace Sending

variable {s t : Sending} {data : List UInt8} {before : List (List UInt8)}

theorem Round.loop (round : Round s t) (fuel : Nat) :
    rawhidSendLoop (fuel + 1) s.hdr s.len s.memory s.packets =
      rawhidSendLoop fuel t.hdr t.len t.memory t.packets := by
  obtain ⟨more⟩ := round
  rw [rawEpsizeQmkata] at more
  have size : min rawEpsizeQmkata (s.len + 1) = rawEpsizeQmkata := Nat.min_eq_left (by rw [rawEpsizeQmkata]; omega)
  have rest : s.len - (rawEpsizeQmkata - 1) ≠ 0 := by rw [rawEpsizeQmkata]; omega
  rw [rawhidSendLoop, if_neg (by omega)]
  dsimp only
  rw [size, if_neg (Nat.lt_irrefl _), if_pos rest]

theorem start_intact {address len : Nat} (reserve : 0 < address) (memory : Nat → UInt8) :
    (start address len memory before).Intact (slice memory address len) before := by
  have size := length_slice memory address len
  constructor
  · exact size.ge
  · rw [size, start]
    dsimp only
    rw [Nat.sub_self, List.drop_zero, Nat.sub_add_cancel reserve,
      slice_blit_of_disjoint (by rw [List.length_singleton]; omega)]
  · rw [size, start]
    dsimp only
    rw [Nat.sub_self, List.take_zero, List.append_nil]
  · exact blit_here _ _ _

/-- The next id byte goes where the last byte of the packet was, which has been sent. -/
theorem Intact.round (intact : s.Intact data before) (round : Round s t) : t.Intact data before := by
  obtain ⟨more⟩ := round
  have left := intact.left
  rw [rawEpsizeQmkata] at more
  have front : slice s.memory (s.hdr + 1) s.len =
      slice s.memory (s.hdr + 1) 63 ++ slice s.memory (s.hdr + 64) (s.len - 63) := by
    rw [← slice_add, Nat.add_sub_cancel' (by omega : 63 ≤ s.len)]
  have cut : data.length - (s.len - 63) = data.length - s.len + 63 := by omega
  have unsent := intact.unsent
  rw [front] at unsent
  have first := congrArg (List.take 63) unsent
  have second := congrArg (List.drop 63) unsent
  rw [List.take_left' (length_slice _ _ _)] at first
  rw [List.drop_left' (length_slice _ _ _), List.drop_drop] at second
  constructor
  · exact Nat.le_trans (Nat.sub_le _ _) left
  · dsimp only [rawEpsizeQmkata]
    rw [slice_blit_of_disjoint (by rw [List.length_singleton]; omega), cut]
    exact second
  · dsimp only [rawEpsizeQmkata]
    rw [payloads, List.flatMap_append, List.flatMap_singleton, ← payloads, intact.sent, cut, List.append_assoc,
      List.take_add]
    exact congrArg (fun packet => payloads before ++ (data.take (data.length - s.len) ++ packet)) first
  · exact blit_here _ _ _

theorem Intact.rounds (intact : s.Intact data before) (rounds : Relation.ReflTransGen Round s t) :
    t.Intact data before := by
  induction rounds with
  | refl => exact intact
  | tail _ round ih => exact ih.round round

/-- What the loop computes it computes from every round on. -/
theorem loop_of_rounds (rounds : Relation.ReflTransGen Round s t) :
    ∃ fuel, rawhidSendLoop s.len s.hdr s.len s.memory s.packets = rawhidSendLoop fuel t.hdr t.len t.memory t.packets ∧
      t.len ≤ fuel := by
  induction rounds with
  | refl => exact ⟨s.len, rfl, Nat.le_refl _⟩
  | @tail mid last _ round ih =>
    obtain ⟨fuel, same, enough⟩ := ih
    have advanced := round.loop
    obtain ⟨more⟩ := round
    rw [rawEpsizeQmkata] at more
    obtain ⟨fuel, rfl⟩ : ∃ n, fuel = n + 1 := ⟨fuel - 1, by omega⟩
    refine ⟨fuel, same.trans (advanced fuel), ?_⟩
    dsimp only [rawEpsizeQmkata]
    omega

end Sending

/-! ## What is sent -/

theorem rawhidSendLoop_packets (fuel hdr len : Nat) {memory : Nat → UInt8} (packets : List (List UInt8))
    (marked : memory hdr = rawhidQmkataMsg) :
    ∃ sent, (rawhidSendLoop fuel hdr len memory packets).2 = packets ++ sent ∧ ∀ packet ∈ sent, IsPacket packet := by
  induction fuel generalizing hdr len memory packets with
  | zero => exact ⟨[], (List.append_nil _).symm, nofun⟩
  | succ fuel ih =>
    rw [rawhidSendLoop]
    split
    · exact ⟨[], (List.append_nil _).symm, nofun⟩
    · dsimp only
      split
      · rename_i short
        refine ⟨_, rfl, fun packet member => ?_⟩
        have size : min rawEpsizeQmkata (len + 1) = len + 1 := by omega
        rw [List.mem_singleton.mp member, size]
        refine ⟨?_, congrArg some marked⟩
        rw [List.length_append, length_slice, List.length_replicate]
        omega
      · have full : IsPacket (slice memory hdr rawEpsizeQmkata) := ⟨length_slice _ _ _, congrArg some marked⟩
        split
        · obtain ⟨sent, packed, shaped⟩ := ih (hdr + (min rawEpsizeQmkata (len + 1) - 1))
            (len - (min rawEpsizeQmkata (len + 1) - 1)) (packets ++ [slice memory hdr rawEpsizeQmkata])
            (blit_here _ _ _)
          refine ⟨slice memory hdr rawEpsizeQmkata :: sent, by rw [packed, List.append_assoc]; rfl, ?_⟩
          exact List.forall_mem_cons.mpr ⟨full, shaped⟩
        · refine ⟨_, rfl, fun packet member => ?_⟩
          rw [List.mem_singleton.mp member]
          exact full

/-- The state in which `flush` enters the send loop, with `len` bytes in the buffer. -/
def flushStart (memory : Nat → UInt8) (len : Nat) (packets : List (List UInt8)) : Sending :=
  .start txBufReserve len memory packets

/-- A flush sends the buffer in packets of the fixed size, each with the id byte, and pads the last
one with zeros; before every round the bytes that are left are still in the buffer. -/
theorem flush_packetises (memory : Nat → UInt8) (len : Nat) (txFlush : Bool) (packets : List (List UInt8)) :
    let stream : BufferStream := ⟨memory, len, 0, true, txFlush, packets⟩
    (∃ sent zeros, stream.flush.packets = packets ++ sent ∧ (∀ packet ∈ sent, IsPacket packet) ∧
        payloads sent = slice memory txBufReserve len ++ List.replicate zeros 0 ∧ zeros < rawEpsizeQmkata - 1) ∧
      ∀ t, Relation.ReflTransGen Sending.Round (flushStart memory len packets) t →
        (∃ fuel, stream.flush.packets = (rawhidSendLoop fuel t.hdr t.len t.memory t.packets).2 ∧ t.len ≤ fuel) ∧
          t.Intact (slice memory txBufReserve len) packets := by
  intro stream
  have flushed : stream.flush.packets = (rawhidSendLoop len (flushStart memory len packets).hdr len
      (flushStart memory len packets).memory packets).2 := by
    rw [BufferStream.flush, if_pos rfl]
    dsimp only [stream]
    split
    · rfl
    · rename_i empty
      rw [not_not.mp empty]
      rfl
  constructor
  · obtain ⟨sent, packed, shaped⟩ := rawhidSendLoop_packets len (flushStart memory len packets).hdr len packets
      (blit_here memory (txBufReserve - 1) rawhidQmkataMsg)
    have payload := rawhidSendData_payloads (by decide : 0 < txBufReserve) len memory packets
    refine ⟨sent, (63 - len % 63) % 63, flushed.trans packed, shaped, ?_, Nat.mod_lt _ (by decide)⟩
    have joined : payloads (packets ++ sent) = payloads packets ++ (slice memory txBufReserve len ++ padding len) := by
      rw [← packed]
      exact payload
    rw [payloads, List.flatMap_append] at joined
    exact List.append_cancel_left joined
  · intro t rounds
    obtain ⟨fuel, same, enough⟩ := Sending.loop_of_rounds rounds
    refine ⟨⟨fuel, flushed.trans (congrArg Prod.snd same), enough⟩, ?_⟩
    exact (Sending.start_intact (by decide) memory).rounds rounds

end QmkFirmware.Qmkata
