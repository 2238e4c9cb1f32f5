import Mathlib.Data.List.GetD
import QmkFirmware.Qmkata.PacketBounds

/-! # Upload of a dynamic function

The host cuts a code image into chunks, sends each in a zero-padded packet with its
offset, and then commits.  The firmware stores the 55 data bytes of a packet and the
byte behind it, whatever the length of the chunk; `upload_delivers_iff` says for which
images that still leaves the image in the buffer.
-/

namespace QmkFirmware.Qmkata

open QmkFirmware.Memory QmkFirmware.Traced

/-! ## What `load_function` does -/

section LoadFunction

variable (data : Nat → UInt8) (funId source offset len : Nat) (s : Firmware)

/-- Only the function that is loaded changes. -/
structure Loads (funId : Nat) (s next : Firmware) : Prop where
  calls : next.calls = s.calls
  others : ∀ other ≠ funId,
    next.dynldFuncBuf other = s.dynldFuncBuf other ∧ next.func other = s.func other

theorem Loads.refl {s : Firmware} : Loads funId s s := ⟨rfl, fun _ _ => ⟨rfl, rfl⟩⟩

theorem Loads.trans {funId : Nat} {s mid next : Firmware} (first : Loads funId s mid)
    (second : Loads funId mid next) : Loads funId s next := by
  refine ⟨second.calls.trans first.calls, fun other apart => ?_⟩
  obtain ⟨buffer, pointer⟩ := second.others other apart
  obtain ⟨buffer', pointer'⟩ := first.others other apart
  exact ⟨buffer.trans buffer', pointer.trans pointer'⟩

theorem loads_dynldFuncBufSet (bytes : List UInt8) :
    Loads funId s (dynldFuncBufSet funId offset bytes s).state := by
  refine ⟨rfl, fun other apart => ⟨?_, rfl⟩⟩
  simp [dynldFuncBufSet, Function.update_of_ne apart]

theorem loads_funcSet (pointer : Option Nat) : Loads funId s (funcSet funId pointer s).state := by
  refine ⟨rfl, fun other apart => ⟨rfl, ?_⟩⟩
  simp [funcSet, Function.update_of_ne apart]

@[simp] theorem funcSet_dynldFuncBuf (pointer : Option Nat) :
    (funcSet funId pointer s).state.dynldFuncBuf = s.dynldFuncBuf := rfl

@[simp] theorem dynldFuncBufSet_self (bytes : List UInt8) :
    (dynldFuncBufSet funId offset bytes s).state.dynldFuncBuf funId =
      blit (s.dynldFuncBuf funId) offset bytes := by
  simp [dynldFuncBufSet]

/-- The state and result of a chunk that is accepted. -/
theorem loadFunction_accepted (fits : offset + len ≤ dynldFuncSize) (known : funId < dynldFunIdMax)
    (several : 2 ≤ len) :
    (loadFunction data funId source offset len s).value = 0 ∧
      Loads funId s (loadFunction data funId source offset len s).state ∧
      (loadFunction data funId source offset len s).state.dynldFuncBuf funId =
        if offset = 0 then
          if slice data source 2 = [0, 0] then
            blit (s.dynldFuncBuf funId) 0 (List.replicate dynldFuncSize 0)
          else
            blit (blit (s.dynldFuncBuf funId) 0 (List.replicate dynldFuncSize 0)) 0 (slice data source len)
        else blit (s.dynldFuncBuf funId) offset (slice data source len) := by
  -- an offset that fits cannot be taken for a commit
  have small : offset ≠ 0xFFFF := by
    rw [dynldFuncSize] at fits
    omega
  have cleared : Loads funId s (clearFunction funId (funcSet funId none s).state).state :=
    (loads_funcSet funId s none).trans (loads_dynldFuncBufSet funId 0 _ _)
  rw [loadFunction, if_neg small, if_neg (Nat.not_lt.mpr fits), if_neg (Nat.not_le.mpr known)]
  by_cases first : offset = 0
  · subst first
    -- the function is cleared before the first two bytes are looked at
    let blank := (clearFunction funId (funcSet funId none s).state).state
    simp only [if_pos several, bind_value, bind_state, if_true]
    by_cases front : slice data source 2 = [0, 0]
    · have seen : (readBytes data source 2 blank).value = [0, 0] := front
      rw [if_pos seen, if_pos front]
      exact ⟨rfl, cleared, dynldFuncBufSet_self ..⟩
    · have seen : (readBytes data source 2 blank).value ≠ [0, 0] := front
      rw [if_neg seen, if_neg front]
      refine ⟨rfl, cleared.trans (loads_dynldFuncBufSet ..), ?_⟩
      exact (dynldFuncBufSet_self ..).trans (by simp [clearFunction])
  · rw [if_neg first, if_neg first]
    exact ⟨rfl, loads_dynldFuncBufSet .., dynldFuncBufSet_self ..⟩

theorem loadFunction_rejected (late : offset ≠ 0xFFFF) (large : dynldFuncSize < offset + len) :
    (loadFunction data funId source offset len s).value = -1 ∧
      Loads funId s (loadFunction data funId source offset len s).state := by
  rw [loadFunction, if_neg late, if_pos large]
  exact ⟨rfl, (loads_dynldFuncBufSet funId 0 s _).trans (loads_funcSet funId _ none)⟩

theorem loadFunction_commit :
    (loadFunction data funId source 0xFFFF len s).value = 0 ∧
      Loads funId s (loadFunction data funId source 0xFFFF len s).state ∧
      (loadFunction data funId source 0xFFFF len s).state.dynldFuncBuf = s.dynldFuncBuf := by
  rw [loadFunction, if_pos rfl]
  simp only [bind_value, bind_state]
  split
  next => exact ⟨rfl, loads_funcSet .., rfl⟩
  next => exact ⟨rfl, .refl funId, rfl⟩

end LoadFunction

/-! ## The host's packets -/

/-- A load message in a packet padded with zeros, and the memory behind the packet. -/
def loadPacket (seqnum : UInt8) (funId offset : Nat) (chunk : List UInt8) (behind : Nat → UInt8)
    (i : Nat) : UInt8 :=
  if i < rawEpsizeQmkata then
    ([rawhidQmkataMsg, rawSysexStart, qmkataCmdSet, seqnum, qmkataIdDynldFunction] ++
      toBytes 2 funId ++ toBytes 2 offset ++ chunk).getD i 0
  else behind i

/-- The payloads of the messages sent to the host. -/
def responses (s : Firmware) : List (List UInt8) :=
  s.calls.filterMap fun
    | .sendSysex _ payload => some payload
    | _ => none

theorem word16_toBytes {value : Nat} (narrow : value < 2 ^ 16) :
    word16 (UInt8.ofNat value) (UInt8.ofNat (value / 2 ^ 8)) = value := by
  simp [word16]
  omega

section Packet

variable {env : Environment} {seqnum : UInt8} {funId offset : Nat} {chunk : List UInt8}
  {behind : Nat → UInt8} {s : Firmware}

theorem loadPacket_data {k : Nat} (inside : k < 55) :
    loadPacket seqnum funId offset chunk behind (9 + k) = chunk.getD k 0 := by
  have packet : 9 + k < rawEpsizeQmkata := by rw [rawEpsizeQmkata]; omega
  rw [loadPacket, if_pos packet, List.getD_append_right _ _ _ _ (by simp [toBytes])]
  simp [toBytes]

theorem loadPacket_behind : loadPacket seqnum funId offset chunk behind (9 + 55) = behind 64 := rfl

/-- A load message reaches `load_function`, which is told of one byte too many. -/
theorem recv_loadPacket (known : funId < 2 ^ 16) (narrow : offset < 2 ^ 16) :
    (qmkataRecvData env (loadPacket seqnum funId offset chunk behind) 64 s).state =
      let result := loadFunction (loadPacket seqnum funId offset chunk behind) funId 9 offset 56
        (startOnce s).state
      (respond [seqnum, qmkataIdDynldFunction, if result.value = 0 then 0 else 0xFF] result.state).state := by
  let data := loadPacket seqnum funId offset chunk behind
  have start : data 1 = rawSysexStart := rfl
  have cmd : data 2 = qmkataCmdSet := rfl
  have id : data 4 = qmkataIdDynldFunction := rfl
  have function : word16 (data 5) (data 6) = funId := word16_toBytes known
  have place : word16 (data 7) (data 8) = offset := word16_toBytes narrow
  have handled : qmkataCmdSet ≠ reportFirmware := by decide
  have dispatched : (qmkataRecvData env data 64 s).state =
      (handleCmdSetDynldFunction data (data 3) 60 5 (startOnce s).state).state := by
    simp [qmkataRecvData, start, cmd, handled, qmkataSysexHandler, id, qmkataIdDynldFunction, qmkataIdCli,
      qmkataIdRgbMatrixBuf, qmkataIdDefaultLayer, qmkataIdMacwinMode]
  refine dispatched.trans ?_
  simp only [handleCmdSetDynldFunction, bind_state, readByte_run, subtractHeader_run, function, place]
  rfl

/-- What the transmission of one load message changes. -/
structure Received (funId : Nat) (report : List UInt8) (s next : Firmware) : Prop where
  responses : responses next = responses s ++ [report]
  others : ∀ other ≠ funId,
    next.dynldFuncBuf other = s.dynldFuncBuf other ∧ next.func other = s.func other

theorem responses_startOnce : responses (startOnce s).state = responses s := by
  simp only [startOnce, update_run]
  split
  next => rfl
  next => simp [responses]

theorem startOnce_keeps : (startOnce s).state.dynldFuncBuf = s.dynldFuncBuf ∧ (startOnce s).state.func = s.func := by
  simp only [startOnce, update_run]
  split
  next => exact ⟨rfl, rfl⟩
  next => exact ⟨rfl, rfl⟩

theorem Loads.received {next : Firmware} (loads : Loads funId (startOnce s).state next) (report : List UInt8) :
    Received funId report s (respond report next).state := by
  obtain ⟨buffers, pointers⟩ := startOnce_keeps (s := s)
  refine ⟨?_, fun other apart => ?_⟩
  · rw [← responses_startOnce (s := s)]
    simp [responses, respond, call, loads.calls]
  · obtain ⟨buffer, pointer⟩ := loads.others other apart
    exact ⟨buffer.trans (congrFun buffers other), pointer.trans (congrFun pointers other)⟩

/-- The firmware after a load message. -/
abbrev afterLoad (env : Environment) (seqnum : UInt8) (funId offset : Nat) (chunk : List UInt8)
    (behind : Nat → UInt8) (s : Firmware) : Firmware :=
  (qmkataRecvData env (loadPacket seqnum funId offset chunk behind) 64 s).state

theorem afterLoad_received (known : funId < dynldFunIdMax) (narrow : offset < 0xFFFF) :
    Received funId [seqnum, qmkataIdDynldFunction, if offset + 56 ≤ dynldFuncSize then 0 else 0xFF] s
      (afterLoad env seqnum funId offset chunk behind s) := by
  have small : funId < 2 ^ 16 := Nat.lt_of_lt_of_le known (by decide)
  rw [afterLoad, recv_loadPacket small (by omega)]
  by_cases fits : offset + 56 ≤ dynldFuncSize
  · obtain ⟨value, loads, -⟩ := loadFunction_accepted (loadPacket seqnum funId offset chunk behind) funId 9
      offset 56 (startOnce s).state fits known (by decide)
    simp only [value, if_pos fits]
    exact loads.received _
  · obtain ⟨value, loads⟩ := loadFunction_rejected (loadPacket seqnum funId offset chunk behind) funId 9
      offset 56 (startOnce s).state (Nat.ne_of_lt narrow) (Nat.not_le.mp fits)
    simp only [value, if_neg fits]
    exact loads.received _

theorem afterLoad_commit (known : funId < dynldFunIdMax) :
    Received funId [seqnum, qmkataIdDynldFunction, 0] s
        (afterLoad env seqnum funId 0xFFFF chunk behind s) ∧
      (afterLoad env seqnum funId 0xFFFF chunk behind s).dynldFuncBuf funId = s.dynldFuncBuf funId := by
  rw [dynldFunIdMax] at known
  obtain ⟨value, loads, same⟩ := loadFunction_commit (loadPacket seqnum funId 0xFFFF chunk behind) funId 9
    56 (startOnce s).state
  rw [afterLoad, recv_loadPacket (by omega) (by omega)]
  simp only [value]
  exact ⟨loads.received _, congrFun (same.trans startOnce_keeps.1) funId⟩

/-- The buffer holds `front` and then zeros, but for one stray byte. -/
def Holds (buffer : Nat → UInt8) (front : List UInt8) (stray : Nat) (byte : UInt8) : Prop :=
  ∀ i < dynldFuncSize, buffer i = if i = stray then byte else front.getD i 0

/-- The chunk clears the function instead of being stored. -/
def Erases (chunk : List UInt8) : Prop := chunk.getD 0 0 = 0 ∧ chunk.getD 1 0 = 0

instance (chunk : List UInt8) : Decidable (Erases chunk) := inferInstanceAs (Decidable (_ ∧ _))

theorem erases_iff :
    slice (loadPacket seqnum funId offset chunk behind) 9 2 = [0, 0] ↔ Erases chunk := by
  have first : loadPacket seqnum funId offset chunk behind 9 = chunk.getD 0 0 :=
    loadPacket_data (k := 0) (by decide)
  have second : loadPacket seqnum funId offset chunk behind 10 = chunk.getD 1 0 :=
    loadPacket_data (k := 1) (by decide)
  simp [slice, first, second, Erases]

theorem holds_cleared (buffer : Nat → UInt8) (count stray : Nat) :
    Holds (blit buffer 0 (List.replicate dynldFuncSize 0)) (List.replicate count 0) stray 0 := by
  intro i inside
  have zero : ∀ n, (List.replicate n (0 : UInt8)).getD i 0 = 0 := fun n =>
    List.getElem?_getD_replicate_default_eq 0 n i
  rw [blit_inside 0 (Nat.zero_le i) (by simpa using inside), Nat.sub_zero, zero, zero, ite_self]

/-- A stored chunk covers the stray byte of the one before it and leaves its own. -/
theorem Holds.store {buffer : Nat → UInt8} {front : List UInt8} {stray : Nat} {byte : UInt8}
    (held : Holds buffer front stray byte) (behindFront : front.length ≤ stray)
    (covered : stray ≤ front.length + 55) (short : chunk.length ≤ 55) :
    Holds (blit buffer front.length (slice (loadPacket seqnum funId offset chunk behind) 9 56))
      (front ++ chunk) (front.length + 55) (behind 64) := by
  intro i inside
  by_cases before : i < front.length
  · rw [blit_of_lt before, held i inside, if_neg (by omega), if_neg (by omega),
      List.getD_append _ _ _ _ before]
  -- in front of the chunk, behind the bytes of its packet, or among them
  by_cases after : front.length + 56 ≤ i
  · rw [blit_of_ge (by simpa using after), held i inside, if_neg (by omega), if_neg (by omega),
      List.getD_eq_default _ _ (by omega), List.getD_eq_default _ _ (by simp; omega)]
  · rw [blit_inside 0 (by omega) (by simp; omega), getD_slice _ (by omega)]
    -- the last of the 56 bytes comes from behind the packet
    by_cases last : i = front.length + 55
    · subst last
      rw [if_pos rfl, Nat.add_sub_cancel_left, loadPacket_behind]
    · rw [if_neg last, loadPacket_data (by omega), List.getD_append_right _ _ _ _ (by omega)]

/-- The first chunk replaces what was there, or clears it. -/
theorem afterLoad_first (known : funId < dynldFunIdMax) (short : chunk.length ≤ 55) :
    Holds ((afterLoad env seqnum funId 0 chunk behind s).dynldFuncBuf funId)
      (if Erases chunk then List.replicate chunk.length 0 else chunk) 55
      (if Erases chunk then 0 else behind 64) := by
  obtain ⟨-, -, buffer⟩ := loadFunction_accepted (loadPacket seqnum funId 0 chunk behind) funId 9 0
    56 (startOnce s).state (by decide) known (by decide)
  have small : funId < 2 ^ 16 := Nat.lt_of_lt_of_le known (by decide)
  rw [afterLoad, recv_loadPacket small (by omega)]
  change Holds ((loadFunction _ funId 9 0 56 (startOnce s).state).state.dynldFuncBuf funId) _ _ _
  rw [buffer, if_pos rfl]
  by_cases erases : Erases chunk
  · rw [if_pos (erases_iff.mpr erases), if_pos erases, if_pos erases]
    exact holds_cleared _ _ _
  · rw [if_neg (mt erases_iff.mp erases), if_neg erases, if_neg erases]
    exact (holds_cleared _ 0 0).store (Nat.le_refl _) (by decide) short

theorem afterLoad_later (known : funId < dynldFunIdMax) (short : chunk.length ≤ 55) {front : List UInt8}
    {stray : Nat} {byte : UInt8} (held : Holds (s.dynldFuncBuf funId) front stray byte)
    (started : front ≠ []) (fits : front.length + 56 ≤ dynldFuncSize) (behindFront : front.length ≤ stray)
    (covered : stray ≤ front.length + 55) :
    Holds ((afterLoad env seqnum funId front.length chunk behind s).dynldFuncBuf funId) (front ++ chunk)
      (front.length + 55) (behind 64) := by
  have later : front.length ≠ 0 := by simpa using started
  obtain ⟨-, -, buffer⟩ := loadFunction_accepted (loadPacket seqnum funId front.length chunk behind) funId
    9 front.length 56 (startOnce s).state fits known (by decide)
  have small : funId < 2 ^ 16 := Nat.lt_of_lt_of_le known (by decide)
  rw [dynldFuncSize] at fits
  rw [afterLoad, recv_loadPacket small (by omega)]
  change Holds ((loadFunction _ funId 9 _ 56 (startOnce s).state).state.dynldFuncBuf funId) _ _ _
  rw [buffer, if_neg later, startOnce_keeps.1]
  exact held.store behindFront covered short

end Packet

/-! ## Uploads -/

/-- A chunk on its way, with the memory behind the packet in which it arrives. -/
structure Transfer where
  seqnum : UInt8
  chunk : List UInt8
  behind : Nat → UInt8
  filled : chunk ≠ []
  short : chunk.length ≤ 55

def image (transfers : List Transfer) : List UInt8 := transfers.flatMap Transfer.chunk

def report (seqnum : UInt8) (code : UInt8) : List UInt8 := [seqnum, qmkataIdDynldFunction, code]

section Upload

variable (env : Environment) (funId : Nat)

def sendChunks : Nat → List Transfer → Firmware → Firmware
  | _, [], s => s
  | offset, transfer :: rest, s =>
    sendChunks (offset + transfer.chunk.length) rest
      (afterLoad env transfer.seqnum funId offset transfer.chunk transfer.behind s)

/-- All chunks from the beginning of the image on, and the commit message. -/
def upload (transfers : List Transfer) (commit : UInt8) (behind : Nat → UInt8) (s : Firmware) : Firmware :=
  afterLoad env commit funId 0xFFFF [] behind (sendChunks env funId 0 transfers s)

/-- Every call reports success, the buffer holds the image and then zeros, and no
    other function is touched. -/
structure Delivered (transfers : List Transfer) (commit : UInt8) (s final : Firmware) : Prop where
  accepted : responses final =
    responses s ++ (transfers.map Transfer.seqnum ++ [commit]).map fun seqnum => report seqnum 0
  stored : slice (final.dynldFuncBuf funId) 0 dynldFuncSize =
    image transfers ++ List.replicate (dynldFuncSize - (image transfers).length) 0
  others : ∀ other ≠ funId,
    final.dynldFuncBuf other = s.dynldFuncBuf other ∧ final.func other = s.func other

/-- A whole packet fits behind every chunk's offset. -/
def Fits : Nat → List Transfer → Prop
  | _, [] => True
  | offset, transfer :: rest =>
    offset + 56 ≤ dynldFuncSize ∧ Fits (offset + transfer.chunk.length) rest

/-- The images that arrive: each packet fits, the first chunk is not dropped unless it
    is all zeros, and the byte behind the last packet that is stored is zero. -/
def Uploadable (buffer : Nat → UInt8) : List Transfer → Prop
  | [] => ∀ i < dynldFuncSize, buffer i = 0
  | first :: rest =>
    Fits 0 (first :: rest) ∧ (Erases first.chunk → ∀ byte ∈ first.chunk, byte = 0) ∧
      (rest = [] ∧ Erases first.chunk ∨ ((first :: rest).getLast (List.cons_ne_nil _ _)).behind 64 = 0)

variable {env funId}

/-- What the firmware reports for each chunk. -/
def reports : Nat → List Transfer → List (List UInt8)
  | _, [] => []
  | offset, transfer :: rest =>
    report transfer.seqnum (if offset + 56 ≤ dynldFuncSize then 0 else 0xFF) ::
      reports (offset + transfer.chunk.length) rest

theorem reports_eq_iff {offset : Nat} {transfers : List Transfer} :
    reports offset transfers = transfers.map (fun transfer => report transfer.seqnum 0) ↔
      Fits offset transfers := by
  induction transfers generalizing offset with
  | nil => simp [reports, Fits]
  | cons transfer rest ih =>
    rw [reports, List.map_cons, List.cons.injEq, ih, Fits]
    by_cases fits : offset + 56 ≤ dynldFuncSize
    · simp [fits]
    · simp [fits, report]

theorem sendChunks_received (known : funId < dynldFunIdMax) {offset : Nat} {transfers : List Transfer}
    {s : Firmware} (small : offset + (image transfers).length ≤ dynldFuncSize) :
    responses (sendChunks env funId offset transfers s) = responses s ++ reports offset transfers ∧
      ∀ other ≠ funId, (sendChunks env funId offset transfers s).dynldFuncBuf other = s.dynldFuncBuf other ∧
        (sendChunks env funId offset transfers s).func other = s.func other := by
  induction transfers generalizing offset s with
  | nil => simp [sendChunks, reports]
  | cons transfer rest ih =>
    have narrow : offset < 0xFFFF := by
      rw [dynldFuncSize] at small
      omega
    have shorter : offset + transfer.chunk.length + (image rest).length ≤ dynldFuncSize := by
      simp only [image, List.flatMap_cons, List.length_append] at small ⊢
      omega
    let next := afterLoad env transfer.seqnum funId offset transfer.chunk transfer.behind s
    have first : Received funId _ s next := afterLoad_received known narrow
    obtain ⟨responses, others⟩ := ih (s := next) shorter
    refine ⟨?_, fun other apart => ?_⟩
    · rw [sendChunks, responses, first.responses, reports, List.append_assoc]
      rfl
    · obtain ⟨buffer, pointer⟩ := first.others other apart
      obtain ⟨buffer', pointer'⟩ := others other apart
      exact ⟨buffer'.trans buffer, pointer'.trans pointer⟩

/-- The byte behind the packet of the last chunk, or `byte` if there is none. -/
def lastByte (byte : UInt8) : List Transfer → UInt8
  | [] => byte
  | transfer :: rest => lastByte (transfer.behind 64) rest

theorem sendChunks_holds (known : funId < dynldFunIdMax) {transfers : List Transfer} {s : Firmware}
    {front : List UInt8} {stray : Nat} {byte : UInt8}
    (held : Holds (s.dynldFuncBuf funId) front stray byte) (started : front ≠ [])
    (fits : Fits front.length transfers) (behindFront : front.length ≤ stray)
    (covered : stray ≤ front.length + 55) (inside : stray < dynldFuncSize) :
    ∃ stray', (front ++ image transfers).length ≤ stray' ∧ stray' < dynldFuncSize ∧
      Holds ((sendChunks env funId front.length transfers s).dynldFuncBuf funId) (front ++ image transfers)
        stray' (lastByte byte transfers) := by
  induction transfers generalizing s front stray byte with
  | nil =>
    rw [image, List.flatMap_nil, List.append_nil]
    exact ⟨stray, behindFront, inside, held⟩
  | cons transfer rest ih =>
    obtain ⟨room, fits⟩ := fits
    let next := afterLoad env transfer.seqnum funId front.length transfer.chunk transfer.behind s
    have stored : Holds (next.dynldFuncBuf funId) _ _ _ :=
      afterLoad_later known transfer.short held started room behindFront covered
    have filled : 0 < transfer.chunk.length := List.length_pos_iff.mpr transfer.filled
    have short := transfer.short
    have length : (front ++ transfer.chunk).length = front.length + transfer.chunk.length := List.length_append
    -- the stray byte of this chunk lies within the next packet, or stays if there is none
    obtain ⟨stray', bound, inside', final⟩ := ih stored (by simp [started]) (by rwa [length]) (by omega)
      (by omega) (by omega)
    rw [List.append_assoc, length] at final
    rw [List.append_assoc] at bound
    exact ⟨stray', bound, inside', final⟩

theorem lastByte_eq (byte : UInt8) {transfers : List Transfer} (some : transfers ≠ []) :
    lastByte byte transfers = (transfers.getLast some).behind 64 := by
  induction transfers generalizing byte with
  | nil => exact absurd rfl some
  | cons transfer rest ih =>
    cases rest with
    | nil => rfl
    | cons second rest =>
      rw [lastByte, ih _ (List.cons_ne_nil _ _)]
      rfl

theorem stored_iff {buffer : Nat → UInt8} {bytes : List UInt8} (small : bytes.length ≤ dynldFuncSize) :
    slice buffer 0 dynldFuncSize = bytes ++ List.replicate (dynldFuncSize - bytes.length) 0 ↔
      ∀ i < dynldFuncSize, buffer i = bytes.getD i 0 := by
  have length : (bytes ++ List.replicate (dynldFuncSize - bytes.length) 0).length = dynldFuncSize := by
    simp
    omega
  have padded : ∀ i, (bytes ++ List.replicate (dynldFuncSize - bytes.length) 0).getD i 0 = bytes.getD i 0 := by
    intro i
    by_cases inside : i < bytes.length
    · rw [List.getD_append _ _ _ _ inside]
    · rw [List.getD_append_right _ _ _ _ (by omega), List.getD_eq_default bytes _ (by omega)]
      exact List.getElem?_getD_replicate_default_eq 0 _ _
  rw [slice_eq_iff 0 length]
  simp only [padded, Nat.zero_add]

/-- The first chunk decides whether the image is complete, the last one whether the
    rest of the buffer is zero. -/
theorem Holds.complete_iff {buffer : Nat → UInt8} {front rest chunk : List UInt8} {stray : Nat}
    {byte : UInt8} (held : Holds buffer (front ++ rest) stray byte) (same : front.length = chunk.length)
    (beyond : (front ++ rest).length ≤ stray) (inside : stray < dynldFuncSize) :
    (∀ i < dynldFuncSize, buffer i = (chunk ++ rest).getD i 0) ↔ front = chunk ∧ byte = 0 := by
  rw [List.length_append] at beyond
  constructor
  · intro complete
    refine ⟨List.ext_getElem? fun i => ?_, ?_⟩
    · by_cases early : i < front.length
      · have found := (held i (by omega)).symm.trans (complete i (by omega))
        rw [if_neg (by omega), List.getD_append _ _ _ _ early, List.getD_append _ _ _ _ (by omega)] at found
        rw [List.getElem?_eq_getElem early, List.getElem?_eq_getElem (by omega)]
        simpa [List.getD_eq_getElem?_getD, early, same ▸ early] using found
      · rw [List.getElem?_eq_none (by omega), List.getElem?_eq_none (by omega)]
    · have found := (held stray inside).symm.trans (complete stray inside)
      rwa [if_pos rfl, List.getD_eq_default _ _ (by simp; omega)] at found
  · intro ⟨equal, zero⟩ i bound
    subst equal zero
    rw [held i bound]
    split
    next at_stray => rw [List.getD_eq_default _ _ (by simp; omega)]
    next => rfl

/-- An upload, up to the commit message, which reports success and changes no buffer. -/
theorem upload_delivered_iff (known : funId < dynldFunIdMax) {transfers : List Transfer}
    (small : (image transfers).length ≤ dynldFuncSize) {commit : UInt8} {behind : Nat → UInt8} {s : Firmware} :
    Delivered funId transfers commit s (upload env funId transfers commit behind s) ↔
      Fits 0 transfers ∧ ∀ i < dynldFuncSize,
        (sendChunks env funId 0 transfers s).dynldFuncBuf funId i = (image transfers).getD i 0 := by
  let sent := sendChunks env funId 0 transfers s
  let final := upload env funId transfers commit behind s
  have total : 0 + (image transfers).length ≤ dynldFuncSize := by rwa [Nat.zero_add]
  obtain ⟨received, others⟩ : responses sent = responses s ++ reports 0 transfers ∧ _ :=
    sendChunks_received known total
  obtain ⟨committed, same⟩ : Received funId (report commit 0) sent final ∧
      final.dynldFuncBuf funId = sent.dynldFuncBuf funId := afterLoad_commit known
  have answered : responses final = responses s ++ reports 0 transfers ++ [report commit 0] := by
    rw [committed.responses, received]
  have accepted : (responses final =
      responses s ++ (transfers.map Transfer.seqnum ++ [commit]).map fun seqnum => report seqnum 0) ↔
        Fits 0 transfers := by
    rw [answered, List.append_assoc, List.map_append, List.map_map, List.append_cancel_left_eq,
      List.map_singleton, List.append_cancel_right_eq, ← reports_eq_iff]
    rfl
  rw [← accepted, ← stored_iff small]
  change Delivered funId transfers commit s final ↔ _ ∧ slice (sent.dynldFuncBuf funId) 0 dynldFuncSize = _
  rw [← same]
  constructor
  · intro delivered
    exact ⟨delivered.accepted, delivered.stored⟩
  · intro ⟨accepted, stored⟩
    refine ⟨accepted, stored, fun other apart => ?_⟩
    obtain ⟨buffer, pointer⟩ := others other apart
    obtain ⟨buffer', pointer'⟩ := committed.others other apart
    exact ⟨buffer'.trans buffer, pointer'.trans pointer⟩

/-- The chunks of an image arrive if and only if every packet fits the buffer, the
    first chunk is not taken for an erase request unless it is all zeros, and the byte
    behind the last stored packet is zero. -/
theorem upload_delivers_iff (known : funId < dynldFunIdMax) (transfers : List Transfer)
    (small : (image transfers).length ≤ dynldFuncSize) (commit : UInt8) (behind : Nat → UInt8) (s : Firmware) :
    Delivered funId transfers commit s (upload env funId transfers commit behind s) ↔
      Uploadable (s.dynldFuncBuf funId) transfers := by
  rw [upload_delivered_iff known small]
  cases transfers with
  | nil => simp [Uploadable, Fits, sendChunks, image]
  | cons first rest =>
    rw [Uploadable]
    refine and_congr_right fun fits => ?_
    -- an erasing chunk counts as zeros; the image is complete if it consists of them
    let front := if Erases first.chunk then List.replicate first.chunk.length 0 else first.chunk
    have length : front.length = first.chunk.length := by
      simp only [front]
      split <;> simp
    have filled : 0 < first.chunk.length := List.length_pos_iff.mpr first.filled
    have short := first.short
    let next := afterLoad env first.seqnum funId 0 first.chunk first.behind s
    have held : Holds (next.dynldFuncBuf funId) front 55 (if Erases first.chunk then 0 else first.behind 64) :=
      afterLoad_first known first.short
    obtain ⟨stray, beyond, inside, final⟩ := sendChunks_holds known held
      (List.ne_nil_of_length_pos (by omega)) (by rw [length]; simpa using fits.2) (by omega) (by omega) (by decide)
    have sent : sendChunks env funId 0 (first :: rest) s = sendChunks env funId front.length rest next := by
      rw [sendChunks, length, Nat.zero_add]
    have whole : image (first :: rest) = first.chunk ++ image rest := List.flatMap_cons
    rw [sent, whole, final.complete_iff length beyond inside]
    refine and_congr ?_ ?_
    · simp only [front]
      split
      next erases => simp [erases, eq_comm, List.eq_replicate_iff]
      next stores => simp [stores]
    · cases rest with
      | nil =>
        by_cases erases : Erases first.chunk
        · simp [lastByte, erases]
        · simp [lastByte, erases]
      | cons second rest => simp [lastByte_eq _ (List.cons_ne_nil second rest)]

end Upload

/-- `bx lr`, the shortest function there is. -/
def returnOnly : List Transfer := [⟨1, [0x70, 0x47], fun _ => 0, by decide, by decide⟩]

theorem returnOnly_delivered :
    dynldFunIdExec < dynldFunIdMax ∧ (image returnOnly).length ≤ dynldFuncSize ∧
      Delivered dynldFunIdExec returnOnly 2 blankFirmware
        (upload quietEnvironment dynldFunIdExec returnOnly 2 (fun _ => 0) blankFirmware) :=
  ⟨by decide, by decide, (upload_delivers_iff (by decide) returnOnly (by decide) 2 (fun _ => 0)
    blankFirmware).mpr ⟨⟨by decide, trivial⟩, fun erases => absurd erases (by decide), .inr rfl⟩⟩

/-- Eighteen full packets and one byte: the packet of the last byte no longer fits. -/
def nearlyFull : List Transfer :=
  List.replicate 18 ⟨1, List.replicate 55 1, fun _ => 0, by decide, by decide⟩ ++
    [⟨2, [1], fun _ => 0, by decide, by decide⟩]

theorem nearlyFull_not_delivered :
    dynldFunIdExec < dynldFunIdMax ∧ (image nearlyFull).length ≤ dynldFuncSize ∧
      ¬ Delivered dynldFunIdExec nearlyFull 3 blankFirmware
        (upload quietEnvironment dynldFunIdExec nearlyFull 3 (fun _ => 0) blankFirmware) := by
  have small : (image nearlyFull).length ≤ dynldFuncSize := by decide +kernel
  refine ⟨by decide, small, fun delivered => ?_⟩
  have fits : Fits 0 nearlyFull := ((upload_delivered_iff (by decide) small).mp delivered).1
  revert fits
  simp [nearlyFull, List.replicate, Fits, dynldFuncSize]

end QmkFirmware.Qmkata
