import Mathlib.Data.List.TakeWhile
import QmkFirmware.Qmkata.FunctionUpload

/-! # What set requests leave alone

A request for a configuration struct and a request for the host's LED colours, by the state that
they change.
-/

namespace QmkFirmware.Qmkata

open QmkFirmware.Memory QmkFirmware.Traced

/-! ## Configuration structs -/

/-- The layouts of the configuration structs, as they are announced to the host. -/
def announcedConfigs (seqnum : UInt8) : List (List UInt8) :=
  responses (sendStructLayoutConfig seqnum blankFirmware).state

/-- The announcement of the struct carries the read-only flag. -/
def MarkedReadOnly (sid : UInt8) : Prop :=
  ∃ layout ∈ announcedConfigs 0, layout.getD 3 0 = sid ∧ layout.getD 5 0 &&& structFlagReadOnly ≠ 0

instance (sid : UInt8) : Decidable (MarkedReadOnly sid) :=
  inferInstanceAs (Decidable (∃ layout ∈ announcedConfigs 0, _))

theorem markedReadOnly_iff (sid : UInt8) : MarkedReadOnly sid ↔ sid.toNat = configIdKeymapLayout := by
  have all : ∀ value : BitVec 8, MarkedReadOnly ⟨value⟩ ↔ (⟨value⟩ : UInt8).toNat = configIdKeymapLayout := by
    decide +kernel
  exact all sid.toBitVec

/-- A set request leaves the read-only structs alone, and changes its own struct only. -/
structure ConfigFrame (data : Nat → UInt8) (buf : Nat) (s : Firmware) : Prop where
  readOnly : ∀ sid : UInt8, MarkedReadOnly sid →
    (handleCmdSetConfig data buf s).state.config sid.toNat = s.config sid.toNat
  own : ∀ sid i, ¬ (sid = (data buf).toNat ∧ i < configSize sid) →
    (handleCmdSetConfig data buf s).state.config sid i = s.config sid i
  rest : (handleCmdSetConfig data buf s).state = { s with config := (handleCmdSetConfig data buf s).state.config }

theorem handleCmdSetConfig_ignored (data : Nat → UInt8) (buf : Nat) (s : Firmware)
    (unknown : (data buf).toNat = 0 ∨ (data buf).toNat ≥ configIdMax) : (handleCmdSetConfig data buf s).state = s := by
  simp only [handleCmdSetConfig, bind_state]
  rw [readByte_run, if_pos unknown]
  rfl

theorem handleCmdSetConfig_stored (data : Nat → UInt8) (buf : Nat) (s : Firmware)
    (known : ¬ ((data buf).toNat = 0 ∨ (data buf).toNat ≥ configIdMax)) :
    (handleCmdSetConfig data buf s).state = { s with
      config := Function.update s.config (data buf).toNat
        (blit (s.config (data buf).toNat) 0 (slice data (buf + 1) (configSize (data buf).toNat))) } := by
  simp only [handleCmdSetConfig, bind_state]
  rw [readByte_run, if_neg known]
  rfl

/-- A request changes nothing behind the end of its own struct, and no other struct. -/
theorem handleCmdSetConfig_own (data : Nat → UInt8) (buf : Nat) (s : Firmware) (sid i : Nat)
    (apart : ¬ (sid = (data buf).toNat ∧ i < configSize sid)) :
    (handleCmdSetConfig data buf s).state.config sid i = s.config sid i := by
  by_cases unknown : (data buf).toNat = 0 ∨ (data buf).toNat ≥ configIdMax
  · rw [handleCmdSetConfig_ignored data buf s unknown]
  rw [handleCmdSetConfig_stored data buf s unknown]
  by_cases own : sid = (data buf).toNat
  · have behind : configSize sid ≤ i := Nat.le_of_not_lt fun inside => apart ⟨own, inside⟩
    subst own
    dsimp only
    rw [Function.update_self, blit_of_ge (by rw [length_slice, Nat.zero_add]; exact behind)]
  · exact congrFun (Function.update_of_ne own _ _) i

theorem configFrame_iff (data : Nat → UInt8) (buf : Nat) :
    (∀ s, ConfigFrame data buf s) ↔ (data buf).toNat ≠ configIdKeymapLayout := by
  constructor
  · intro frame keymap
    -- the keymap holds another byte than the first one of the payload
    let s : Firmware := { blankFirmware with config := fun _ _ => data (buf + 1) + 1 }
    have kept := congrFun ((frame s).readOnly 5 ((markedReadOnly_iff 5).mpr rfl)) 0
    have known : ¬ ((data buf).toNat = 0 ∨ (data buf).toNat ≥ configIdMax) := by
      rw [keymap]
      decide
    rw [handleCmdSetConfig_stored data buf s known, keymap] at kept
    have stored : data (buf + 1) = data (buf + 1) + 1 := kept
    exact absurd (left_eq_add.mp stored) (by decide)
  · intro other s
    refine ⟨fun sid marked => ?_, handleCmdSetConfig_own data buf s, ?_⟩
    · have keymap := (markedReadOnly_iff sid).mp marked
      funext i
      exact handleCmdSetConfig_own data buf s _ i fun own => other (own.1.symm.trans keymap)
    · by_cases unknown : (data buf).toNat = 0 ∨ (data buf).toNat ≥ configIdMax
      · rw [handleCmdSetConfig_ignored data buf s unknown]
      · rw [handleCmdSetConfig_stored data buf s unknown]

/-- A request for the keymap of layer 0. -/
def keymapRequest (i : Nat) : UInt8 := if i = 0 then 5 else 1

theorem keymapRequest_overwrites : ¬ ConfigFrame keymapRequest 0 blankFirmware := by
  intro frame
  have kept := congrFun (frame.readOnly 5 ((markedReadOnly_iff 5).mpr rfl)) 0
  exact absurd kept (by decide +kernel)

/-! ## Colours from the host -/

/-- The entry of a LED as it stands in a packet, behind the number of the LED. -/
structure LedRecord where
  index : UInt8
  led : HostLed

def LedRecord.bytes (record : LedRecord) : List UInt8 :=
  [record.index, record.led.duration, record.led.r, record.led.g, record.led.b]

/-- The record names a LED of the keyboard. -/
def LedRecord.known (record : LedRecord) : Bool := record.index.toNat < rgbMatrixLedCount

theorem LedRecord.known_iff {record : LedRecord} : record.known ↔ record.index.toNat < rgbMatrixLedCount :=
  decide_eq_true_iff

def applyRecords (led : Nat → HostLed) (records : List LedRecord) : Nat → HostLed :=
  records.foldl (fun led record => Function.update led record.index.toNat record.led) led

/-- The bytes of a zero-padded packet and of the memory behind it. -/
structure LedPacket where
  seqnum : UInt8
  records : List LedRecord
  behind : Nat → UInt8
  fits : records.length ≤ 11

def LedPacket.message (packet : LedPacket) : List UInt8 :=
  [rawhidQmkataMsg, rawSysexStart, qmkataCmdSet, packet.seqnum, qmkataIdRgbMatrixBuf] ++
    packet.records.flatMap LedRecord.bytes

def LedPacket.data (packet : LedPacket) (i : Nat) : UInt8 :=
  if i < rawEpsizeQmkata then packet.message.getD i 0 else packet.behind i

/-- Every LED shows the last record that names it, and the others are as before. -/
def SetsNamed (records : List LedRecord) (before after : Nat → HostLed) : Prop :=
  ∀ i < rgbMatrixLedCount, after i = applyRecords before records i

section Records

variable {data : Nat → UInt8} {len : UInt8} {buf i fuel : Nat}

theorem rgbMatrixBufLoop_known (s : Firmware) (inside : i < len.toNat)
    (known : (data (buf + i)).toNat < rgbMatrixLedCount) :
    (rgbMatrixBufLoop data len buf (fuel + 1) i s).state =
      (rgbMatrixBufLoop data len buf fuel (i + 5) { s with
        led := Function.update s.led (data (buf + i)).toNat
          ⟨data (buf + (i + 1)), data (buf + (i + 2)), data (buf + (i + 3)), data (buf + (i + 4))⟩
        written := true }).state := by
  have seen : (readByte data (buf + i) s).value.toNat < rgbMatrixLedCount := known
  rw [rgbMatrixBufLoop, if_pos inside]
  simp only [bind_state]
  rw [if_pos seen]
  rfl

theorem rgbMatrixBufLoop_unknown (s : Firmware) (inside : i < len.toNat)
    (unknown : ¬ (data (buf + i)).toNat < rgbMatrixLedCount) :
    (rgbMatrixBufLoop data len buf (fuel + 1) i s).state = s := by
  have seen : ¬ (readByte data (buf + i) s).value.toNat < rgbMatrixLedCount := unknown
  rw [rgbMatrixBufLoop, if_pos inside]
  simp only [bind_state]
  rw [if_neg seen]
  rfl

theorem rgbMatrixBufLoop_led {records : List LedRecord} (s : Firmware)
    (front : slice data (buf + i) (5 * records.length) = records.flatMap LedRecord.bytes)
    (ends : i + 5 * records.length = len.toNat) (enough : records.length ≤ fuel) :
    (rgbMatrixBufLoop data len buf fuel i s).state.led = applyRecords s.led (records.takeWhile LedRecord.known) := by
  induction records generalizing i fuel s with
  | nil =>
    have done : ¬ i < len.toNat := by
      rw [← ends]
      exact Nat.lt_irrefl _
    cases fuel with
    | zero => rfl
    | succ fuel =>
      rw [rgbMatrixBufLoop, if_neg done]
      rfl
  | cons record records ih =>
    obtain ⟨fuel, rfl⟩ : ∃ n, fuel = n + 1 := ⟨fuel - 1, (Nat.sub_add_cancel (Nat.one_le_of_lt enough)).symm⟩
    rw [List.length_cons] at front ends enough
    rw [Nat.mul_succ, Nat.add_comm _ 5, slice_add, List.flatMap_cons] at front
    obtain ⟨first, rest⟩ := List.append_inj front (length_slice _ _ _)
    have bytes : data (buf + i) = record.index ∧ data (buf + (i + 1)) = record.led.duration ∧
        data (buf + (i + 2)) = record.led.r ∧ data (buf + (i + 3)) = record.led.g ∧
        data (buf + (i + 4)) = record.led.b := by
      simpa only [slice, LedRecord.bytes, List.cons.injEq, and_true, Nat.add_assoc] using first
    obtain ⟨index, duration, r, g, b⟩ := bytes
    have inside : i < len.toNat := by omega
    by_cases known : record.index.toNat < rgbMatrixLedCount
    · rw [rgbMatrixBufLoop_known s inside (by rw [index]; exact known), index, duration, r, g, b,
        List.takeWhile_cons_of_pos (LedRecord.known_iff.mpr known)]
      exact ih _ (by rw [← Nat.add_assoc]; exact rest) (by omega) (Nat.le_of_succ_le_succ enough)
    · rw [rgbMatrixBufLoop_unknown s inside (by rw [index]; exact known),
        List.takeWhile_cons_of_neg (mt LedRecord.known_iff.mp known)]
      rfl

/-! ### The padding -/

/-- The record that the zeros of the padding make. -/
def blankRecord : LedRecord := ⟨0, ⟨0, 0, 0, 0⟩⟩

namespace LedPacket

variable (packet : LedPacket)

/-- The record that the end of the packet makes with the byte behind it. -/
def lastRecord : LedRecord := ⟨0, ⟨0, 0, 0, packet.behind rawEpsizeQmkata⟩⟩

/-- The twelve records that the handler finds in the packet. -/
def slots : List LedRecord :=
  packet.records ++ (List.replicate (11 - packet.records.length) blankRecord ++ [packet.lastRecord])

theorem length_slots : packet.slots.length = 12 := by
  have fits := packet.fits
  rw [slots, List.length_append, List.length_append, List.length_replicate, List.length_singleton]
  omega

theorem length_flatMap_bytes (records : List LedRecord) :
    (records.flatMap LedRecord.bytes).length = 5 * records.length := by
  induction records with
  | nil => rfl
  | cons record records ih =>
    rw [List.flatMap_cons, List.length_append, ih, List.length_cons]
    exact Nat.add_comm _ _

theorem flatMap_blank (count : Nat) :
    (List.replicate count blankRecord).flatMap LedRecord.bytes = List.replicate (5 * count) 0 := by
  induction count with
  | zero => rfl
  | succ count ih =>
    rw [List.replicate_succ, List.flatMap_cons, ih, Nat.mul_succ, Nat.add_comm _ 5, ← List.replicate_append_replicate]
    rfl

theorem slots_bytes : packet.slots.flatMap LedRecord.bytes =
    packet.records.flatMap LedRecord.bytes ++
      (List.replicate (59 - 5 * packet.records.length) 0 ++ [packet.behind rawEpsizeQmkata]) := by
  have fits := packet.fits
  have zeros : 59 - 5 * packet.records.length = 5 * (11 - packet.records.length) + 4 := by omega
  rw [slots, List.flatMap_append, List.flatMap_append, flatMap_blank, zeros, ← List.replicate_append_replicate,
    List.append_assoc]
  rfl

/-- What the handler reads, up to the byte behind the packet. -/
theorem slice_data : slice packet.data 5 60 = packet.slots.flatMap LedRecord.bytes := by
  have fits := packet.fits
  have size := length_flatMap_bytes packet.records
  have inside : slice packet.data 5 59 =
      packet.records.flatMap LedRecord.bytes ++ List.replicate (59 - 5 * packet.records.length) 0 := by
    refine List.ext_getElem (by rw [length_slice, List.length_append, size, List.length_replicate]; omega) ?_
    intro i low high
    rw [length_slice] at low
    rw [← List.getD_eq_getElem _ 0, getD_slice _ low, data, if_pos (by rw [rawEpsizeQmkata]; omega), message,
      List.getD_append_right _ _ _ _ (Nat.le_add_right 5 i)]
    have shift : 5 + i - [rawhidQmkataMsg, rawSysexStart, qmkataCmdSet, packet.seqnum, qmkataIdRgbMatrixBuf].length = i :=
      Nat.add_sub_cancel_left 5 i
    rw [shift, ← List.getD_eq_getElem _ 0]
    by_cases record : i < (packet.records.flatMap LedRecord.bytes).length
    · rw [List.getD_append _ _ _ _ record]
    · rw [List.getD_append_right _ _ _ _ (Nat.le_of_not_lt record), List.getD_eq_default _ _ (Nat.le_of_not_lt record)]
      exact (List.getElem?_getD_replicate_default_eq 0 _ _).symm
  rw [show 60 = 59 + 1 from rfl, slice_add, inside, slots_bytes, List.append_assoc]
  rfl

theorem recv_led (env : Environment) (s : Firmware) :
    (qmkataRecvData env packet.data 64 s).state.led =
      applyRecords s.led (packet.slots.takeWhile LedRecord.known) := by
  have start : packet.data 1 = rawSysexStart := rfl
  have cmd : packet.data 2 = qmkataCmdSet := rfl
  have id : packet.data 4 = qmkataIdRgbMatrixBuf := rfl
  have handled : qmkataCmdSet ≠ reportFirmware := by decide
  have kept : (startOnce s).state.led = s.led := by
    simp only [startOnce, update_run]
    split <;> rfl
  have dispatched : (qmkataRecvData env packet.data 64 s).state =
      (handleCmdSetRgbMatrixBuf packet.data 60 5 (startOnce s).state).state := by
    simp [qmkataRecvData, start, cmd, handled, qmkataSysexHandler, id, qmkataIdRgbMatrixBuf, qmkataIdCli]
  rw [dispatched, handleCmdSetRgbMatrixBuf, ← kept]
  refine rgbMatrixBufLoop_led _ ?_ ?_ ?_
  · rw [packet.length_slots]
    exact packet.slice_data
  · rw [packet.length_slots]
    rfl
  · rw [packet.length_slots]
    decide

/-- The padding is taken for records of the first LED. -/
theorem takeWhile_padding :
    (List.replicate (11 - packet.records.length) blankRecord ++ [packet.lastRecord]).takeWhile LedRecord.known =
      List.replicate (11 - packet.records.length) blankRecord ++ [packet.lastRecord] := by
  refine List.takeWhile_eq_self_iff.mpr fun record member => ?_
  obtain blank | last := List.mem_append.mp member
  · rw [List.eq_of_mem_replicate blank]
    rfl
  · rw [List.mem_singleton.mp last]
    rfl

theorem applyRecords_padding (led : Nat → HostLed) :
    applyRecords led (List.replicate (11 - packet.records.length) blankRecord ++ [packet.lastRecord]) =
      Function.update led 0 packet.lastRecord.led := by
  generalize 11 - packet.records.length = count
  induction count generalizing led with
  | zero => rfl
  | succ count ih =>
    rw [List.replicate_succ, List.cons_append]
    exact (ih _).trans (Function.update_idem _ _ _)

/-- A packet does what its records say if the padding, or the records that are ignored, change
nothing. -/
theorem setsNamed_iff (packet : LedPacket) (env : Environment) (s : Firmware) :
    SetsNamed packet.records s.led (qmkataRecvData env packet.data 64 s).state.led ↔
      if ∀ record ∈ packet.records, record.known then
        applyRecords s.led packet.records 0 = ⟨0, 0, 0, packet.behind rawEpsizeQmkata⟩
      else ∀ i < rgbMatrixLedCount,
        applyRecords s.led (packet.records.takeWhile LedRecord.known) i = applyRecords s.led packet.records i := by
  rw [SetsNamed, recv_led, slots, List.takeWhile_append]
  by_cases all : ∀ record ∈ packet.records, record.known
  · have whole : packet.records.takeWhile LedRecord.known = packet.records := List.takeWhile_eq_self_iff.mpr all
    rw [if_pos (congrArg List.length whole), if_pos all, packet.takeWhile_padding, applyRecords, List.foldl_append]
    constructor
    · intro shown
      have first := shown 0 (by decide)
      rw [← applyRecords, ← applyRecords, packet.applyRecords_padding, Function.update_self] at first
      exact first.symm
    · intro dark i _
      rw [← applyRecords, ← applyRecords, packet.applyRecords_padding]
      by_cases first : i = 0
      · rw [first, Function.update_self, dark]
        rfl
      · rw [Function.update_of_ne first]
  · have part : (packet.records.takeWhile LedRecord.known).length ≠ packet.records.length := fun same =>
      all (List.takeWhile_eq_self_iff.mp ((List.takeWhile_prefix _).eq_of_length same))
    rw [if_neg part, if_neg all]

/-- A record for another LED than the first one. -/
def singleRecord : LedPacket := ⟨0, [⟨5, ⟨1, 2, 3, 4⟩⟩], fun _ => 0, by decide⟩

def litFirmware : Firmware := { blankFirmware with led := fun _ => ⟨9, 9, 9, 9⟩ }

theorem singleRecord_clears : ¬ SetsNamed singleRecord.records litFirmware.led
    (qmkataRecvData quietEnvironment singleRecord.data 64 litFirmware).state.led := by
  intro named
  exact absurd (named 0 (by decide)) (by decide +kernel)

end LedPacket

end Records

end QmkFirmware.Qmkata
