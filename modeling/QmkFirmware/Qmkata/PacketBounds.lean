import QmkFirmware.Qmkata.SysexHandler

/-! # Packet accesses of the QMKata receive path

`qmkata_recv_data` passes on a length that still counts the command byte, so each
handler believes that its message reaches one byte further than the packet does.
`packet_accesses_sound_iff` lists the messages for which that byte, or more, is read.
-/

namespace QmkFirmware.Qmkata

open QmkFirmware.Memory QmkFirmware.Traced

/-- Inside a packet of `length` bytes, and without an underflow. -/
def PacketEvent.Sound (length : Nat) : PacketEvent → Prop
  | .read index count => index + count ≤ length
  | .subtract minuend header => header ≤ minuend
  | .codeBuffer .. => True
  | .functionTable _ => True

instance (length : Nat) : DecidablePred (PacketEvent.Sound length)
  | .read index count => inferInstanceAs (Decidable (index + count ≤ length))
  | .subtract minuend header => inferInstanceAs (Decidable (header ≤ minuend))
  | .codeBuffer .. => inferInstanceAs (Decidable True)
  | .functionTable _ => inferInstanceAs (Decidable True)

section Primitives

variable (data : Nat → UInt8) (length : Nat) (s : Firmware)

@[simp] theorem readByte_run (index : Nat) :
    readByte data index s = ⟨data index, s, [.read index 1]⟩ := rfl

@[simp] theorem readBytes_run (index count : Nat) :
    readBytes data index count s = ⟨slice data index count, s, [.read index count]⟩ := rfl

@[simp] theorem subtractHeader_run (minuend header : UInt8) :
    subtractHeader minuend header s = ⟨minuend - header, s, [.subtract minuend header]⟩ := rfl

@[simp] theorem always_readByte (index : Nat) :
    Always (PacketEvent.Sound length) (readByte data index) s ↔ index < length := by
  simp [readByte, PacketEvent.Sound]

@[simp] theorem always_readBytes (index count : Nat) :
    Always (PacketEvent.Sound length) (readBytes data index count) s ↔ index + count ≤ length := by
  simp [readBytes, PacketEvent.Sound]

@[simp] theorem always_subtractHeader (minuend header : UInt8) :
    Always (PacketEvent.Sound length) (subtractHeader minuend header) s ↔ header ≤ minuend := by
  simp [subtractHeader, PacketEvent.Sound]

@[simp] theorem always_call (request : Call) :
    Always (PacketEvent.Sound length) (call request) s ↔ True := by
  simp [call]

@[simp] theorem always_respond (payload : List UInt8) :
    Always (PacketEvent.Sound length) (respond payload) s ↔ True := by
  simp [respond]

@[simp] theorem always_dynldFuncBufSet (funId offset : Nat) (bytes : List UInt8) :
    Always (PacketEvent.Sound length) (dynldFuncBufSet funId offset bytes) s ↔ True := by
  simp [dynldFuncBufSet, PacketEvent.Sound]

@[simp] theorem always_funcSet (funId : Nat) (pointer : Option Nat) :
    Always (PacketEvent.Sound length) (funcSet funId pointer) s ↔ True := by
  simp [funcSet, PacketEvent.Sound]

end Primitives

/-! ## Handlers -/

section Handlers

variable (env : Environment) (data : Nat → UInt8) {length buf : Nat} (s : Firmware)

theorem always_cliAccess (seqnum cliSeq : UInt8) (write : Bool) (source : Nat → UInt8)
    (request : Nat → Nat → Nat → Call) (room : buf + 11 ≤ length) :
    Always (PacketEvent.Sound length) (cliAccess data seqnum cliSeq buf write source request) s := by
  have addr : buf + 2 + 4 ≤ length := by omega
  have width : buf + 6 < length := by omega
  have val : buf + 7 + 4 ≤ length := by omega
  simp only [cliAccess, cliWrite, returnCliError, always_bind, always_ite]
  simp [addr, width, val]

theorem always_handleCmdSetCli (seqnum : UInt8) (room : buf + 11 ≤ length) :
    Always (PacketEvent.Sound length) (handleCmdSetCli env data seqnum buf) s := by
  have first : buf < length := by omega
  have second : buf + 1 < length := by omega
  have addr : buf + 2 + 4 ≤ length := by omega
  simp only [handleCmdSetCli, returnCliError, cliEepromLayout, always_bind, always_ite]
  simp [first, second, addr, always_cliAccess data _ _ _ _ _ _ room]

/-- The loop takes `rounds + 1` records of five bytes from a message that ends one
    byte behind the packet: it stays inside only if it meets an index of no LED. -/
theorem always_rgbMatrixBufLoop {len : UInt8} {rounds fuel i : Nat} (enough : rounds < fuel)
    (records : i + 5 * (rounds + 1) = len.toNat) (overlong : buf + len.toNat = length + 1) :
    Always (PacketEvent.Sound length) (rgbMatrixBufLoop data len buf fuel i) s ↔
      ∃ k ≤ rounds, rgbMatrixLedCount ≤ (data (buf + i + 5 * k)).toNat := by
  induction rounds generalizing fuel i s with
  | zero =>
    obtain ⟨fuel, rfl⟩ : ∃ n, fuel = n + 1 := ⟨fuel - 1, by omega⟩
    have more : i < len.toNat := by omega
    have head : buf + i < length := by omega
    -- the last byte of the last record is the one behind the packet
    have last : ¬ buf + (i + 4) < length := by omega
    simp only [rgbMatrixBufLoop, more, if_true, always_bind, always_ite]
    simp [head, last]
  | succ rounds ih =>
    obtain ⟨fuel, rfl⟩ : ∃ n, fuel = n + 1 := ⟨fuel - 1, by omega⟩
    have more : i < len.toNat := by omega
    have inside : ∀ k ≤ 4, buf + (i + k) < length := by omega
    have head : buf + i < length := by omega
    by_cases led : (data (buf + i)).toNat < rgbMatrixLedCount
    · simp only [rgbMatrixBufLoop, more, if_true, always_bind, always_readByte, head, true_and,
        readByte_run, led, inside 1 (by omega), inside 2 (by omega), inside 3 (by omega),
        inside 4 (by omega), always_update, update_run]
      rw [ih _ (by omega) (by omega)]
      constructor
      · intro found
        obtain ⟨k, bound, stops⟩ := found
        exact ⟨k + 1, by omega, by rwa [show buf + i + 5 * (k + 1) = buf + (i + 5) + 5 * k by omega]⟩
      · intro found
        obtain ⟨k, bound, stops⟩ := found
        cases k with
        | zero => exact absurd stops (Nat.not_le.mpr (by simpa using led))
        | succ k =>
          exact ⟨k, by omega, by rwa [show buf + (i + 5) + 5 * k = buf + i + 5 * (k + 1) by omega]⟩
    · have stops : rgbMatrixLedCount ≤ (data (buf + i)).toNat := Nat.not_lt.mp led
      simp only [rgbMatrixBufLoop, more, if_true, always_bind, always_readByte, head, true_and,
        readByte_run, led, if_false, always_pure, true_iff]
      exact ⟨0, Nat.zero_le _, stops⟩

/-- The chunk is copied when it fits, names a function and does not clear it. -/
def CopiesChunk (funId offset len : Nat) (front : List UInt8) : Prop :=
  offset + len ≤ dynldFuncSize ∧ funId < dynldFunIdMax ∧ ¬ (offset = 0 ∧ front = [0, 0])

theorem always_loadFunction {funId source offset len : Nat} (several : 2 ≤ len)
    (room : source + 2 ≤ length) :
    Always (PacketEvent.Sound length) (loadFunction data funId source offset len) s ↔
      (CopiesChunk funId offset len (slice data source 2) → source + len ≤ length) := by
  simp only [loadFunction, clearFunction, CopiesChunk, if_pos several, always_bind, always_ite]
  simp only [always_record, PacketEvent.Sound, always_read, always_funcSet, always_pure,
    always_dynldFuncBufSet, always_readBytes, readBytes_run, room, implies_true, and_true, true_and]
  by_cases commit : offset = 0xFFFF
  · subst commit
    have large : ¬ 0xFFFF + len ≤ dynldFuncSize := by rw [dynldFuncSize]; omega
    simp [large]
  · by_cases large : offset + len ≤ dynldFuncSize
    · by_cases known : funId < dynldFunIdMax
      · by_cases first : offset = 0
        · subst first
          simp [known]
        · simp [commit, large, known, first]
      · simp [commit, large, known]
    · simp [commit, large]

theorem always_handleCmdSetDynldFunction (seqnum : UInt8) {len : UInt8} (header : 6 ≤ len)
    (room : buf + 6 ≤ length) :
    Always (PacketEvent.Sound length) (handleCmdSetDynldFunction data seqnum len buf) s ↔
      (CopiesChunk (word16 (data buf) (data (buf + 1))) (word16 (data (buf + 2)) (data (buf + 3)))
          (len - 4).toNat (slice data (buf + 4) 2) → buf + 4 + (len - 4).toNat ≤ length) := by
  have several : 2 ≤ (len - 4).toNat := by
    have wide : 6 ≤ len.toNat := UInt8.le_iff_toNat_le.mp header
    rw [UInt8.toNat_sub_of_le _ _ (UInt8.le_iff_toNat_le.mpr (Nat.le_trans (by decide) wide))]
    exact Nat.le_sub_of_add_le wide
  have shorter : 4 ≤ len := UInt8.le_trans (by decide) header
  have inside : ∀ k ≤ 3, buf + k < length := by omega
  have start : buf < length := inside 0 (by omega)
  simp only [handleCmdSetDynldFunction, always_bind]
  simp only [always_readByte, readByte_run, always_subtractHeader, subtractHeader_run, start,
    inside 1 (by omega), inside 2 (by omega), inside 3 (by omega), shorter, always_respond, true_and,
    and_true]
  exact always_loadFunction data s several (by omega)

theorem always_handleCmdSetDynldFunexec (seqnum : UInt8) {len : UInt8} (header : 2 ≤ len)
    (room : buf + 2 ≤ length) :
    Always (PacketEvent.Sound length) (handleCmdSetDynldFunexec env data seqnum len buf) s := by
  have first : buf < length := by omega
  have second : buf + 1 < length := by omega
  simp only [handleCmdSetDynldFunexec, always_bind, always_ite]
  simp [first, second, header, PacketEvent.Sound]

theorem always_handleCmdSetConfig (room : buf < length) :
    Always (PacketEvent.Sound length) (handleCmdSetConfig data buf) s ↔
      buf + 1 + configSize (data buf).toNat ≤ length := by
  simp only [handleCmdSetConfig, always_bind, always_ite]
  simp only [always_readByte, readByte_run, room, always_pure, always_readBytes, always_update,
    implies_true, and_true, true_and]
  by_cases known : (data buf).toNat = 0 ∨ (data buf).toNat ≥ configIdMax
  · have none : configSize (data buf).toNat = 0 := by
      rw [configIdMax] at known
      unfold configSize
      split <;> omega
    simp [known, none]
    omega
  · simp [known]

theorem always_handleCmdGet (seqnum : UInt8) (room : buf < length) :
    Always (PacketEvent.Sound length) (handleCmdGetStatus env data seqnum buf) s ∧
      Always (PacketEvent.Sound length) (handleCmdGetStructLayout data seqnum buf) s ∧
      Always (PacketEvent.Sound length) (handleCmdGetConfig data seqnum buf) s := by
  simp only [handleCmdGetStatus, handleCmdGetStructLayout, handleCmdGetConfig, sendStructLayoutStatus,
    sendStructLayoutConfig, always_bind, always_ite]
  simp [room]

end Handlers

/-! ## What goes wrong -/

/-- An event that is sound unless it reads a byte outside the packet. -/
def PacketEvent.Regular (length : Nat) : PacketEvent → Prop
  | .read index count => 0 < count ∨ index ≤ length
  | .subtract minuend header => header ≤ minuend
  | .codeBuffer .. => True
  | .functionTable _ => True

section Regular

variable (env : Environment) (data : Nat → UInt8) (s : Firmware)

theorem regular_rgbMatrixBufLoop (len : UInt8) (buf fuel i : Nat) :
    Always (PacketEvent.Regular 64) (rgbMatrixBufLoop data len buf fuel i) s := by
  induction fuel generalizing i s with
  | zero => simp [rgbMatrixBufLoop]
  | succ fuel ih =>
    simp only [rgbMatrixBufLoop, readByte, always_ite, always_bind]
    simp [PacketEvent.Regular, ih]

theorem regular_handleCmdSetDynldFunction (seqnum : UInt8) :
    Always (PacketEvent.Regular 64) (handleCmdSetDynldFunction data seqnum 60 5) s := by
  simp only [handleCmdSetDynldFunction, loadFunction, clearFunction, funcSet, dynldFuncBufSet, readByte,
    readBytes, subtractHeader, respond, call, always_ite, always_bind]
  simp [PacketEvent.Regular]

theorem regular_setCli (seqnum : UInt8) :
    Always (PacketEvent.Regular 64) (handleCmdSetCli env data seqnum 5) s := by
  simp only [handleCmdSetCli, cliAccess, cliWrite, cliEepromLayout, returnCliError, readByte, readBytes,
    respond, call, always_ite, always_bind]
  simp [PacketEvent.Regular]

theorem regular_others (seqnum : UInt8) :
    Always (PacketEvent.Regular 64) (handleCmdSetDefaultLayer data 5) s ∧
      Always (PacketEvent.Regular 64) (handleCmdSetMacwinMode data 5) s ∧
      Always (PacketEvent.Regular 64) (handleCmdSetDynldFunexec env data seqnum 60 5) s ∧
      Always (PacketEvent.Regular 64) (handleCmdSetConfig data 5) s := by
  simp only [handleCmdSetDefaultLayer, handleCmdSetMacwinMode, handleCmdSetDynldFunexec, handleCmdSetConfig,
    readByte, readBytes, subtractHeader, respond, call, always_ite, always_bind]
  simp [PacketEvent.Regular]

theorem PacketEvent.Sound.regular {event : PacketEvent} {length : Nat} (sound : event.Sound length) :
    event.Regular length := by
  cases event with
  | read index count => exact .inr (Nat.le_trans (Nat.le_add_right _ _) sound)
  | subtract minuend header => exact sound
  | codeBuffer funId offset count => trivial
  | functionTable funId => trivial

theorem regular_setRequest : Always (PacketEvent.Regular 64) (qmkataSysexHandler env data qmkataCmdSet 62 3) s := by
  obtain ⟨layer, mode, exec, config⟩ := regular_others env data s (data 3)
  have leds : Always (PacketEvent.Regular 64) (handleCmdSetRgbMatrixBuf data 60 5) s :=
    regular_rgbMatrixBufLoop data s _ _ _ _
  simp only [qmkataSysexHandler, readByte, subtractHeader, always_ite, always_bind]
  simp [PacketEvent.Regular, layer, mode, exec, config, leds, regular_setCli env data s (data 3),
    regular_handleCmdSetDynldFunction data s (data 3)]

end Regular

/-! ## The packet -/

/-- The set requests for which a handler reads behind the packet: LED records without
    an end mark, the keymap layout, and every chunk of a function that is stored. -/
def Overreads (data : Nat → UInt8) : Prop :=
  data 4 = qmkataIdRgbMatrixBuf ∧ (∀ k ≤ 11, (data (5 + 5 * k)).toNat < rgbMatrixLedCount) ∨
    data 4 = qmkataIdConfig ∧ (data 5).toNat = configIdKeymapLayout ∨
    data 4 = qmkataIdDynldFunction ∧
      CopiesChunk (word16 (data 5) (data 6)) (word16 (data 7) (data 8)) 56 [data 9, data 10]

section Packet

variable (env : Environment) (data : Nat → UInt8) (s : Firmware)

theorem configSize_fits (configId : Nat) :
    5 + 1 + configSize configId ≤ 64 ↔ configId ≠ configIdKeymapLayout := by
  unfold configSize matrixRows matrixCols configIdKeymapLayout
  split <;> simp
  next => omega

/-- A set request as the dispatcher sees it: of the 62 bytes it is told of, two are
    the header and 59 are left in the packet. -/
theorem always_setRequest :
    Always (PacketEvent.Sound 64) (qmkataSysexHandler env data qmkataCmdSet 62 3) s ↔ ¬ Overreads data := by
  have leds : Always (PacketEvent.Sound 64) (handleCmdSetRgbMatrixBuf data 60 5) s ↔
      ∃ k ≤ 11, rgbMatrixLedCount ≤ (data (5 + 0 + 5 * k)).toNat :=
    always_rgbMatrixBufLoop data s (by decide) (by decide) (by decide)
  have config : Always (PacketEvent.Sound 64) (handleCmdSetConfig data 5) s ↔
      (data 5).toNat ≠ configIdKeymapLayout :=
    (always_handleCmdSetConfig data s (by decide)).trans (configSize_fits _)
  have function : Always (PacketEvent.Sound 64) (handleCmdSetDynldFunction data (data 3) 60 5) s ↔
      ¬ CopiesChunk (word16 (data 5) (data 6)) (word16 (data 7) (data 8)) 56 [data 9, data 10] :=
    (always_handleCmdSetDynldFunction data s (data 3) (by decide) (by decide)).trans
      (imp_iff_not (by decide))
  have cli : Always (PacketEvent.Sound 64) (handleCmdSetCli env data (data 3) 5) s :=
    always_handleCmdSetCli env data s (data 3) (by decide)
  have exec : Always (PacketEvent.Sound 64) (handleCmdSetDynldFunexec env data (data 3) 60 5) s :=
    always_handleCmdSetDynldFunexec env data s (data 3) (by decide) (by decide)
  have rest : (62 : UInt8) - 1 - 1 = 60 := by decide
  simp only [qmkataSysexHandler, handleCmdSetDefaultLayer, handleCmdSetMacwinMode,
    if_neg (show ¬ (62 : UInt8) < 2 by decide), always_bind, always_ite]
  simp only [readByte_run, subtractHeader_run, rest, always_readByte, always_subtractHeader, always_call,
    always_pure, leds, config, function, cli, exec]
  -- the ids exclude each other, so that one request decides
  by_cases rgb : data 4 = qmkataIdRgbMatrixBuf
  · simp [Overreads, rgb, qmkataIdRgbMatrixBuf, qmkataIdCli, qmkataIdConfig, qmkataIdDynldFunction]
  by_cases layout : data 4 = qmkataIdConfig
  · simp [Overreads, layout, qmkataIdRgbMatrixBuf, qmkataIdCli, qmkataIdConfig, qmkataIdDynldFunction,
      qmkataIdDefaultLayer, qmkataIdMacwinMode, qmkataIdDynldFunexec]
  by_cases chunk : data 4 = qmkataIdDynldFunction
  · simp [Overreads, chunk, qmkataIdRgbMatrixBuf, qmkataIdCli, qmkataIdConfig, qmkataIdDynldFunction,
      qmkataIdDefaultLayer, qmkataIdMacwinMode]
  · simp [Overreads, rgb, layout, chunk]

theorem always_otherRequest {cmd : UInt8} (other : cmd ≠ qmkataCmdSet) :
    Always (PacketEvent.Sound 64) (qmkataSysexHandler env data cmd 62 3) s := by
  have inside : 5 < 64 := by decide
  obtain ⟨status, layout, config⟩ := always_handleCmdGet env data s (data 3) inside
  simp only [qmkataSysexHandler, if_neg (show ¬ (62 : UInt8) < 2 by decide), if_neg other,
    handleCmdGetMacwinMode, always_bind, always_ite]
  simp [status, layout, config]

theorem always_qmkataRecvData :
    Always (PacketEvent.Sound 64) (qmkataRecvData env data 64) s ↔
      ¬ (data 1 = rawSysexStart ∧ data 2 = qmkataCmdSet ∧ Overreads data) := by
  have rest : (64 : UInt8) - 1 - 1 = 62 := by decide
  simp only [qmkataRecvData, startOnce, always_bind, always_ite]
  simp only [readByte_run, subtractHeader_run, update_run, rest, always_readByte, always_subtractHeader,
    always_call, always_pure, always_update]
  by_cases set : data 2 = qmkataCmdSet
  · have handled : qmkataCmdSet ≠ reportFirmware := by decide
    simp [set, handled, always_setRequest]
  · simp [set, always_otherRequest _ _ _ set]

/-- Nothing goes wrong but reads of bytes behind the packet. -/
theorem regular_qmkataRecvData : Always (PacketEvent.Regular 64) (qmkataRecvData env data 64) s := by
  by_cases set : data 2 = qmkataCmdSet
  · simp only [qmkataRecvData, startOnce, readByte, subtractHeader, call, always_ite, always_bind]
    simp [PacketEvent.Regular, set, regular_setRequest]
  · have sound := (always_qmkataRecvData env data s).mpr fun request => set request.2.1
    exact fun event member => (sound event member).regular

/-- No access leaves the packet and no length underflows, unless the packet is a set
    request of one of the three kinds. -/
theorem packet_accesses_sound_iff :
    (∀ event ∈ (qmkataRecvData env data 64 s).events, event.Sound rawEpsizeQmkata) ↔
      ¬ (data 1 = rawSysexStart ∧ data 2 = qmkataCmdSet ∧ Overreads data) :=
  always_qmkataRecvData env data s

end Packet

/-- A first chunk of a function, starting with a byte other than zero. -/
def chunkPacket (i : Nat) : UInt8 :=
  [rawhidQmkataMsg, rawSysexStart, qmkataCmdSet, 0, qmkataIdDynldFunction, 0, 0, 0, 0, 1].getD i 0

def blankFirmware : Firmware where
  started := false
  led := fun _ => ⟨0, 0, 0, 0⟩
  written := false
  config := fun _ _ => 0
  dynldFuncBuf := fun _ _ => 0
  func := fun _ => none
  calls := []

def quietEnvironment : Environment where
  develBuild := false
  memory := fun _ => 0
  eeprom := fun _ => 0
  eepromLayout := []
  macwinMode := 0
  batteryPercentage := 0
  batteryVoltage := 0
  dipSwitchState := 0
  rawMatrix := []
  execute := fun _ => 0

theorem chunkPacket_not_sound :
    ¬ ∀ event ∈ (qmkataRecvData quietEnvironment chunkPacket 64 blankFirmware).events,
      event.Sound rawEpsizeQmkata := by
  decide +kernel

end QmkFirmware.Qmkata
