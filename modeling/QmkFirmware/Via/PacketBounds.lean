import QmkFirmware.DynamicKeymap.Store
import QmkFirmware.Qmkata.PacketBounds
import QmkFirmware.Via.Model

/-! # Packet accesses of VIA commands

Most commands use fixed places of the packet.  The four buffer commands take a size
from the host and do not compare it with the length of the packet, and a board with
QMKata hands it the packets that are its own; `packet_accesses_inside_iff` says when
all of them stay inside nevertheless.
-/

namespace QmkFirmware.Via

open QmkFirmware.Traced QmkFirmware.DynamicKeymap

/-- An access to one of the first `length` bytes. -/
def Inside (length : Nat) : BufferEvent ViaRequest → Prop
  | .read index => index < length
  | .write index => index < length
  | .call _ => True

instance (length : Nat) : DecidablePred (Inside length)
  | .read index => inferInstanceAs (Decidable (index < length))
  | .write index => inferInstanceAs (Decidable (index < length))
  | .call _ => inferInstanceAs (Decidable True)

/-! ## Primitives -/

section Primitives

variable (length : Nat) (s : Board)

@[simp] theorem load_run (index : Nat) : (load index : Command UInt8) s = ⟨s.data index, s, [.read index]⟩ := rfl

@[simp] theorem always_load (index : Nat) :
    Always (Inside length) (load index : Command UInt8) s ↔ index < length := by
  simp [Always, load, Inside]

@[simp] theorem always_store (index : Nat) (value : UInt8) :
    Always (Inside length) (store index value : Command Unit) s ↔ index < length := by
  simp [Always, store, Inside]

@[simp] theorem always_eepromReadByte (address : Nat) :
    Always (Inside length) (eepromReadByte address : Command UInt8) s ↔ True := by
  simp [Always, eepromReadByte]

@[simp] theorem always_eepromUpdateByte (address : Nat) (value : UInt8) :
    Always (Inside length) (eepromUpdateByte address value : Command Unit) s ↔ True := by
  simp [eepromUpdateByte]

@[simp] theorem always_request (call : ViaRequest) :
    Always (Inside length) (request call) s ↔ True := by
  simp [request, Inside]

theorem always_loadBytes {index count : Nat} (inside : index + count ≤ length) (s : Board) :
    Always (Inside length) (loadBytes index count) s := by
  induction count generalizing index s with
  | zero => simp [loadBytes]
  | succ count ih =>
    have first : index < length := by omega
    have rest : index + 1 + count ≤ length := by omega
    simp [loadBytes, first, ih rest]

theorem always_storeBytes {index : Nat} {bytes : List UInt8} (inside : index + bytes.length ≤ length) (s : Board) :
    Always (Inside length) (storeBytes index bytes) s := by
  induction bytes generalizing index s with
  | nil => simp [storeBytes]
  | cons byte bytes ih =>
    rw [List.length_cons] at inside
    have first : index < length := by omega
    have rest : index + 1 + bytes.length ≤ length := by omega
    simp [storeBytes, first, ih rest]

theorem always_rawHidSend : Always (Inside length) (rawHidSend length) s := by
  have whole : 0 + length ≤ length := by omega
  simp [rawHidSend, always_loadBytes length whole]

end Primitives

/-! ## Commands of Keychron's boards -/

section Keychron

variable (keychron : Keychron) {length : Nat} (s : Board)

theorem always_itoa {index : Nat} (inside : index + 2 ≤ length) (value : UInt16) (s : Board) :
    Always (Inside length) (itoa value index) s :=
  always_storeBytes length inside s

/-- The version and the date end at offset 28 or 29. -/
theorem always_getFirmwareVersion (endpoint : 32 ≤ length) :
    Always (Inside length) (getFirmwareVersion keychron) s := by
  have dated := keychron.dated
  have first : ∀ s, Always (Inside length) (firstDigit keychron.deviceVer) s := by
    intro s
    rw [firstDigit, always_ite]
    exact ⟨fun _ => always_itoa (by omega) _ s, fun _ => by simp⟩
  have place : (if keychron.deviceVer &&& 0xF000 ≠ 0 then 3 else 2) ≤ 3 := by split <;> omega
  rw [getFirmwareVersion]
  generalize (if keychron.deviceVer &&& 0xF000 ≠ 0 then 3 else 2) = i at place ⊢
  simp only [always_bind, always_store, first, true_and]
  exact ⟨by omega, always_itoa (by omega) _ _, by omega, always_itoa (by omega) _ _, by omega,
    always_itoa (by omega) _ _, by omega, always_storeBytes length (by omega) _⟩

/-- The payload ends in front of the packet's end, and what is sent on is part of it. -/
theorem always_lkbt51DfuRx (endpoint : 32 ≤ length) (bridge : Wireless.DfuBridge.State) (data : Nat → UInt8) :
    Always (Inside length) (lkbt51DfuRx length bridge data) s := by
  have fits : ∀ index count, index + count ≤ 32 → ∀ s, Always (Inside length) (loadBytes index count) s :=
    fun index count small s => always_loadBytes length (by omega) s
  have header : Wireless.DfuBridge.packetHeaderLen = 5 := rfl
  have size : Wireless.DfuBridge.rawEpsize = 32 := rfl
  simp only [lkbt51DfuRx, always_bind, always_ite, always_pure, always_load, always_request, implies_true,
    and_true, true_and]
  refine ⟨fits _ _ (by omega) _, fun framed short => ?_⟩
  refine ⟨fits _ _ (by omega) _, by omega, by omega, fun valid => ⟨fits _ _ (by omega) _, fun command => ?_⟩⟩
  have long := Wireless.DfuBridge.command_long framed valid command
  have shorter : (data 2 - 2).toNat = (data 2).toNat - 2 := UInt8.toNat_sub_of_le _ 2 long
  exact fits _ _ (by omega) _

theorem always_factoryTestRx (endpoint : 32 ≤ length) : Always (Inside length) factoryTestRx s := by
  have fits : ∀ index count, index + count ≤ 32 → ∀ s, Always (Inside length) (loadBytes index count) s :=
    fun index count small s => always_loadBytes length (by omega) s
  have inside : ∀ index, index < 32 → index < length := by omega
  simp only [factoryTestRx, factoryTestArguments, factoryTestEpsize, always_bind, always_ite]
  simp [fits, inside]

theorem always_recordAll (events : List (BufferEvent ViaRequest)) :
    Always (Inside length) (recordAll events) s ↔ ∀ event ∈ events, Inside length event := Iff.rfl

/-- A regular event is sound exactly if the bytes it reads are inside. -/
theorem packetReads_inside {event : Qmkata.PacketEvent} (regular : event.Regular length) :
    (∀ access ∈ packetReads event, Inside length access) ↔ event.Sound length := by
  cases event with
  | read index count =>
    simp only [packetReads, List.forall_mem_map, List.mem_range, Inside, Qmkata.PacketEvent.Sound]
    constructor
    · intro inside
      cases regular with
      | inl some =>
        have last := inside (count - 1) (by omega)
        omega
      | inr start =>
        by_cases none : count = 0
        · omega
        · have last := inside (count - 1) (by omega)
          omega
    · intro sound k bound
      omega
  | subtract minuend header => exact iff_of_true (by simp [packetReads]) regular
  | codeBuffer funId offset count => exact iff_of_true (by simp [packetReads]) trivial
  | functionTable funId => exact iff_of_true (by simp [packetReads]) trivial

theorem always_qmkataRecvData :
    Always (Inside Qmkata.rawEpsizeQmkata) (qmkataRecvData keychron Qmkata.rawEpsizeQmkata) s ↔
      ¬ (s.data 1 = Qmkata.rawSysexStart ∧ s.data 2 = Qmkata.qmkataCmdSet ∧ Qmkata.Overreads s.data) := by
  rw [← Qmkata.always_qmkataRecvData keychron.environment s.data keychron.qmkata]
  have regular := Qmkata.regular_qmkataRecvData keychron.environment s.data keychron.qmkata
  simp only [qmkataRecvData, always_bind, always_read, read_run, always_recordAll, always_request, true_and,
    and_true, List.forall_mem_flatMap]
  exact forall₂_congr fun event member => packetReads_inside (regular event member)

/-- A set request for QMKata that is read beyond its end. -/
def QmkataOverreads (data : Nat → UInt8) : Prop :=
  data 0 = Qmkata.rawhidQmkataMsg ∧ data 1 = Qmkata.rawSysexStart ∧ data 2 = Qmkata.qmkataCmdSet ∧
    Qmkata.Overreads data

theorem always_keychronCommand (endpoint : 32 ≤ length) (qmkata : keychron.qmkataEnable = true → length = Qmkata.rawEpsizeQmkata) :
    Always (Inside length) (keychronCommand keychron length (s.data 0)) s ↔
      (keychron.qmkataEnable = true → ¬ QmkataOverreads s.data) := by
  have inside : 1 < length ∧ 2 < length := by omega
  simp only [keychronCommand, always_ite, always_bind, always_pure, always_store, always_rawHidSend, always_read,
    always_getFirmwareVersion keychron _ endpoint, always_lkbt51DfuRx _ endpoint, always_factoryTestRx _ endpoint,
    inside, implies_true, and_true, true_and]
  by_cases enabled : keychron.qmkataEnable = true
  · obtain rfl := qmkata enabled
    by_cases request : s.data 0 = Qmkata.rawhidQmkataMsg
    · simp [enabled, request, always_qmkataRecvData, QmkataOverreads, Qmkata.rawhidQmkataMsg, kcGetProtocolVersion,
        kcGetFirmwareVersion, kcGetSupportFeature, kcGetDefaultLayer, lkbt51DfuMsg, factoryTestMsg]
    · simp [request, QmkataOverreads]
  · simp [enabled]

/-- A command that is not the keyboard's leaves the packet as it is. -/
theorem keychronCommand_declined (commandId : UInt8)
    (declined : (keychronCommand keychron length commandId s).value = false) :
    (keychronCommand keychron length commandId s).state = s := by
  rw [keychronCommand] at declined ⊢
  split_ifs at declined ⊢
  rfl

/-- The keyboard's own commands have other ids than the buffer commands of VIA. -/
theorem keychronCommand_handled (commandId : UInt8)
    (handled : (keychronCommand keychron length commandId s).value = true) :
    commandId ∉ [idDynamicKeymapMacroGetBuffer, idDynamicKeymapMacroSetBuffer, idDynamicKeymapGetBuffer,
      idDynamicKeymapSetBuffer] := by
  rw [keychronCommand] at handled
  split_ifs at handled with protocol firmware feature layer dfu test qmkata
  · rw [protocol]
    decide
  · rw [firmware]
    decide
  · rw [feature]
    decide
  · rw [layer]
    decide
  · rw [dfu.2]
    decide
  · rw [test.2]
    decide
  · rw [qmkata.2]
    decide

end Keychron

/-! ## Commands with fixed places -/

section Commands

variable (keyboard : Keyboard) {length : Nat} (s : Board)

theorem always_updateKeycode (address : Nat) (keycode : UInt16) :
    Always (Inside length) (updateKeycode address keycode : Command Unit) s := by
  simp [updateKeycode]

theorem always_dynamicKeymapReset :
    Always (Inside length) (dynamicKeymapReset keyboard.layout keyboard.flash : Command Unit) s := by
  have key : ∀ layer row column keycode s, Always (Inside length)
      (dynamicKeymapSetKeycode keyboard.layout layer row column keycode : Command Unit) s := by
    intro layer row column keycode s
    simp [dynamicKeymapSetKeycode, always_updateKeycode]
  have encoder : ∀ layer encoderId clockwise keycode s, Always (Inside length)
      (dynamicKeymapSetEncoder keyboard.layout layer encoderId clockwise keycode : Command Unit) s := by
    intro layer encoderId clockwise keycode s
    simp [dynamicKeymapSetEncoder, always_updateKeycode]
  refine always_loop _ (fun layer _ _ s => ?_) s
  rw [always_bind, always_ite]
  refine ⟨always_loop _ (fun row _ _ s => always_loop _ (fun column _ _ s => key _ _ _ _ s) s) s, fun _ => ?_, ?_⟩
  · refine always_loop _ (fun encoderId _ _ s => ?_) _
    rw [always_bind]
    exact ⟨encoder _ _ _ _ _, encoder _ _ _ _ _⟩
  · simp

theorem always_eepromLoop {address : Nat → Nat} {value : Nat → UInt8} (count : Nat) :
    Always (Inside length) (loop (fun i => eepromUpdateByte (address i) (value i)) count 0 : Command Unit) s :=
  always_loop _ (fun i _ _ s => by simp) s

theorem always_viaSetLayoutOptions (value : Nat) :
    Always (Inside length) (viaSetLayoutOptions keyboard value) s := by
  rw [viaSetLayoutOptions, always_bind]
  exact ⟨by simp, always_eepromLoop _ _⟩

theorem always_viaGetLayoutOptions (count address : Nat) :
    Always (Inside length) (viaGetLayoutOptions count address) s := by
  induction count generalizing address s with
  | zero => simp [viaGetLayoutOptions]
  | succ count ih => simp [viaGetLayoutOptions, ih]

theorem always_viaEepromSetValid (valid : Bool) :
    Always (Inside length) (viaEepromSetValid keyboard valid) s :=
  always_eepromLoop _ _

theorem always_eeconfigInitVia : Always (Inside length) (eeconfigInitVia keyboard) s := by
  simp only [eeconfigInitVia, dynamicKeymapMacroReset, always_bind]
  exact ⟨always_viaEepromSetValid _ _ _, always_viaSetLayoutOptions _ _ _, always_dynamicKeymapReset _ _,
    always_eepromLoop _ _, always_viaEepromSetValid _ _ _⟩

theorem always_storeValue32 (endpoint : 32 ≤ length) (value : Nat) :
    Always (Inside length) (storeValue32 value) s := by
  simp only [storeValue32, always_bind, always_store]
  omega

/-- The rows in a report take at most 28 bytes. -/
theorem rowBytes_fits (cols : Nat) : 28 / ((cols + 7) / 8) * rowBytes cols ≤ 28 := by
  by_cases empty : (cols + 7) / 8 = 0
  · rw [empty, Nat.div_zero]
    omega
  · have narrow : rowBytes cols ≤ (cols + 7) / 8 := by
      unfold rowBytes
      split
      next => omega
      next => split <;> [skip; split] <;> omega
    exact (Nat.mul_le_mul_left _ narrow).trans (Nat.div_mul_le_self _ _)

theorem always_switchMatrixState (endpoint : 32 ≤ length) :
    Always (Inside length) (switchMatrixState keyboard) s := by
  have fits := rowBytes_fits keyboard.layout.cols
  rw [switchMatrixState, always_bind, always_load]
  refine ⟨by omega, always_loop _ (fun row _ bound s => ?_) _⟩
  refine always_loop _ (fun k _ inRow s => ?_) s
  -- byte `k` of a row lies in front of the next row, which is at most the last one
  have next : (row + 1) * rowBytes keyboard.layout.cols ≤
      28 / ((keyboard.layout.cols + 7) / 8) * rowBytes keyboard.layout.cols :=
    Nat.mul_le_mul_right _ (by omega)
  rw [Nat.succ_mul] at next
  rw [always_store]
  omega

theorem always_getKeyboardValue (endpoint : 32 ≤ length) :
    Always (Inside length) (getKeyboardValue keyboard) s := by
  simp only [getKeyboardValue, unhandled, always_bind, always_ite]
  simp only [always_load, always_store, load_run, always_storeValue32 _ endpoint,
    always_viaGetLayoutOptions, always_switchMatrixState _ _ endpoint]
  have first : 1 < length := by omega
  have zeroth : 0 < length := by omega
  simp [first, zeroth]

theorem always_setKeyboardValue (endpoint : 32 ≤ length) :
    Always (Inside length) (setKeyboardValue keyboard) s := by
  have four : 2 + 4 ≤ length := by omega
  have first : 1 < length := by omega
  have second : 2 < length := by omega
  have zeroth : 0 < length := by omega
  simp only [setKeyboardValue, unhandled, always_bind, always_ite]
  simp [first, second, zeroth, always_loadBytes length four, always_viaSetLayoutOptions]

theorem valueBytes_le (channelId valueId : UInt8) : valueBytes channelId valueId ≤ 2 := by
  unfold valueBytes
  split <;> omega

theorem always_viaCustomValueCommand (endpoint : 32 ≤ length) :
    Always (Inside length) (viaCustomValueCommand keyboard) s := by
  have zeroth : 0 < length := by omega
  have first : 1 < length := by omega
  have second : 2 < length := by omega
  have set : ∀ channelId s, Always (Inside length) (channelSetValue channelId) s := by
    intro channelId s
    have few := valueBytes_le channelId (s.data 2)
    have fits : 3 + valueBytes channelId (s.data 2) ≤ length := by omega
    simp [channelSetValue, second, always_loadBytes length fits]
  have get : ∀ channelId s, Always (Inside length) (channelGetValue keyboard channelId) s := by
    intro channelId s
    have few := valueBytes_le channelId (s.data 2)
    rw [channelGetValue, always_bind, always_load]
    refine ⟨second, always_loop _ (fun k _ bound after => ?_) _⟩
    have known : k < 0 + valueBytes channelId (s.data 2) := bound
    rw [always_store]
    omega
  simp only [viaCustomValueCommand, channelCommand, unhandled, always_bind, always_ite]
  simp [zeroth, first, set, get]

theorem always_keycodeCommands (endpoint : 32 ≤ length) :
    Always (Inside length) (getKeycodeCommand keyboard) s ∧
      Always (Inside length) (setKeycodeCommand keyboard) s ∧
      Always (Inside length) (getEncoderCommand keyboard) s ∧
      Always (Inside length) (setEncoderCommand keyboard) s := by
  have inside : ∀ k ≤ 5, k < length := by omega
  simp only [getKeycodeCommand, setKeycodeCommand, getEncoderCommand, setEncoderCommand,
    dynamicKeymapGetKeycode, dynamicKeymapSetKeycode, dynamicKeymapGetEncoder, dynamicKeymapSetEncoder,
    readKeycode, always_bind, always_ite]
  simp [inside, always_updateKeycode]

/-! ## Buffer commands -/

theorem always_bufferCommand (endpoint : 32 ≤ length) (transfer : Nat → Nat → Nat → Command Unit) :
    Always (Inside length) (bufferCommand transfer) s ↔
      Always (Inside length)
        (transfer (joinBytes (s.data 1) (s.data 2)).toNat (s.data 3).toNat 4) s := by
  have inside : ∀ k ≤ 3, k < length := by omega
  simp only [bufferCommand, always_bind]
  simp [inside]

theorem always_getRegion (start regionSize offset size buffer : Nat) (fits : buffer ≤ length) :
    Always (Inside length) (getRegion start regionSize offset size buffer : Command Unit) s ↔
      buffer + size ≤ length := by
  have round : ∀ i s, Always (Inside length)
      (getRegionByte start regionSize offset buffer i : Command Unit) s ↔ buffer + i < length := by
    intro i s
    by_cases inside : offset + i < regionSize
    · simp [getRegionByte, inside]
    · simp [getRegionByte, inside]
  rw [getRegion, always_loop_iff _ round]
  constructor
  · intro all
    cases size with
    | zero => exact fits
    | succ size => exact all size (by omega) (by omega)
  · intro short i _ bound
    omega

theorem always_setRegion (start regionSize offset size buffer : Nat) (fits : buffer ≤ length) :
    Always (Inside length) (setRegion start regionSize offset size buffer : Command Unit) s ↔
      buffer + size ≤ length ∨ regionSize ≤ offset + (length - buffer) := by
  have round : ∀ i s, Always (Inside length)
      (setRegionByte start regionSize offset buffer i : Command Unit) s ↔
        (offset + i < regionSize → buffer + i < length) := by
    intro i s
    by_cases inside : offset + i < regionSize
    · simp [setRegionByte, inside]
    · simp [setRegionByte, inside]
  rw [setRegion, always_loop_iff _ round]
  constructor
  · intro all
    -- the first byte behind the packet is the one that decides
    by_cases short : buffer + size ≤ length
    · exact .inl short
    · have first := all (length - buffer) (by omega) (by omega)
      omega
  · intro stays i _ bound stored
    omega

/-- The condition on the host's size and offset under which a buffer command stays
    inside: reads of the region answer with `size` bytes in any case, writes stop at
    the end of the region. -/
def SizeFits (layout : Layout) (data : Nat → UInt8) (length : Nat) : Prop :=
  let offset := (joinBytes (data 1) (data 2)).toNat
  let size := (data 3).toNat
  (data 0 = idDynamicKeymapMacroGetBuffer ∨ data 0 = idDynamicKeymapGetBuffer → 4 + size ≤ length) ∧
    (data 0 = idDynamicKeymapMacroSetBuffer →
      4 + size ≤ length ∨ layout.macroSize ≤ offset + (length - 4)) ∧
    (data 0 = idDynamicKeymapSetBuffer → 4 + size ≤ length ∨ layout.keymapSize ≤ offset + (length - 4))

instance (layout : Layout) (data : Nat → UInt8) (length : Nat) : Decidable (SizeFits layout data length) :=
  inferInstanceAs (Decidable ((_ ∨ _ → _) ∧ (_ → _ ∨ _) ∧ (_ → _ ∨ _)))

theorem always_handleCommand (endpoint : 32 ≤ length) :
    Always (Inside length) (handleCommand keyboard (s.data 0)) s ↔
      SizeFits keyboard.layout s.data length := by
  have room : 4 ≤ length := by omega
  have inside : ∀ k ≤ 2, k < length := by omega
  obtain ⟨getKey, setKey, getEncoder, setEncoder⟩ := always_keycodeCommands keyboard s endpoint
  simp only [handleCommand, unhandled, dynamicKeymapMacroReset, always_bind, always_ite]
  simp only [getKey, setKey, getEncoder, setEncoder, always_getKeyboardValue keyboard s endpoint,
    always_setKeyboardValue keyboard s endpoint, always_viaCustomValueCommand keyboard s endpoint,
    always_dynamicKeymapReset, always_viaEepromSetValid, always_eeconfigInitVia, always_eepromLoop,
    always_bufferCommand s endpoint, dynamicKeymapMacroGetBuffer, dynamicKeymapMacroSetBuffer,
    dynamicKeymapGetBuffer, dynamicKeymapSetBuffer, keymapEepromSize_eq,
    always_getRegion s _ _ _ _ _ room, always_setRegion s _ _ _ _ _ room, always_store,
    inside 0 (by decide), inside 1 (by decide), inside 2 (by decide), implies_true, and_true, true_and]
  simp only [SizeFits, idGetProtocolVersion, idGetKeyboardValue, idSetKeyboardValue,
    idDynamicKeymapGetKeycode, idDynamicKeymapSetKeycode, idDynamicKeymapReset, idCustomSetValue,
    idCustomGetValue, idCustomSave, idEepromReset, idDynamicKeymapMacroGetCount,
    idDynamicKeymapMacroGetBufferSize, idDynamicKeymapMacroGetBuffer, idDynamicKeymapMacroSetBuffer,
    idDynamicKeymapMacroReset, idDynamicKeymapGetLayerCount, idDynamicKeymapGetBuffer,
    idDynamicKeymapSetBuffer]
  -- the command id decides, and only the four buffer commands have a condition
  by_cases macroGet : s.data 0 = 0x0E
  · simp [macroGet]
  by_cases macroSet : s.data 0 = 0x0F
  · simp [macroSet]
  by_cases get : s.data 0 = 0x12
  · simp [get]
  by_cases set : s.data 0 = 0x13
  · simp [set]
  · simp [macroGet, macroSet, get, set]

/-! ## The keyboard's commands -/

theorem always_viaCommandKb (endpoint : 32 ≤ length)
    (qmkata : keyboard.qmkataEnable = true → length = Qmkata.rawEpsizeQmkata) :
    Always (Inside length) (viaCommandKb keyboard length) s ↔
      (keyboard.qmkataEnable = true → ¬ QmkataOverreads s.data) := by
  rw [viaCommandKb]
  unfold Keyboard.qmkataEnable at qmkata ⊢
  cases other : keyboard.keychron with
  | none => simp
  | some keychron =>
    rw [other] at qmkata
    have start : 0 < length := by omega
    simp only [always_bind, always_load, start, true_and]
    exact always_keychronCommand keychron s endpoint qmkata

theorem viaCommandKb_declined (declined : (viaCommandKb keyboard length s).value = false) :
    (viaCommandKb keyboard length s).state = s := by
  rw [viaCommandKb] at declined ⊢
  cases other : keyboard.keychron with
  | none => rfl
  | some keychron =>
    rw [other] at declined
    exact keychronCommand_declined keychron s _ declined

theorem viaCommandKb_handled (handled : (viaCommandKb keyboard length s).value = true) :
    SizeFits keyboard.layout s.data length := by
  rw [viaCommandKb] at handled
  cases other : keyboard.keychron with
  | none =>
    rw [other] at handled
    cases handled
  | some keychron =>
    rw [other] at handled
    have others := keychronCommand_handled keychron s _ handled
    simp only [List.mem_cons, List.not_mem_nil, or_false, not_or] at others
    obtain ⟨macroGet, macroSet, get, set⟩ := others
    exact ⟨fun request => absurd request (not_or.mpr ⟨macroGet, get⟩), fun request => absurd request macroSet,
      fun request => absurd request set⟩

/-- A packet is handled within its length if and only if the host's size and offset fit,
    in case it is a buffer command, and QMKata does not read beyond it, in case it is one of
    its packets.  A build with QMKata has packets of that size. -/
theorem packet_accesses_inside_iff (endpoint : 32 ≤ length)
    (qmkata : keyboard.qmkataEnable = true → length = Qmkata.rawEpsizeQmkata) :
    (∀ event ∈ (rawHidReceive keyboard length s).events, Inside length event) ↔
      SizeFits keyboard.layout s.data length ∧ (keyboard.qmkataEnable = true → ¬ QmkataOverreads s.data) := by
  have start : 0 < length := by omega
  change Always (Inside length) (rawHidReceive keyboard length) s ↔ _
  rw [rawHidReceive, always_bind, always_viaCommandKb keyboard s endpoint qmkata, and_comm]
  refine and_congr_left' ?_
  cases handled : (viaCommandKb keyboard length s).value with
  | true => simp [viaCommandKb_handled keyboard s handled]
  | false =>
    rw [viaCommandKb_declined keyboard s handled]
    simp [always_handleCommand keyboard s endpoint, start, always_rawHidSend]

end Commands

/-! ## Packets -/

def q3MaxLayout : Layout where
  eepromAddr := 41
  layerCount := 8
  rows := 6
  cols := 17
  encoderMap := true
  numEncoders := 1
  macroCount := 16
  maxAddr := 2047
  room := by decide
  addressable := by decide

def q3MaxKeychron : Keychron where
  supportFeature := 7
  deviceVer := 0x0100
  buildDate := List.replicate 20 0
  defaultLayer := 0
  lkWirelessEnable := true
  bridge := ⟨0, 0, 22⟩
  factoryTestEnable := false
  qmkataEnable := true
  environment := Qmkata.quietEnvironment
  qmkata := Qmkata.blankFirmware
  dated := by decide

def q3Max : Keyboard where
  layout := q3MaxLayout
  flash := ⟨fun _ _ _ => 0, fun _ _ _ => 0⟩
  channelEnabled := fun channelId => channelId = 3
  channelValue := fun _ _ _ => 0
  eepromAllowReset := false
  magicAddr := 37
  magic := fun _ => 0
  layoutOptionsAddr := 40
  layoutOptionsSize := 1
  layoutOptionsDefault := 0
  firmwareVersion := 0
  timerRead32 := 0
  matrixRow := fun _ => 0
  keychron := some q3MaxKeychron

/-- A packet that starts with the given bytes. -/
def packet (front : List UInt8) : Board := ⟨fun _ => 0xFF, fun i => front.getD i 0⟩

/-- A read of 60 keymap bytes fills a packet exactly. -/
theorem full_read_inside :
    32 ≤ 64 ∧ 64 = Qmkata.rawEpsizeQmkata ∧
      ∀ event ∈ (rawHidReceive q3Max 64 (packet [idDynamicKeymapGetBuffer, 0, 0, 60])).events,
        Inside 64 event := by
  refine ⟨by decide, rfl, (packet_accesses_inside_iff q3Max _ (by decide) fun _ => rfl).mpr ⟨by decide, ?_⟩⟩
  rintro - ⟨request, -⟩
  exact absurd request (by decide)

theorem long_read_not_inside :
    ¬ ∀ event ∈ (rawHidReceive q3Max 64 (packet [idDynamicKeymapGetBuffer, 0, 0, 61])).events,
      Inside 64 event := by
  decide +kernel

end QmkFirmware.Via
