import QmkFirmware.LegacyEeprom.RestartLaw

/-! # Rejected writes

Only the checks of the address answer `FLASH_BAD_ADDRESS`.  A word at the last byte of the buffer is
split into two byte writes, of which the first is done before the second is rejected. -/

namespace QmkFirmware.LegacyEeprom

/-- A rejected write leaves the buffer, the flash and the write log as they were. -/
def KeepsWhenRejected (write : State → Option FlashStatus × State) (s : State) : Prop :=
  (write s).1 = some .badAddress →
    (write s).2.dataBuf = s.dataBuf ∧ (write s).2.flash = s.flash ∧ (write s).2.emptySlot = s.emptySlot

section Driver

variable {cfg : Config} {s : State} {address : Nat}

/-! ## The flash never rejects an address of the driver -/

theorem flashProgramHalfWord_accepts (slot : Nat) (data : BitVec 16) (s : State) :
    (flashProgramHalfWord slot data s).1 ≠ .badAddress := by
  unfold flashProgramHalfWord
  dsimp only
  split
  · simp
  · split <;> simp

theorem worst_accepts {status finalStatus : FlashStatus} (last : status ≠ .badAddress)
    (before : finalStatus ≠ .badAddress) : (if status ≠ .complete then status else finalStatus) ≠ .badAddress := by
  split
  · exact last
  · exact before

theorem compactWords_accepts (count : Nat) {result : FlashStatus × State} (accepted : result.1 ≠ .badAddress) :
    (compactWords count result).1 ≠ .badAddress := by
  induction count with
  | zero => exact accepted
  | succ count ih =>
    rw [compactWords]
    dsimp only
    split
    · exact worst_accepts (flashProgramHalfWord_accepts _ _ _) ih
    · exact ih

theorem eepromCompact_accepts (cfg : Config) (s : State) : (eepromCompact cfg s).1 ≠ .badAddress :=
  compactWords_accepts _ (by simp)

theorem eepromWriteDirectEntry_accepts (address : Nat) (s : State) :
    (eepromWriteDirectEntry address s).1 ≠ some .badAddress := by
  unfold eepromWriteDirectEntry
  dsimp only
  split
  · split
    · simp
    · exact fun rejected => flashProgramHalfWord_accepts _ _ _ (Option.some.inj rejected)
  · simp

theorem eepromWriteLogWordEntry_accepts (cfg : Config) (address : Nat) (s : State) :
    (eepromWriteLogWordEntry cfg address s).1 ≠ .badAddress := by
  unfold eepromWriteLogWordEntry
  extract_lets value encoding entrySize target
  split
  · exact eepromCompact_accepts cfg s
  · dsimp only
    split
    · exact worst_accepts (flashProgramHalfWord_accepts _ _ _) (flashProgramHalfWord_accepts _ _ _)
    · exact flashProgramHalfWord_accepts _ _ _

theorem eepromWriteLogByteEntry_accepts (cfg : Config) (address : Nat) (s : State) :
    (eepromWriteLogByteEntry cfg address s).1 ≠ .badAddress := by
  unfold eepromWriteLogByteEntry
  split
  · exact eepromCompact_accepts cfg s
  · exact flashProgramHalfWord_accepts _ _ _

theorem eepromWriteLogByteEntries_accepts (cfg : Config) (address : Nat) (oldValue dataWord : BitVec 16) (s : State) :
    (eepromWriteLogByteEntries cfg address oldValue dataWord s).1 ≠ .badAddress := by
  have entry : ∀ (changed : Prop) [Decidable changed] (address : Nat) (s : State),
      (if changed then eepromWriteLogByteEntry cfg address s else (.complete, s)).1 ≠ .badAddress := by
    intro changed _ address s
    split
    · exact eepromWriteLogByteEntry_accepts cfg address s
    · simp
  have low := entry (lowByte oldValue ≠ lowByte dataWord) address s
  have high := entry (highByte oldValue ≠ highByte dataWord) (address + 1)
    (if lowByte oldValue ≠ lowByte dataWord then eepromWriteLogByteEntry cfg address s else (.complete, s)).2
  unfold eepromWriteLogByteEntries
  exact worst_accepts high low

/-! ## Which writes are rejected -/

theorem eepromWriteDataByte_rejected_iff {dataByte : BitVec 8} :
    (eepromWriteDataByte cfg address dataByte s).1 = some .badAddress ↔ cfg.densityBytes ≤ address := by
  unfold eepromWriteDataByte
  by_cases outside : address ≥ cfg.densityBytes
  · simp [outside]
  · refine ⟨fun rejected => ?_, fun inside => absurd inside outside⟩
    rw [if_neg outside] at rejected
    split at rejected
    · cases rejected
    · dsimp only at rejected
      have direct := eepromWriteDirectEntry_accepts address { s with dataBuf := setByte s.dataBuf address dataByte }
      split at rejected
      · next status after entry =>
        rw [entry] at direct
        exact absurd rejected direct
      · split at rejected
        · exact absurd (Option.some.inj rejected) (eepromWriteLogByteEntry_accepts _ _ _)
        · exact absurd (Option.some.inj rejected) (eepromWriteLogWordEntry_accepts _ _ _)

theorem eepromWriteDataByte_rejected (outside : cfg.densityBytes ≤ address) (dataByte : BitVec 8) :
    eepromWriteDataByte cfg address dataByte s = (some .badAddress, s) :=
  if_pos outside

/-- A word is rejected when one of its bytes is outside the buffer. -/
theorem eepromWriteDataWord_rejected_iff {dataWord : BitVec 16} :
    (eepromWriteDataWord cfg address dataWord s).1 = some .badAddress ↔ cfg.densityBytes ≤ address + 1 := by
  unfold eepromWriteDataWord
  by_cases outside : address ≥ cfg.densityBytes
  · simp [outside, Nat.le_succ_of_le outside]
  · rw [if_neg outside]
    by_cases odd : address % 2 ≠ 0
    · rw [if_pos odd]
      have first : (eepromWriteDataByte cfg address (lowByte dataWord) s).1 ≠ some .badAddress :=
        fun rejected => outside (eepromWriteDataByte_rejected_iff.mp rejected)
      rw [← @eepromWriteDataByte_rejected_iff cfg (eepromWriteDataByte cfg address (lowByte dataWord) s).2 (address + 1)
        (highByte dataWord)]
      dsimp only
      split
      · rfl
      · next complete =>
        rw [not_not] at complete
        simp [complete, first]
    · rw [if_neg odd]
      have even := cfg.densityEven
      refine ⟨fun rejected => ?_, fun beyond => absurd beyond (by omega)⟩
      dsimp only at rejected
      split at rejected
      · cases rejected
      · have direct := eepromWriteDirectEntry_accepts address { s with dataBuf := setWord s.dataBuf address dataWord }
        split at rejected
        · next status after entry =>
          rw [entry] at direct
          exact absurd rejected direct
        · split at rejected
          · exact absurd (Option.some.inj rejected) (eepromWriteLogByteEntries_accepts _ _ _ _ _)
          · exact absurd (Option.some.inj rejected) (eepromWriteLogWordEntry_accepts _ _ _)

/-! ## What a rejected write leaves -/

theorem eepromWriteDataByte_keeps (dataByte : BitVec 8) (s : State) :
    KeepsWhenRejected (eepromWriteDataByte cfg address dataByte) s := by
  intro rejected
  rw [eepromWriteDataByte_rejected (eepromWriteDataByte_rejected_iff.mp rejected)]
  exact ⟨rfl, rfl, rfl⟩

/-- At the last byte of the buffer only the first byte write is done. -/
theorem eepromWriteDataWord_last (last : address + 1 = cfg.densityBytes) (dataWord : BitVec 16) :
    (eepromWriteDataWord cfg address dataWord s).2 = (eepromWriteDataByte cfg address (lowByte dataWord) s).2 := by
  have even := cfg.densityEven
  unfold eepromWriteDataWord
  rw [if_neg (by omega), if_pos (by omega)]
  dsimp only
  rw [eepromWriteDataByte_rejected last.ge]

theorem eepromWriteDataWord_keeps_iff (dataWord : BitVec 16) (s : State) :
    KeepsWhenRejected (eepromWriteDataWord cfg address dataWord) s ↔
      (address + 1 = cfg.densityBytes → s.dataBuf address = lowByte dataWord) := by
  constructor
  · intro keeps last
    obtain ⟨buffer, -, -⟩ := keeps (eepromWriteDataWord_rejected_iff.mpr last.ge)
    rw [eepromWriteDataWord_last last, eepromWriteDataByte_dataBuf, storeByte, if_pos (by omega)] at buffer
    rw [← buffer]
    simp [setByte, Memory.blit]
  · intro same rejected
    by_cases last : address + 1 = cfg.densityBytes
    · have inside : ¬ address ≥ cfg.densityBytes := by omega
      rw [eepromWriteDataWord_last last, eepromWriteDataByte, if_neg inside, if_pos (same last)]
      exact ⟨rfl, rfl, rfl⟩
    · have outside : address ≥ cfg.densityBytes := by
        have beyond := eepromWriteDataWord_rejected_iff.mp rejected
        omega
      rw [eepromWriteDataWord, if_pos outside]
      exact ⟨rfl, rfl, rfl⟩

/-- A rejected write changes nothing, unless it is a word at the last byte of the buffer that changes that
byte. -/
theorem rejected_writes_keep_iff (cfg : Config) (address : Nat) (dataByte : BitVec 8) (dataWord : BitVec 16)
    (s : State) :
    KeepsWhenRejected (eepromWriteDataByte cfg address dataByte) s ∧
        KeepsWhenRejected (eepromWriteDataWord cfg address dataWord) s ↔
      (address + 1 = cfg.densityBytes → s.dataBuf address = lowByte dataWord) := by
  rw [eepromWriteDataWord_keeps_iff]
  exact and_iff_right (eepromWriteDataByte_keeps dataByte s)

theorem rejected_word_changes_last_byte :
    (eepromWriteDataWord smallConfig 15 0xbeef (start smallConfig (fun _ => emptyWord) fun _ => 0)).1 =
        some .badAddress ∧
      (eepromWriteDataWord smallConfig 15 0xbeef (start smallConfig (fun _ => emptyWord) fun _ => 0)).2.dataBuf 15 ≠
        (start smallConfig (fun _ => emptyWord) fun _ => 0).dataBuf 15 := by
  decide

end Driver

end QmkFirmware.LegacyEeprom
