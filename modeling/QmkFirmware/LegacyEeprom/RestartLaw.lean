import QmkFirmware.LegacyEeprom.Refinement

/-! # The restart law

After any run of writes and erases, `EEPROM_Init` rebuilds the buffer from the flash,
and no half-word was programmed twice since it was erased.  The one thing a run must
not do is split a zero: set a word below `byteRange` to zero, both bytes of which have
to be logged, when the log is full.  The first byte then compacts the log, which leaves
the half-word of the word erased, and the second byte is logged all the same; a later
write goes directly into the compacted area, and the stale entry is replayed over it.
-/

namespace QmkFirmware.LegacyEeprom

open QmkFirmware.Memory QmkFirmware.Runs

/-! ## What a write does to the buffer -/

/-- A byte array of the size of the buffer. -/
def storeByte (cfg : Config) (address : Nat) (value : BitVec 8) (buf : Nat → BitVec 8) : Nat → BitVec 8 :=
  if address < cfg.densityBytes then setByte buf address value else buf

def storeWord (cfg : Config) (address : Nat) (word : BitVec 16) (buf : Nat → BitVec 8) : Nat → BitVec 8 :=
  storeByte cfg (address + 1) (highByte word) (storeByte cfg address (lowByte word) buf)

theorem storeByte_other {cfg : Config} {address i : Nat} (other : i ≠ address) (value : BitVec 8)
    (buf : Nat → BitVec 8) : storeByte cfg address value buf i = buf i := by
  unfold storeByte
  split
  · exact blit_outside (by simp; omega)
  · rfl

section Buffer

variable (cfg : Config) (s : State)

theorem setByte_self (buf : Nat → BitVec 8) (address : Nat) : setByte buf address (buf address) = buf := by
  funext i
  by_cases own : i = address
  · subst own
    simp [setByte, blit]
  · exact blit_outside (by simp; omega)

theorem setWord_eq_setByte (buf : Nat → BitVec 8) (address : Nat) (word : BitVec 16) :
    setWord buf address word = setByte (setByte buf address (lowByte word)) (address + 1) (highByte word) :=
  blit_append buf address [lowByte word] [highByte word]

@[simp] theorem flashProgramHalfWord_dataBuf (slot : Nat) (data : BitVec 16) :
    (flashProgramHalfWord slot data s).2.dataBuf = s.dataBuf := by
  unfold flashProgramHalfWord
  dsimp only
  split
  · rfl
  · split <;> rfl

@[simp] theorem eepromCompact_dataBuf : (eepromCompact cfg s).2.dataBuf = s.dataBuf :=
  (eepromCompact_spec cfg s).2.1

@[simp] theorem eepromWriteDirectEntry_dataBuf (address : Nat) :
    (eepromWriteDirectEntry address s).2.dataBuf = s.dataBuf := by
  unfold eepromWriteDirectEntry
  dsimp only
  split
  · split
    · rfl
    · exact flashProgramHalfWord_dataBuf _ _ _
  · rfl

@[simp] theorem eepromWriteLogByteEntry_dataBuf (address : Nat) :
    (eepromWriteLogByteEntry cfg address s).2.dataBuf = s.dataBuf := by
  unfold eepromWriteLogByteEntry
  split
  · exact eepromCompact_dataBuf cfg s
  · exact flashProgramHalfWord_dataBuf (flashUnlock s) _ _

@[simp] theorem eepromWriteLogWordEntry_dataBuf (address : Nat) :
    (eepromWriteLogWordEntry cfg address s).2.dataBuf = s.dataBuf := by
  unfold eepromWriteLogWordEntry
  extract_lets value encoding entrySize target
  split
  · exact eepromCompact_dataBuf cfg s
  · have first := flashProgramHalfWord_dataBuf (flashUnlock s) s.emptySlot (BitVec.ofNat 16 target >>> 1 ||| encoding)
    dsimp only
    split
    · exact (flashProgramHalfWord_dataBuf _ _ _).trans first
    · exact first

@[simp] theorem eepromWriteLogByteEntries_dataBuf (address : Nat) (oldValue dataWord : BitVec 16) :
    (eepromWriteLogByteEntries cfg address oldValue dataWord s).2.dataBuf = s.dataBuf := by
  unfold eepromWriteLogByteEntries
  dsimp only
  split <;> split <;> simp

theorem eepromWriteDataByte_dataBuf (address : Nat) (dataByte : BitVec 8) :
    (eepromWriteDataByte cfg address dataByte s).2.dataBuf = storeByte cfg address dataByte s.dataBuf := by
  unfold eepromWriteDataByte
  by_cases outside : address ≥ cfg.densityBytes
  · rw [if_pos outside, storeByte, if_neg (by omega)]
  · have stored : storeByte cfg address dataByte s.dataBuf = setByte s.dataBuf address dataByte :=
      if_pos (Nat.lt_of_not_le outside)
    rw [if_neg outside, stored]
    split
    · next same => rw [← same, setByte_self]
    · have direct := eepromWriteDirectEntry_dataBuf
        { s with dataBuf := setByte s.dataBuf address dataByte } address
      dsimp only at direct ⊢
      split
      · next status after entry =>
        rw [entry] at direct
        exact direct
      · next after entry =>
        rw [entry] at direct
        split
        · exact (eepromWriteLogByteEntry_dataBuf _ _ _).trans direct
        · exact (eepromWriteLogWordEntry_dataBuf _ _ _).trans direct

theorem eepromWriteDataWord_dataBuf (address : Nat) (dataWord : BitVec 16) :
    (eepromWriteDataWord cfg address dataWord s).2.dataBuf = storeWord cfg address dataWord s.dataBuf := by
  unfold eepromWriteDataWord
  by_cases outside : address ≥ cfg.densityBytes
  · rw [if_pos outside, storeWord, storeByte, storeByte, if_neg (by omega), if_neg (by omega)]
  · rw [if_neg outside]
    by_cases odd : address % 2 ≠ 0
    · rw [if_pos odd]
      exact (eepromWriteDataByte_dataBuf _ _ _ _).trans (by rw [eepromWriteDataByte_dataBuf]; rfl)
    · have even := cfg.densityEven
      have stored : storeWord cfg address dataWord s.dataBuf = setWord s.dataBuf address dataWord := by
        rw [storeWord, storeByte, storeByte, if_pos (by omega), if_pos (by omega), setWord_eq_setByte]
      rw [if_neg odd, stored]
      dsimp only
      split
      · next same =>
        funext i
        rw [← same, setWord_wordAt, ite_self]
      · have direct := eepromWriteDirectEntry_dataBuf
          { s with dataBuf := setWord s.dataBuf address dataWord } address
        dsimp only at direct ⊢
        split
        · next status after entry =>
          rw [entry] at direct
          exact direct
        · next after entry =>
          rw [entry] at direct
          split
          · exact (eepromWriteLogByteEntries_dataBuf _ _ _ _ _).trans direct
          · exact (eepromWriteLogWordEntry_dataBuf _ _ _).trans direct

end Buffer

/-! ## Single writes -/

/-- A word below `byteRange` is set to zero, both its bytes have to be logged, and the log is full. -/
def SplitsZero (cfg : Config) (address : Nat) (dataWord : BitVec 16) (s : State) : Prop :=
  dataWord = 0 ∧ address % 2 = 0 ∧ address < byteRange ∧ address < cfg.densityBytes ∧
    s.dataBuf address ≠ 0 ∧ s.dataBuf (address + 1) ≠ 0 ∧ s.flash (address / 2) ≠ emptyWord ∧
    0 < cfg.writeLogBytes ∧ cfg.writeLogLast ≤ s.emptySlot

instance (cfg : Config) (address : Nat) (dataWord : BitVec 16) (s : State) :
    Decidable (SplitsZero cfg address dataWord s) := by
  unfold SplitsZero
  infer_instance

section Single

variable {cfg : Config} {s : State} {address : Nat}

theorem wordAddress_half (address : Nat) : wordAddress address / 2 = address / 2 := by
  unfold wordAddress
  omega

theorem eepromWriteDirectEntry_held (held : s.flash (address / 2) ≠ emptyWord) :
    eepromWriteDirectEntry address s = (none, s) := by
  simp [eepromWriteDirectEntry, wordAddress_half, held]

/-- A half-word of the compacted area is written directly. -/
def State.written (s : State) (slot : Nat) (word : BitVec 16) : State :=
  { s with
    flash := programmed slot word s.flash
    flashLocked := true
    trace := s.trace ++ [.program slot word emptyWord] }

theorem eepromWriteDirectEntry_zero (empty : s.flash (address / 2) = emptyWord)
    (zero : wordAt s.dataBuf (wordAddress address) = 0) : eepromWriteDirectEntry address s = (some .complete, s) := by
  have unneeded : ~~~wordAt s.dataBuf (wordAddress address) = emptyWord := (not_eq_emptyWord_iff _).mpr zero
  simp [eepromWriteDirectEntry, wordAddress_half, empty, unneeded]

theorem eepromWriteDirectEntry_written (empty : s.flash (address / 2) = emptyWord)
    (nonzero : wordAt s.dataBuf (wordAddress address) ≠ 0) :
    eepromWriteDirectEntry address s =
      (some .complete, s.written (address / 2) (~~~wordAt s.dataBuf (wordAddress address))) := by
  have needed : ¬ ~~~wordAt s.dataBuf (wordAddress address) = emptyWord :=
    fun same => nonzero ((not_eq_emptyWord_iff _).mp same)
  simp only [eepromWriteDirectEntry, wordAddress_half, empty, needed, if_true, if_false]
  rw [flashProgramHalfWord_eq (s := flashUnlock s) rfl empty]
  rfl

/-- A direct write brings the flash up to a buffer that differs in that word at most. -/
theorem Persists.direct (consistent : Consistent cfg s) (inside : address < cfg.densityBytes)
    (empty : s.flash (address / 2) = emptyWord) {buf : Nat → BitVec 8}
    (other : ∀ i, i / 2 ≠ address / 2 → buf i = s.dataBuf i) :
    ∃ after, eepromWriteDirectEntry address { s with dataBuf := buf } = (some .complete, after) ∧
      Persists cfg s after := by
  obtain ⟨patches, tracks⟩ := consistent
  by_cases zero : wordAt buf (wordAddress address) = 0
  · refine ⟨_, eepromWriteDirectEntry_zero (s := { s with dataBuf := buf }) empty zero, ?_⟩
    refine .single ⟨patches, tracks⟩ ⟨patches, ?_⟩ (.nil rfl rfl) (Nat.zero_le _)
    refine tracks.program inside empty rfl (fun j _ => rfl) ?_ other
    exact empty.trans ((not_eq_emptyWord_iff _).mpr zero).symm
  · refine ⟨_, eepromWriteDirectEntry_written (s := { s with dataBuf := buf }) empty zero, ?_⟩
    refine .single ⟨patches, tracks⟩ ⟨patches, ?_⟩ (.program rfl rfl) (Nat.le_refl _)
    exact tracks.program inside empty rfl (fun j apart => programmed_other apart _ _) (programmed_self _ _ _) other

section TwoEntries

variable (consistent : Consistent cfg s) (even : address % 2 = 0) (low : address < byteRange)
variable (inside : address < cfg.densityBytes) (held : s.flash (address / 2) ≠ emptyWord) (dataWord : BitVec 16)

include consistent even low inside held

/-- The second entry finds the flash up to date with the first byte. -/
theorem Persists.twoEntries (room : s.emptySlot < cfg.writeLogLast) :
    Persists cfg s (eepromWriteLogByteEntry cfg (address + 1) (eepromWriteLogByteEntry cfg address
      { s with dataBuf := setWord s.dataBuf address dataWord }).2).2 := by
  have densityEven := cfg.densityEven
  have range : byteRange = 0x80 := rfl
  have empty : s.flash s.emptySlot = emptyWord := by
    obtain ⟨patches, tracks⟩ := consistent
    exact tracks.free s.emptySlot (Nat.le_refl _) room
  have slot : address / 2 < s.emptySlot := by
    obtain ⟨patches, tracks⟩ := consistent
    have base := tracks.log.base_le
    unfold Config.writeLogBase at base
    omega
  let firstBuf := setByte s.dataBuf address (lowByte dataWord)
  let middle := State.logged { s with dataBuf := firstBuf } (LegacyEeprom.byteEntry address (lowByte dataWord))
  have stored : firstBuf address = lowByte dataWord := by simp [firstBuf, setByte, blit]
  have first : Persists cfg s middle := by
    have entry : Persists cfg s (eepromWriteLogByteEntry cfg address { s with dataBuf := firstBuf }).2 :=
      .byteEntry consistent low inside held fun i apart => blit_outside (by simp; omega)
    rw [eepromWriteLogByteEntry_eq (s := { s with dataBuf := firstBuf }) room empty] at entry
    simpa only [stored] using entry
  have heldMiddle : middle.flash ((address + 1) / 2) ≠ emptyWord := by
    have half : (address + 1) / 2 = address / 2 := by omega
    have same : middle.flash (address / 2) = s.flash (address / 2) := programmed_other (Nat.ne_of_lt slot) _ _
    rwa [half, same]
  have second : Persists cfg middle (eepromWriteLogByteEntry cfg (address + 1)
      { middle with dataBuf := setWord s.dataBuf address dataWord }).2 := by
    apply Persists.byteEntry first.consistent (by omega) (by omega) heldMiddle
    intro i apart
    rw [setWord_eq_setByte]
    exact blit_outside (by simp; omega)
  have storedWord : setWord s.dataBuf address dataWord address = lowByte dataWord := by simp [setWord, blit]
  rw [eepromWriteLogByteEntry_eq (s := { s with dataBuf := setWord s.dataBuf address dataWord }) room empty]
  simp only [storedWord]
  apply first.trans second
  intro i _
  rw [eepromWriteLogByteEntry_dataBuf, setWord_eq_setByte]
  by_cases own : i = address + 1
  · exact .inl (blit_outside (by simp; omega))
  · exact .inr (blit_outside (by simp; omega)).symm

omit consistent held in
/-- The first entry compacts the log: the second one is superfluous, but harmless unless the
word is zero. -/
theorem Persists.compactedEntries (full : ¬ s.emptySlot < cfg.writeLogLast)
    (harmless : dataWord ≠ 0 ∨ cfg.writeLogBytes = 0) :
    Persists cfg s (eepromWriteLogByteEntry cfg (address + 1) (eepromWriteLogByteEntry cfg address
      { s with dataBuf := setWord s.dataBuf address dataWord }).2).2 := by
  have densityEven := cfg.densityEven
  have range : byteRange = 0x80 := rfl
  have compacts : s.emptySlot ≥ cfg.writeLogLast := Nat.le_of_not_lt full
  rw [eepromWriteLogByteEntry.eq_def cfg address, if_pos compacts]
  obtain ⟨_, buf, slot, compacted, _⟩ :=
    eepromCompact_spec cfg { s with dataBuf := setWord s.dataBuf address dataWord }
  have first : Persists cfg s (eepromCompact cfg { s with dataBuf := setWord s.dataBuf address dataWord }).2 :=
    .compact cfg rfl rfl (by omega)
  generalize (eepromCompact cfg { s with dataBuf := setWord s.dataBuf address dataWord }).2 = middle at *
  have second : Persists cfg middle (eepromWriteLogByteEntry cfg (address + 1) middle).2 := by
    by_cases zero : dataWord = 0
    · have noLog : cfg.writeLogBytes = 0 := harmless.resolve_left (not_not.mpr zero)
      have again : middle.emptySlot ≥ cfg.writeLogLast := by
        rw [slot, Config.writeLogBase, Config.writeLogLast, noLog, Nat.add_zero]
      rw [eepromWriteLogByteEntry, if_pos again]
      exact .compact cfg rfl rfl (by omega)
    · have heldMiddle : middle.flash ((address + 1) / 2) ≠ emptyWord := by
        have half : (address + 1) / 2 = address / 2 := by omega
        have word : 2 * (address / 2) = address := by omega
        rw [half, compacted _ (by unfold Config.writeLogBase; omega), word, wordAt_setWord]
        exact fun same => zero ((not_eq_emptyWord_iff _).mp same)
      exact .byteEntry first.consistent (by omega) (by omega) heldMiddle fun i _ => rfl
  apply first.trans second
  intro i _
  exact .inr (by rw [eepromWriteLogByteEntry_dataBuf])

end TwoEntries

/-- The two byte entries of a word, when they are not a split zero. -/
theorem Persists.byteEntries (consistent : Consistent cfg s) (even : address % 2 = 0) (low : address < byteRange)
    (inside : address < cfg.densityBytes) (held : s.flash (address / 2) ≠ emptyWord) {dataWord : BitVec 16}
    (changes : wordAt s.dataBuf address ≠ dataWord) (whole : ¬ SplitsZero cfg address dataWord s) :
    Persists cfg s (eepromWriteLogByteEntries cfg address (wordAt s.dataBuf address) dataWord
      { s with dataBuf := setWord s.dataBuf address dataWord }).2 := by
  have densityEven := cfg.densityEven
  have range : byteRange = 0x80 := rfl
  have half : (address + 1) / 2 = address / 2 := by omega
  have heldSecond : s.flash ((address + 1) / 2) ≠ emptyWord := by rwa [half]
  have bufLow : setWord s.dataBuf address dataWord address = lowByte dataWord := by simp [setWord, blit]
  have bufHigh : setWord s.dataBuf address dataWord (address + 1) = highByte dataWord := by simp [setWord, blit]
  have bufOther (i : Nat) (first : i ≠ address) (second : i ≠ address + 1) :
      setWord s.dataBuf address dataWord i = s.dataBuf i := blit_outside (by simp; omega)
  have oldLow : lowByte (wordAt s.dataBuf address) = s.dataBuf address := lowByte_append _ _
  have oldHigh : highByte (wordAt s.dataBuf address) = s.dataBuf (address + 1) := highByte_append _ _
  rw [eepromWriteLogByteEntries, oldLow, oldHigh]
  by_cases lowChanges : s.dataBuf address ≠ lowByte dataWord
  · by_cases highChanges : s.dataBuf (address + 1) ≠ highByte dataWord
    · simp only [lowChanges, highChanges, ne_eq, not_false_eq_true, if_true]
      by_cases room : s.emptySlot < cfg.writeLogLast
      · exact .twoEntries consistent even low inside held dataWord room
      · apply Persists.compactedEntries even low inside dataWord room
        by_contra harmful
        obtain ⟨zero, someLog⟩ := not_or.mp harmful
        have zero := not_not.mp zero
        subst zero
        exact whole ⟨rfl, even, low, inside, lowChanges, highChanges, held, Nat.pos_of_ne_zero someLog,
          Nat.le_of_not_lt room⟩
    · have highSame := not_not.mp highChanges
      simp only [lowChanges, highSame, ne_eq, not_false_eq_true, not_true_eq_false, if_true, if_false]
      apply Persists.byteEntry consistent low inside held
      intro i apart
      by_cases second : i = address + 1
      · rw [second, bufHigh, highSame]
      · exact bufOther i apart second
  · have lowSame := not_not.mp lowChanges
    have highChanges : s.dataBuf (address + 1) ≠ highByte dataWord := by
      intro highSame
      apply changes
      rw [wordAt, lowSame, highSame, append_bytes]
    simp only [lowSame, highChanges, ne_eq, not_false_eq_true, not_true_eq_false, if_true, if_false]
    apply Persists.byteEntry consistent (by omega) (by omega) heldSecond
    intro i apart
    by_cases first : i = address
    · rw [first, bufLow, lowSame]
    · exact bufOther i first apart

theorem Persists.writeDataByte (consistent : Consistent cfg s) (address : Nat) (dataByte : BitVec 8) :
    Persists cfg s (eepromWriteDataByte cfg address dataByte s).2 := by
  unfold eepromWriteDataByte
  split
  · exact .refl consistent
  · split
    · exact .refl consistent
    · next inside _ =>
      have bound : address < cfg.densityBytes := Nat.lt_of_not_le inside
      have other (i : Nat) (apart : i ≠ address) : setByte s.dataBuf address dataByte i = s.dataBuf i :=
        blit_outside (by simp; omega)
      have otherWord (i : Nat) (apart : i / 2 ≠ address / 2) : setByte s.dataBuf address dataByte i = s.dataBuf i :=
        other i fun same => apart (by rw [same])
      dsimp only
      by_cases empty : s.flash (address / 2) = emptyWord
      · obtain ⟨after, direct, persists⟩ := Persists.direct consistent bound empty otherWord
        rw [direct]
        exact persists
      · rw [eepromWriteDirectEntry_held (s := { s with dataBuf := setByte s.dataBuf address dataByte }) empty]
        dsimp only
        split
        · next low => exact .byteEntry consistent low bound empty other
        · next high =>
          have range : byteRange = 0x80 := rfl
          have below : wordAddress address ≤ address := by unfold wordAddress; omega
          have above : byteRange ≤ wordAddress address := by unfold wordAddress; omega
          have even : wordAddress address % 2 = 0 := by unfold wordAddress; omega
          rw [← wordAddress_half address] at empty otherWord
          exact .wordEntry consistent above even (by omega) empty otherWord

theorem Persists.writeDataWord (consistent : Consistent cfg s) {address : Nat} {dataWord : BitVec 16}
    (whole : ¬ SplitsZero cfg address dataWord s) : Persists cfg s (eepromWriteDataWord cfg address dataWord s).2 := by
  unfold eepromWriteDataWord
  split
  · exact .refl consistent
  · next inside =>
    have bound : address < cfg.densityBytes := Nat.lt_of_not_le inside
    split
    · -- an odd address: two bytes of different words
      have first := Persists.writeDataByte consistent address (lowByte dataWord)
      have second := Persists.writeDataByte first.consistent (address + 1) (highByte dataWord)
      apply first.trans second
      intro i _
      rw [eepromWriteDataByte_dataBuf cfg _ (address + 1)]
      by_cases own : i = address + 1
      · rw [eepromWriteDataByte_dataBuf]
        exact .inl (storeByte_other (by omega) _ _)
      · exact .inr (storeByte_other own _ _).symm
    · next aligned =>
      have even : address % 2 = 0 := not_not.mp aligned
      dsimp only
      split
      · exact .refl consistent
      · next changes =>
        have other (i : Nat) (apart : i / 2 ≠ address / 2) : setWord s.dataBuf address dataWord i = s.dataBuf i :=
          blit_outside (by simp; omega)
        by_cases empty : s.flash (address / 2) = emptyWord
        · obtain ⟨after, direct, persists⟩ := Persists.direct consistent bound empty other
          rw [direct]
          exact persists
        · rw [eepromWriteDirectEntry_held (s := { s with dataBuf := setWord s.dataBuf address dataWord }) empty]
          dsimp only
          split
          · next low => exact .byteEntries consistent even low bound empty changes whole
          · next high => exact .wordEntry consistent (Nat.le_of_not_lt high) even bound empty other

end Single

/-! ## Runs -/

/-- A call of the driver; `init` is a restart that keeps the RAM. -/
inductive Call where
  | writeDataByte (address : BitVec 16) (dataByte : BitVec 8)
  | writeDataWord (address : BitVec 16) (dataWord : BitVec 16)
  | writeBlock (buf : List (BitVec 8)) (addr : Nat)
  | erase
  | init
  deriving DecidableEq, Repr

def call (cfg : Config) (s : State) : Call → State
  | .writeDataByte address dataByte => (eepromWriteDataByte cfg address.toNat dataByte s).2
  | .writeDataWord address dataWord => (eepromWriteDataWord cfg address.toNat dataWord s).2
  | .writeBlock buf addr => eepromWriteBlock cfg buf addr s
  | .erase => eepromErase cfg s
  | .init => eepromInit cfg s

/-- `EEPROM_Erase` on whatever the flash and the RAM hold. -/
def start (cfg : Config) (flash : Nat → BitVec 16) (ram : Nat → BitVec 8) : State :=
  eepromErase cfg { flash := flash, flashLocked := true, dataBuf := ram, emptySlot := 0, trace := [] }

/-- The bytes of a block, one after the other; an address is a `uint16_t`. -/
def storeBlock (cfg : Config) (dest : Nat) : List (BitVec 8) → (Nat → BitVec 8) → Nat → BitVec 8
  | [], buf => buf
  | value :: src, buf => storeBlock cfg (dest + 1) src (storeByte cfg (dest % 2 ^ 16) value buf)

/-- What a call means for a byte array. -/
def Call.store (cfg : Config) (buf : Nat → BitVec 8) : Call → Nat → BitVec 8
  | .writeDataByte address dataByte => storeByte cfg address.toNat dataByte buf
  | .writeDataWord address dataWord => storeWord cfg address.toNat dataWord buf
  | .writeBlock data addr => storeBlock cfg addr data buf
  | .erase => fun _ => 0
  | .init => buf

/-- No word of the block is a split zero when its turn comes. -/
def WordsWhole (cfg : Config) (dest : Nat) : List (BitVec 8) → State → Prop
  | low :: high :: src, s =>
    ¬ SplitsZero cfg (dest % 2 ^ 16) (high ++ low) s ∧
      WordsWhole cfg (dest + 2) src (eepromWriteDataWord cfg (dest % 2 ^ 16) (high ++ low) s).2
  | _, _ => True

/-- No `EEPROM_WriteDataWord` of the call is a split zero. -/
def Call.Whole (cfg : Config) (s : State) : Call → Prop
  | .writeDataWord address dataWord => ¬ SplitsZero cfg address.toNat dataWord s
  | .writeBlock (first :: src) addr =>
    if addr % 2 ≠ 0 then WordsWhole cfg (addr + 1) src (eepromWriteDataByte cfg (addr % 2 ^ 16) first s).2
    else WordsWhole cfg addr (first :: src) s
  | _ => True

instance decidableWordsWhole (cfg : Config) (dest : Nat) :
    (src : List (BitVec 8)) → (s : State) → Decidable (WordsWhole cfg dest src s)
  | _ :: _ :: src, _ => @instDecidableAnd _ _ inferInstance (decidableWordsWhole cfg (dest + 2) src _)
  | [_], _ => .isTrue trivial
  | [], _ => .isTrue trivial

instance (cfg : Config) (s : State) : (c : Call) → Decidable (c.Whole cfg s)
  | .writeDataByte _ _ => .isTrue trivial
  | .writeDataWord _ _ => inferInstanceAs (Decidable (¬ SplitsZero _ _ _ _))
  | .writeBlock [] _ => .isTrue trivial
  | .writeBlock (_ :: _) _ => inferInstanceAs (Decidable (if _ ≠ _ then WordsWhole _ _ _ _ else WordsWhole _ _ _ _))
  | .erase => .isTrue trivial
  | .init => .isTrue trivial

section Runs

variable {cfg : Config} {s : State}

/-- The driver is consistent, and programs erased half-words only. -/
structure Sound (cfg : Config) (s : State) : Prop where
  consistent : Consistent cfg s
  erased : ∀ op ∈ s.trace, op.OnErased

theorem Sound.persists {after : State} (sound : Sound cfg s) (persists : Persists cfg s after) : Sound cfg after := by
  obtain ⟨ops, issues, _⟩ := persists.cuttable
  refine ⟨persists.consistent, ?_⟩
  intro op member
  rw [issues.trace] at member
  rcases List.mem_append.mp member with earlier | issued
  · exact sound.erased op earlier
  · exact issues.erased op issued

theorem Sound.writeBlockWords {dest : Nat} {src : List (BitVec 8)} (sound : Sound cfg s)
    (whole : WordsWhole cfg dest src s) : Sound cfg (writeBlockWords cfg dest src s) := by
  induction dest, src, s using writeBlockWords.induct cfg with
  | case1 dest low high src s ih =>
    obtain ⟨first, rest⟩ := whole
    exact ih (sound.persists (.writeDataWord sound.consistent first)) rest
  | case2 dest last s => exact sound.persists (.writeDataByte sound.consistent _ _)
  | case3 dest s => exact sound

theorem writeBlockWords_dataBuf {dest : Nat} (even : dest % 2 = 0) (src : List (BitVec 8)) (s : State) :
    (writeBlockWords cfg dest src s).dataBuf = storeBlock cfg dest src s.dataBuf := by
  induction dest, src, s using writeBlockWords.induct cfg with
  | case1 dest low high src s ih =>
    have next : (dest + 1) % 2 ^ 16 = dest % 2 ^ 16 + 1 := by omega
    rw [writeBlockWords, ih (by omega), eepromWriteDataWord_dataBuf, storeWord, highByte_append, lowByte_append,
      storeBlock, storeBlock, next]
  | case2 dest last s => exact eepromWriteDataByte_dataBuf cfg s _ _
  | case3 dest s => rfl

/-- Erasing leaves zeros, whatever was there. -/
theorem eepromErase_spec (cfg : Config) (s : State) :
    Consistent cfg (eepromErase cfg s) ∧ (∀ i < cfg.densityBytes, (eepromErase cfg s).dataBuf i = 0) ∧
      ∃ ops, (eepromErase cfg s).trace = s.trace ++ ops ∧ ∀ op ∈ ops, op.OnErased := by
  obtain ⟨_, slot, empty, ops, issues, _⟩ := eepromClear_spec cfg s
  have order : cfg.writeLogBase ≤ cfg.writeLogLast := by
    unfold Config.writeLogBase Config.writeLogLast
    omega
  have tracks : Tracks cfg { eepromClear cfg s with dataBuf := fun _ => 0 } [] := by
    constructor
    · change WriteLog cfg _ [] (eepromClear cfg s).emptySlot
      rw [slot]
      exact .nil
    · exact slot.trans_le order
    · intro j _ before
      exact empty j before
    · intro i inside
      have even := cfg.densityEven
      have half : i / 2 < cfg.writeLogBase := by unfold Config.writeLogBase; omega
      rw [patched_nil, compactedByte, empty (i / 2) (by omega)]
      exact ite_self _
    · intro i _ _ patch member
      cases member
  have consistent : Consistent cfg { eepromClear cfg s with dataBuf := fun _ => 0 } := ⟨[], tracks⟩
  refine ⟨consistent.init rfl, (tracks.restartLaw (eepromClear cfg s) rfl).1, ops, issues.trace, issues.erased⟩

theorem start_sound (cfg : Config) (flash : Nat → BitVec 16) (ram : Nat → BitVec 8) : Sound cfg (start cfg flash ram) := by
  obtain ⟨consistent, _, ops, trace, erased⟩ := eepromErase_spec cfg
    { flash := flash, flashLocked := true, dataBuf := ram, emptySlot := 0, trace := [] }
  refine ⟨consistent, ?_⟩
  rw [start, trace]
  exact erased

/-- Every call that splits no zero keeps the driver sound. -/
theorem Sound.call (sound : Sound cfg s) {c : Call} (whole : c.Whole cfg s) : Sound cfg (call cfg s c) := by
  cases c with
  | writeDataByte address dataByte => exact sound.persists (.writeDataByte sound.consistent _ _)
  | writeDataWord address dataWord => exact sound.persists (.writeDataWord sound.consistent whole)
  | writeBlock buf addr =>
    cases buf with
    | nil => exact sound
    | cons first src =>
      rw [LegacyEeprom.call, eepromWriteBlock]
      rw [Call.Whole] at whole
      split
      · next odd =>
        rw [if_pos odd] at whole
        exact (sound.persists (.writeDataByte sound.consistent _ _)).writeBlockWords whole
      · next even =>
        rw [if_neg even] at whole
        exact sound.writeBlockWords whole
  | erase =>
    obtain ⟨consistent, _, ops, trace, erased⟩ := eepromErase_spec cfg s
    refine ⟨consistent, ?_⟩
    intro op member
    rw [LegacyEeprom.call, trace] at member
    rcases List.mem_append.mp member with earlier | issued
    · exact sound.erased op earlier
    · exact erased op issued
  | init => exact ⟨sound.consistent.init rfl, sound.erased⟩

/-! ## The byte array -/

/-- The same bytes as far as the buffer reaches. -/
def SameBytes (cfg : Config) (buf other : Nat → BitVec 8) : Prop := ∀ i < cfg.densityBytes, buf i = other i

theorem SameBytes.storeByte {buf other : Nat → BitVec 8} (same : SameBytes cfg buf other) (address : Nat)
    (value : BitVec 8) :
    SameBytes cfg (storeByte cfg address value buf) (LegacyEeprom.storeByte cfg address value other) := by
  intro i inside
  unfold LegacyEeprom.storeByte
  split
  · exact blit_congr (same i inside) _ _
  · exact same i inside

theorem SameBytes.storeBlock {buf other : Nat → BitVec 8} (same : SameBytes cfg buf other) (dest : Nat)
    (src : List (BitVec 8)) :
    SameBytes cfg (storeBlock cfg dest src buf) (LegacyEeprom.storeBlock cfg dest src other) := by
  induction src generalizing dest buf other with
  | nil => exact same
  | cons value src ih => exact ih (same.storeByte _ _) (dest + 1)

/-- A call does to the buffer what it means for a byte array. -/
theorem SameBytes.call {array : Nat → BitVec 8} (same : SameBytes cfg s.dataBuf array) (sound : Sound cfg s) (c : Call) :
    SameBytes cfg (call cfg s c).dataBuf (c.store cfg array) := by
  cases c with
  | writeDataByte address dataByte =>
    rw [LegacyEeprom.call, eepromWriteDataByte_dataBuf]
    exact same.storeByte _ _
  | writeDataWord address dataWord =>
    rw [LegacyEeprom.call, eepromWriteDataWord_dataBuf]
    exact (same.storeByte _ _).storeByte _ _
  | writeBlock buf addr =>
    cases buf with
    | nil => exact same
    | cons first src =>
      rw [LegacyEeprom.call, eepromWriteBlock, Call.store]
      split
      · rw [writeBlockWords_dataBuf (by omega), eepromWriteDataByte_dataBuf]
        exact (same.storeByte _ _).storeBlock _ _
      · rw [writeBlockWords_dataBuf (by omega)]
        exact same.storeBlock _ _
  | erase => exact (eepromErase_spec cfg s).2.1
  | init =>
    intro i inside
    exact ((sound.consistent.restartLaw s rfl).1 i inside).trans (same i inside)

end Runs

/-- The EEPROM after a run is a byte array that survives a restart, and every half-word that the
run programmed was erased, provided that no call of the run splits a zero. -/
theorem run_refines_byte_array (cfg : Config) (flash : Nat → BitVec 16) (ram : Nat → BitVec 8) (calls : List Call)
    (whole : EveryStep (fun earlier c => c.Whole cfg (earlier.foldl (call cfg) (start cfg flash ram))) calls) :
    RestartLaw cfg (calls.foldl (call cfg) (start cfg flash ram)) ∧
      (∀ op ∈ (calls.foldl (call cfg) (start cfg flash ram)).trace, op.OnErased) ∧
      ∀ i < cfg.densityBytes, (calls.foldl (call cfg) (start cfg flash ram)).dataBuf i =
        calls.foldl (Call.store cfg) (fun _ => 0) i := by
  have initial : Sound cfg (start cfg flash ram) ∧ SameBytes cfg (start cfg flash ram).dataBuf fun _ => 0 :=
    ⟨start_sound cfg flash ram, (eepromErase_spec cfg _).2.1⟩
  have run : Sound cfg (calls.foldl (call cfg) (start cfg flash ram)) ∧
      SameBytes cfg (calls.foldl (call cfg) (start cfg flash ram)).dataBuf
        (calls.foldl (Call.store cfg) fun _ => 0) := by
    refine foldl_everyStep _
      (fun calls s => Sound cfg s ∧ SameBytes cfg s.dataBuf (calls.foldl (Call.store cfg) fun _ => 0))
      initial ?_ calls whole
    intro earlier c whole before
    rw [List.foldl_append]
    exact ⟨before.1.call whole, before.2.call before.1 c⟩
  exact ⟨run.1.consistent.restartLaw, run.1.erased, run.2⟩

/-! ## A split zero -/

/-- Sixteen bytes and a log of one entry. -/
def smallConfig : Config where
  pageSize := 0x400
  pageCount := 1
  densityBytes := 16
  writeLogBytes := 2
  densityEven := rfl
  densityMax := by decide
  writeLogEven := rfl
  fits := by decide

/-- The second write fills the log, the third one splits a zero, the last one is direct. -/
def splitCalls : List Call :=
  [.writeDataWord 0 0x0101, .writeDataByte 0 2, .writeDataWord 0 0, .writeDataWord 0 0x0303]

theorem split_zero_breaks_restart :
    ¬ RestartLaw smallConfig
      (splitCalls.foldl (call smallConfig) (start smallConfig (fun _ => emptyWord) fun _ => 0)) := by
  intro law
  have restarted := (law _ rfl).1 1 (by decide)
  revert restarted
  decide

/-- The same writes with another word in the third one, and a block. -/
def wholeCalls : List Call :=
  [.writeDataWord 0 0x0101, .writeDataByte 0 2, .writeDataWord 0 1, .writeBlock [1, 2, 3, 4] 1, .init]

theorem wholeCalls_refine_byte_array :
    (∀ i < 16, (wholeCalls.foldl (call smallConfig) (start smallConfig (fun _ => emptyWord) fun _ => 0)).dataBuf i =
      wholeCalls.foldl (Call.store smallConfig) (fun _ => 0) i) ∧
    RestartLaw smallConfig
      (wholeCalls.foldl (call smallConfig) (start smallConfig (fun _ => emptyWord) fun _ => 0)) := by
  have refines := run_refines_byte_array smallConfig (fun _ => emptyWord) (fun _ => 0) wholeCalls (by decide)
  exact ⟨refines.2.2, refines.1⟩

end QmkFirmware.LegacyEeprom
