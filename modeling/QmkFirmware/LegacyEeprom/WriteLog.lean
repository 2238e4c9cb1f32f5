import QmkFirmware.Foundations.Bits
import QmkFirmware.LegacyEeprom.Model

/-! # The write log

What the entries of the write log encode.  `WriteLog` is a sequence of entries that
the driver wrote, complete or cut off after its address, and `WriteLog.replay` says
that the decoder of `EEPROM_Init` agrees with the encoders of the driver on it.
-/

namespace QmkFirmware.LegacyEeprom

open QmkFirmware.Memory QmkFirmware.Bits

/-! ## Bytes and words -/

/-- A byte of the buffer as the compacted area holds it. -/
def compactedByte (flash : Nat → BitVec 16) (i : Nat) : BitVec 8 :=
  if i % 2 = 0 then lowByte (~~~flash (i / 2)) else highByte (~~~flash (i / 2))

theorem lowByte_append (high low : BitVec 8) : lowByte (high ++ low) = low := by
  apply BitVec.eq_of_toNat_eq
  have := low.isLt
  simp only [lowByte, BitVec.toNat_setWidth, BitVec.toNat_append]
  rw [← Nat.shiftLeft_add_eq_or_of_lt low.isLt, Nat.shiftLeft_eq]
  omega

theorem highByte_append (high low : BitVec 8) : highByte (high ++ low) = high := by
  apply BitVec.eq_of_toNat_eq
  have := high.isLt
  have := low.isLt
  simp only [highByte, BitVec.toNat_setWidth, BitVec.toNat_append, BitVec.toNat_ushiftRight]
  rw [← Nat.shiftLeft_add_eq_or_of_lt low.isLt, Nat.shiftLeft_eq, Nat.shiftRight_eq_div_pow]
  omega

theorem append_bytes (word : BitVec 16) : highByte word ++ lowByte word = word := by
  apply BitVec.eq_of_toNat_eq
  have := word.isLt
  rw [BitVec.toNat_append, ← Nat.shiftLeft_add_eq_or_of_lt (lowByte word).isLt, Nat.shiftLeft_eq]
  simp only [highByte, lowByte, BitVec.toNat_setWidth, BitVec.toNat_ushiftRight, Nat.shiftRight_eq_div_pow]
  omega

theorem wordAt_setWord (buf : Nat → BitVec 8) (address : Nat) (word : BitVec 16) :
    wordAt (setWord buf address word) address = word := by
  have low : setWord buf address word address = lowByte word := by
    simp [setWord, blit]
  have high : setWord buf address word (address + 1) = highByte word := by
    simp [setWord, blit]
  rw [wordAt, low, high, append_bytes]

/-- Writing the word of a buffer copies its two bytes. -/
theorem setWord_wordAt (buf other : Nat → BitVec 8) (address i : Nat) :
    setWord buf address (wordAt other address) i =
      if i = address ∨ i = address + 1 then other i else buf i := by
  by_cases first : i = address
  · subst first
    simp [setWord, wordAt, blit, lowByte_append]
  · by_cases second : i = address + 1
    · subst second
      simp [setWord, wordAt, blit, highByte_append]
    · rw [setWord, blit_outside (by simp; omega)]
      simp [first, second]

theorem not_eq_emptyWord_iff (word : BitVec 16) : ~~~word = emptyWord ↔ word = 0 := by
  constructor
  · intro same
    rw [← BitVec.not_not (b := word), same]
    rfl
  · intro zero
    rw [zero]
    rfl

/-- The compacted area in the buffer. -/
theorem loadCompacted_apply (flash : Nat → BitVec 16) (count : Nat) (buf : Nat → BitVec 8) (i : Nat) :
    loadCompacted flash count buf i = if i < 2 * count then compactedByte flash i else buf i := by
  induction count with
  | zero => simp [loadCompacted]
  | succ count ih =>
    rw [loadCompacted]
    by_cases first : i = 2 * count
    · subst first
      simp [setWord, blit, compactedByte]
    · by_cases second : i = 2 * count + 1
      · subst second
        have half : (2 * count + 1) / 2 = count := by omega
        have odd : (2 * count + 1) % 2 = 1 := by omega
        simp [setWord, blit, compactedByte, half, odd]
        omega
      · rw [setWord, blit_outside (by simp; omega), ih]
        by_cases below : i < 2 * count
        · simp [below, Nat.lt_of_lt_of_le below (by omega : 2 * count ≤ 2 * (count + 1))]
        · simp [below, show ¬ i < 2 * (count + 1) by omega]

/-! ## Fields of an entry -/

theorem and_wordEncoding_eq_zero (word : BitVec 16) : word &&& wordEncoding = 0 ↔ word.toNat < 0x8000 := by
  have field := toNat_and_field word 1 15 (by omega)
  have bound := word.isLt
  have zero : (0 : BitVec 16).toNat = 0 := rfl
  rw [← BitVec.toNat_inj]
  change (word &&& wordEncoding).toNat = _ at field
  rw [field, zero]
  omega

theorem and_valueNext_eq (word : BitVec 16) : word &&& valueNext = valueNext ↔ word.toNat / 2 ^ 13 % 4 = 3 := by
  have field := toNat_and_field word 2 13 (by omega)
  have next : valueNext.toNat = 3 * 2 ^ 13 := rfl
  rw [← BitVec.toNat_inj]
  change (word &&& valueNext).toNat = _ at field
  rw [field, next]
  omega

theorem and_valueReserved_eq_zero (word : BitVec 16) :
    word &&& valueReserved = 0 ↔ word.toNat / 2 ^ 14 % 2 = 0 := by
  have field := toNat_and_field word 1 14 (by omega)
  have zero : (0 : BitVec 16).toNat = 0 := rfl
  rw [← BitVec.toNat_inj]
  change (word &&& valueReserved).toNat = _ at field
  rw [field, zero]
  omega

theorem toNat_encodedValue (word : BitVec 16) :
    ((word &&& valueEncoded) >>> 13).toNat = word.toNat / 2 ^ 13 % 2 := by
  have field := toNat_and_field word 1 13 (by omega)
  change (word &&& valueEncoded).toNat = _ at field
  rw [BitVec.toNat_ushiftRight, field, Nat.shiftRight_eq_div_pow]
  omega

theorem toNat_entryAddress (word : BitVec 16) :
    ((word &&& 0x1FFF) <<< 1).toNat = word.toNat % 2 ^ 13 * 2 := by
  have field := toNat_and_field word 13 0 (by omega)
  change (word &&& 0x1FFF).toNat = _ at field
  rw [BitVec.toNat_shiftLeft, field, Nat.shiftLeft_eq]
  omega

/-! ## The encoders -/

def byteEntry (address : Nat) (value : BitVec 8) : BitVec 16 :=
  BitVec.ofNat 16 address <<< 8 ||| value.setWidth 16

def encodedEntry (address : Nat) (value : BitVec 16) : BitVec 16 :=
  BitVec.ofNat 16 address >>> 1 ||| (wordEncoding ||| value <<< 13)

def nextEntry (address : Nat) : BitVec 16 :=
  BitVec.ofNat 16 (address - byteRange) >>> 1 ||| (wordEncoding ||| valueNext)

theorem toNat_byteEntry {address : Nat} (low : address < byteRange) (value : BitVec 8) :
    (byteEntry address value).toNat = address * 2 ^ 8 + value.toNat := by
  have bound := value.isLt
  have small : address < 0x80 := low
  have shifted : (BitVec.ofNat 16 address <<< 8).toNat = address * 2 ^ 8 := by
    rw [BitVec.toNat_shiftLeft, BitVec.toNat_ofNat, Nat.shiftLeft_eq]
    omega
  have wide : (value.setWidth 16).toNat = value.toNat := by
    rw [BitVec.toNat_setWidth]
    omega
  rw [byteEntry, toNat_or_low _ _ address 8 shifted (by omega), wide]

/-- Three bits that say what the entry is, and half the address below them. -/
theorem toNat_wordEntry {address : Nat} (small : address < 0x4000) (kind : BitVec 16) (factor : Nat)
    (multiple : kind.toNat = factor * 2 ^ 13) :
    (BitVec.ofNat 16 address >>> 1 ||| kind).toNat = factor * 2 ^ 13 + address / 2 := by
  have half : (BitVec.ofNat 16 address >>> 1).toNat = address / 2 := by
    rw [BitVec.toNat_ushiftRight, BitVec.toNat_ofNat, Nat.shiftRight_eq_div_pow]
    omega
  rw [BitVec.or_comm, toNat_or_low _ _ factor 13 multiple (by omega), half]

theorem toNat_encodedEntry {address : Nat} (small : address < 0x4000) {value : BitVec 16}
    (flag : value.toNat ≤ 1) : (encodedEntry address value).toNat = (4 + value.toNat) * 2 ^ 13 + address / 2 := by
  apply toNat_wordEntry small
  have cases : value = 0#16 ∨ value = 1#16 := by
    rw [← BitVec.toNat_inj, ← BitVec.toNat_inj, BitVec.toNat_ofNat, BitVec.toNat_ofNat]
    omega
  rcases cases with rfl | rfl <;> rfl

theorem toNat_nextEntry {address : Nat} (small : address < 0x4000) :
    (nextEntry address).toNat = 7 * 2 ^ 13 + (address - byteRange) / 2 :=
  toNat_wordEntry (by omega) _ 7 rfl

theorem ne_emptyWord_of_toNat {word : BitVec 16} (less : word.toNat < 0xFFFF) : word ≠ emptyWord := by
  rintro rfl
  exact absurd less (by decide)

/-! ## The decoder, entry by entry -/

section Replay

variable {cfg : Config} {flash : Nat → BitVec 16} {slot address : Nat}

theorem replay_byteEntry (low : address < byteRange) {value : BitVec 8}
    (entry : flash slot = byteEntry address value) (remaining : Nat) (buf : Nat → BitVec 8) :
    replayWriteLog cfg flash (remaining + 1) slot buf =
      replayWriteLog cfg flash remaining (slot + 1) (blit buf address [value]) := by
  have toNat := toNat_byteEntry low value
  have bound := value.isLt
  have small : address < 0x80 := low
  have used : byteEntry address value ≠ emptyWord := ne_emptyWord_of_toNat (by omega)
  have isByte : byteEntry address value &&& wordEncoding = 0 := by
    rw [and_wordEncoding_eq_zero]
    omega
  have target : (byteEntry address value >>> 8).toNat = address := by
    rw [BitVec.toNat_ushiftRight, toNat, Nat.shiftRight_eq_div_pow]
    omega
  have stored : lowByte (byteEntry address value) = value := by
    apply BitVec.eq_of_toNat_eq
    rw [lowByte, BitVec.toNat_setWidth, toNat]
    omega
  rw [replayWriteLog.eq_def]
  simp only [entry, used, isByte, target, stored, if_true, if_false]
  rfl

theorem replay_encodedEntry (even : address % 2 = 0) (inside : address < cfg.densityBytes) {value : BitVec 16}
    (flag : value.toNat ≤ 1) (entry : flash slot = encodedEntry address value) (remaining : Nat)
    (buf : Nat → BitVec 8) :
    replayWriteLog cfg flash (remaining + 1) slot buf =
      replayWriteLog cfg flash remaining (slot + 1) (setWord buf address value) := by
  have density := cfg.densityMax
  have toNat := toNat_encodedEntry (by omega : address < 0x4000) flag
  have used : encodedEntry address value ≠ emptyWord := ne_emptyWord_of_toNat (by omega)
  have notByte : ¬ encodedEntry address value &&& wordEncoding = 0 := by
    rw [and_wordEncoding_eq_zero]
    omega
  have notNext : ¬ encodedEntry address value &&& valueNext = valueNext := by
    rw [and_valueNext_eq]
    omega
  have notReserved : encodedEntry address value &&& valueReserved = 0 := by
    rw [and_valueReserved_eq_zero]
    omega
  have target : ((encodedEntry address value &&& 0x1FFF) <<< 1).toNat = address := by
    rw [toNat_entryAddress]
    omega
  have stored : (encodedEntry address value &&& valueEncoded) >>> 13 = value := by
    apply BitVec.eq_of_toNat_eq
    rw [toNat_encodedValue]
    omega
  rw [replayWriteLog.eq_def]
  simp only [entry, used, notByte, notNext, notReserved, stored, replayWord, target, inside, ne_eq,
    not_true_eq_false, if_true, if_false]

theorem nextEntry_fields (high : byteRange ≤ address) (inside : address < cfg.densityBytes) :
    nextEntry address ≠ emptyWord ∧ ¬ nextEntry address &&& wordEncoding = 0 ∧
      nextEntry address &&& valueNext = valueNext := by
  have density := cfg.densityMax
  have above : 0x80 ≤ address := high
  have range : byteRange = 0x80 := rfl
  have toNat := toNat_nextEntry (by omega : address < 0x4000)
  refine ⟨ne_emptyWord_of_toNat (by omega), ?_, ?_⟩
  · rw [and_wordEncoding_eq_zero]
    omega
  · rw [and_valueNext_eq]
    omega

theorem replay_nextEntry (high : byteRange ≤ address) (even : address % 2 = 0)
    (inside : address < cfg.densityBytes) {value : BitVec 16} (large : 1 < value.toNat)
    (entry : flash slot = nextEntry address) (next : flash (slot + 1) = ~~~value) (remaining : Nat)
    (buf : Nat → BitVec 8) :
    replayWriteLog cfg flash (remaining + 2) slot buf =
      replayWriteLog cfg flash remaining (slot + 2) (setWord buf address value) := by
  obtain ⟨used, notByte, isNext⟩ := nextEntry_fields high inside
  have density := cfg.densityMax
  have above : 0x80 ≤ address := high
  have range : byteRange = 0x80 := rfl
  have toNat := toNat_nextEntry (by omega : address < 0x4000)
  have target : ((nextEntry address &&& 0x1FFF) <<< 1 + BitVec.ofNat 16 byteRange).toNat = address := by
    rw [BitVec.toNat_add, toNat_entryAddress, BitVec.toNat_ofNat]
    omega
  have nonzero : value ≠ 0 := by
    rintro rfl
    exact absurd large (by decide)
  rw [replayWriteLog]
  simp only [entry, used, notByte, isNext, next, BitVec.not_not, nonzero, replayWord, target, inside,
    if_true, if_false]

/-- An entry that was cut off after its address is skipped together with its empty half-word. -/
theorem replay_incomplete (high : byteRange ≤ address) (inside : address < cfg.densityBytes)
    (entry : flash slot = nextEntry address) (next : flash (slot + 1) = emptyWord) (remaining : Nat)
    (buf : Nat → BitVec 8) :
    replayWriteLog cfg flash (remaining + 2) slot buf = replayWriteLog cfg flash remaining (slot + 2) buf := by
  obtain ⟨used, notByte, isNext⟩ := nextEntry_fields high inside
  have incomplete : ~~~emptyWord = 0 := rfl
  rw [replayWriteLog]
  simp only [entry, used, notByte, isNext, next, incomplete, if_true, if_false]

end Replay

/-! ## Sequences of entries -/

/-- An entry at a slot: the bytes it stands for, and the slot behind it. -/
inductive LogEntry (cfg : Config) (flash : Nat → BitVec 16) (slot : Nat) : Nat × List (BitVec 8) → Nat → Prop where
  | byte (address : Nat) (value : BitVec 8) (low : address < byteRange)
      (entry : flash slot = byteEntry address value) : LogEntry cfg flash slot (address, [value]) (slot + 1)
  | encoded (address : Nat) (value : BitVec 16) (even : address % 2 = 0) (inside : address < cfg.densityBytes)
      (flag : value.toNat ≤ 1) (entry : flash slot = encodedEntry address value) :
      LogEntry cfg flash slot (address, [lowByte value, highByte value]) (slot + 1)
  | next (address : Nat) (value : BitVec 16) (high : byteRange ≤ address) (even : address % 2 = 0)
      (inside : address < cfg.densityBytes) (large : 1 < value.toNat) (entry : flash slot = nextEntry address)
      (stored : flash (slot + 1) = ~~~value) :
      LogEntry cfg flash slot (address, [lowByte value, highByte value]) (slot + 2)
  | incomplete (address : Nat) (high : byteRange ≤ address) (inside : address < cfg.densityBytes)
      (entry : flash slot = nextEntry address) (missing : flash (slot + 1) = emptyWord) :
      LogEntry cfg flash slot (address, []) (slot + 2)

/-- Entries one behind the other, from the first slot of the log up to `slot`. -/
inductive WriteLog (cfg : Config) (flash : Nat → BitVec 16) : List (Nat × List (BitVec 8)) → Nat → Prop where
  | nil : WriteLog cfg flash [] cfg.writeLogBase
  | entry {patches : List (Nat × List (BitVec 8))} {slot next : Nat} {patch : Nat × List (BitVec 8)}
      (earlier : WriteLog cfg flash patches slot) (last : LogEntry cfg flash slot patch next) :
      WriteLog cfg flash (patches ++ [patch]) next

section Sequences

variable {cfg : Config} {flash : Nat → BitVec 16} {slot next : Nat} {patch : Nat × List (BitVec 8)}
variable {patches : List (Nat × List (BitVec 8))}

theorem LogEntry.slot_lt (entry : LogEntry cfg flash slot patch next) : slot < next := by
  cases entry <;> omega

theorem LogEntry.replay (entry : LogEntry cfg flash slot patch next) (remaining : Nat) (buf : Nat → BitVec 8) :
    replayWriteLog cfg flash (remaining + (next - slot)) slot buf =
      replayWriteLog cfg flash remaining next (blit buf patch.1 patch.2) := by
  have one : slot + 1 - slot = 1 := by omega
  have two : slot + 2 - slot = 2 := by omega
  cases entry with
  | byte address value low entry =>
    rw [one]
    exact replay_byteEntry low entry remaining buf
  | encoded address value even inside flag entry =>
    rw [one]
    exact replay_encodedEntry even inside flag entry remaining buf
  | next address value high even inside large entry stored =>
    rw [two]
    exact replay_nextEntry high even inside large entry stored remaining buf
  | incomplete address high inside entry missing =>
    rw [two, blit_nil]
    exact replay_incomplete high inside entry missing remaining buf

theorem LogEntry.congr {other : Nat → BitVec 16} (entry : LogEntry cfg flash slot patch next)
    (same : ∀ j, slot ≤ j → j < next → other j = flash j) : LogEntry cfg other slot patch next := by
  have first := same slot (Nat.le_refl _) entry.slot_lt
  cases entry with
  | byte address value low entry => exact .byte address value low (first.trans entry)
  | encoded address value even inside flag entry =>
    exact .encoded address value even inside flag (first.trans entry)
  | next address value high even inside large entry stored =>
    exact .next address value high even inside large (first.trans entry)
      ((same _ (by omega) (by omega)).trans stored)
  | incomplete address high inside entry missing =>
    exact .incomplete address high inside (first.trans entry)
      ((same _ (by omega) (by omega)).trans missing)

theorem WriteLog.base_le (log : WriteLog cfg flash patches slot) : cfg.writeLogBase ≤ slot := by
  induction log with
  | nil => exact Nat.le_refl _
  | entry earlier last ih => exact Nat.le_trans ih (Nat.le_of_lt last.slot_lt)

/-- The log depends on the half-words between its ends only. -/
theorem WriteLog.congr {other : Nat → BitVec 16} (log : WriteLog cfg flash patches slot)
    (same : ∀ j, cfg.writeLogBase ≤ j → j < slot → other j = flash j) : WriteLog cfg other patches slot := by
  induction log with
  | nil => exact .nil
  | entry earlier last ih =>
    have earlierSame := fun j low before => same j low (Nat.lt_trans before last.slot_lt)
    have lastSame := fun j low before => same j (Nat.le_trans earlier.base_le low) before
    exact .entry (ih earlierSame) (last.congr lastSame)

/-- The decoder makes the copies that the entries stand for, and goes on behind them. -/
theorem WriteLog.replay (log : WriteLog cfg flash patches slot) (remaining : Nat) (buf : Nat → BitVec 8) :
    replayWriteLog cfg flash (remaining + (slot - cfg.writeLogBase)) cfg.writeLogBase buf =
      replayWriteLog cfg flash remaining slot (patched buf patches) := by
  induction log generalizing remaining with
  | nil => rw [Nat.sub_self, Nat.add_zero, patched_nil]
  | @entry patches slot next patch earlier last ih =>
    have length : remaining + (next - cfg.writeLogBase) = remaining + (next - slot) + (slot - cfg.writeLogBase) := by
      have lower := earlier.base_le
      have upper := last.slot_lt
      omega
    rw [length, ih, last.replay, patched_concat]

/-- The decoder stops at the end of the log. -/
theorem WriteLog.replay_all (log : WriteLog cfg flash patches slot) (inside : slot ≤ cfg.writeLogLast)
    (free : slot < cfg.writeLogLast → flash slot = emptyWord) (buf : Nat → BitVec 8) :
    replayWriteLog cfg flash (cfg.writeLogLast - cfg.writeLogBase) cfg.writeLogBase buf =
      (patched buf patches, slot) := by
  have lower := log.base_le
  have length : cfg.writeLogLast - cfg.writeLogBase = cfg.writeLogLast - slot + (slot - cfg.writeLogBase) := by
    omega
  rw [length, log.replay]
  cases rest : cfg.writeLogLast - slot with
  | zero => rw [replayWriteLog]
  | succ remaining =>
    have empty := free (by omega)
    rw [replayWriteLog.eq_def]
    simp only [empty, if_true]

end Sequences

end QmkFirmware.LegacyEeprom
