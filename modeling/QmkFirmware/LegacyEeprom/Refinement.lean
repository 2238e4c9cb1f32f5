import QmkFirmware.Foundations.Runs
import QmkFirmware.LegacyEeprom.Compaction

/-! # The flash tracks the buffer

`Tracks` is the invariant of the driver: the compacted area with the write log on top is the
buffer, and the log says nothing about words whose compacted half-word is still erased, since
those are going to be written directly.  Every write keeps it except one: a word below
`byteRange` that is set to zero when the log is full compacts the log with its first byte and
logs its second byte behind an erased half-word.
-/

namespace QmkFirmware.LegacyEeprom

open QmkFirmware.Memory

/-- The compacted area and the write log, as copies to make on top of it, hold the buffer. -/
structure Tracks (cfg : Config) (s : State) (patches : List (Nat × List (BitVec 8))) : Prop where
  log : WriteLog cfg s.flash patches s.emptySlot
  inside : s.emptySlot ≤ cfg.writeLogLast
  free : ∀ j, s.emptySlot ≤ j → j < cfg.writeLogLast → s.flash j = emptyWord
  holds : ∀ i < cfg.densityBytes, patched (compactedByte s.flash) patches i = s.dataBuf i
  direct : ∀ i < cfg.densityBytes, s.flash (i / 2) = emptyWord → Untouched patches i

def Consistent (cfg : Config) (s : State) : Prop := ∃ patches, Tracks cfg s patches

/-! ## Restarting -/

/-- `EEPROM_Init` on this flash, with whatever the RAM holds, rebuilds the buffer and `empty_slot`. -/
def RestartLaw (cfg : Config) (s : State) : Prop :=
  ∀ other : State, other.flash = s.flash →
    (∀ i < cfg.densityBytes, (eepromInit cfg other).dataBuf i = s.dataBuf i) ∧
      (eepromInit cfg other).emptySlot = s.emptySlot

section Restart

variable {cfg : Config} {s : State} {patches : List (Nat × List (BitVec 8))}

theorem Tracks.restartLaw (tracks : Tracks cfg s patches) : RestartLaw cfg s := by
  intro other flash
  have replayed := tracks.log.replay_all tracks.inside (tracks.free _ (Nat.le_refl _))
    (loadCompacted s.flash cfg.writeLogBase other.dataBuf)
  rw [eepromInit, flash, replayed]
  constructor
  · intro i inside
    have even := cfg.densityEven
    have loaded : loadCompacted s.flash cfg.writeLogBase other.dataBuf i = compactedByte s.flash i := by
      rw [loadCompacted_apply, if_pos (by unfold Config.writeLogBase; omega)]
    exact (patched_congr loaded patches).trans (tracks.holds i inside)
  · rfl

theorem Consistent.restartLaw (consistent : Consistent cfg s) : RestartLaw cfg s := by
  obtain ⟨patches, tracks⟩ := consistent
  exact tracks.restartLaw

/-- Only the flash, the buffer and the end of the log matter. -/
theorem Consistent.congr {other : State} (consistent : Consistent cfg s) (flash : other.flash = s.flash)
    (slot : other.emptySlot = s.emptySlot) (buf : ∀ i < cfg.densityBytes, other.dataBuf i = s.dataBuf i) :
    Consistent cfg other := by
  obtain ⟨patches, tracks⟩ := consistent
  refine ⟨patches, ?_⟩
  constructor
  · rw [flash, slot]
    exact tracks.log
  · rw [slot]
    exact tracks.inside
  · rw [flash, slot]
    exact tracks.free
  · intro i inside
    rw [flash, buf i inside]
    exact tracks.holds i inside
  · rw [flash]
    exact tracks.direct

/-- Restarting keeps the invariant. -/
theorem Consistent.init (consistent : Consistent cfg s) {other : State} (flash : other.flash = s.flash) :
    Consistent cfg (eepromInit cfg other) := by
  obtain ⟨buf, slot⟩ := consistent.restartLaw other flash
  exact consistent.congr flash slot buf

end Restart

/-! ## One more entry, one more direct word -/

section Write

variable {cfg : Config} {s after : State} {patches : List (Nat × List (BitVec 8))} {patch : Nat × List (BitVec 8)}

theorem compactedByte_congr {flash other : Nat → BitVec 16} {i : Nat} (same : other (i / 2) = flash (i / 2)) :
    compactedByte other i = compactedByte flash i := by
  rw [compactedByte, compactedByte, same]

theorem compactedByte_not (flash : Nat → BitVec 16) (buf : Nat → BitVec 8) {i : Nat}
    (word : flash (i / 2) = ~~~wordAt buf (wordAddress i)) : compactedByte flash i = buf i := by
  rw [compactedByte, word, BitVec.not_not]
  by_cases even : i % 2 = 0
  · have same : wordAddress i = i := by unfold wordAddress; omega
    rw [if_pos even, wordAt, lowByte_append, same]
  · have same : wordAddress i + 1 = i := by unfold wordAddress; omega
    rw [if_neg even, wordAt, highByte_append, same]

/-- An entry is appended whose bytes lie in words that the compacted area holds. -/
theorem Tracks.append (tracks : Tracks cfg s patches)
    (entry : LogEntry cfg after.flash s.emptySlot patch after.emptySlot)
    (inside : after.emptySlot ≤ cfg.writeLogLast)
    (same : ∀ j, ¬ (s.emptySlot ≤ j ∧ j < after.emptySlot) → after.flash j = s.flash j)
    (buf : ∀ i < cfg.densityBytes, blit s.dataBuf patch.1 patch.2 i = after.dataBuf i)
    (held : ∀ i, patch.1 ≤ i → i < patch.1 + patch.2.length → s.flash (i / 2) ≠ emptyWord) :
    Tracks cfg after (patches ++ [patch]) := by
  have grows := entry.slot_lt
  have base := tracks.log.base_le
  have compacted (i : Nat) (bound : i < cfg.densityBytes) : after.flash (i / 2) = s.flash (i / 2) := by
    apply same
    unfold Config.writeLogBase at base
    have even := cfg.densityEven
    omega
  constructor
  · exact .entry (tracks.log.congr fun j _ before => same j (by omega)) entry
  · exact inside
  · intro j behind before
    rw [same j (by omega)]
    exact tracks.free j (by omega) before
  · intro i bound
    have earlier : patched (compactedByte after.flash) patches i = s.dataBuf i :=
      (patched_congr (compactedByte_congr (compacted i bound)) patches).trans (tracks.holds i bound)
    rw [patched_concat, blit_congr earlier]
    exact buf i bound
  · intro i bound empty
    rw [compacted i bound] at empty
    exact untouched_concat (tracks.direct i bound empty) fun covered => held i covered.1 covered.2 empty

/-- A word is written directly into its erased half-word. -/
theorem Tracks.program (tracks : Tracks cfg s patches) {address : Nat} (bound : address < cfg.densityBytes)
    (empty : s.flash (address / 2) = emptyWord) (slot : after.emptySlot = s.emptySlot)
    (same : ∀ j, j ≠ address / 2 → after.flash j = s.flash j)
    (word : after.flash (address / 2) = ~~~wordAt after.dataBuf (wordAddress address))
    (buf : ∀ i, i / 2 ≠ address / 2 → after.dataBuf i = s.dataBuf i) : Tracks cfg after patches := by
  have base := tracks.log.base_le
  have even := cfg.densityEven
  have below : address / 2 < cfg.writeLogBase := by unfold Config.writeLogBase; omega
  constructor
  · rw [slot]
    exact tracks.log.congr fun j low _ => same j (by omega)
  · rw [slot]
    exact tracks.inside
  · intro j behind before
    rw [same j (by omega)]
    exact tracks.free j (by omega) before
  · intro i inside
    by_cases own : i / 2 = address / 2
    · have untouched := tracks.direct i inside (by rw [own]; exact empty)
      rw [patched_of_untouched untouched]
      apply compactedByte_not
      rw [own, word, wordAddress, wordAddress, own]
    · rw [patched_congr (compactedByte_congr (same _ own)), tracks.holds i inside, buf i own]
  · intro i inside erased
    by_cases own : i / 2 = address / 2
    · exact tracks.direct i inside (by rw [own]; exact empty)
    · rw [same _ own] at erased
      exact tracks.direct i inside erased

end Write

/-! ## Operations that can be cut off -/

def FlashOp.IsProgram : FlashOp → Prop
  | .erasePage _ => False
  | .program _ _ _ => True

instance : (op : FlashOp) → Decidable op.IsProgram
  | .erasePage _ => inferInstanceAs (Decidable False)
  | .program _ _ _ => inferInstanceAs (Decidable True)

/-- Wherever a sequence of programs is cut off, the flash tracks a mixture of the two buffers. -/
def Cuttable (cfg : Config) (s after : State) (ops : List FlashOp) : Prop :=
  (∀ op ∈ ops, op.IsProgram) → ∀ k, ∃ snapshot : State,
    snapshot.flash = (ops.take k).foldl (FlashOp.apply cfg) s.flash ∧ Consistent cfg snapshot ∧
      ∀ i < cfg.densityBytes, snapshot.dataBuf i = s.dataBuf i ∨ snapshot.dataBuf i = after.dataBuf i

/-- A stretch of the driver that ends in a consistent state and can be cut off on the way. -/
structure Persists (cfg : Config) (s after : State) : Prop where
  consistent : Consistent cfg after
  cuttable : ∃ ops, Issues cfg s after ops ∧ Cuttable cfg s after ops

section Persists

variable {cfg : Config} {s middle after : State}

theorem Persists.single (before : Consistent cfg s) (consistent : Consistent cfg after) {ops : List FlashOp}
    (issues : Issues cfg s after ops) (short : ops.length ≤ 1) : Persists cfg s after := by
  refine ⟨consistent, ops, issues, ?_⟩
  intro _ k
  cases k with
  | zero => exact ⟨s, rfl, before, fun i _ => .inl rfl⟩
  | succ k =>
    have whole : ops.take (k + 1) = ops := List.take_of_length_le (by omega)
    refine ⟨after, ?_, consistent, fun i _ => .inr rfl⟩
    rw [whole]
    exact issues.flash

theorem Persists.refl (before : Consistent cfg s) : Persists cfg s s :=
  .single before before (.nil rfl rfl) (Nat.zero_le _)

/-- The second stretch does not change what the first one changed. -/
theorem Persists.trans (first : Persists cfg s middle) (second : Persists cfg middle after)
    (apart : ∀ i < cfg.densityBytes, middle.dataBuf i = s.dataBuf i ∨ middle.dataBuf i = after.dataBuf i) :
    Persists cfg s after := by
  obtain ⟨ops, issues, cuttable⟩ := first.cuttable
  obtain ⟨more, issuesMore, cuttableMore⟩ := second.cuttable
  refine ⟨second.consistent, ops ++ more, issues.append issuesMore, ?_⟩
  intro programs k
  rw [List.take_append]
  by_cases early : k ≤ ops.length
  · obtain ⟨snapshot, flash, consistent, mixed⟩ :=
      cuttable (fun op member => programs op (List.mem_append_left _ member)) k
    have none : more.take (k - ops.length) = [] := by
      rw [Nat.sub_eq_zero_of_le early, List.take_zero]
    rw [none, List.append_nil]
    refine ⟨snapshot, flash, consistent, ?_⟩
    intro i inside
    rcases mixed i inside with old | new
    · exact .inl old
    · rw [new]
      exact apart i inside
  · obtain ⟨snapshot, flash, consistent, mixed⟩ :=
      cuttableMore (fun op member => programs op (List.mem_append_right _ member)) (k - ops.length)
    have whole : ops.take k = ops := List.take_of_length_le (by omega)
    rw [whole, List.foldl_append, ← issues.flash]
    refine ⟨snapshot, flash, consistent, ?_⟩
    intro i inside
    rcases mixed i inside with old | new
    · rw [old]
      exact apart i inside
    · exact .inr new

/-- Compaction from any state, since it starts by erasing everything. -/
theorem Persists.compact (cfg : Config) {other : State} (trace : other.trace = s.trace) (flash : other.flash = s.flash)
    (positive : 0 < cfg.densityBytes) : Persists cfg s (eepromCompact cfg other).2 := by
  obtain ⟨_, buf, slot, compacted, empty, ops, issues, erases⟩ := eepromCompact_spec cfg other
  have order : cfg.writeLogBase ≤ cfg.writeLogLast := by
    unfold Config.writeLogBase Config.writeLogLast
    omega
  have all : Issues cfg s (eepromCompact cfg other).2 ops := by
    refine ⟨?_, ?_, issues.erased⟩
    · rw [issues.trace, trace]
    · rw [issues.flash, flash]
  refine ⟨⟨[], ?_⟩, ops, all, ?_⟩
  · constructor
    · rw [slot]
      exact .nil
    · rw [slot]
      exact order
    · rw [slot]
      exact empty
    · intro i inside
      have even := cfg.densityEven
      rw [patched_nil, buf]
      apply compactedByte_not
      rw [compacted _ (by unfold Config.writeLogBase; omega), wordAddress, Nat.mul_comm]
    · intro i _ _ patch member
      cases member
  · intro programs
    obtain ⟨page, member⟩ := erases positive
    exact absurd (programs _ member) id

end Persists

/-! ## Log entries -/

/-- One half-word is appended to the log. -/
def State.logged (s : State) (word : BitVec 16) : State :=
  { s with
    flash := programmed s.emptySlot word s.flash
    flashLocked := true
    emptySlot := s.emptySlot + 1
    trace := s.trace ++ [.program s.emptySlot word emptyWord] }

section Entries

variable {cfg : Config} {s : State} {address : Nat}

theorem eepromWriteLogByteEntry_eq (room : s.emptySlot < cfg.writeLogLast) (empty : s.flash s.emptySlot = emptyWord) :
    eepromWriteLogByteEntry cfg address s = (.complete, s.logged (byteEntry address (s.dataBuf address))) := by
  have notFull : ¬ s.emptySlot ≥ cfg.writeLogLast := by omega
  rw [eepromWriteLogByteEntry, if_neg notFull]
  simp only [flashProgramHalfWord_eq (s := flashUnlock s) rfl empty]
  rfl

theorem eepromWriteLogWordEntry_flag (flag : (wordAt s.dataBuf address).toNat ≤ 1)
    (room : s.emptySlot < cfg.writeLogLast) (empty : s.flash s.emptySlot = emptyWord) :
    eepromWriteLogWordEntry cfg address s =
      (.complete, s.logged (encodedEntry address (wordAt s.dataBuf address))) := by
  have notFull : ¬ 2 * s.emptySlot + 2 > 2 * cfg.writeLogLast := by omega
  have notNext : ¬ wordEncoding ||| wordAt s.dataBuf address <<< 13 = wordEncoding ||| valueNext := by
    have cases : wordAt s.dataBuf address = 0#16 ∨ wordAt s.dataBuf address = 1#16 := by
      rw [← BitVec.toNat_inj, ← BitVec.toNat_inj, BitVec.toNat_ofNat, BitVec.toNat_ofNat]
      omega
    rcases cases with value | value <;> rw [value] <;> decide
  simp only [eepromWriteLogWordEntry, flag, if_true, notFull, notNext, if_false]
  rw [flashProgramHalfWord_eq (s := flashUnlock s) rfl empty]
  rfl

theorem eepromWriteLogWordEntry_next (large : ¬ (wordAt s.dataBuf address).toNat ≤ 1)
    (room : s.emptySlot + 1 < cfg.writeLogLast) (empty : s.flash s.emptySlot = emptyWord)
    (emptyNext : s.flash (s.emptySlot + 1) = emptyWord) :
    eepromWriteLogWordEntry cfg address s =
      (.complete, (s.logged (nextEntry address)).logged (~~~wordAt s.dataBuf address)) := by
  have notFull : ¬ 2 * s.emptySlot + 4 > 2 * cfg.writeLogLast := by omega
  have first := flashProgramHalfWord_eq (s := flashUnlock s) rfl empty (nextEntry address)
  simp only [eepromWriteLogWordEntry, large, notFull, if_true, if_false]
  change flashProgramHalfWord s.emptySlot (_ ||| (wordEncoding ||| valueNext)) (flashUnlock s) = _ at first
  rw [first]
  simp only
  rw [flashProgramHalfWord_eq rfl ((programmed_other (by omega) _ _).trans emptyNext)]
  rfl

/-- A byte entry brings the flash up to a buffer that differs in that byte at most. -/
theorem Persists.byteEntry (consistent : Consistent cfg s) (low : address < byteRange)
    (inside : address < cfg.densityBytes) (held : s.flash (address / 2) ≠ emptyWord) {buf : Nat → BitVec 8}
    (other : ∀ i, i ≠ address → buf i = s.dataBuf i) :
    Persists cfg s (eepromWriteLogByteEntry cfg address { s with dataBuf := buf }).2 := by
  obtain ⟨patches, tracks⟩ := consistent
  by_cases room : s.emptySlot < cfg.writeLogLast
  · have empty := tracks.free s.emptySlot (Nat.le_refl _) room
    rw [eepromWriteLogByteEntry_eq (s := { s with dataBuf := buf }) room empty]
    refine .single ⟨patches, tracks⟩ ⟨patches ++ [(address, [buf address])], ?_⟩ (.program rfl rfl) (Nat.le_refl _)
    apply tracks.append
    · exact .byte address (buf address) low (programmed_self _ _ _)
    · exact room
    · intro j outside
      change ¬ (s.emptySlot ≤ j ∧ j < s.emptySlot + 1) at outside
      have notSlot : j ≠ s.emptySlot := by omega
      exact programmed_other notSlot _ _
    · intro i _
      by_cases own : i = address
      · subst own
        simp [blit, State.logged]
      · rw [blit_outside (by simp; omega)]
        exact (other i own).symm
    · intro i above below
      obtain rfl : i = address := by simp at below; omega
      exact held
  · have full : s.emptySlot ≥ cfg.writeLogLast := by omega
    rw [eepromWriteLogByteEntry, if_pos full]
    exact .compact cfg rfl rfl (by omega)

/-- The copy that a word entry stands for. -/
def wordPatch (buf : Nat → BitVec 8) (address : Nat) : Nat × List (BitVec 8) :=
  (address, [lowByte (wordAt buf address), highByte (wordAt buf address)])

theorem blit_wordPatch {old buf : Nat → BitVec 8} (even : address % 2 = 0)
    (other : ∀ i, i / 2 ≠ address / 2 → buf i = old i) (i : Nat) :
    blit old (wordPatch buf address).1 (wordPatch buf address).2 i = buf i := by
  have copied := setWord_wordAt old buf address i
  change blit old (wordPatch buf address).1 (wordPatch buf address).2 i = _ at copied
  rw [copied]
  split
  · rfl
  · exact (other i (by omega)).symm

theorem held_wordPatch {flash : Nat → BitVec 16} (even : address % 2 = 0) (held : flash (address / 2) ≠ emptyWord)
    (buf : Nat → BitVec 8) (i : Nat) (above : (wordPatch buf address).1 ≤ i)
    (below : i < (wordPatch buf address).1 + (wordPatch buf address).2.length) : flash (i / 2) ≠ emptyWord := by
  have first : address ≤ i := above
  have second : i < address + 2 := below
  have half : i / 2 = address / 2 := by omega
  rw [half]
  exact held

section WordEntry

variable {patches : List (Nat × List (BitVec 8))} {buf : Nat → BitVec 8}
variable (tracks : Tracks cfg s patches) (even : address % 2 = 0) (inside : address < cfg.densityBytes)
variable (held : s.flash (address / 2) ≠ emptyWord) (other : ∀ i, i / 2 ≠ address / 2 → buf i = s.dataBuf i)

include tracks even inside held other

theorem Persists.flagEntry (flag : (wordAt buf address).toNat ≤ 1) (room : s.emptySlot < cfg.writeLogLast) :
    Persists cfg s (State.logged { s with dataBuf := buf } (encodedEntry address (wordAt buf address))) := by
  refine .single ⟨patches, tracks⟩ ⟨patches ++ [wordPatch buf address], ?_⟩ (.program rfl rfl) (Nat.le_refl _)
  apply tracks.append
  · exact .encoded address _ even inside flag (programmed_self _ _ _)
  · exact room
  · intro j outside
    change ¬ (s.emptySlot ≤ j ∧ j < s.emptySlot + 1) at outside
    have notSlot : j ≠ s.emptySlot := by omega
    exact programmed_other notSlot _ _
  · intro i _
    exact blit_wordPatch even other i
  · exact held_wordPatch even held buf

/-- Cut off after its address, the entry is skipped and the buffer is the old one. -/
theorem Persists.nextEntry (high : byteRange ≤ address) (large : 1 < (wordAt buf address).toNat)
    (room : s.emptySlot + 1 < cfg.writeLogLast) :
    Persists cfg s
      ((State.logged { s with dataBuf := buf } (nextEntry address)).logged (~~~wordAt buf address)) := by
  have empty := tracks.free (s.emptySlot + 1) (by omega) room
  let cut : State := { s.logged (LegacyEeprom.nextEntry address) with emptySlot := s.emptySlot + 2 }
  have cutTracks : Tracks cfg cut (patches ++ [(address, [])]) := by
    apply tracks.append
    · refine .incomplete address high inside (programmed_self _ _ _) ?_
      exact (programmed_other (by omega) _ _).trans empty
    · exact room
    · intro j outside
      change ¬ (s.emptySlot ≤ j ∧ j < s.emptySlot + 2) at outside
      have notSlot : j ≠ s.emptySlot := by omega
      exact programmed_other notSlot _ _
    · intro i _
      rw [blit_nil]
      rfl
    · intro i above below
      simp at above below
      omega
  have first : Persists cfg s cut := .single ⟨patches, tracks⟩ ⟨_, cutTracks⟩ (.program rfl rfl) (Nat.le_refl _)
  have second : Persists cfg cut
      ((State.logged { s with dataBuf := buf } (LegacyEeprom.nextEntry address)).logged (~~~wordAt buf address)) := by
    refine .single ⟨_, cutTracks⟩ ⟨patches ++ [wordPatch buf address], ?_⟩ (.program rfl rfl) (Nat.le_refl _)
    apply tracks.append
    · refine .next address _ high even inside large ?_ (programmed_self _ _ _)
      exact (programmed_other (by simp [State.logged]) _ _).trans (programmed_self _ _ _)
    · exact room
    · intro j outside
      change ¬ (s.emptySlot ≤ j ∧ j < s.emptySlot + 2) at outside
      have notFirst : j ≠ s.emptySlot := by omega
      have notSecond : j ≠ s.emptySlot + 1 := by omega
      exact (programmed_other notSecond _ _).trans (programmed_other notFirst _ _)
    · intro i _
      exact blit_wordPatch even other i
    · exact held_wordPatch even held buf
  exact first.trans second fun i _ => .inl rfl

end WordEntry

/-- A word entry brings the flash up to a buffer that differs in that word at most. -/
theorem Persists.wordEntry (consistent : Consistent cfg s) (high : byteRange ≤ address) (even : address % 2 = 0)
    (inside : address < cfg.densityBytes) (held : s.flash (address / 2) ≠ emptyWord) {buf : Nat → BitVec 8}
    (other : ∀ i, i / 2 ≠ address / 2 → buf i = s.dataBuf i) :
    Persists cfg s (eepromWriteLogWordEntry cfg address { s with dataBuf := buf }).2 := by
  obtain ⟨patches, tracks⟩ := consistent
  by_cases flag : (wordAt buf address).toNat ≤ 1
  · by_cases room : s.emptySlot < cfg.writeLogLast
    · have empty := tracks.free s.emptySlot (Nat.le_refl _) room
      rw [eepromWriteLogWordEntry_flag (s := { s with dataBuf := buf }) flag room empty]
      exact .flagEntry tracks even inside held other flag room
    · have full : 2 * s.emptySlot + 2 > 2 * cfg.writeLogLast := by omega
      simp only [eepromWriteLogWordEntry, flag, full, if_true]
      exact .compact cfg rfl rfl (by omega)
  · by_cases room : s.emptySlot + 1 < cfg.writeLogLast
    · have empty := tracks.free s.emptySlot (Nat.le_refl _) (by omega)
      have emptyNext := tracks.free (s.emptySlot + 1) (by omega) room
      rw [eepromWriteLogWordEntry_next (s := { s with dataBuf := buf }) flag room empty emptyNext]
      exact .nextEntry tracks even inside held other high (by omega) room
    · have full : 2 * s.emptySlot + 4 > 2 * cfg.writeLogLast := by omega
      simp only [eepromWriteLogWordEntry, flag, full, if_true, if_false]
      exact .compact cfg rfl rfl (by omega)

end Entries

end QmkFirmware.LegacyEeprom
