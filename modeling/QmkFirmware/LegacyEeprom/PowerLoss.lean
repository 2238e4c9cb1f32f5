import QmkFirmware.LegacyEeprom.RestartLaw

/-! # Power loss during a write

A write that does not compact the log issues at most two programs for each byte entry,
word entry or direct word.  Wherever it stops, a restart finds each byte as it was or as
it was going to be, and the driver goes on as if nothing had happened.
-/

namespace QmkFirmware.LegacyEeprom

open QmkFirmware.Memory QmkFirmware.Runs

/-! ## Writes that stop -/

/-- `EEPROM_WriteDataByte` or `EEPROM_WriteDataWord`. -/
inductive Write where
  | byte (address : BitVec 16) (dataByte : BitVec 8)
  | word (address : BitVec 16) (dataWord : BitVec 16)
  deriving DecidableEq, Repr

def Write.run (cfg : Config) (s : State) : Write → State
  | .byte address dataByte => (eepromWriteDataByte cfg address.toNat dataByte s).2
  | .word address dataWord => (eepromWriteDataWord cfg address.toNat dataWord s).2

/-- The flash operations that the write issues. -/
def Write.issued (cfg : Config) (s : State) (write : Write) : List FlashOp :=
  (write.run cfg s).trace.drop s.trace.length

/-- No compaction: nothing is erased. -/
def Write.Programs (cfg : Config) (s : State) (write : Write) : Prop :=
  ∀ op ∈ write.issued cfg s, op.IsProgram

instance (cfg : Config) (s : State) (write : Write) : Decidable (write.Programs cfg s) :=
  inferInstanceAs (Decidable (∀ op ∈ write.issued cfg s, op.IsProgram))

/-- The power fails after `count` programs of the write, and the driver starts again. -/
def Write.interrupted (cfg : Config) (s : State) (count : Nat) (ram : Nat → BitVec 8) (write : Write) : State :=
  eepromInit cfg
    { flash := ((write.issued cfg s).take count).foldl (FlashOp.apply cfg) s.flash
      flashLocked := true
      dataBuf := ram
      emptySlot := 0
      trace := s.trace ++ (write.issued cfg s).take count }

/-- The bytes being written. -/
def Write.Covers (i : Nat) : Write → Prop
  | .byte address _ => i = address.toNat
  | .word address _ => i = address.toNat ∨ i = address.toNat + 1

instance (i : Nat) : (write : Write) → Decidable (write.Covers i)
  | .byte address _ => inferInstanceAs (Decidable (i = address.toNat))
  | .word address _ => inferInstanceAs (Decidable (i = address.toNat ∨ i = address.toNat + 1))

/-- What a byte that is being written is going to be. -/
def Write.newByte (i : Nat) : Write → BitVec 8
  | .byte _ dataByte => dataByte
  | .word address dataWord => if i = address.toNat then lowByte dataWord else highByte dataWord

section Write

variable {cfg : Config} {s : State} {write : Write}

theorem Write.run_outside {i : Nat} (outside : ¬ write.Covers i) :
    (write.run cfg s).dataBuf i = s.dataBuf i := by
  cases write with
  | byte address dataByte =>
    rw [Write.run, eepromWriteDataByte_dataBuf]
    exact storeByte_other outside _ _
  | word address dataWord =>
    obtain ⟨first, second⟩ := not_or.mp outside
    rw [Write.run, eepromWriteDataWord_dataBuf]
    exact (storeByte_other second _ _).trans (storeByte_other first _ _)

theorem storeByte_self {address : Nat} (inside : address < cfg.densityBytes) (value : BitVec 8)
    (buf : Nat → BitVec 8) : storeByte cfg address value buf address = value := by
  simp [storeByte, inside, setByte, blit]

theorem Write.run_covers {i : Nat} (inside : i < cfg.densityBytes) (covers : write.Covers i) :
    (write.run cfg s).dataBuf i = write.newByte i := by
  cases write with
  | byte address dataByte =>
    obtain rfl : i = address.toNat := covers
    rw [Write.run, eepromWriteDataByte_dataBuf]
    exact storeByte_self inside _ _
  | word address dataWord =>
    rw [Write.run, eepromWriteDataWord_dataBuf]
    by_cases first : i = address.toNat
    · subst first
      rw [storeWord, storeByte_other (by omega), storeByte_self inside, Write.newByte, if_pos rfl]
    · obtain rfl : i = address.toNat + 1 := covers.resolve_left first
      rw [storeWord, storeByte_self inside, Write.newByte, if_neg first]

theorem flashProgramHalfWord_trace (slot : Nat) (data : BitVec 16) (s : State) :
    (flashProgramHalfWord slot data s).2.trace = s.trace ++ [.program slot data (s.flash slot)] := by
  unfold flashProgramHalfWord
  dsimp only
  split
  · rfl
  · split <;> rfl

theorem eepromWriteLogByteEntry_trace (cfg : Config) (address : Nat) (s : State) :
    ∃ ops, (eepromWriteLogByteEntry cfg address s).2.trace = s.trace ++ ops := by
  unfold eepromWriteLogByteEntry
  split
  · obtain ⟨_, _, _, _, _, ops, issues, _⟩ := eepromCompact_spec cfg s
    exact ⟨ops, issues.trace⟩
  · exact ⟨_, flashProgramHalfWord_trace _ _ (flashUnlock s)⟩

/-- A split zero compacts the log with its first byte. -/
theorem SplitsZero.erases {address : Nat} {dataWord : BitVec 16} (splits : SplitsZero cfg address dataWord s) :
    ∃ ops page, (eepromWriteDataWord cfg address dataWord s).2.trace = s.trace ++ ops ∧ .erasePage page ∈ ops := by
  obtain ⟨rfl, even, low, inside, lowNonzero, highNonzero, held, _, full⟩ := splits
  have lowChanges : lowByte (wordAt s.dataBuf address) ≠ lowByte 0 := by
    rw [wordAt, lowByte_append]
    exact lowNonzero
  have highChanges : highByte (wordAt s.dataBuf address) ≠ highByte 0 := by
    rw [wordAt, highByte_append]
    exact highNonzero
  have changes : wordAt s.dataBuf address ≠ 0 := fun same => lowChanges (by rw [same])
  have aligned : ¬ address % 2 ≠ 0 := not_not.mpr even
  have bound : ¬ address ≥ cfg.densityBytes := Nat.not_le.mpr inside
  obtain ⟨_, _, _, _, _, ops, issues, erases⟩ :=
    eepromCompact_spec cfg { s with dataBuf := setWord s.dataBuf address 0 }
  obtain ⟨page, member⟩ := erases (by omega)
  obtain ⟨more, trace⟩ := eepromWriteLogByteEntry_trace cfg (address + 1)
    (eepromCompact cfg { s with dataBuf := setWord s.dataBuf address 0 }).2
  refine ⟨ops ++ more, page, ?_, List.mem_append_left _ member⟩
  rw [issues.trace, List.append_assoc] at trace
  rw [eepromWriteDataWord, if_neg bound, if_neg aligned]
  simp only [changes, if_false]
  rw [eepromWriteDirectEntry_held (s := { s with dataBuf := setWord s.dataBuf address 0 }) held]
  simp only [low, if_true, eepromWriteLogByteEntries, lowChanges, highChanges, ne_eq, not_false_eq_true]
  rw [eepromWriteLogByteEntry.eq_def cfg address, if_pos full]
  exact trace

/-- A write that does not compact the log splits no zero. -/
theorem Write.whole_of_programs {address dataWord : BitVec 16} (programs : (Write.word address dataWord).Programs cfg s) :
    ¬ SplitsZero cfg address.toNat dataWord s := by
  intro splits
  obtain ⟨ops, page, trace, member⟩ := splits.erases
  have issued : (Write.word address dataWord).issued cfg s = ops := by
    rw [Write.issued, Write.run, trace, List.drop_left]
  rw [← issued] at member
  exact programs _ member

theorem Write.persists (consistent : Consistent cfg s) (programs : write.Programs cfg s) :
    Persists cfg s (write.run cfg s) := by
  cases write with
  | byte address dataByte => exact .writeDataByte consistent _ _
  | word address dataWord => exact .writeDataWord consistent (Write.whole_of_programs programs)

/-- The flash on which the driver starts again is consistent with a mixture of the two buffers. -/
theorem Write.interrupted_spec (consistent : Consistent cfg s) (programs : write.Programs cfg s) (count : Nat)
    (ram : Nat → BitVec 8) :
    Consistent cfg (write.interrupted cfg s count ram) ∧
      ∀ i < cfg.densityBytes, (write.interrupted cfg s count ram).dataBuf i = s.dataBuf i ∨
        (write.interrupted cfg s count ram).dataBuf i = (write.run cfg s).dataBuf i := by
  obtain ⟨ops, issues, cuttable⟩ := (Write.persists consistent programs).cuttable
  have issued : write.issued cfg s = ops := by
    rw [Write.issued, issues.trace, List.drop_left]
  obtain ⟨snapshot, flash, consistent, mixed⟩ := cuttable (by rwa [Write.Programs, issued] at programs) count
  rw [← issued] at flash
  constructor
  · exact consistent.init flash.symm
  · intro i inside
    have restarted := (consistent.restartLaw
      { flash := ((write.issued cfg s).take count).foldl (FlashOp.apply cfg) s.flash
        flashLocked := true
        dataBuf := ram
        emptySlot := 0
        trace := s.trace ++ (write.issued cfg s).take count } flash.symm).1 i inside
    rw [Write.interrupted, restarted]
    exact mixed i inside

end Write

/-! ## Runs with power losses -/

/-- A call that is completed, or a write that stops after some of its programs. -/
inductive Event where
  | completed (c : Call)
  | stopped (write : Write) (count : Nat) (ram : Nat → BitVec 8)

def event (cfg : Config) (s : State) : Event → State
  | .completed c => call cfg s c
  | .stopped write count ram => write.interrupted cfg s count ram

/-- The completed calls split no zero, and the writes that stop do not compact the log. -/
def Event.Allowed (cfg : Config) (s : State) : Event → Prop
  | .completed c => c.Whole cfg s
  | .stopped write _ _ => write.Programs cfg s

instance (cfg : Config) (s : State) : (e : Event) → Decidable (e.Allowed cfg s)
  | .completed c => inferInstanceAs (Decidable (c.Whole cfg s))
  | .stopped write _ _ => inferInstanceAs (Decidable (write.Programs cfg s))

theorem Sound.interrupted {cfg : Config} {s : State} {write : Write} (sound : Sound cfg s)
    (programs : write.Programs cfg s) (count : Nat) (ram : Nat → BitVec 8) :
    Sound cfg (write.interrupted cfg s count ram) := by
  obtain ⟨ops, issues, _⟩ := (Write.persists sound.consistent programs).cuttable
  have issued : write.issued cfg s = ops := by
    rw [Write.issued, issues.trace, List.drop_left]
  refine ⟨(Write.interrupted_spec sound.consistent programs count ram).1, ?_⟩
  intro op member
  rcases List.mem_append.mp member with earlier | taken
  · exact sound.erased op earlier
  · rw [issued] at taken
    exact issues.erased op (List.mem_of_mem_take taken)

theorem Sound.event {cfg : Config} {s : State} (sound : Sound cfg s) {e : Event} (allowed : e.Allowed cfg s) :
    Sound cfg (event cfg s e) := by
  cases e with
  | completed c => exact sound.call allowed
  | stopped write count ram => exact sound.interrupted allowed count ram

/-- In a run with power losses every state satisfies the restart law, and a write that stops in
such a state leaves each byte at its old value or, if it is being written, at its old or new one. -/
theorem power_loss_keeps_bytes (cfg : Config) (flash : Nat → BitVec 16) (ram : Nat → BitVec 8) (events : List Event)
    (allowed : EveryStep (fun earlier e => e.Allowed cfg (earlier.foldl (event cfg) (start cfg flash ram))) events) :
    RestartLaw cfg (events.foldl (event cfg) (start cfg flash ram)) ∧
      ∀ (write : Write) (count : Nat) (boot : Nat → BitVec 8),
        write.Programs cfg (events.foldl (event cfg) (start cfg flash ram)) →
        RestartLaw cfg (write.interrupted cfg (events.foldl (event cfg) (start cfg flash ram)) count boot) ∧
        ∀ i < cfg.densityBytes,
          (¬ write.Covers i →
            (write.interrupted cfg (events.foldl (event cfg) (start cfg flash ram)) count boot).dataBuf i =
              (events.foldl (event cfg) (start cfg flash ram)).dataBuf i) ∧
          (write.Covers i →
            (write.interrupted cfg (events.foldl (event cfg) (start cfg flash ram)) count boot).dataBuf i =
              (events.foldl (event cfg) (start cfg flash ram)).dataBuf i ∨
            (write.interrupted cfg (events.foldl (event cfg) (start cfg flash ram)) count boot).dataBuf i =
              write.newByte i) := by
  have sound : Sound cfg (events.foldl (event cfg) (start cfg flash ram)) := by
    refine foldl_everyStep _ (fun _ s => Sound cfg s) (start_sound cfg flash ram) ?_ events allowed
    intro earlier e allowed before
    exact before.event allowed
  generalize events.foldl (event cfg) (start cfg flash ram) = s at *
  refine ⟨sound.consistent.restartLaw, ?_⟩
  intro write count boot programs
  obtain ⟨consistent, mixed⟩ := Write.interrupted_spec sound.consistent programs count boot
  refine ⟨consistent.restartLaw, fun i inside => ⟨fun outside => ?_, fun covers => ?_⟩⟩
  · have same : (write.run cfg s).dataBuf i = s.dataBuf i := Write.run_outside outside
    rcases mixed i inside with old | new
    · exact old
    · exact new.trans same
  · rw [← Write.run_covers (s := s) inside covers]
    exact mixed i inside

/-- The tiny layout of the tests: 256 bytes and a log of 128 half-words. -/
def tinyConfig : Config where
  pageSize := 512
  pageCount := 1
  densityBytes := 256
  writeLogBytes := 256
  densityEven := rfl
  densityMax := by decide
  writeLogEven := rfl
  fits := by decide

/-- A word is written, its second value is cut off after the address half-word of its entry, and
a later write follows the gap. -/
def tornEvents : List Event :=
  [.completed (.writeDataWord 0x90 0x1234), .stopped (.word 0x90 0x5678) 1 fun _ => 0,
    .completed (.writeDataByte 0x91 7)]

theorem tornEvents_keep_bytes :
    RestartLaw tinyConfig (tornEvents.foldl (event tinyConfig) (start tinyConfig (fun _ => emptyWord) fun _ => 0)) ∧
      ((Write.word 0x90 0x5678).interrupted tinyConfig
        (tornEvents.foldl (event tinyConfig) (start tinyConfig (fun _ => emptyWord) fun _ => 0)) 1 fun _ => 0).dataBuf 3 =
      (tornEvents.foldl (event tinyConfig) (start tinyConfig (fun _ => emptyWord) fun _ => 0)).dataBuf 3 := by
  have kept := power_loss_keeps_bytes tinyConfig (fun _ => emptyWord) (fun _ => 0) tornEvents (by decide)
  have stopped := kept.2 (.word 0x90 0x5678) 1 (fun _ => 0) (by decide)
  exact ⟨kept.1, (stopped.2 3 (by decide)).1 (by decide)⟩

/-- After a split zero a write elsewhere that stops at once loses a byte. -/
theorem split_zero_loses_byte :
    (Write.byte 4 9).Programs smallConfig
        ((splitCalls.map Event.completed).foldl (event smallConfig)
          (start smallConfig (fun _ => emptyWord) fun _ => 0)) ∧
      ¬ (Write.byte 4 9).Covers 1 ∧
      ((Write.byte 4 9).interrupted smallConfig
          ((splitCalls.map Event.completed).foldl (event smallConfig)
            (start smallConfig (fun _ => emptyWord) fun _ => 0)) 0 fun _ => 0).dataBuf 1 ≠
        ((splitCalls.map Event.completed).foldl (event smallConfig)
          (start smallConfig (fun _ => emptyWord) fun _ => 0)).dataBuf 1 := by
  decide

end QmkFirmware.LegacyEeprom
