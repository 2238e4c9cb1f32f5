import QmkFirmware.LegacyEeprom.WriteLog

/-! # Flash operations and compaction

What a stretch of the driver does to the flash is the list of operations it issues.
Erasing and compacting leave a flash whose compacted area is the buffer and whose log is
empty, whatever was there before.
-/

namespace QmkFirmware.LegacyEeprom

open QmkFirmware.Memory

/-! ## Issued operations -/

def FlashOp.apply (cfg : Config) (flash : Nat → BitVec 16) : FlashOp → Nat → BitVec 16
  | .erasePage address => erased cfg address flash
  | .program slot data _ => programmed slot data flash

/-- A program found its half-word erased. -/
def FlashOp.OnErased : FlashOp → Prop
  | .erasePage _ => True
  | .program _ _ found => found = emptyWord

instance (op : FlashOp) : Decidable op.OnErased := by
  cases op <;> unfold FlashOp.OnErased <;> infer_instance

/-- From `s` to `after` the driver issues these operations, all of which take effect. -/
structure Issues (cfg : Config) (s after : State) (ops : List FlashOp) : Prop where
  trace : after.trace = s.trace ++ ops
  flash : after.flash = ops.foldl (FlashOp.apply cfg) s.flash
  erased : ∀ op ∈ ops, op.OnErased

section Issues

variable {cfg : Config} {s middle after : State} {ops more : List FlashOp}

theorem Issues.nil (trace : after.trace = s.trace) (flash : after.flash = s.flash) : Issues cfg s after [] := by
  constructor
  · rw [trace, List.append_nil]
  · rw [flash, List.foldl_nil]
  · intro op member
    cases member

theorem Issues.append (first : Issues cfg s middle ops) (second : Issues cfg middle after more) :
    Issues cfg s after (ops ++ more) := by
  constructor
  · rw [second.trace, first.trace, List.append_assoc]
  · rw [second.flash, first.flash, List.foldl_append]
  · intro op member
    rcases List.mem_append.mp member with member | member
    · exact first.erased op member
    · exact second.erased op member

theorem programmed_self (slot : Nat) (data : BitVec 16) (flash : Nat → BitVec 16) :
    programmed slot data flash slot = data := by
  simp [programmed, blit]

theorem programmed_other {slot j : Nat} (other : j ≠ slot) (data : BitVec 16) (flash : Nat → BitVec 16) :
    programmed slot data flash j = flash j :=
  blit_outside (by simp; omega)

theorem flashProgramHalfWord_eq {slot : Nat} (unlocked : s.flashLocked = false)
    (empty : s.flash slot = emptyWord) (data : BitVec 16) :
    flashProgramHalfWord slot data s =
      (.complete, { s with
        flash := programmed slot data s.flash
        trace := s.trace ++ [.program slot data emptyWord] }) := by
  simp [flashProgramHalfWord, unlocked, empty]

/-- One program of an erased half-word. -/
theorem Issues.program {slot : Nat} {data : BitVec 16}
    (trace : after.trace = s.trace ++ [.program slot data emptyWord])
    (flash : after.flash = programmed slot data s.flash) :
    Issues cfg s after [.program slot data emptyWord] := by
  constructor
  · exact trace
  · exact flash
  · intro op member
    rw [List.mem_singleton.mp member]
    rfl

end Issues

/-! ## Erasing -/

section Erase

variable (cfg : Config) (s : State)

theorem erased_apply (address : Nat) (flash : Nat → BitVec 16) (j : Nat) :
    erased cfg address flash j =
      if address ≤ 2 * j ∧ 2 * j < address + cfg.pageSize then emptyWord else flash j := rfl

/-- The first `count` pages are erased. -/
theorem erasePages_spec (unlocked : s.flashLocked = false) (count : Nat) :
    (erasePages cfg count s).flashLocked = false ∧ (erasePages cfg count s).dataBuf = s.dataBuf ∧
      (∀ j, 2 * j < count * cfg.pageSize → (erasePages cfg count s).flash j = emptyWord) ∧
      ∃ ops, Issues cfg s (erasePages cfg count s) ops ∧ (0 < count → ∃ page, .erasePage page ∈ ops) := by
  induction count with
  | zero => exact ⟨unlocked, rfl, fun j below => by omega, [], .nil rfl rfl, fun positive => by omega⟩
  | succ count ih =>
    obtain ⟨unlocked, buf, empty, ops, issues, _⟩ := ih
    have last : erasePages cfg (count + 1) s =
        { erasePages cfg count s with
          flash := erased cfg (count * cfg.pageSize) (erasePages cfg count s).flash
          trace := (erasePages cfg count s).trace ++ [.erasePage (count * cfg.pageSize)] } := by
      simp [erasePages, flashErasePage, unlocked]
    rw [last]
    refine ⟨unlocked, buf, ?_, ops ++ [.erasePage (count * cfg.pageSize)], ?_,
      fun _ => ⟨count * cfg.pageSize, by simp⟩⟩
    · intro j below
      rw [Nat.add_one_mul count] at below
      simp only [erased_apply]
      split
      · rfl
      · exact empty j (by omega)
    · refine issues.append ⟨rfl, rfl, ?_⟩
      intro op member
      rw [List.mem_singleton.mp member]
      trivial

/-- `eeprom_clear` leaves the buffer alone and erases the compacted area and the log. -/
theorem eepromClear_spec :
    (eepromClear cfg s).dataBuf = s.dataBuf ∧ (eepromClear cfg s).emptySlot = cfg.writeLogBase ∧
      (∀ j < cfg.writeLogLast, (eepromClear cfg s).flash j = emptyWord) ∧
      ∃ ops, Issues cfg s (eepromClear cfg s) ops ∧ (0 < cfg.densityBytes → ∃ page, .erasePage page ∈ ops) := by
  obtain ⟨_, buf, empty, ops, issues, erases⟩ := erasePages_spec cfg (flashUnlock s) rfl cfg.pageCount
  have fits := cfg.fits
  refine ⟨buf, rfl, ?_, ops, ⟨issues.trace, issues.flash, issues.erased⟩, ?_⟩
  · intro j before
    unfold Config.writeLogLast at before
    exact empty j (by omega)
  · intro positive
    have some : 0 < cfg.pageCount * cfg.pageSize := by omega
    exact erases (Nat.pos_of_mul_pos_right some)

end Erase

/-! ## Compacting -/

section Compact

variable (cfg : Config) {s : State}

/-- The first `count` words of the buffer are programmed, each into an erased half-word. -/
theorem compactWords_spec (unlocked : s.flashLocked = false) (empty : ∀ j < cfg.writeLogBase, s.flash j = emptyWord)
    {count : Nat} (bound : count ≤ cfg.writeLogBase) :
    (compactWords count (.complete, s)).1 = .complete ∧ (compactWords count (.complete, s)).2.flashLocked = false ∧
      (compactWords count (.complete, s)).2.dataBuf = s.dataBuf ∧
      (compactWords count (.complete, s)).2.emptySlot = s.emptySlot ∧
      (∀ j < count, (compactWords count (.complete, s)).2.flash j = ~~~wordAt s.dataBuf (2 * j)) ∧
      (∀ j, count ≤ j → (compactWords count (.complete, s)).2.flash j = s.flash j) ∧
      ∃ ops, Issues cfg s (compactWords count (.complete, s)).2 ops := by
  induction count with
  | zero => exact ⟨rfl, unlocked, rfl, rfl, fun j below => by omega, fun j _ => rfl, [], .nil rfl rfl⟩
  | succ count ih =>
    obtain ⟨status, unlocked, buf, slot, done, rest, ops, issues⟩ := ih (by omega)
    rw [compactWords]
    generalize compactWords count (.complete, s) = result at *
    obtain ⟨finalStatus, middle⟩ := result
    simp only at status unlocked buf slot done rest issues ⊢
    have erased : middle.flash count = emptyWord := (rest count (Nat.le_refl _)).trans (empty count (by omega))
    by_cases zero : wordAt middle.dataBuf (2 * count) = 0
    · simp only [zero, ne_eq, not_true_eq_false, if_false]
      refine ⟨status, unlocked, buf, slot, ?_, fun j above => rest j (by omega), ops, issues⟩
      intro j below
      by_cases last : j = count
      · rw [last, erased, ← buf, zero]
        rfl
      · exact done j (by omega)
    · rw [if_pos zero, flashProgramHalfWord_eq unlocked erased]
      simp only [ne_eq, not_true_eq_false, if_false]
      refine ⟨status, unlocked, buf, slot, ?_, ?_, _, issues.append (.program rfl rfl)⟩
      · intro j below
        by_cases last : j = count
        · rw [last, programmed_self, buf]
        · rw [programmed_other last]
          exact done j (by omega)
      · intro j above
        rw [programmed_other (by omega)]
        exact rest j (by omega)

/-- After `eeprom_compact` the compacted area holds the buffer and the log is empty. -/
theorem eepromCompact_spec (s : State) :
    (eepromCompact cfg s).1 = .complete ∧ (eepromCompact cfg s).2.dataBuf = s.dataBuf ∧
      (eepromCompact cfg s).2.emptySlot = cfg.writeLogBase ∧
      (∀ j < cfg.writeLogBase, (eepromCompact cfg s).2.flash j = ~~~wordAt s.dataBuf (2 * j)) ∧
      (∀ j, cfg.writeLogBase ≤ j → j < cfg.writeLogLast → (eepromCompact cfg s).2.flash j = emptyWord) ∧
      ∃ ops, Issues cfg s (eepromCompact cfg s).2 ops ∧ (0 < cfg.densityBytes → ∃ page, .erasePage page ∈ ops) := by
  obtain ⟨clearBuf, clearSlot, clear, clearOps, cleared, erases⟩ := eepromClear_spec cfg s
  have order : cfg.writeLogBase ≤ cfg.writeLogLast := by
    unfold Config.writeLogBase Config.writeLogLast
    omega
  have unlocked : (flashUnlock (eepromClear cfg s)).flashLocked = false := rfl
  obtain ⟨status, _, buf, slot, done, rest, ops, issues⟩ :=
    compactWords_spec cfg unlocked (fun j below => clear j (by omega)) (Nat.le_refl _)
  have start : Issues cfg s (flashUnlock (eepromClear cfg s)) clearOps :=
    ⟨cleared.trace, cleared.flash, cleared.erased⟩
  have all := start.append issues
  have unlockedBuf : (flashUnlock (eepromClear cfg s)).dataBuf = s.dataBuf := clearBuf
  refine ⟨status, buf.trans clearBuf, slot.trans clearSlot, ?_, ?_, _, ⟨all.trace, all.flash, all.erased⟩, ?_⟩
  · intro j below
    rw [← unlockedBuf]
    exact done j below
  · intro j above before
    exact (rest j above).trans (clear j before)
  · intro positive
    obtain ⟨page, member⟩ := erases positive
    exact ⟨page, List.mem_append_left _ member⟩

end Compact

end QmkFirmware.LegacyEeprom
