import QmkFirmware.Unicode.Decoder
import QmkFirmware.Unicode.Typing

/-! # The end of a Unicode string

The decoder takes as many bytes as the lead byte announces, whatever they are.  A sequence that is cut off by the NUL is
decoded over it, and the string goes on behind.
-/

namespace QmkFirmware.Unicode

/-- The bytes that the lead bytes announce are there, after those that have been announced. -/
def fits : Nat → List UInt8 → Bool
  | 0, [] => true
  | 0, lead :: bytes => fits (announced lead - 1) bytes
  | _ + 1, [] => false
  | missing + 1, _ :: bytes => fits missing bytes

theorem fits_iff (missing : Nat) (bytes : List UInt8) :
    fits missing bytes = true ↔ missing ≤ bytes.length ∧ fits 0 (bytes.drop missing) = true := by
  induction bytes generalizing missing with
  | nil => cases missing <;> simp [fits]
  | cons byte bytes ih =>
    cases missing with
    | zero => simp
    | succ missing => simp [fits, ih missing]

section Run

variable {env : Env} {memory : Nat → UInt8} {str : Nat} {s : State}

theorem registerUnicode_reads (env : Env) (codePoint : Nat) (s : State) :
    (registerUnicode env codePoint s).reads = s.reads := by
  by_cases bound : codePoint ≤ 0x10FFFF
  · obtain ⟨-, -, -, -, -, reads⟩ := registerUnicode_spec env bound s
    exact reads
  · rw [registerUnicode, if_pos (.inl (Nat.lt_of_not_le bound))]

/-- One pass of the loop. -/
theorem sendUnicodeString_step (env : Env) (some : memory str ≠ 0) (s : State) :
    ∃ t, t.reads = s.reads ++ str :: decodeReads memory str ∧
      ∀ fuel, sendUnicodeString env memory (fuel + 1) str s =
        sendUnicodeString env memory fuel (str + announced (memory str)) t := by
  have next : (decodeUtf8 memory str).2 = str + announced (memory str) := by
    rw [← decodeLead_length]
    rfl
  refine ⟨if 0 ≤ (decodeUtf8 memory str).1 then
    registerUnicode env (decodeUtf8 memory str).1.toNat ((s.read [str]).read (decodeReads memory str))
    else (s.read [str]).read (decodeReads memory str), ?_, fun fuel => ?_⟩
  · have reads : ((s.read [str]).read (decodeReads memory str)).reads = s.reads ++ str :: decodeReads memory str :=
      List.append_assoc s.reads [str] _
    split
    · rw [registerUnicode_reads, reads]
    · exact reads
  · rw [← next, sendUnicodeString, if_neg some]

/-- The loop reads the place where it is. -/
theorem sendUnicodeString_reads {fuel : Nat} {t : State} (ran : sendUnicodeString env memory fuel str s = some t) :
    ∃ places, t.reads = s.reads ++ str :: places := by
  induction fuel generalizing str s with
  | zero => cases ran
  | succ fuel ih =>
    by_cases terminator : memory str = 0
    · rw [sendUnicodeString, if_pos terminator] at ran
      cases ran
      exact ⟨[], rfl⟩
    · obtain ⟨u, reads, step⟩ := sendUnicodeString_step env terminator s
      obtain ⟨places, later⟩ := ih ((step fuel).symm.trans ran)
      refine ⟨decodeReads memory str ++ (str + announced (memory str)) :: places, ?_⟩
      rw [later, reads, List.append_assoc, List.cons_append]

/-- The loop ends, and reads no place above the last one. -/
def StaysBelow (env : Env) (memory : Nat → UInt8) (str : Nat) (s : State) (last : Nat) : Prop :=
  ∃ fuel t places, sendUnicodeString env memory fuel str s = some t ∧ t.reads = s.reads ++ places ∧
    ∀ place ∈ places, place ≤ last

theorem decodeReads_le {place : Nat} (read : place ∈ decodeReads memory str) :
    place < str + announced (memory str) := by
  obtain ⟨i, inside, rfl⟩ := List.mem_map.mp read
  rw [decodeLead_length, List.mem_range] at inside
  omega

/-- Before the NUL, the loop stays below a place if it goes on below it. -/
theorem staysBelow_step (some : memory str ≠ 0) {last : Nat} (below : str + announced (memory str) ≤ last + 1) :
    ∃ t, StaysBelow env memory str s last ↔ StaysBelow env memory (str + announced (memory str)) t last := by
  obtain ⟨t, reads, step⟩ := sendUnicodeString_step env some s
  refine ⟨t, ?_, ?_⟩
  · rintro ⟨fuel, u, places, ran, total, inside⟩
    cases fuel with
    | zero => cases ran
    | succ fuel =>
      rw [step] at ran
      obtain ⟨later, rest⟩ := sendUnicodeString_reads ran
      refine ⟨fuel, u, _, ran, rest, fun place read => inside place ?_⟩
      rw [rest, reads, List.append_assoc] at total
      rw [← List.append_cancel_left total]
      exact List.mem_append_right _ read
  · rintro ⟨fuel, u, places, ran, total, inside⟩
    have positive := announced_pos (memory str)
    refine ⟨fuel + 1, u, (str :: decodeReads memory str) ++ places, (step fuel).trans ran, ?_, ?_⟩
    · rw [total, reads, List.append_assoc]
    · intro place read
      obtain read | read := List.mem_append.mp read
      · obtain rfl | read := List.mem_cons.mp read
        · omega
        · have before := decodeReads_le read
          omega
      · exact inside place read

/-- A sequence that goes on over the NUL is read over it. -/
theorem not_staysBelow (some : memory str ≠ 0) {last : Nat} (above : last < str + announced (memory str)) :
    ¬ StaysBelow env memory str s last := by
  rintro ⟨fuel, u, places, ran, total, inside⟩
  cases fuel with
  | zero => cases ran
  | succ fuel =>
    obtain ⟨t, reads, step⟩ := sendUnicodeString_step env some s
    rw [step] at ran
    obtain ⟨later, rest⟩ := sendUnicodeString_reads ran
    rw [rest, reads, List.append_assoc] at total
    have behind := inside (str + announced (memory str)) (by
      rw [← List.append_cancel_left total]
      exact List.mem_append_right _ (List.mem_cons_self ..))
    omega

end Run

/-- The loop ends without a read behind the first NUL exactly if no lead byte announces more bytes than there are before
the NUL. -/
theorem sendUnicodeString_staysBelow_iff (env : Env) (memory : Nat → UInt8) (bytes : List UInt8)
    (nonzero : ∀ byte ∈ bytes, byte ≠ 0) (str : Nat) (s : State) (held : Holds memory str (bytes ++ [0])) :
    StaysBelow env memory str s (str + bytes.length) ↔ fits 0 bytes = true := by
  induction size : bytes.length using Nat.strong_induction_on generalizing bytes str s with
  | _ n ih =>
    subst size
    cases bytes with
    | nil =>
      have terminator : memory str = 0 := (holds_cons.mp held).1
      refine iff_of_true ⟨1, s.read [str], [str], if_pos terminator, rfl, ?_⟩ rfl
      simp
    | cons lead bytes =>
      rw [List.cons_append] at held
      obtain ⟨first, rest⟩ := holds_cons.mp held
      have some : memory str ≠ 0 := by
        rw [first]
        exact nonzero lead (List.mem_cons_self ..)
      have positive := announced_pos lead
      rw [fits, fits_iff, List.length_cons]
      by_cases there : announced lead - 1 ≤ bytes.length
      · obtain ⟨t, step⟩ := @staysBelow_step env memory str s some (str + (bytes.length + 1)) (by rw [first]; omega)
        have split : bytes.take (announced lead - 1) ++ bytes.drop (announced lead - 1) = bytes := List.take_append_drop ..
        have taken : (bytes.take (announced lead - 1)).length = announced lead - 1 := List.length_take_of_le there
        have dropped : (bytes.drop (announced lead - 1)).length = bytes.length - (announced lead - 1) :=
          List.length_drop ..
        rw [← split, List.append_assoc] at rest
        have next := (holds_append.mp rest).2
        rw [taken] at next
        have after : str + announced lead = str + 1 + (announced lead - 1) := by omega
        have last : str + (bytes.length + 1) = str + announced lead + (bytes.drop (announced lead - 1)).length := by
          omega
        rw [step, first, last, ih _ (by simp only [List.length_cons]; omega) _
          (fun byte later => nonzero byte (List.mem_cons_of_mem _ (List.mem_of_mem_drop later))) _ t (after ▸ next) rfl]
        simp [there]
      · refine iff_of_false ?_ fun whole => there whole.1
        apply not_staysBelow some
        rw [first]
        omega

/-- No key has been typed, on Linux. -/
def onLinux : State := ⟨unicodeModeLinux, 0, ⟨false, false⟩, 0, 0, [], []⟩

theorem whole_staysBelow :
    StaysBelow (.default fun _ => ⟨false, false⟩) (bytesAt ([0x41, 0xC3, 0xA4] ++ [0])) 0 onLinux (0 + 3) ↔
      fits 0 [0x41, 0xC3, 0xA4] = true :=
  sendUnicodeString_staysBelow_iff _ _ [0x41, 0xC3, 0xA4] (by simp) 0 _ (holds_bytesAt _)

/-- The NUL is taken for the second byte of a sequence, and the `A` behind it is typed. -/
theorem truncated_not_staysBelow :
    ¬ StaysBelow (.default fun _ => ⟨false, false⟩) (bytesAt [0xC3, 0, 0x41, 0]) 0 onLinux 1 :=
  not_staysBelow (by decide) (by decide)

end QmkFirmware.Unicode
