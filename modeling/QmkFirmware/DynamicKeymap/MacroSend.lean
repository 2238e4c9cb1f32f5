import QmkFirmware.DynamicKeymap.Model
import QmkFirmware.SendString.Terminator

/-! # Playing dynamic macros

A shallow embedding of `dynamic_keymap_macro_send`, and where it reads.  The macros stand one
behind the other in their region of the EEPROM, each with a terminator.  A macro is sent code by
code through a buffer of eight bytes on the stack.
-/

namespace QmkFirmware.DynamicKeymap

open QmkFirmware.Memory QmkFirmware.SendString

inductive MacroEvent where
  | eepromRead (address : Nat)
  | sent (event : SendEvent)
  deriving DecidableEq, Repr

/-- The code that was fetched: the address behind it and the buffer it is in, or `none` when the
playback ends.  `reads` are the addresses that were read. -/
structure Fetch where
  next : Option (Nat × (Nat → UInt8))
  reads : List Nat

/-! ## The source -/

section MacroSend

variable (layout : Layout) (eeprom : Nat → UInt8)

/-- The loop that skips the macros in front of one; the first argument is `end - p`. -/
def skipMacros : Nat → Nat → Nat → Option Nat × List Nat
  | _, 0, p => (some p, [])
  | 0, _ + 1, _ => (none, [])
  | left + 1, id + 1, p =>
    let rest := skipMacros left (if eeprom p = 0 then id else id + 1) (p + 1)
    (rest.1, p :: rest.2)

def delayEnd : UInt8 := 0x7C

/-- The loop that fetches the number of a delay and the `|` behind it. -/
def fetchDelay : Nat → Nat → Nat → (Nat → UInt8) → Fetch
  | 0, _, _, _ => ⟨none, []⟩
  | fuel + 1, i, p, data =>
    let data := Function.update data i (eeprom p)
    if eeprom p = 0 then ⟨none, [p]⟩
    else if eeprom p = delayEnd then ⟨some (p + 1, Function.update data (i + 1) 0), [p]⟩
    -- the number is too big
    else if i = 6 then ⟨none, [p]⟩
    else
      let rest := fetchDelay fuel (i + 1) (p + 1) data
      ⟨rest.next, p :: rest.reads⟩

/-- One code, from the address `p`, into the buffer. -/
def fetchCode (p : Nat) (data : Nat → UInt8) : Fetch :=
  let data := Function.update (Function.update data 0 (eeprom p)) 1 0
  if eeprom p = 0 then ⟨none, [p]⟩
  else if eeprom p = ssQmkPrefix then
    let code := eeprom (p + 1)
    let data := Function.update data 1 code
    if code = 0 then ⟨none, [p, p + 1]⟩
    else if code = ssTapCode ∨ code = ssDownCode ∨ code = ssUpCode then
      let data := Function.update data 2 (eeprom (p + 2))
      if eeprom (p + 2) = 0 then ⟨none, [p, p + 1, p + 2]⟩
      else ⟨some (p + 3, Function.update data 3 0), [p, p + 1, p + 2]⟩
    else if code = ssDelayCode then
      let rest := fetchDelay eeprom 5 2 (p + 2) data
      ⟨rest.next, p :: (p + 1) :: rest.reads⟩
    else ⟨some (p + 2, data), [p, p + 1]⟩
  else ⟨some (p + 1, data), [p]⟩

variable (luts : Luts) (macroDelay : UInt8)

/-- The loop that sends one code after the other. -/
def playMacro : Nat → Nat → (Nat → UInt8) → Option (List MacroEvent)
  | 0, _, _ => none
  | fuel + 1, p, data => do
    let fetch := fetchCode eeprom p data
    match fetch.next with
    | none => some (fetch.reads.map .eepromRead)
    | some (p, data) =>
      let events ← sendStringWithDelay luts data macroDelay fuel 0
      let rest ← playMacro fuel p data
      some (fetch.reads.map .eepromRead ++ events.map .sent ++ rest)

/-- `stack` is what is in memory where the buffer goes. -/
def dynamicKeymapMacroSend (stack : Nat → UInt8) (fuel : Nat) (id : UInt8) : Option (List MacroEvent) := do
  if id.toNat ≥ layout.macroCount then some []
  else
    let last := layout.macroAddr + layout.macroSize - 1
    if eeprom last ≠ 0 then some [.eepromRead last]
    else
      let skip := skipMacros eeprom layout.macroSize id.toNat layout.macroAddr
      match skip.1 with
      | none => some (.eepromRead last :: skip.2.map .eepromRead)
      | some p =>
        let rest ← playMacro eeprom luts macroDelay fuel p (blit stack 0 (List.replicate 8 0))
        some (.eepromRead last :: skip.2.map .eepromRead ++ rest)

end MacroSend

/-! ## Where the playback reads -/

section Reads

variable {eeprom : Nat → UInt8}

/-- No terminator from `p` up to `q`. -/
def Filled (eeprom : Nat → UInt8) (p q : Nat) : Prop := ∀ b, p ≤ b → b < q → eeprom b ≠ 0

theorem filled_self (p : Nat) : Filled eeprom p p := fun _ low high => absurd low (Nat.not_le.mpr high)

theorem Filled.cons {p q : Nat} (first : eeprom p ≠ 0) (rest : Filled eeprom (p + 1) q) : Filled eeprom p q := by
  intro b low high
  rcases Nat.eq_or_lt_of_le low with rfl | after
  · exact first
  · exact rest b after high

theorem Filled.le_of_zero {p q last : Nat} (filled : Filled eeprom p q) (start : p ≤ last) (zero : eeprom last = 0) :
    q ≤ last :=
  Nat.le_of_not_lt fun behind => filled last start behind zero

/-- What is read has no terminator in front of it, and the address behind the code neither. -/
structure Fetch.Within (eeprom : Nat → UInt8) (p : Nat) (fetch : Fetch) : Prop where
  reads : ∀ a ∈ fetch.reads, p ≤ a ∧ Filled eeprom p a
  next : ∀ q data, fetch.next = some (q, data) → p < q ∧ Filled eeprom p q

/-- Another byte in front of what is fetched. -/
theorem Fetch.Within.cons {p : Nat} {fetch : Fetch} (first : eeprom p ≠ 0) (within : fetch.Within eeprom (p + 1)) :
    Fetch.Within eeprom p ⟨fetch.next, p :: fetch.reads⟩ := by
  constructor
  · intro a member
    rcases List.mem_cons.mp member with rfl | later
    · exact ⟨Nat.le_refl _, filled_self _⟩
    · obtain ⟨low, filled⟩ := within.reads a later
      exact ⟨Nat.le_of_succ_le low, filled.cons first⟩
  · intro q data found
    obtain ⟨low, filled⟩ := within.next q data found
    exact ⟨Nat.lt_of_succ_lt low, filled.cons first⟩

/-- The last byte, at which the playback ends. -/
theorem Fetch.within_last (p : Nat) : Fetch.Within eeprom p ⟨none, [p]⟩ := by
  refine ⟨fun a member => ?_, fun q data found => nomatch found⟩
  rw [List.mem_singleton.mp member]
  exact ⟨Nat.le_refl _, filled_self _⟩

/-- The last byte of a code. -/
theorem Fetch.within_found {p : Nat} (data : Nat → UInt8) (found : eeprom p ≠ 0) :
    Fetch.Within eeprom p ⟨some (p + 1, data), [p]⟩ := by
  refine ⟨(Fetch.within_last p).reads, fun q other same => ?_⟩
  obtain rfl : p + 1 = q := (Prod.ext_iff.mp (Option.some.inj same)).1
  exact ⟨Nat.lt_succ_self p, (filled_self _).cons found⟩

theorem fetchDelay_within (fuel i p : Nat) (data : Nat → UInt8) :
    (fetchDelay eeprom fuel i p data).Within eeprom p := by
  induction fuel generalizing i p data with
  | zero => exact ⟨nofun, nofun⟩
  | succ fuel ih =>
    rw [fetchDelay]
    dsimp only
    split
    · exact Fetch.within_last p
    rename_i filled
    split
    · exact Fetch.within_found _ filled
    split
    · exact Fetch.within_last p
    · exact (ih _ _ _).cons filled

theorem fetchCode_within (p : Nat) (data : Nat → UInt8) : (fetchCode eeprom p data).Within eeprom p := by
  rw [fetchCode]
  dsimp only
  split
  · exact Fetch.within_last p
  rename_i first
  split
  · split
    · exact (Fetch.within_last (p + 1)).cons first
    rename_i second
    split
    · split
      · exact ((Fetch.within_last (p + 2)).cons second).cons first
      · rename_i third
        exact ((Fetch.within_found _ third).cons second).cons first
    split
    · exact ((fetchDelay_within _ _ _ _).cons second).cons first
    · exact (Fetch.within_found _ second).cons first
  · exact Fetch.within_found _ first

theorem mem_fetchCode_reads (p : Nat) (data : Nat → UInt8) : p ∈ (fetchCode eeprom p data).reads := by
  rw [fetchCode]
  dsimp only
  repeat' split
  all_goals exact List.mem_cons_self

end Reads

/-! ## The buffer -/

section Buffer

/-- The buffer ends with a zero, and the byte in front of it does not begin or continue a code. -/
structure Sealed (data : Nat → UInt8) : Prop where
  zero : data 7 = 0
  mark : data 6 = 0 ∨ data 6 = delayEnd

variable {eeprom data : Nat → UInt8}

theorem Sealed.update (sealed : Sealed data) {i : Nat} (inside : i < 6) (byte : UInt8) :
    Sealed (Function.update data i byte) :=
  ⟨(Function.update_of_ne (by omega) _ _).trans sealed.zero,
    (Function.update_of_ne (by omega : 6 ≠ i) byte data).symm ▸ sealed.mark⟩

theorem Sealed.ends (sealed : Sealed data) {i : Nat} (inside : i ≤ 6) :
    Sealed (Function.update (Function.update data i delayEnd) (i + 1) 0) := by
  rcases Nat.lt_or_eq_of_le inside with below | rfl
  · rcases Nat.lt_or_eq_of_le (Nat.le_of_lt_succ below) with low | rfl
    · exact (sealed.update below _).update (by omega) _
    · exact ⟨sealed.zero, .inl rfl⟩
  · exact ⟨rfl, .inr rfl⟩

theorem Sealed.mark_not (sealed : Sealed data) (property : UInt8 → Prop) (zero : ¬ property 0)
    (mark : ¬ property delayEnd) : ¬ property (data 6) := by
  obtain same | same := sealed.mark
  · exact same ▸ zero
  · exact same ▸ mark

/-- A code that is fetched leaves a buffer that is sealed. -/
def Fetch.LeavesSealed (fetch : Fetch) : Prop := ∀ found ∈ fetch.next, Sealed found.2

theorem Fetch.leavesSealed_none (reads : List Nat) : Fetch.LeavesSealed ⟨none, reads⟩ := nofun

theorem Fetch.leavesSealed_some (sealed : Sealed data) (q : Nat) (reads : List Nat) :
    Fetch.LeavesSealed ⟨some (q, data), reads⟩ := by
  intro found same
  rw [← Option.some.inj same]
  exact sealed

theorem fetchDelay_sealed (sealed : Sealed data) (fuel : Nat) {i : Nat} (p : Nat) (inside : i ≤ 6) :
    (fetchDelay eeprom fuel i p data).LeavesSealed := by
  induction fuel generalizing i p data with
  | zero => exact nofun
  | succ fuel ih =>
    rw [fetchDelay]
    dsimp only
    split
    · exact Fetch.leavesSealed_none _
    split
    · rename_i mark
      rw [mark]
      exact Fetch.leavesSealed_some (sealed.ends inside) _ _
    split
    · exact Fetch.leavesSealed_none _
    · exact ih (sealed.update (by omega) _) (p + 1) (by omega)

theorem fetchCode_sealed (sealed : Sealed data) (p : Nat) : (fetchCode eeprom p data).LeavesSealed := by
  have start (first second : UInt8) : Sealed (Function.update (Function.update data 0 first) 1 second) :=
    (sealed.update (by decide) _).update (by decide) _
  have code (first second third : UInt8) :
      Sealed (Function.update (Function.update (Function.update data 0 first) 1 second) 1 third) :=
    (start _ _).update (by decide) _
  rw [fetchCode]
  dsimp only
  split
  · exact Fetch.leavesSealed_none _
  split
  · split
    · exact Fetch.leavesSealed_none _
    split
    · split
      · exact Fetch.leavesSealed_none _
      · exact Fetch.leavesSealed_some (((code _ _ _).update (by decide) _).update (by decide) _) _ _
    split
    · exact fetchDelay_sealed (code _ _ _) 5 (p + 2) (by decide)
    · exact Fetch.leavesSealed_some (code _ _ _) _ _
  · exact Fetch.leavesSealed_some (start _ _) _ _

/-! ### Sending the buffer -/

variable (luts : Luts) (interval : UInt8)

theorem readNumber_sealed (sealed : Sealed data) {fuel string : Nat} (ms : UInt32) (inside : string ≤ 6)
    (enough : 6 - string < fuel) :
    ∃ ms' last reads, readNumber data fuel string ms = some (ms', last, reads) ∧ last ≤ 6 ∧ string ≤ last := by
  induction fuel generalizing string ms with
  | zero => exact absurd enough (Nat.not_lt_zero _)
  | succ fuel ih =>
    rw [readNumber]
    dsimp only
    by_cases digit : IsDigit (data string)
    · have before : string ≠ 6 := by
        rintro rfl
        obtain zero | mark := sealed.mark
        · exact absurd (zero ▸ digit) (by decide)
        · exact absurd (mark ▸ digit) (by decide)
      obtain ⟨ms', last, reads, run, low, high⟩ := ih (ms * 10 + (data string - 0x30).toUInt32) (by omega : string + 1 ≤ 6) (by omega)
      rw [if_pos digit, run]
      exact ⟨ms', last, _, rfl, low, Nat.le_of_succ_le high⟩
    · rw [if_neg digit]
      exact ⟨ms, string, _, rfl, inside, Nat.le_refl _⟩

theorem sendCode_sealed (sealed : Sealed data) {fuel string : Nat} (inside : string ≤ 6) (enough : 6 - string ≤ fuel) :
    ∃ next done, sendCode luts data fuel string = some (next, done) ∧ string < next ∧ next ≤ 7 := by
  rw [sendCode]
  by_cases first : data string = ssQmkPrefix
  · have low : string ≠ 6 := by
      rintro rfl
      exact sealed.mark_not (· = ssQmkPrefix) (by decide) (by decide) first
    have before (code : UInt8) (zero : 0 ≠ code) (mark : delayEnd ≠ code) (named : data (string + 1) = code) :
        string + 3 ≤ 7 := by
      have last : string + 1 ≠ 6 := fun last => sealed.mark_not (· = code) zero mark (last ▸ named)
      omega
    rw [if_pos first]
    dsimp only
    split
    · exact ⟨_, _, rfl, Nat.lt_add_of_pos_right (by decide), before ssTapCode (by decide) (by decide) ‹_›⟩
    split
    · exact ⟨_, _, rfl, Nat.lt_add_of_pos_right (by decide), before ssDownCode (by decide) (by decide) ‹_›⟩
    split
    · exact ⟨_, _, rfl, Nat.lt_add_of_pos_right (by decide), before ssUpCode (by decide) (by decide) ‹_›⟩
    split
    · have room := before ssDelayCode (by decide) (by decide) ‹_›
      obtain ⟨ms, last, reads, run, high, behind⟩ := readNumber_sealed sealed 0
        (by omega : string + 2 ≤ 6) (by omega : 6 - (string + 2) < fuel)
      rw [run]
      exact ⟨last + 1, _, rfl, by omega, Nat.succ_le_succ high⟩
    · exact ⟨_, _, rfl, Nat.lt_add_of_pos_right (by decide), by omega⟩
  · rw [if_neg first]
    exact ⟨_, _, rfl, Nat.lt_succ_self _, Nat.succ_le_succ inside⟩

/-- The buffer is sent to its end, whatever is in it. -/
theorem sendString_sealed (sealed : Sealed data) {fuel string : Nat} (inside : string ≤ 7) (enough : 7 - string < fuel) :
    ∃ events, sendStringWithDelay luts data interval fuel string = some events := by
  induction fuel generalizing string with
  | zero => exact absurd enough (Nat.not_lt_zero _)
  | succ fuel ih =>
    rw [sendStringWithDelay]
    split
    · exact ⟨_, rfl⟩
    · rename_i start
      have before : string ≠ 7 := fun last => start (last ▸ sealed.zero)
      obtain ⟨next, done, run, low, high⟩ := sendCode_sealed luts sealed (by omega : string ≤ 6)
        (by omega : 6 - string ≤ fuel)
      obtain ⟨events, rest⟩ := ih high (by omega)
      rw [run]
      simp only [Option.bind_eq_bind, Option.bind_some]
      rw [rest]
      exact ⟨_, rfl⟩

end Buffer

/-! ## The region -/

section Region

variable {eeprom : Nat → UInt8}

/-- The number of terminators in a stretch of the EEPROM. -/
def terminators (eeprom : Nat → UInt8) (p count : Nat) : Nat := (slice eeprom p count).count 0

theorem mem_skipMacros_reads {left id p a : Nat} (member : a ∈ (skipMacros eeprom left id p).2) :
    p ≤ a ∧ a < p + left := by
  induction left generalizing id p with
  | zero => cases id <;> exact absurd member List.not_mem_nil
  | succ left ih =>
    cases id with
    | zero => exact absurd member List.not_mem_nil
    | succ id =>
      rw [skipMacros] at member
      rcases List.mem_cons.mp member with rfl | later
      · omega
      · have bounds := ih later
        omega

theorem terminators_succ (p count : Nat) :
    terminators eeprom p (count + 1) = terminators eeprom (p + 1) count + if eeprom p = 0 then 1 else 0 := by
  rw [terminators, slice, List.count_cons, terminators]
  simp only [beq_iff_eq]

/-- The macro with the number `id` begins behind `id` terminators, if there are so many. -/
theorem skipMacros_spec (eeprom : Nat → UInt8) (left id p : Nat) :
    match (skipMacros eeprom left id p).1 with
    | none => terminators eeprom p left < id
    | some q => ∃ rest, p ≤ q ∧ p + left = q + rest ∧
        terminators eeprom p left = id + terminators eeprom q rest := by
  induction left generalizing id p with
  | zero =>
    cases id with
    | zero => exact ⟨0, Nat.le_refl _, rfl, (Nat.zero_add _).symm⟩
    | succ id => exact Nat.succ_pos id
  | succ left ih =>
    cases id with
    | zero => exact ⟨left + 1, Nat.le_refl _, rfl, (Nat.zero_add _).symm⟩
    | succ id =>
      have later := ih (if eeprom p = 0 then id else id + 1) (p + 1)
      rw [skipMacros, terminators_succ]
      dsimp only
      by_cases zero : eeprom p = 0
      · rw [if_pos zero] at later
        rw [if_pos zero, if_pos zero]
        split
        · rename_i none
          rw [none] at later
          exact Nat.succ_lt_succ later
        · rename_i q found
          rw [found] at later
          obtain ⟨rest, low, place, count⟩ := later
          exact ⟨rest, Nat.le_of_succ_le low, by omega, by rw [count]; omega⟩
      · rw [if_neg zero] at later
        rw [if_neg zero, if_neg zero]
        split
        · rename_i none
          rw [none] at later
          exact later
        · rename_i q found
          rw [found] at later
          obtain ⟨rest, low, place, count⟩ := later
          exact ⟨rest, Nat.le_of_succ_le low, by omega, count⟩

/-- Playback that begins in front of a terminator ends, and reads nothing behind it. -/
theorem playMacro_ends (luts : Luts) (macroDelay : UInt8) {last p fuel : Nat} {data : Nat → UInt8}
    (zero : eeprom last = 0) (start : p ≤ last) (sealed : Sealed data) (enough : last - p + 8 < fuel) :
    ∃ events, playMacro eeprom luts macroDelay fuel p data = some events ∧
      ∀ a, .eepromRead a ∈ events → p ≤ a ∧ a ≤ last := by
  induction fuel generalizing p data with
  | zero => exact absurd enough (Nat.not_lt_zero _)
  | succ fuel ih =>
    have within : (fetchCode eeprom p data).Within eeprom p := fetchCode_within p data
    have reads : ∀ a ∈ (fetchCode eeprom p data).reads, p ≤ a ∧ a ≤ last := by
      intro a member
      obtain ⟨low, filled⟩ := within.reads a member
      exact ⟨low, filled.le_of_zero start zero⟩
    have fetched : ∀ a, .eepromRead a ∈ (fetchCode eeprom p data).reads.map MacroEvent.eepromRead →
        p ≤ a ∧ a ≤ last := by
      intro a member
      obtain ⟨b, member, same⟩ := List.mem_map.mp member
      exact MacroEvent.eepromRead.inj same ▸ reads b member
    rw [playMacro]
    split
    · exact ⟨_, rfl, fetched⟩
    · rename_i q next found
      obtain ⟨behind, filled⟩ := within.next q next found
      have room := filled.le_of_zero start zero
      have kept : Sealed next := fetchCode_sealed sealed p _ found
      obtain ⟨events, sent⟩ := sendString_sealed luts macroDelay kept (Nat.zero_le 7)
        (by omega : 7 - 0 < fuel)
      obtain ⟨rest, played, inside⟩ := ih room kept (by omega)
      rw [sent]
      simp only [Option.bind_eq_bind, Option.bind_some]
      rw [played]
      refine ⟨_, rfl, fun a member => ?_⟩
      rcases List.mem_append.mp member with member | later
      · rcases List.mem_append.mp member with read | sent
        · exact fetched a read
        · obtain ⟨event, -, other⟩ := List.mem_map.mp sent
          exact nomatch other
      · have bounds := inside a later
        omega

/-- Playback reads the address where it begins. -/
theorem playMacro_reads {luts : Luts} {macroDelay : UInt8} {p fuel : Nat} {data : Nat → UInt8}
    {events : List MacroEvent} (run : playMacro eeprom luts macroDelay fuel p data = some events) :
    .eepromRead p ∈ events := by
  cases fuel with
  | zero => exact nomatch run
  | succ fuel =>
    have read : .eepromRead p ∈ (fetchCode eeprom p data).reads.map MacroEvent.eepromRead :=
      List.mem_map_of_mem (mem_fetchCode_reads p data)
    rw [playMacro] at run
    split at run
    · exact Option.some.inj run ▸ read
    · obtain ⟨sent, -, run⟩ := Option.bind_eq_some_iff.mp run
      obtain ⟨rest, -, joined⟩ := Option.bind_eq_some_iff.mp run
      rw [← Option.some.inj joined]
      exact List.mem_append_left _ (List.mem_append_left _ read)

end Region

/-! ## Inside the macro region -/

section MacroRegion

variable (layout : Layout) (eeprom : Nat → UInt8) (luts : Luts) (macroDelay : UInt8) (stack : Nat → UInt8) (id : UInt8)

/-- The playback ends, and reads the macro region only. -/
def StaysInRegion : Prop :=
  ∃ fuel events, dynamicKeymapMacroSend layout eeprom luts macroDelay stack fuel id = some events ∧
    ∀ a, .eepromRead a ∈ events → layout.macroAddr ≤ a ∧ a < layout.macroAddr + layout.macroSize

theorem terminators_pos {p count last : Nat} (zero : eeprom last = 0) (low : p ≤ last) (high : last < p + count) :
    0 < terminators eeprom p count := by
  refine List.count_pos_iff.mpr (List.mem_iff_getElem?.mpr ⟨last - p, ?_⟩)
  rw [getElem?_slice (by omega), Nat.add_sub_cancel' low, zero]

theorem sealed_start : Sealed (blit stack 0 (List.replicate 8 0)) := ⟨rfl, .inl rfl⟩

theorem macroEnd : layout.macroAddr + layout.macroSize = layout.maxAddr + 1 := by
  have room := layout.room
  rw [Geometry.macroSize]
  omega

theorem lastAddr : layout.macroAddr + layout.macroSize - 1 = layout.maxAddr := by
  rw [macroEnd, Nat.add_sub_cancel]

/-- What is done for a macro that exists, once the region has been written to its end. -/
theorem macroSend_sealed (fuel : Nat) (known : ¬ layout.macroCount ≤ id.toNat) (zero : eeprom layout.maxAddr = 0) :
    dynamicKeymapMacroSend layout eeprom luts macroDelay stack fuel id =
      match (skipMacros eeprom layout.macroSize id.toNat layout.macroAddr).1 with
      | none => some (.eepromRead layout.maxAddr ::
          (skipMacros eeprom layout.macroSize id.toNat layout.macroAddr).2.map .eepromRead)
      | some p => (playMacro eeprom luts macroDelay fuel p (blit stack 0 (List.replicate 8 0))).bind fun rest =>
          some (.eepromRead layout.maxAddr ::
            (skipMacros eeprom layout.macroSize id.toNat layout.macroAddr).2.map .eepromRead ++ rest) := by
  rw [dynamicKeymapMacroSend, if_neg known]
  dsimp only
  rw [lastAddr, if_neg (not_not.mpr zero)]
  rfl

/-- If the macros in front of the requested one fill the region, the byte behind it is read. -/
theorem not_staysInRegion (known : id.toNat < layout.macroCount) (zero : eeprom layout.maxAddr = 0)
    (count : terminators eeprom layout.macroAddr layout.macroSize = id.toNat) :
    ¬ StaysInRegion layout eeprom luts macroDelay stack id := by
  have ends := macroEnd layout
  have skipped := skipMacros_spec eeprom layout.macroSize id.toNat layout.macroAddr
  intro ⟨fuel, events, run, inside⟩
  rw [macroSend_sealed layout eeprom luts macroDelay stack id fuel (Nat.not_le.mpr known) zero] at run
  split at run
  · rename_i none
    rw [none, count] at skipped
    exact Nat.lt_irrefl _ skipped
  · rename_i q found
    rw [found] at skipped
    obtain ⟨rest, low, place, counted⟩ := skipped
    have empty : rest = 0 := by
      by_contra some
      have more := terminators_pos eeprom zero (by omega : q ≤ layout.maxAddr)
        (by omega : layout.maxAddr < q + rest)
      omega
    obtain ⟨later, play, joined⟩ := Option.bind_eq_some_iff.mp run
    have read : .eepromRead q ∈ events := by
      rw [← Option.some.inj joined]
      exact List.mem_append_right _ (playMacro_reads play)
    have bound := (inside q read).2
    omega

/-- The playback leaves the region exactly if the macros in front of the requested one fill it. -/
theorem staysInRegion_iff :
    StaysInRegion layout eeprom luts macroDelay stack id ↔
      layout.macroCount ≤ id.toNat ∨ eeprom layout.maxAddr ≠ 0 ∨
        terminators eeprom layout.macroAddr layout.macroSize ≠ id.toNat := by
  have ends := macroEnd layout
  have room := layout.room
  have skipped := skipMacros_spec eeprom layout.macroSize id.toNat layout.macroAddr
  have before (a : Nat) (member : .eepromRead a ∈ MacroEvent.eepromRead layout.maxAddr ::
      (skipMacros eeprom layout.macroSize id.toNat layout.macroAddr).2.map .eepromRead) :
      layout.macroAddr ≤ a ∧ a < layout.macroAddr + layout.macroSize := by
    rcases List.mem_cons.mp member with first | later
    · rw [MacroEvent.eepromRead.inj first]
      omega
    · obtain ⟨b, member, same⟩ := List.mem_map.mp later
      exact mem_skipMacros_reads (MacroEvent.eepromRead.inj same ▸ member)
  constructor
  · intro stays
    by_contra other
    simp only [not_or, not_not, Nat.not_le] at other
    exact not_staysInRegion layout eeprom luts macroDelay stack id other.1 other.2.1 other.2.2 stays
  intro condition
  by_cases known : layout.macroCount ≤ id.toNat
  · exact ⟨0, [], by rw [dynamicKeymapMacroSend, if_pos known], nofun⟩
  by_cases zero : eeprom layout.maxAddr ≠ 0
  · refine ⟨0, [.eepromRead layout.maxAddr], ?_, fun a member => before a ?_⟩
    · rw [dynamicKeymapMacroSend, if_neg known]
      dsimp only
      rw [lastAddr, if_pos zero]
    · exact List.mem_cons.mpr (.inl (List.mem_singleton.mp member))
  have other := (condition.resolve_left known).resolve_left zero
  rw [not_not] at zero
  cases found : (skipMacros eeprom layout.macroSize id.toNat layout.macroAddr).1 with
  | none =>
    refine ⟨0, .eepromRead layout.maxAddr :: (skipMacros eeprom layout.macroSize id.toNat
      layout.macroAddr).2.map .eepromRead, ?_, before⟩
    rw [macroSend_sealed layout eeprom luts macroDelay stack id 0 known zero, found]
  | some q =>
    rw [found] at skipped
    obtain ⟨rest, low, place, counted⟩ := skipped
    have filled : rest ≠ 0 := by
      rintro rfl
      exact other counted
    have start : q ≤ layout.maxAddr := by omega
    obtain ⟨events, run, inside⟩ := playMacro_ends luts macroDelay zero start (sealed_start stack)
      (Nat.lt_succ_self _)
    refine ⟨layout.maxAddr - q + 9, .eepromRead layout.maxAddr :: (skipMacros eeprom layout.macroSize id.toNat
      layout.macroAddr).2.map .eepromRead ++ events, ?_, ?_⟩
    · rw [macroSend_sealed layout eeprom luts macroDelay stack id _ known zero, found]
      dsimp only
      rw [run]
      rfl
    · intro a member
      rcases List.mem_append.mp member with front | later
      · exact before a front
      · have bounds := inside a later
        omega

end MacroRegion

/-- The layout of the keyboard. -/
def boardLayout : Layout where
  eepromAddr := 41
  layerCount := 8
  rows := 6
  cols := 17
  encoderMap := true
  numEncoders := 1
  macroCount := 16
  maxAddr := 2047
  room := show 1705 + 100 ≤ 2047 by decide
  addressable := show 2047 ≤ 2 ^ 16 - 1 by decide

/-- One macro that fills the whole region. -/
def longMacro (address : Nat) : UInt8 := if address = boardLayout.maxAddr then 0 else 0x61

theorem longMacro_leaves : ¬ StaysInRegion boardLayout longMacro plainLuts 0 (fun _ => 0) 1 :=
  not_staysInRegion boardLayout longMacro plainLuts 0 (fun _ => 0) 1 (by decide) rfl (by decide +kernel)

end QmkFirmware.DynamicKeymap
