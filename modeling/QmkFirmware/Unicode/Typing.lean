import QmkFirmware.Unicode.Model
import Mathlib.Data.Nat.Digits.Defs
import Mathlib.Data.Nat.Digits.Lemmas
import Mathlib.Tactic.Ring

/-! # Typing a code point

What `register_unicode` types is what starts the input, digits, and what finishes it.  The digits denote the code point,
and the modifiers are afterwards as they were before.
-/

namespace QmkFirmware.Unicode

/-! ## The digits -/

/-- The zero before the first digit, where one is needed. -/
def leadingZero (needsLeadingZero firstDigit : Bool) (digit : Nat) : List Nat :=
  if firstDigit && needsLeadingZero && 9 < digit then [0] else []

/-- The nibbles that `register_hex32` sends of the lowest ones. -/
def nibbles (hex : Nat) (needsLeadingZero : Bool) : Nat → Bool → List Nat
  | 0, _ => []
  | i + 1, firstDigit =>
    let digit := (hex >>> (i * 4)) &&& 0xF
    leadingZero needsLeadingZero firstDigit digit ++
      if digit ≠ 0 ∨ firstDigit = false ∨ i < 4 then digit :: nibbles hex needsLeadingZero i false
      else nibbles hex needsLeadingZero i firstDigit

/-- The number that the digits denote. -/
def value (digits : List Nat) : Nat := Nat.ofDigits 16 digits.reverse

theorem value_cons (digit : Nat) (digits : List Nat) :
    value (digit :: digits) = 16 ^ digits.length * digit + value digits := by
  rw [value, List.reverse_cons, Nat.ofDigits_append, List.length_reverse, Nat.ofDigits_singleton, value]
  ring

@[simp] theorem value_zero_cons (digits : List Nat) : value (0 :: digits) = value digits := by
  simp [value_cons]

@[simp] theorem value_leadingZero (zero first : Bool) (digit : Nat) (digits : List Nat) :
    value (leadingZero zero first digit ++ digits) = value digits := by
  unfold leadingZero
  split <;> simp

theorem nibble_eq (hex i : Nat) : (hex >>> (i * 4)) &&& 0xF = hex / 16 ^ i % 16 := by
  rw [show 0xF = 2 ^ 4 - 1 from rfl, Nat.and_two_pow_sub_one_eq_mod, Nat.shiftRight_eq_div_pow, Nat.mul_comm, pow_mul]
  rfl

section Nibbles

variable (hex : Nat) (zero : Bool)

theorem nibbles_length (i : Nat) : (nibbles hex zero i false).length = i := by
  induction i with
  | zero => rfl
  | succ i ih => simp [nibbles, leadingZero, ih]

theorem nibbles_value (i : Nat) (first : Bool) : value (nibbles hex zero i first) = hex % 16 ^ i := by
  induction i generalizing first with
  | zero => simp [nibbles, value, Nat.mod_one]
  | succ i ih =>
    have split : hex % 16 ^ (i + 1) = 16 ^ i * (hex / 16 ^ i % 16) + hex % 16 ^ i := by
      rw [pow_succ, Nat.mod_mul, Nat.add_comm]
    rw [nibbles, nibble_eq]
    rw [value_leadingZero, split]
    split
    next => rw [value_cons, nibbles_length, ih]
    next skipped =>
      have none : hex / 16 ^ i % 16 = 0 := by
        by_contra some
        exact skipped (.inl some)
      rw [ih, none, Nat.mul_zero, Nat.zero_add]

theorem nibbles_lt (i : Nat) (first : Bool) : ∀ digit ∈ nibbles hex zero i first, digit < 16 := by
  induction i generalizing first with
  | zero => nofun
  | succ i ih =>
    intro digit sent
    rw [nibbles, nibble_eq] at sent
    obtain leading | rest := List.mem_append.mp sent
    · unfold leadingZero at leading
      split at leading
      · rw [List.mem_singleton.mp leading]
        decide
      · cases leading
    · split at rest
      · obtain rfl | rest := List.mem_cons.mp rest
        · exact Nat.mod_lt _ (by decide)
        · exact ih false digit rest
      · exact ih first digit rest

/-- A number of four nibbles is sent with four digits, where no zero is needed before it. -/
theorem nibbles_length_four (small : hex < 16 ^ 4) : (nibbles hex false 8 true).length = 4 := by
  have none : ∀ i, 4 ≤ i → hex / 16 ^ i % 16 = 0 := by
    intro i above
    rw [Nat.div_eq_of_lt (small.trans_le (Nat.pow_le_pow_right (by decide) above))]
  have skips : ∀ i, 4 ≤ i → nibbles hex false (i + 1) true = nibbles hex false i true := by
    intro i above
    simp [nibbles, leadingZero, nibble_eq, none i above, Nat.not_lt.mpr above]
  rw [skips 7 (by decide), skips 6 (by decide), skips 5 (by decide), skips 4 (by decide)]
  simp [nibbles, leadingZero]

end Nibbles

/-- The key of a digit. -/
def digitKey (inputMode : UInt8) (digit : Nat) : Output :=
  if inputMode = unicodeModeWindows then
    .tap (if digit < 10 then kcKp1 + .ofNat 8 ((10 + digit - 1) % 10) else kcA + .ofNat 8 (digit - 10))
  else
    let number := digit &&& 0xF
    .char (.ofNat (if number ≤ 9 then number + 0x30 else number - 10 + 0x61))

/-! ## What is typed -/

/-- The outputs are added, and nothing of the Unicode input but the modifiers has changed. -/
structure Emits (s t : State) (outputs : List Output) : Prop where
  inputMode : t.inputMode = s.inputMode
  savedMods : t.savedMods = s.savedMods
  savedLedState : t.savedLedState = s.savedLedState
  reads : t.reads = s.reads
  outputs : t.outputs = s.outputs ++ outputs

namespace Emits

theorem refl (s : State) : Emits s s [] := ⟨rfl, rfl, rfl, rfl, (List.append_nil _).symm⟩

theorem trans {s t u : State} {first second : List Output} (typed : Emits s t first) (then_ : Emits t u second) :
    Emits s u (first ++ second) :=
  ⟨then_.inputMode.trans typed.inputMode, then_.savedMods.trans typed.savedMods,
    then_.savedLedState.trans typed.savedLedState, then_.reads.trans typed.reads, by
      rw [then_.outputs, typed.outputs, List.append_assoc]⟩

end Emits

namespace State

variable (s : State)

theorem emits_emit (output : Output) : Emits s (s.emit output) [output] := ⟨rfl, rfl, rfl, rfl, rfl⟩

theorem emits_press (code : BitVec 8) : Emits s (s.press code) [] := by
  unfold press
  split
  · exact ⟨rfl, rfl, rfl, rfl, (List.append_nil _).symm⟩
  · exact .refl s

theorem emits_release (code : BitVec 8) : Emits s (s.release code) [] := by
  unfold release
  split
  · exact ⟨rfl, rfl, rfl, rfl, (List.append_nil _).symm⟩
  · exact .refl s

theorem emits_registerCode (code : BitVec 8) : Emits s (s.registerCode code) [.register code] :=
  (s.emits_emit _).trans (emits_press _ code)

theorem emits_unregisterCode (code : BitVec 8) : Emits s (s.unregisterCode code) [.unregister code] :=
  (s.emits_emit _).trans (emits_release _ code)

theorem emits_tapCode (code : BitVec 8) : Emits s (s.tapCode code) [.tap code] :=
  ((s.emits_emit _).trans (emits_press _ code)).trans (emits_release _ code)

theorem emits_tapCode16 (code : BitVec 16) : Emits s (s.tapCode16 code) [.tap16 code] := by
  have held := fun t : State => (t.emits_press (code.setWidth 8)).trans (emits_release _ (code.setWidth 8))
  unfold tapCode16
  dsimp only
  generalize ((0xE0 ≤ code && code ≤ 0xE7) || code == 0 : Bool) = strong
  cases strong with
  | false =>
    have begun : Emits s { s.emit (.tap16 code) with weakMods := (s.emit (.tap16 code)).weakMods ||| extractModBits code }
        [.tap16 code] := ⟨rfl, rfl, rfl, rfl, rfl⟩
    have ended := begun.trans (held _)
    exact ⟨ended.inputMode, ended.savedMods, ended.savedLedState, ended.reads, ended.outputs⟩
  | true =>
    have begun : Emits s { s.emit (.tap16 code) with mods := (s.emit (.tap16 code)).mods ||| extractModBits code }
        [.tap16 code] := ⟨rfl, rfl, rfl, rfl, rfl⟩
    have ended := begun.trans (held _)
    exact ⟨ended.inputMode, ended.savedMods, ended.savedLedState, ended.reads, ended.outputs⟩

theorem emits_sendNibbleWrapper (digit : Nat) :
    Emits s (s.sendNibbleWrapper digit) [digitKey s.inputMode digit] := by
  unfold sendNibbleWrapper digitKey
  split
  · exact s.emits_tapCode _
  · exact s.emits_emit _

/-- A key that is no modifier leaves the modifiers. -/
theorem tapCode_mods {code : BitVec 8} (plain : isModifierKeycode code = false) : (s.tapCode code).mods = s.mods := by
  simp [tapCode, press, release, plain, emit]

end State

theorem emits_registerNibbles (hex i : Nat) (first : Bool) (s : State) :
    Emits s (registerNibbles hex i first s)
      ((nibbles hex (s.inputMode == unicodeModeWincompose) i first).map (digitKey s.inputMode)) := by
  induction i generalizing first s with
  | zero => exact .refl s
  | succ i ih =>
    rw [registerNibbles, nibbles]
    generalize hex >>> (i * 4) &&& 0xF = digit
    have leading : Emits s
        (if first && s.inputMode == unicodeModeWincompose && 9 < digit then s.sendNibbleWrapper 0 else s)
        ((leadingZero (s.inputMode == unicodeModeWincompose) first digit).map (digitKey s.inputMode)) := by
      unfold leadingZero
      split
      · exact s.emits_sendNibbleWrapper 0
      · exact .refl s
    generalize (if first && s.inputMode == unicodeModeWincompose && 9 < digit then s.sendNibbleWrapper 0 else s) = t
      at leading
    rw [List.map_append]
    refine leading.trans ?_
    rw [← leading.inputMode]
    split
    · have digits := (t.emits_sendNibbleWrapper digit).trans (ih false (t.sendNibbleWrapper digit))
      rw [(t.emits_sendNibbleWrapper digit).inputMode] at digits
      exact digits
    · exact ih first t

theorem emits_registerHex32 (hex : Nat) (s : State) :
    Emits s (registerHex32 hex s)
      ((nibbles hex (s.inputMode == unicodeModeWincompose) 8 true).map (digitKey s.inputMode)) :=
  emits_registerNibbles hex 8 true s

section Input

variable (env : Env)

/-- What starts the input. -/
def opening (inputMode : UInt8) (led : Led) : List Output :=
  (if inputMode = unicodeModeLinux ∧ led.capsLock then [.tap kcCapsLock] else []) ++
    (if inputMode = unicodeModeMacos then [.register env.unicodeKeyMac]
    else if inputMode = unicodeModeLinux then [.tap16 env.unicodeKeyLnx]
    else if inputMode = unicodeModeWindows then
      (if !led.numLock then [.tap kcNumLock] else []) ++
        [.register kcLeftAlt, .wait unicodeTypeDelay, .tap kcKpPlus]
    else if inputMode = unicodeModeWincompose then [.tap env.unicodeKeyWinc, .tap kcU]
    else if inputMode = unicodeModeEmacs then [.tap16 (lctl kcX), .tap16 kc8, .tap16 (kcEnter.setWidth 16)]
    else []) ++
      [.wait unicodeTypeDelay]

/-- What finishes it. -/
def closing (inputMode : UInt8) (led : Led) : List Output :=
  if inputMode = unicodeModeMacos then [.unregister env.unicodeKeyMac]
  else if inputMode = unicodeModeLinux then .tap kcSpace :: if led.capsLock then [.tap kcCapsLock] else []
  else if inputMode = unicodeModeWindows then
    .unregister kcLeftAlt :: if !led.numLock then [.tap kcNumLock] else []
  else if inputMode = unicodeModeWincompose then [.tap kcEnter]
  else if inputMode = unicodeModeEmacs then [.tap16 (kcEnter.setWidth 16)]
  else []

/-- The tap of a key on a condition. -/
theorem emits_tapIf (condition : Prop) [Decidable condition] (code : BitVec 8) (s : State) :
    Emits s (if condition then s.tapCode code else s) (if condition then [.tap code] else []) := by
  split
  · exact s.emits_tapCode code
  · exact .refl s

/-- The start saves the LEDs and the modifiers, before it types anything but Caps Lock. -/
theorem unicodeInputStart_spec (s : State) :
    Emits { s with savedLedState := env.hostKeyboardLedState s.outputs, savedMods := s.mods } (unicodeInputStart env s)
      (opening env s.inputMode (env.hostKeyboardLedState s.outputs)) := by
  unfold unicodeInputStart opening
  dsimp only
  generalize env.hostKeyboardLedState s.outputs = led
  have caps := emits_tapIf (s.inputMode = unicodeModeLinux ∧ led.capsLock) kcCapsLock { s with savedLedState := led }
  have kept : (if s.inputMode = unicodeModeLinux ∧ led.capsLock then
      ({ s with savedLedState := led } : State).tapCode kcCapsLock else { s with savedLedState := led }).mods = s.mods := by
    split
    · exact State.tapCode_mods _ (by decide)
    · rfl
  generalize (if s.inputMode = unicodeModeLinux ∧ led.capsLock then
      ({ s with savedLedState := led } : State).tapCode kcCapsLock else { s with savedLedState := led }) = t at caps kept
  have begun : Emits { s with savedLedState := led, savedMods := s.mods }
      { t with savedMods := t.mods, mods := 0, weakMods := 0 }
      (if s.inputMode = unicodeModeLinux ∧ led.capsLock then [.tap kcCapsLock] else []) :=
    ⟨caps.inputMode, kept, caps.savedLedState, caps.reads, caps.outputs⟩
  have mode : t.inputMode = s.inputMode := caps.inputMode
  have saved : t.savedLedState = led := caps.savedLedState
  refine (begun.trans ?_).trans (State.emits_emit _ _)
  simp only [mode, saved]
  split
  · exact State.emits_registerCode _ _
  split
  · exact State.emits_tapCode16 _ _
  split
  · have digits := fun u => (((emits_tapIf (!led.numLock) kcNumLock u).trans (State.emits_registerCode _ kcLeftAlt)).trans
      (State.emits_emit _ (.wait unicodeTypeDelay))).trans (State.emits_tapCode _ kcKpPlus)
    simp only [List.append_assoc] at digits
    exact digits _
  split
  · exact (State.emits_tapCode _ _).trans (State.emits_tapCode _ _)
  split
  · exact ((State.emits_tapCode16 _ _).trans (State.emits_tapCode16 _ _)).trans (State.emits_tapCode16 _ _)
  · exact .refl _

/-- The finish restores the modifiers that have been saved. -/
theorem unicodeInputFinish_spec (s : State) :
    Emits s (unicodeInputFinish env s) (closing env s.inputMode s.savedLedState) ∧
      (unicodeInputFinish env s).mods = s.savedMods := by
  unfold unicodeInputFinish closing
  dsimp only
  generalize finished : (if s.inputMode = unicodeModeMacos then _ else _ : State) = t
  have typed : Emits s t (closing env s.inputMode s.savedLedState) := by
    rw [← finished]
    unfold closing
    split
    · exact s.emits_unregisterCode _
    split
    · have typed := (s.emits_tapCode kcSpace).trans
        (emits_tapIf ((s.tapCode kcSpace).savedLedState.capsLock) kcCapsLock (s.tapCode kcSpace))
      rwa [(s.emits_tapCode kcSpace).savedLedState] at typed
    split
    · have typed := (s.emits_unregisterCode kcLeftAlt).trans
        (emits_tapIf (!(s.unregisterCode kcLeftAlt).savedLedState.numLock) kcNumLock (s.unregisterCode kcLeftAlt))
      rwa [(s.emits_unregisterCode kcLeftAlt).savedLedState] at typed
    split
    · exact s.emits_tapCode _
    split
    · exact s.emits_tapCode16 _
    · exact .refl s
  exact ⟨⟨typed.inputMode, typed.savedMods, typed.savedLedState, typed.reads, typed.outputs⟩, typed.savedMods⟩

/-- The two are the UTF-16 surrogates of the code point. -/
def Surrogates (codePoint hi lo : Nat) : Prop :=
  (0xD800 ≤ hi ∧ hi ≤ 0xDBFF) ∧ (0xDC00 ≤ lo ∧ lo ≤ 0xDFFF) ∧
    codePoint = 0x10000 + (hi - 0xD800) * 0x400 + (lo - 0xDC00)

/-- The digits denote the code point: on macOS they are its surrogates, of four digits each, if it is above `0xFFFF`. -/
def Denotes (inputMode : UInt8) (codePoint : Nat) (digits : List Nat) : Prop :=
  (∀ digit ∈ digits, digit < 16) ∧
    if 0xFFFF < codePoint ∧ inputMode = unicodeModeMacos then
      ∃ hi lo, digits = hi ++ lo ∧ hi.length = 4 ∧ lo.length = 4 ∧ Surrogates codePoint (value hi) (value lo)
    else value digits = codePoint

/-- The outputs type the code point, on Windows nothing if it is above `0xFFFF`. -/
def Types (inputMode : UInt8) (codePoint : Nat) (outputs : List Output) : Prop :=
  if 0xFFFF < codePoint ∧ inputMode = unicodeModeWindows then outputs = []
  else ∃ led digits, Denotes inputMode codePoint digits ∧
    outputs = opening env inputMode led ++ digits.map (digitKey inputMode) ++ closing env inputMode led

theorem surrogates_split {codePoint : Nat} (above : 0xFFFF < codePoint) (bound : codePoint ≤ 0x10FFFF) :
    Surrogates codePoint (((codePoint - 0x10000) &&& 0xFFC00) >>> 10 + 0xD800)
      (((codePoint - 0x10000) &&& 0x3FF) + 0xDC00) := by
  have lo : (codePoint - 0x10000) &&& 0x3FF = (codePoint - 0x10000) % 1024 := Nat.and_two_pow_sub_one_eq_mod _ 10
  have hi : ((codePoint - 0x10000) &&& 0xFFC00) >>> 10 = (codePoint - 0x10000) / 1024 := by
    rw [Nat.shiftRight_and_distrib, Nat.shiftRight_eq_div_pow]
    exact (Nat.and_two_pow_sub_one_eq_mod _ 10).trans (Nat.mod_eq_of_lt (by omega))
  rw [lo, hi]
  unfold Surrogates
  omega

/-- The digits of a code point. -/
theorem digits_spec {codePoint : Nat} (bound : codePoint ≤ 0x10FFFF) (s : State) :
    ∃ digits, Denotes s.inputMode codePoint digits ∧
      Emits s
        (if 0xFFFF < codePoint ∧ s.inputMode = unicodeModeMacos then
          registerHex32 (((codePoint - 0x10000) &&& 0x3FF) + 0xDC00)
            (registerHex32 ((((codePoint - 0x10000) &&& 0xFFC00) >>> 10) + 0xD800) s)
        else registerHex32 codePoint s)
        (digits.map (digitKey s.inputMode)) := by
  split
  next above =>
    have pair := surrogates_split above.1 bound
    generalize (((codePoint - 0x10000) &&& 0xFFC00) >>> 10) + 0xD800 = hi at pair
    generalize ((codePoint - 0x10000) &&& 0x3FF) + 0xDC00 = lo at pair
    have first := emits_registerHex32 hi s
    have second := emits_registerHex32 lo (registerHex32 hi s)
    have none : (s.inputMode == unicodeModeWincompose) = false := by
      rw [above.2]
      decide
    rw [first.inputMode, none] at second
    rw [none] at first
    have small : hi < 16 ^ 4 ∧ lo < 16 ^ 4 := by
      unfold Surrogates at pair
      omega
    have values : ∀ n, n < 16 ^ 4 → value (nibbles n false 8 true) = n := by
      intro n fits
      rw [nibbles_value]
      exact Nat.mod_eq_of_lt (fits.trans (by decide))
    refine ⟨nibbles hi false 8 true ++ nibbles lo false 8 true, ⟨?_, ?_⟩, ?_⟩
    · intro digit sent
      obtain sent | sent := List.mem_append.mp sent
      · exact nibbles_lt _ _ _ _ digit sent
      · exact nibbles_lt _ _ _ _ digit sent
    · rw [if_pos above]
      refine ⟨_, _, rfl, nibbles_length_four hi small.1, nibbles_length_four lo small.2, ?_⟩
      rw [values hi small.1, values lo small.2]
      exact pair
    · rw [List.map_append]
      exact first.trans second
  next plain =>
    refine ⟨_, ⟨nibbles_lt _ _ _ _, ?_⟩, emits_registerHex32 codePoint s⟩
    rw [if_neg plain, nibbles_value]
    exact Nat.mod_eq_of_lt (by omega)

/-- A code point is typed, and the modifiers are as before. -/
theorem registerUnicode_spec {codePoint : Nat} (bound : codePoint ≤ 0x10FFFF) (s : State) :
    ∃ outputs, Types env s.inputMode codePoint outputs ∧
      (registerUnicode env codePoint s).outputs = s.outputs ++ outputs ∧
      (registerUnicode env codePoint s).inputMode = s.inputMode ∧ (registerUnicode env codePoint s).mods = s.mods ∧
      (registerUnicode env codePoint s).reads = s.reads := by
  unfold registerUnicode
  by_cases windows : 0xFFFF < codePoint ∧ s.inputMode = unicodeModeWindows
  · rw [if_pos (.inr windows)]
    exact ⟨[], by rw [Types, if_pos windows], (List.append_nil _).symm, rfl, rfl, rfl⟩
  · rw [if_neg (not_or.mpr ⟨Nat.not_lt.mpr bound, windows⟩)]
    have started := unicodeInputStart_spec env s
    generalize unicodeInputStart env s = t at started
    obtain ⟨digits, denotes, typed⟩ := digits_spec bound t
    dsimp only
    generalize (if 0xFFFF < codePoint ∧ t.inputMode = unicodeModeMacos then _ else _ : State) = u at typed
    obtain ⟨finished, mods⟩ := unicodeInputFinish_spec env u
    have mode : t.inputMode = s.inputMode := started.inputMode
    have all := (started.trans typed).trans finished
    have saved : u.savedMods = s.mods := typed.savedMods.trans started.savedMods
    have led : u.savedLedState = env.hostKeyboardLedState s.outputs := typed.savedLedState.trans started.savedLedState
    rw [typed.inputMode, mode, led] at all
    refine ⟨_, ?_, all.outputs, all.inputMode, mods.trans saved, all.reads⟩
    rw [Types, if_neg windows]
    exact ⟨_, digits, mode ▸ denotes, rfl⟩

end Input

end QmkFirmware.Unicode
