import QmkFirmware.DynamicKeymap.MacroSend

/-! # Playback and `send_string`

A macro is played code by code from a buffer that is only partly written for each code.  What the
codes before an unknown code leave in the buffer is sent behind it; `Quiet` says when that does
nothing.
-/

namespace QmkFirmware.DynamicKeymap

open QmkFirmware.Memory QmkFirmware.SendString

/-- What the playback does to keys and for how long it waits. -/
def macroActions (events : List MacroEvent) : List SendEvent :=
  actions (events.filterMap fun
    | .sent event => some event
    | .eepromRead _ => none)

/-- A code that the playback takes from the EEPROM: the number of a delay has at most four digits. -/
def Storable : Code → Prop
  | .delay digits last _ _ => digits.length ≤ 4 ∧ last = delayEnd
  | _ => True

/-! ## What the buffer keeps -/

/-- The buffer behind its first two bytes: the byte that the last code left there, and whether the
last number of a delay reached the fifth byte. -/
structure Tail where
  second : UInt8
  long : Bool

def Tail.empty : Tail := ⟨0, false⟩

def Tail.after (tail : Tail) : Code → Tail
  | .char _ _ => tail
  | .key _ keycode => ⟨keycode, tail.long⟩
  | .delay [] _ _ _ => ⟨delayEnd, tail.long⟩
  | .delay [digit] _ _ _ => ⟨digit, false⟩
  | .delay (digit :: _ :: _) _ _ _ => ⟨digit, true⟩
  | .unknown _ _ => tail

/-- Sending what is kept does nothing: there is nothing, or it looks like an unknown code that is
followed by nothing and by no wait. -/
def Tail.Silent (tail : Tail) (interval : UInt8) : Prop :=
  tail.second = 0 ∨ interval = 0 ∧ tail.second = ssQmkPrefix ∧ tail.long = false

def isUnknown : Code → Bool
  | .unknown _ _ => true
  | _ => false

/-- Nothing is heard behind any unknown code. -/
def Quiet (interval : UInt8) : Tail → List Code → Prop
  | _, [] => True
  | tail, code :: codes => (isUnknown code → tail.Silent interval) ∧ Quiet interval (tail.after code) codes

structure Tail.Of (tail : Tail) (data : Nat → UInt8) : Prop where
  second : data 2 = tail.second
  third : tail.second = ssQmkPrefix → data 3 = 0
  short : tail.long = false → data 4 = 0
  long : tail.long = true → data 4 ≠ 0 ∧ data 4 ≠ ssQmkPrefix

section Buffer

variable {luts : Luts} {interval : UInt8} {data : Nat → UInt8} {tail : Tail}

theorem sendChar_actions (asciiCode : UInt8) : actions (sendChar luts asciiCode) ≠ [] := by
  intro silent
  have tapped : .tapCode (luts.asciiToKeycode asciiCode.toNat) ∈ actions (sendChar luts asciiCode) := by
    simp [actions, sendChar, SendEvent.isAction]
  rw [silent] at tapped
  exact absurd tapped List.not_mem_nil

/-- A character is heard, whatever comes behind it. -/
theorem sendString_heard {fuel string : Nat} {events : List SendEvent} (start : data string ≠ 0)
    (plain : data string ≠ ssQmkPrefix) (run : sendStringWithDelay luts data interval fuel string = some events) :
    actions events ≠ [] := by
  cases fuel with
  | zero => exact nomatch run
  | succ fuel =>
    obtain ⟨next, done, rest, sent, -, rfl⟩ := sendString_step luts interval start run
    rw [sendCode, if_neg plain] at sent
    obtain rfl : sendChar luts (data string) = done := (Prod.ext_iff.mp (Option.some.inj sent)).2
    intro silent
    rw [actions_append, actions_append] at silent
    exact sendChar_actions _ (List.append_eq_nil_iff.mp (List.append_eq_nil_iff.mp silent).1).1

theorem sendString_stop {fuel string : Nat} {events : List SendEvent} (zero : data string = 0)
    (run : sendStringWithDelay luts data interval fuel string = some events) : actions events = [] := by
  cases fuel with
  | zero => exact nomatch run
  | succ fuel =>
    rw [sendStringWithDelay, if_pos zero] at run
    rw [← Option.some.inj run]
    rfl

theorem actions_delay {ms : Nat} : actions (delay ms) = [] ↔ ms = 0 := by
  constructor
  · intro silent
    cases ms with
    | zero => rfl
    | succ ms => exact absurd silent (by simp [delay, List.replicate_succ, actions, SendEvent.isAction])
  · rintro rfl
    rfl

/-- What is kept in the buffer does nothing exactly if it is silent. -/
theorem tail_silent_iff (of : tail.Of data) {fuel : Nat} {events : List SendEvent}
    (run : sendStringWithDelay luts data interval fuel 2 = some events) :
    actions events = [] ↔ tail.Silent interval := by
  by_cases none : tail.second = 0
  · exact iff_of_true (sendString_stop (of.second.trans none) run) (.inl none)
  have start : data 2 ≠ 0 := of.second ▸ none
  by_cases named : tail.second = ssQmkPrefix
  · have first : data 2 = ssQmkPrefix := of.second.trans named
    have second : data 3 = 0 := of.third named
    cases fuel with
    | zero => simp [sendStringWithDelay] at run
    | succ fuel =>
      obtain ⟨next, done, rest, sent, later, rfl⟩ := sendString_step luts interval start run
      rw [sendCode, if_pos first, second] at sent
      obtain ⟨rfl, rfl⟩ : 4 = next ∧ [.read 3] = done := Prod.mk.inj (Option.some.inj sent)
      have split : actions (.read 2 :: [.read 3] ++ delay interval.toNat ++ .sendStringTask :: rest) =
          actions (delay interval.toNat) ++ actions rest := by
        rw [actions_append, actions_append]
        rfl
      rw [split, List.append_eq_nil_iff, actions_delay]
      have waits : interval.toNat = 0 ↔ interval = 0 := UInt8.toNat_inj (b := 0)
      rw [waits, Tail.Silent, or_iff_right none]
      refine and_congr_right fun _ => ?_
      cases long : tail.long with
      | false => exact iff_of_true (sendString_stop (of.short long) later) ⟨named, rfl⟩
      | true =>
        obtain ⟨filled, plain⟩ := of.long long
        exact iff_of_false (sendString_heard filled plain later) fun silent => by simp at silent
  · have plain : data 2 ≠ ssQmkPrefix := of.second ▸ named
    refine iff_of_false (sendString_heard start plain run) ?_
    exact fun silent => silent.elim none fun silent => named silent.2.1

/-! ### A code in the buffer -/

/-- What is written into the buffer for a code.  An unknown code gets no terminator. -/
def written (code : Code) : List UInt8 :=
  match code with
  | .unknown _ _ => code.bytes
  | _ => code.bytes ++ [0]

variable {eeprom : Nat → UInt8}

theorem isDigit_plain {byte : UInt8} (digit : IsDigit byte) : byte ≠ 0 ∧ byte ≠ delayEnd ∧ byte ≠ ssQmkPrefix := by
  refine ⟨?_, ?_, ?_⟩
  all_goals
    rintro rfl
    exact absurd digit (by decide)

theorem fetchDelay_digits {digits : List UInt8} {fuel i p : Nat} (data : Nat → UInt8)
    (front : slice eeprom p (digits.length + 1) = digits ++ [delayEnd]) (numeric : ∀ digit ∈ digits, IsDigit digit)
    (room : i + digits.length ≤ 6) (enough : digits.length < fuel) :
    (fetchDelay eeprom fuel i p data).next =
      some (p + digits.length + 1, blit data i (digits ++ [delayEnd, 0])) := by
  induction digits generalizing fuel i p data with
  | nil =>
    obtain ⟨fuel, rfl⟩ : ∃ n, fuel = n + 1 := ⟨fuel - 1, by omega⟩
    have here : eeprom p = delayEnd := List.head_eq_of_cons_eq front
    rw [fetchDelay]
    dsimp only
    rw [here, if_neg (by decide), if_pos rfl, update_eq_blit _ (i + 1), blit_update]
    rfl
  | cons digit digits ih =>
    obtain ⟨fuel, rfl⟩ : ∃ n, fuel = n + 1 := ⟨fuel - 1, by omega⟩
    rw [List.length_cons] at front room enough
    obtain ⟨here, rest⟩ := List.cons.inj front
    obtain ⟨first, numeric⟩ := List.forall_mem_cons.mp numeric
    obtain ⟨filled, more, -⟩ := isDigit_plain first
    have later := ih (Function.update data i digit) rest numeric (by omega : i + 1 + digits.length ≤ 6)
      (by omega : digits.length < fuel)
    rw [fetchDelay]
    dsimp only
    rw [here, if_neg filled, if_neg more, if_neg (by omega), later, blit_update, List.length_cons]
    exact congrArg some (Prod.ext (by dsimp only; omega) rfl)

theorem fetchCode_code (code : Code) (p : Nat) (data : Nat → UInt8)
    (front : slice eeprom p code.bytes.length = code.bytes) (filled : ∀ byte ∈ code.bytes, byte ≠ 0)
    (storable : Storable code) :
    (fetchCode eeprom p data).next = some (p + code.bytes.length, blit data 0 (written code)) := by
  cases code with
  | char asciiCode plain =>
    have here : eeprom p = asciiCode := List.head_eq_of_cons_eq front
    have start : asciiCode ≠ 0 := filled _ (List.mem_singleton_self _)
    rw [fetchCode]
    dsimp only
    rw [here, if_neg start, if_neg plain, update_eq_blit _ 1, blit_update data 0]
    rfl
  | key kind keycode =>
    obtain ⟨first, rest⟩ := List.cons.inj front
    obtain ⟨second, rest⟩ := List.cons.inj rest
    have third : eeprom (p + 2) = keycode := List.head_eq_of_cons_eq rest
    have key : keycode ≠ 0 := filled keycode (by simp [Code.bytes])
    rw [fetchCode]
    dsimp only
    rw [first, if_neg (by decide), if_pos rfl, second, third, if_neg (by cases kind <;> decide),
      if_pos (by cases kind <;> decide), if_neg key, Function.update_idem, update_eq_blit _ 3, blit_update _ 2,
      blit_update _ 1, blit_update data 0]
    rfl
  | delay digits last numeric ends =>
    obtain ⟨short, rfl⟩ := storable
    rw [Code.length_delay] at front
    obtain ⟨first, rest⟩ := List.cons.inj front
    obtain ⟨second, rest⟩ := List.cons.inj rest
    rw [fetchCode]
    dsimp only
    rw [first, if_neg (by decide), if_pos rfl, second, if_neg (by decide), if_neg (by decide), if_pos rfl,
      Function.update_idem, fetchDelay_digits _ rest numeric (by omega) (by omega), blit_update _ 1, blit_update data 0,
      Code.length_delay]
    have text : written (.delay digits delayEnd numeric ends) =
        ssQmkPrefix :: ssDelayCode :: (digits ++ [delayEnd, 0]) := by
      simp [written, Code.bytes]
    rw [text]
    exact congrArg some (Prod.ext (by dsimp only; omega) rfl)
  | unknown code unused =>
    obtain ⟨first, rest⟩ := List.cons.inj front
    have second : eeprom (p + 1) = code := List.head_eq_of_cons_eq rest
    have start : code ≠ 0 := filled code (by simp [Code.bytes])
    simp only [List.mem_cons, List.not_mem_nil, or_false, not_or] at unused
    obtain ⟨tap, down, up, delay⟩ := unused
    rw [fetchCode]
    dsimp only
    rw [first, if_neg (by decide), if_pos rfl, second, if_neg start, if_neg (by simp [tap, down, up]), if_neg delay,
      Function.update_idem, update_eq_blit _ 1, blit_update data 0]
    rfl

theorem Tail.Of.start (stack : Nat → UInt8) : Tail.empty.Of (blit stack 0 (List.replicate 8 0)) :=
  ⟨rfl, nofun, fun _ => rfl, nofun⟩

theorem Tail.Of.written (of : tail.Of data) (code : Code) (storable : Storable code) :
    (tail.after code).Of (blit data 0 (written code)) := by
  cases code with
  | char asciiCode plain => exact ⟨of.second, of.third, of.short, of.long⟩
  | key kind keycode => exact ⟨rfl, fun _ => rfl, of.short, of.long⟩
  | delay digits last numeric ends =>
    obtain ⟨short, rfl⟩ := storable
    match digits with
    | [] => exact ⟨rfl, nofun, of.short, of.long⟩
    | [digit] =>
      obtain ⟨-, -, plain⟩ := isDigit_plain (numeric digit (List.mem_singleton_self _))
      exact ⟨rfl, fun named => absurd named plain, fun _ => rfl, nofun⟩
    | [digit, second] =>
      obtain ⟨-, -, plain⟩ := isDigit_plain (numeric digit List.mem_cons_self)
      exact ⟨rfl, fun named => absurd named plain, nofun,
        fun _ => (by decide : delayEnd ≠ 0 ∧ delayEnd ≠ ssQmkPrefix)⟩
    | digit :: second :: third :: digits =>
      obtain ⟨-, -, plain⟩ := isDigit_plain (numeric digit List.mem_cons_self)
      obtain ⟨filled, -, other⟩ := isDigit_plain (numeric third (by simp))
      exact ⟨rfl, fun named => absurd named plain, nofun, fun _ => ⟨filled, other⟩⟩
  | unknown code unused => exact ⟨of.second, of.third, of.short, of.long⟩

theorem written_known {code : Code} (known : isUnknown code = false) : written code = code.bytes ++ [0] := by
  cases code with
  | unknown => exact nomatch known
  | _ => rfl

/-- A code with its terminator is sent as it is. -/
theorem send_known (code : Code) (known : isUnknown code = false) (filled : ∀ byte ∈ code.bytes, byte ≠ 0) {fuel : Nat}
    {sent : List SendEvent} (run : sendStringWithDelay luts (blit data 0 (written code)) interval fuel 0 = some sent) :
    actions sent = actions (code.events luts ++ delay interval.toNat) := by
  have single : render [code] = code.bytes := List.append_nil _
  have size : code.bytes.length + 1 = (written code).length := by
    rw [written_known known, List.length_append]
    rfl
  have front : slice (blit data 0 (written code)) 0 ((render [code]).length + 1) = render [code] ++ [0] := by
    rw [single, size, slice_blit, written_known known]
  obtain ⟨events, whole, played, -⟩ := sendString_render luts interval front (single ▸ filled) (Nat.lt_succ_self _)
  rw [(sendStringWithDelay_stable luts _ interval 0).unique run whole, played]
  exact List.append_nil _

/-- Behind an unknown code comes what is kept in the buffer. -/
theorem send_unknown (of : tail.Of data) {code : UInt8}
    (unused : code ∉ [ssTapCode, ssDownCode, ssUpCode, ssDelayCode]) {fuel : Nat} {sent : List SendEvent}
    (run : sendStringWithDelay luts (blit data 0 (written (.unknown code unused))) interval fuel 0 = some sent) :
    ∃ extra, actions sent = actions ((Code.unknown code unused).events luts ++ delay interval.toNat) ++ extra ∧
      (extra = [] ↔ tail.Silent interval) := by
  have kept : tail.Of (blit data 0 (written (.unknown code unused))) := of.written (.unknown code unused) trivial
  cases fuel with
  | zero => exact nomatch run
  | succ fuel =>
    have first : blit data 0 (written (.unknown code unused)) 0 = ssQmkPrefix := rfl
    have second : blit data 0 (written (.unknown code unused)) 1 = code := rfl
    have start : blit data 0 (written (.unknown code unused)) 0 ≠ 0 := by
      rw [first]
      decide
    obtain ⟨next, done, rest, step, later, rfl⟩ := sendString_step luts interval start run
    simp only [List.mem_cons, List.not_mem_nil, or_false, not_or] at unused
    obtain ⟨tap, down, up, delay⟩ := unused
    rw [sendCode, if_pos first, second] at step
    dsimp only at step
    rw [if_neg tap, if_neg down, if_neg up, if_neg delay] at step
    obtain ⟨rfl, rfl⟩ : 2 = next ∧ [.read 1] = done := Prod.mk.inj (Option.some.inj step)
    refine ⟨actions rest, ?_, tail_silent_iff kept later⟩
    rw [actions_append, actions_append, actions_append]
    rfl

/-- What is sent for a code, and what is heard behind it. -/
theorem send_written (of : tail.Of data) (code : Code) (filled : ∀ byte ∈ code.bytes, byte ≠ 0) {fuel : Nat}
    {sent : List SendEvent}
    (run : sendStringWithDelay luts (blit data 0 (written code)) interval fuel 0 = some sent) :
    ∃ extra, actions sent = actions (code.events luts ++ delay interval.toNat) ++ extra ∧
      (extra = [] ↔ (isUnknown code → tail.Silent interval)) := by
  cases known : isUnknown code with
  | false =>
    refine ⟨[], ?_, iff_of_true rfl nofun⟩
    rw [send_known code known filled run, List.append_nil]
  | true =>
    cases code with
    | unknown code unused =>
      obtain ⟨extra, same, silent⟩ := send_unknown of unused run
      exact ⟨extra, same, silent.trans ⟨fun silent _ => silent, fun silent => silent rfl⟩⟩
    | _ => exact nomatch known

end Buffer

/-! ## Whole macros -/

section Macros

variable {eeprom : Nat → UInt8} {luts : Luts} {interval : UInt8}

theorem macroActions_append (front rest : List MacroEvent) :
    macroActions (front ++ rest) = macroActions front ++ macroActions rest := by
  rw [macroActions, List.filterMap_append, actions_append]
  rfl

theorem macroActions_reads (reads : List Nat) : macroActions (reads.map .eepromRead) = [] := by
  induction reads with
  | nil => rfl
  | cons _ _ ih => exact ih

theorem macroActions_sent (sent : List SendEvent) : macroActions (sent.map .sent) = actions sent := by
  have all : (sent.map MacroEvent.sent).filterMap (fun | .sent event => some event | .eepromRead _ => none) = sent := by
    induction sent with
    | nil => rfl
    | cons event sent ih => exact congrArg (event :: ·) ih
  rw [macroActions, all]

theorem playMacro_stop {p fuel : Nat} {data : Nat → UInt8} {events : List MacroEvent}
    (ends : (fetchCode eeprom p data).next = none)
    (run : playMacro eeprom luts interval fuel p data = some events) : macroActions events = [] := by
  cases fuel with
  | zero => exact nomatch run
  | succ fuel =>
    rw [playMacro, ends] at run
    rw [← Option.some.inj run]
    exact macroActions_reads _

theorem playMacro_step {p q fuel : Nat} {data data' : Nat → UInt8} {events : List MacroEvent}
    (found : (fetchCode eeprom p data).next = some (q, data'))
    (run : playMacro eeprom luts interval fuel p data = some events) :
    ∃ less sent rest, sendStringWithDelay luts data' interval less 0 = some sent ∧
      playMacro eeprom luts interval less q data' = some rest ∧
      macroActions events = actions sent ++ macroActions rest := by
  cases fuel with
  | zero => exact nomatch run
  | succ fuel =>
    rw [playMacro, found] at run
    obtain ⟨sent, done, run⟩ := Option.bind_eq_some_iff.mp run
    obtain ⟨rest, later, joined⟩ := Option.bind_eq_some_iff.mp run
    refine ⟨fuel, sent, rest, done, later, ?_⟩
    rw [← Option.some.inj joined, macroActions_append, macroActions_append, macroActions_reads, macroActions_sent]
    rfl

/-- The codes of a macro are played up to the place where the playback ends, and something more is
heard unless the macro is quiet. -/
theorem playMacro_codes {codes : List Code} {p fuel : Nat} {data : Nat → UInt8} {tail : Tail}
    {events : List MacroEvent} (front : slice eeprom p (render codes).length = render codes)
    (ends : ∀ data, (fetchCode eeprom (p + (render codes).length) data).next = none)
    (filled : ∀ byte ∈ render codes, byte ≠ 0) (storable : ∀ code ∈ codes, Storable code) (of : tail.Of data)
    (run : playMacro eeprom luts interval fuel p data = some events) :
    (Quiet interval tail codes → macroActions events = play luts interval codes) ∧
      (¬ Quiet interval tail codes → (play luts interval codes).length < (macroActions events).length) := by
  induction codes generalizing p fuel data tail events with
  | nil => exact ⟨fun _ => playMacro_stop (ends data) run, fun loud => absurd trivial loud⟩
  | cons code codes ih =>
    have size : (render (code :: codes)).length = code.bytes.length + (render codes).length := List.length_append
    have split : render (code :: codes) = code.bytes ++ render codes := rfl
    rw [size, slice_add, split] at front
    obtain ⟨head, front⟩ := List.append_inj front (length_slice _ _ _)
    rw [split, List.forall_mem_append] at filled
    rw [List.forall_mem_cons] at storable
    rw [size, ← Nat.add_assoc] at ends
    have found := fetchCode_code code p data head filled.1 storable.1
    obtain ⟨less, sent, rest, done, later, same⟩ := playMacro_step found run
    obtain ⟨extra, heard, silent⟩ := send_written of code filled.1 done
    obtain ⟨quiet, loud⟩ := ih front ends filled.2 storable.2 (of.written code storable.1) later
    have played : play luts interval (code :: codes) =
        actions (code.events luts ++ delay interval.toNat) ++ play luts interval codes := rfl
    rw [same, heard, played]
    constructor
    · intro ⟨here, rest⟩
      rw [silent.mpr here, quiet rest, List.append_nil]
    · intro other
      simp only [List.length_append]
      by_cases rest : Quiet interval (tail.after code) codes
      · have more : extra ≠ [] := fun none => other ⟨silent.mp none, rest⟩
        have some := List.length_pos_iff.mpr more
        rw [quiet rest]
        omega
      · have longer := loud rest
        omega

/-! ## Macros in the EEPROM -/

theorem skipMacros_text {text : List UInt8} {p left id : Nat} (front : slice eeprom p (text.length + 1) = text ++ [0])
    (filled : ∀ byte ∈ text, byte ≠ 0) (room : text.length + 1 ≤ left) :
    (skipMacros eeprom left (id + 1) p).1 =
      (skipMacros eeprom (left - (text.length + 1)) id (p + (text.length + 1))).1 := by
  induction text generalizing p left with
  | nil =>
    obtain ⟨left, rfl⟩ : ∃ n, left = n + 1 := ⟨left - 1, by omega⟩
    have here : eeprom p = 0 := List.head_eq_of_cons_eq front
    rw [skipMacros]
    dsimp only
    rw [if_pos here]
    rfl
  | cons byte text ih =>
    obtain ⟨left, rfl⟩ : ∃ n, left = n + 1 := ⟨left - 1, by omega⟩
    rw [List.length_cons] at front room ⊢
    obtain ⟨here, rest⟩ := List.cons.inj front
    obtain ⟨first, filled⟩ := List.forall_mem_cons.mp filled
    rw [skipMacros]
    dsimp only
    rw [here, if_neg first, ih rest filled (by omega)]
    congr 2 <;> omega

theorem skipMacros_earlier {earlier : List (List UInt8)} {p left : Nat}
    (front : slice eeprom p (earlier.flatMap (· ++ [0])).length = earlier.flatMap (· ++ [0]))
    (filled : ∀ text ∈ earlier, ∀ byte ∈ text, byte ≠ 0) (room : (earlier.flatMap (· ++ [0])).length ≤ left) :
    (skipMacros eeprom left earlier.length p).1 = some (p + (earlier.flatMap (· ++ [0])).length) := by
  induction earlier generalizing p left with
  | nil =>
    cases left <;> rfl
  | cons text earlier ih =>
    have size : ((text :: earlier).flatMap (· ++ [0])).length =
        text.length + 1 + (earlier.flatMap (· ++ [0])).length := by
      rw [List.flatMap_cons, List.length_append, List.length_append]
      rfl
    rw [size] at front room ⊢
    rw [slice_add, List.flatMap_cons] at front
    obtain ⟨head, rest⟩ := List.append_inj front (by rw [length_slice, List.length_append]; rfl)
    rw [List.forall_mem_cons] at filled
    rw [List.length_cons, skipMacros_text head filled.1 (by omega), ih rest filled.2 (by omega), Nat.add_assoc]

theorem fetchCode_stop {p : Nat} (zero : eeprom p = 0) (data : Nat → UInt8) : (fetchCode eeprom p data).next = none := by
  rw [fetchCode]
  dsimp only
  rw [if_pos zero]

end Macros

/-- A macro in its region, behind the macros with lower numbers. -/
structure StoredMacro (layout : Layout) where
  eeprom : Nat → UInt8
  earlier : List (List UInt8)
  codes : List Code
  earlierFilled : ∀ text ∈ earlier, ∀ byte ∈ text, byte ≠ 0
  filled : ∀ byte ∈ render codes, byte ≠ 0
  storable : ∀ code ∈ codes, Storable code
  known : earlier.length < layout.macroCount
  numbered : earlier.length < 256
  front : slice eeprom layout.macroAddr (earlier.flatMap (· ++ [0])).length = earlier.flatMap (· ++ [0])
  stored : slice eeprom (layout.macroAddr + (earlier.flatMap (· ++ [0])).length) ((render codes).length + 1) =
    render codes ++ [0]
  fits : (earlier.flatMap (· ++ [0])).length + ((render codes).length + 1) ≤ layout.macroSize
  written : eeprom layout.maxAddr = 0

namespace StoredMacro

variable {layout : Layout} (stored : StoredMacro layout) (luts : Luts) (macroDelay : UInt8)

def id : UInt8 := UInt8.ofNat stored.earlier.length

def start : Nat := layout.macroAddr + (stored.earlier.flatMap (· ++ [0])).length

/-- The macro as a string in memory. -/
def whole (behind : Nat → UInt8) : Nat → UInt8 := blit behind 0 (render stored.codes ++ [0])

/-- Playback and `send_string` do the same to keys and wait for the same times. -/
def PlaysWhole (stack behind : Nat → UInt8) : Prop :=
  ∃ fuel events sent, dynamicKeymapMacroSend layout stored.eeprom luts macroDelay stack fuel stored.id = some events ∧
    sendStringWithDelay luts (stored.whole behind) macroDelay fuel 0 = some sent ∧ macroActions events = actions sent

theorem id_toNat : stored.id.toNat = stored.earlier.length := by
  rw [id, UInt8.toNat_ofNat']
  exact Nat.mod_eq_of_lt stored.numbered

/-- The playback of the macro begins behind the macros with lower numbers. -/
theorem macroSend_eq (stack : Nat → UInt8) (fuel : Nat) :
    dynamicKeymapMacroSend layout stored.eeprom luts macroDelay stack fuel stored.id =
      (playMacro stored.eeprom luts macroDelay fuel stored.start (blit stack 0 (List.replicate 8 0))).bind fun rest =>
        some (.eepromRead layout.maxAddr ::
          (skipMacros stored.eeprom layout.macroSize stored.id.toNat layout.macroAddr).2.map .eepromRead ++ rest) := by
  have fits := stored.fits
  have skipped := skipMacros_earlier stored.front stored.earlierFilled (Nat.le_trans (Nat.le_add_right _ _) fits)
  rw [← stored.id_toNat] at skipped
  rw [macroSend_sealed _ _ _ _ _ _ _ (Nat.not_le.mpr (stored.id_toNat ▸ stored.known)) stored.written, skipped]
  rfl

theorem plays (behind : Nat → UInt8) {fuel : Nat} (enough : (render stored.codes).length < fuel) :
    ∃ sent, sendStringWithDelay luts (stored.whole behind) macroDelay fuel 0 = some sent ∧
      actions sent = play luts macroDelay stored.codes := by
  have front : slice (stored.whole behind) 0 ((render stored.codes).length + 1) = render stored.codes ++ [0] := by
    have size : (render stored.codes).length + 1 = (render stored.codes ++ [0]).length := by rw [List.length_append]; rfl
    rw [size, whole, slice_blit]
  obtain ⟨sent, run, played, -⟩ := sendString_render luts macroDelay front stored.filled enough
  exact ⟨sent, run, played⟩

theorem ends (data : Nat → UInt8) :
    (fetchCode stored.eeprom (stored.start + (render stored.codes).length) data).next = none := by
  have front := stored.stored
  rw [slice_add] at front
  have zero := (List.append_inj front (length_slice _ _ _)).2
  exact fetchCode_stop (List.head_eq_of_cons_eq zero) data

theorem codes_front : slice stored.eeprom stored.start (render stored.codes).length = render stored.codes := by
  have front := stored.stored
  rw [slice_add] at front
  exact (List.append_inj front (length_slice _ _ _)).1

/-- What is heard of the playback. -/
theorem macroSend_actions {stack : Nat → UInt8} {fuel : Nat} {events : List MacroEvent}
    (run : dynamicKeymapMacroSend layout stored.eeprom luts macroDelay stack fuel stored.id = some events) :
    (Quiet macroDelay .empty stored.codes → macroActions events = play luts macroDelay stored.codes) ∧
      (¬ Quiet macroDelay .empty stored.codes →
        (play luts macroDelay stored.codes).length < (macroActions events).length) := by
  rw [stored.macroSend_eq luts macroDelay stack fuel] at run
  obtain ⟨rest, played, joined⟩ := Option.bind_eq_some_iff.mp run
  have same : macroActions events = macroActions rest := by
    rw [← Option.some.inj joined, macroActions_append, ← List.map_cons, macroActions_reads]
    rfl
  rw [same]
  exact playMacro_codes stored.codes_front stored.ends stored.filled stored.storable (.start stack) played

/-- A macro that is not quiet does not play as a whole. -/
theorem not_playsWhole (stack behind : Nat → UInt8) (loud : ¬ Quiet macroDelay .empty stored.codes) :
    ¬ stored.PlaysWhole luts macroDelay stack behind := by
  intro ⟨fuel, events, sent, run, whole, same⟩
  obtain ⟨sent', run', played⟩ := stored.plays luts macroDelay behind (Nat.lt_succ_self _)
  have longer := (stored.macroSend_actions luts macroDelay run).2 loud
  rw [same, (sendStringWithDelay_stable luts _ macroDelay 0).unique whole run', played] at longer
  exact Nat.lt_irrefl _ longer

/-- The playback does what `send_string` does exactly if nothing is heard behind the unknown codes. -/
theorem playsWhole_iff (stack behind : Nat → UInt8) :
    stored.PlaysWhole luts macroDelay stack behind ↔ Quiet macroDelay .empty stored.codes := by
  constructor
  · intro plays
    by_contra loud
    exact stored.not_playsWhole luts macroDelay stack behind loud plays
  · intro quiet
    have fits := stored.fits
    have region := macroEnd layout
    have inside : stored.start ≤ layout.maxAddr := by
      rw [start]
      omega
    let fuel := (render stored.codes).length + (layout.maxAddr - stored.start + 9)
    obtain ⟨sent, whole, played⟩ := stored.plays luts macroDelay behind
      (by omega : (render stored.codes).length < fuel)
    obtain ⟨rest, run, -⟩ := playMacro_ends luts macroDelay stored.written inside (sealed_start stack)
      (by omega : layout.maxAddr - stored.start + 8 < fuel)
    have send := stored.macroSend_eq luts macroDelay stack fuel
    rw [run] at send
    exact ⟨fuel, _, sent, send, whole, ((stored.macroSend_actions luts macroDelay send).1 quiet).trans played.symm⟩

end StoredMacro

/-! ### A macro that plays more -/

/-- A tap and an unknown code. -/
def tapUnknown : StoredMacro boardLayout where
  eeprom := blit (fun _ => 0) boardLayout.macroAddr [1, 1, 4, 1, 9]
  earlier := []
  codes := [.key .tap 4, .unknown 9 (by decide)]
  earlierFilled := nofun
  filled := by decide +kernel
  storable := by simp [Storable]
  known := by decide
  numbered := by decide
  front := rfl
  stored := by decide
  fits := by decide
  written := by decide

theorem tapUnknown_differs : ¬ tapUnknown.PlaysWhole plainLuts 0 (fun _ => 0) (fun _ => 0) := by
  refine tapUnknown.not_playsWhole plainLuts 0 _ _ fun quiet => ?_
  have silent : Tail.Silent ⟨4, false⟩ 0 := quiet.2.1 rfl
  exact absurd silent (by simp [Tail.Silent, ssQmkPrefix])

end QmkFirmware.DynamicKeymap
