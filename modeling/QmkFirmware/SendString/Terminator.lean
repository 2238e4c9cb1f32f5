import QmkFirmware.SendString.Model

/-! # The end of a string

What the scanner does with a rendered code, and that whatever it does is the rendering of codes.
It stops at the terminator exactly if the string does not end inside a code.
-/

namespace QmkFirmware.SendString

open QmkFirmware.Memory

section Scan

variable (luts : Luts) {memory : Nat → UInt8} {fuel string : Nat} (interval : UInt8)

/-! ## Rendered codes -/

/-- Reads up to an address. -/
def ReadsBelow (bound : Nat) (events : List SendEvent) : Prop := ∀ address, .read address ∈ events → address < bound

theorem readsBelow_append {bound : Nat} {front rest : List SendEvent} :
    ReadsBelow bound (front ++ rest) ↔ ReadsBelow bound front ∧ ReadsBelow bound rest := by
  constructor
  · intro below
    exact ⟨fun address member => below address (List.mem_append_left _ member),
      fun address member => below address (List.mem_append_right _ member)⟩
  · intro ⟨front, rest⟩ address member
    exact (List.mem_append.mp member).elim (front address) (rest address)

theorem readsBelow_cons {bound address : Nat} {rest : List SendEvent} :
    ReadsBelow bound (.read address :: rest) ↔ address < bound ∧ ReadsBelow bound rest := by
  rw [← List.singleton_append, readsBelow_append]
  refine and_congr_left' ⟨fun below => below address (List.mem_singleton_self _), fun below _ member => ?_⟩
  rw [SendEvent.read.inj (List.mem_singleton.mp member)]
  exact below

theorem readsBelow_of_actions {bound : Nat} {events : List SendEvent}
    (noRead : ∀ address, .read address ∉ events) : ReadsBelow bound events :=
  fun address member => absurd member (noRead address)

theorem readsBelow_delay (bound ms : Nat) : ReadsBelow bound (delay ms) := by
  refine readsBelow_of_actions fun address member => ?_
  obtain ⟨round, rounds, member⟩ := List.mem_flatten.mp member
  rw [List.eq_of_mem_replicate rounds] at member
  exact absurd member (by simp)

theorem readsBelow_sendChar (bound : Nat) (asciiCode : UInt8) : ReadsBelow bound (sendChar luts asciiCode) :=
  readsBelow_of_actions fun address => by simp [sendChar]

theorem readNumber_digits {digits : List UInt8} {last : UInt8} (ms : UInt32)
    (front : slice memory string (digits.length + 1) = digits ++ [last]) (numeric : ∀ digit ∈ digits, IsDigit digit)
    (ends : ¬ IsDigit last) (enough : digits.length < fuel) :
    ∃ reads, readNumber memory fuel string ms = some (number ms digits, string + digits.length, reads) ∧
      actions reads = [] ∧ ReadsBelow (string + digits.length + 1) reads := by
  induction digits generalizing fuel string ms with
  | nil =>
    obtain ⟨fuel, rfl⟩ : ∃ n, fuel = n + 1 := ⟨fuel - 1, by omega⟩
    have here : memory string = last := List.head_eq_of_cons_eq front
    refine ⟨[.read string], ?_, rfl, readsBelow_cons.mpr ⟨Nat.lt_succ_self _, readsBelow_of_actions (by simp)⟩⟩
    rw [readNumber]
    dsimp only
    rw [here, if_neg ends]
    rfl
  | cons digit digits ih =>
    obtain ⟨fuel, rfl⟩ : ∃ n, fuel = n + 1 := ⟨fuel - 1, by omega⟩
    rw [List.length_cons] at front enough
    obtain ⟨here, rest⟩ := List.cons.inj front
    obtain ⟨first, numeric⟩ := List.forall_mem_cons.mp numeric
    obtain ⟨reads, run, quiet, below⟩ := ih (ms * 10 + (digit - 0x30).toUInt32) rest numeric (Nat.lt_of_succ_lt_succ enough)
    refine ⟨.read string :: reads, ?_, quiet, ?_⟩
    · rw [readNumber]
      dsimp only
      rw [here, if_pos first, run, List.length_cons, Nat.add_right_comm]
      rfl
    · rw [List.length_cons, ← Nat.add_assoc, Nat.add_right_comm string]
      exact readsBelow_cons.mpr ⟨by omega, below⟩

theorem Code.length_delay {digits : List UInt8} {last : UInt8} (numeric : ∀ digit ∈ digits, IsDigit digit)
    (ends : ¬ IsDigit last) : (Code.delay digits last numeric ends).bytes.length = digits.length + 3 := by
  rw [Code.bytes, List.length_append, List.length_append]
  exact (Nat.add_right_comm 2 digits.length 1).trans (Nat.add_comm _ _)

theorem actions_append (front rest : List SendEvent) : actions (front ++ rest) = actions front ++ actions rest :=
  List.filter_append _ _

theorem sendCode_bytes (code : Code) (front : slice memory string code.bytes.length = code.bytes)
    (enough : code.bytes.length ≤ fuel) :
    ∃ done, sendCode luts memory fuel string = some (string + code.bytes.length, done) ∧
      actions done = actions (code.events luts) ∧ ReadsBelow (string + code.bytes.length) done := by
  cases code with
  | char asciiCode plain =>
    have here : memory string = asciiCode := List.head_eq_of_cons_eq front
    refine ⟨sendChar luts asciiCode, ?_, rfl, readsBelow_sendChar luts _ _⟩
    rw [sendCode, here, if_neg plain]
    rfl
  | key kind keycode =>
    obtain ⟨first, rest⟩ := List.cons.inj front
    obtain ⟨second, rest⟩ := List.cons.inj rest
    have third : memory (string + 2) = keycode := List.head_eq_of_cons_eq rest
    refine ⟨[.read (string + 1), .read (string + 2), kind.event keycode], ?_, ?_, ?_⟩
    · rw [sendCode, if_pos first]
      dsimp only
      rw [second, third]
      cases kind <;> rfl
    · cases kind <;> rfl
    · refine readsBelow_cons.mpr ⟨Nat.add_lt_add_left (by decide : 1 < 3) _,
        readsBelow_cons.mpr ⟨Nat.lt_succ_self _, ?_⟩⟩
      exact readsBelow_of_actions fun address => by cases kind <;> simp [KeyKind.event]
  | delay digits last numeric ends =>
    have size := Code.length_delay numeric ends
    rw [size] at front enough
    obtain ⟨first, rest⟩ := List.cons.inj front
    obtain ⟨second, rest⟩ := List.cons.inj rest
    obtain ⟨reads, run, quiet, below⟩ := readNumber_digits 0 rest numeric ends (Nat.lt_of_lt_of_le (by omega) enough)
    refine ⟨.read (string + 1) :: reads ++ delay (number 0 digits).toNat, ?_, ?_, ?_⟩
    · rw [sendCode, if_pos first]
      dsimp only
      rw [second, if_neg (by decide), if_neg (by decide), if_neg (by decide), if_pos rfl, run, size]
      exact congrArg some (Prod.ext (by dsimp only; omega) rfl)
    · rw [actions_append]
      exact congrArg (· ++ actions (delay (number 0 digits).toNat)) quiet
    · rw [size]
      refine readsBelow_append.mpr ⟨readsBelow_cons.mpr ⟨by omega, ?_⟩, readsBelow_delay _ _⟩
      have ends : string + 2 + digits.length + 1 = string + (digits.length + 3) := by omega
      exact ends ▸ below
  | unknown code unused =>
    obtain ⟨first, rest⟩ := List.cons.inj front
    have second : memory (string + 1) = code := List.head_eq_of_cons_eq rest
    simp only [List.mem_cons, List.not_mem_nil, or_false, not_or] at unused
    obtain ⟨tap, down, up, delay⟩ := unused
    refine ⟨[.read (string + 1)], ?_, rfl, readsBelow_cons.mpr ⟨Nat.lt_succ_self _, readsBelow_of_actions (by simp)⟩⟩
    rw [sendCode, if_pos first]
    dsimp only
    rw [second, if_neg tap, if_neg down, if_neg up, if_neg delay]
    rfl

theorem sendString_code (code : Code) (front : slice memory string code.bytes.length = code.bytes)
    (start : memory string ≠ 0) (enough : code.bytes.length ≤ fuel) :
    ∃ done, actions done = actions (code.events luts ++ delay interval.toNat) ∧
      ReadsBelow (string + code.bytes.length) done ∧
      sendStringWithDelay luts memory interval (fuel + 1) string =
        (sendStringWithDelay luts memory interval fuel (string + code.bytes.length)).map (done ++ ·) := by
  obtain ⟨sent, run, same, below⟩ := sendCode_bytes luts code front enough
  refine ⟨.read string :: sent ++ delay interval.toNat ++ [.sendStringTask], ?_, ?_, ?_⟩
  · rw [actions_append, actions_append, actions_append, ← same]
    exact List.append_nil _
  · have filled : 0 < code.bytes.length := by cases code <;> simp [Code.bytes]
    exact readsBelow_append.mpr ⟨readsBelow_append.mpr
      ⟨readsBelow_cons.mpr ⟨Nat.lt_add_of_pos_right filled, below⟩, readsBelow_delay _ _⟩, readsBelow_of_actions (by simp)⟩
  · rw [sendStringWithDelay, if_neg start, run]
    simp only [Option.bind_eq_bind, Option.bind_some]
    cases sendStringWithDelay luts memory interval fuel (string + code.bytes.length) with
    | none => rfl
    | some rest =>
      refine congrArg some ?_
      simp only [List.append_assoc, List.cons_append, List.nil_append]

theorem Code.bytes_pos (code : Code) : 0 < code.bytes.length := by
  cases code <;> simp [Code.bytes]

theorem Code.head_of_slice (code : Code) (front : slice memory string code.bytes.length = code.bytes)
    (filled : ∀ byte ∈ code.bytes, byte ≠ 0) : memory string ≠ 0 := by
  obtain ⟨n, size⟩ := Nat.exists_eq_add_of_lt code.bytes_pos
  rw [Nat.zero_add] at size
  rw [size] at front
  exact filled _ (front ▸ List.mem_cons_self)

/-- A string of whole codes is played up to its terminator. -/
theorem sendString_render {codes : List Code}
    (front : slice memory string ((render codes).length + 1) = render codes ++ [0])
    (filled : ∀ byte ∈ render codes, byte ≠ 0) (enough : (render codes).length < fuel) :
    ∃ events, sendStringWithDelay luts memory interval fuel string = some events ∧
      actions events = play luts interval codes ∧ ReadsBelow (string + (render codes).length + 1) events := by
  induction codes generalizing fuel string with
  | nil =>
    obtain ⟨fuel, rfl⟩ : ∃ n, fuel = n + 1 := ⟨fuel - 1, by omega⟩
    have here : memory string = 0 := List.head_eq_of_cons_eq front
    refine ⟨[.read string], ?_, rfl, readsBelow_cons.mpr ⟨Nat.lt_succ_self _, readsBelow_of_actions (by simp)⟩⟩
    rw [sendStringWithDelay, if_pos here]
  | cons code codes ih =>
    obtain ⟨fuel, rfl⟩ : ∃ n, fuel = n + 1 := ⟨fuel - 1, by omega⟩
    have size : (render (code :: codes)).length = code.bytes.length + (render codes).length := List.length_append
    have split : render (code :: codes) = code.bytes ++ render codes := rfl
    rw [size, Nat.add_assoc, slice_add, split, List.append_assoc] at front
    obtain ⟨head, rest⟩ := List.append_inj front (length_slice _ _ _)
    rw [split, List.forall_mem_append] at filled
    have start : memory string ≠ 0 := code.head_of_slice head filled.1
    have some := code.bytes_pos
    obtain ⟨done, same, below, run⟩ := sendString_code luts interval code head start
      (by omega : code.bytes.length ≤ fuel)
    obtain ⟨events, rest, played, inside⟩ := ih rest filled.2 (by omega : (render codes).length < fuel)
    refine ⟨done ++ events, ?_, ?_, ?_⟩
    · rw [run, rest]
      rfl
    · rw [actions_append, same, played]
      rfl
    · rw [size, readsBelow_append]
      refine ⟨fun address member => ?_, ?_⟩
      · have bound := below address member
        omega
      · rw [← Nat.add_assoc]
        exact inside

/-! ## Codes from a scan -/

theorem readNumber_inv {ms ms' : UInt32} {last : Nat} {reads : List SendEvent}
    (run : readNumber memory fuel string ms = some (ms', last, reads)) :
    ∃ digits : List UInt8, (∀ digit ∈ digits, IsDigit digit) ∧ ¬ IsDigit (memory last) ∧
      last = string + digits.length ∧ slice memory string (digits.length + 1) = digits ++ [memory last] := by
  induction fuel generalizing string ms reads with
  | zero => simp [readNumber] at run
  | succ fuel ih =>
    rw [readNumber] at run
    dsimp only at run
    by_cases digit : IsDigit (memory string)
    · rw [if_pos digit] at run
      obtain ⟨⟨_, _, later⟩, step, done⟩ := Option.bind_eq_some_iff.mp run
      obtain ⟨rfl, rfl, -⟩ : _ = ms' ∧ _ = last ∧ _ = reads := by simpa using done
      obtain ⟨digits, numeric, ends, place, front⟩ := ih step
      refine ⟨memory string :: digits, List.forall_mem_cons.mpr ⟨digit, numeric⟩, ends, ?_, ?_⟩
      · rw [place, List.length_cons]
        omega
      · exact congrArg (memory string :: ·) front
    · rw [if_neg digit] at run
      obtain ⟨-, rfl, -⟩ : _ = ms' ∧ _ = last ∧ _ = reads := by simpa using run
      exact ⟨[], List.forall_mem_nil _, digit, rfl, rfl⟩

/-- Whatever is in memory, a round of the scanner goes over one code. -/
theorem sendCode_inv {next : Nat} {done : List SendEvent} (run : sendCode luts memory fuel string = some (next, done)) :
    ∃ code : Code, next = string + code.bytes.length ∧ slice memory string code.bytes.length = code.bytes := by
  rw [sendCode] at run
  by_cases first : memory string = ssQmkPrefix
  · rw [if_pos first] at run
    dsimp only at run
    have key (kind : KeyKind) (named : memory (string + 1) = kind.code) (behind : string + 3 = next) :
        ∃ code : Code, next = string + code.bytes.length ∧ slice memory string code.bytes.length = code.bytes := by
      refine ⟨.key kind (memory (string + 2)), behind.symm, ?_⟩
      rw [Code.bytes, ← first, ← named]
      rfl
    split at run
    · exact key .tap ‹_› (Prod.ext_iff.mp (Option.some.inj run)).1
    split at run
    · exact key .down ‹_› (Prod.ext_iff.mp (Option.some.inj run)).1
    split at run
    · exact key .up ‹_› (Prod.ext_iff.mp (Option.some.inj run)).1
    split at run
    · rename_i named
      obtain ⟨⟨_, last, _⟩, step, finish⟩ := Option.bind_eq_some_iff.mp run
      obtain ⟨digits, numeric, ends, place, front⟩ := readNumber_inv step
      have behind : last + 1 = next := (Prod.ext_iff.mp (Option.some.inj finish)).1
      refine ⟨.delay digits (memory last) numeric ends, ?_, ?_⟩
      · rw [Code.length_delay, ← behind, place]
        omega
      · rw [Code.length_delay, Code.bytes, ← first, ← named, List.append_assoc, ← front]
        rfl
    · rename_i tap down up delay
      refine ⟨.unknown (memory (string + 1)) (by simp [tap, down, up, delay]), ?_, ?_⟩
      · exact (Prod.ext_iff.mp (Option.some.inj run)).1.symm
      · rw [Code.bytes, ← first]
        rfl
  · rw [if_neg first] at run
    exact ⟨.char (memory string) first, (Prod.ext_iff.mp (Option.some.inj run)).1.symm, rfl⟩

/-- A round of the scanner and the rest of the run. -/
theorem sendString_step {events : List SendEvent} (start : memory string ≠ 0)
    (run : sendStringWithDelay luts memory interval (fuel + 1) string = some events) :
    ∃ next done rest, sendCode luts memory fuel string = some (next, done) ∧
      sendStringWithDelay luts memory interval fuel next = some rest ∧
      events = .read string :: done ++ delay interval.toNat ++ .sendStringTask :: rest := by
  rw [sendStringWithDelay, if_neg start] at run
  obtain ⟨⟨next, done⟩, sent, run⟩ := Option.bind_eq_some_iff.mp run
  obtain ⟨rest, later, joined⟩ := Option.bind_eq_some_iff.mp run
  exact ⟨next, done, rest, sent, later, (Option.some.inj joined).symm⟩

theorem sendString_inv {events : List SendEvent}
    (run : sendStringWithDelay luts memory interval fuel string = some events) :
    ∃ codes : List Code, slice memory string (render codes).length = render codes ∧
      memory (string + (render codes).length) = 0 ∧ .read (string + (render codes).length) ∈ events := by
  induction fuel generalizing string events with
  | zero => simp [sendStringWithDelay] at run
  | succ fuel ih =>
    by_cases stop : memory string = 0
    · rw [sendStringWithDelay, if_pos stop] at run
      rw [← Option.some.inj run]
      exact ⟨[], rfl, stop, List.mem_singleton_self _⟩
    · obtain ⟨next, done, rest, sent, later, rfl⟩ := sendString_step luts interval stop run
      obtain ⟨code, rfl, front⟩ := sendCode_inv luts sent
      obtain ⟨codes, tail, stop, read⟩ := ih later
      have size : (render (code :: codes)).length = code.bytes.length + (render codes).length := List.length_append
      refine ⟨code :: codes, ?_, ?_, ?_⟩
      · rw [size, slice_add, front, tail]
        rfl
      · rw [size, ← Nat.add_assoc]
        exact stop
      · rw [size, ← Nat.add_assoc]
        exact List.mem_append_right _ (List.mem_cons_of_mem _ read)

end Scan

/-! ## Strings -/

/-- A string in memory, up to its terminator. -/
structure CString where
  memory : Nat → UInt8
  start : Nat
  length : Nat
  filled : ∀ i < length, memory (start + i) ≠ 0
  ends : memory (start + length) = 0

def CString.bytes (s : CString) : List UInt8 := slice s.memory s.start s.length

/-- The scanner ends, and reads nothing behind the terminator. -/
def StopsAtEnd (luts : Luts) (interval : UInt8) (s : CString) : Prop :=
  ∃ fuel events, sendStringWithDelay luts s.memory interval fuel s.start = some events ∧
    ReadsBelow (s.start + s.length + 1) events

theorem CString.filled_bytes (s : CString) : ∀ byte ∈ s.bytes, byte ≠ 0 := by
  intro byte member
  obtain ⟨i, here⟩ := List.mem_iff_getElem?.mp member
  have inside := (List.getElem?_eq_some_iff.mp here).1
  rw [bytes, length_slice] at inside
  rw [bytes, getElem?_slice inside] at here
  exact Option.some.inj here ▸ s.filled i inside

/-- The scanner stops at the terminator exactly if the string is made of whole codes. -/
theorem stopsAtEnd_iff (luts : Luts) (interval : UInt8) (s : CString) :
    StopsAtEnd luts interval s ↔ ∃ codes, s.bytes = render codes := by
  constructor
  · intro ⟨fuel, events, run, below⟩
    obtain ⟨codes, front, stop, read⟩ := sendString_inv luts interval run
    have bound := below _ read
    have size : (render codes).length = s.length := by
      by_contra other
      exact s.filled _ (by omega) stop
    exact ⟨codes, by rw [CString.bytes, ← size, front]⟩
  · intro ⟨codes, whole⟩
    have size : (render codes).length = s.length := by rw [← whole, CString.bytes, length_slice]
    have front : slice s.memory s.start ((render codes).length + 1) = render codes ++ [0] := by
      rw [slice_add, size, ← whole]
      exact congrArg (fun byte => s.bytes ++ [byte]) s.ends
    obtain ⟨events, run, -, below⟩ := sendString_render luts interval front (whole ▸ s.filled_bytes)
      (Nat.lt_succ_self _)
    exact ⟨_, events, run, size ▸ below⟩

/-- A string that ends behind the prefix of a code, and the bytes that happen to stand behind it. -/
def truncated : CString where
  memory := fun i => [1, 0, 0x41].getD i 0
  start := 0
  length := 1
  filled := by decide
  ends := rfl

def plainLuts : Luts := ⟨fun c => c.toUInt8, fun _ => 0, fun _ => 0, fun _ => 0⟩

theorem render_ne_prefix (codes : List Code) : render codes ≠ [ssQmkPrefix] := by
  intro whole
  cases codes with
  | nil => simp [render] at whole
  | cons code codes =>
    cases code with
    | char asciiCode plain => exact plain (List.head_eq_of_cons_eq whole)
    | key kind keycode => exact absurd (congrArg List.length whole) (by simp [render, Code.bytes])
    | delay digits last numeric ends => exact absurd (congrArg List.length whole) (by simp [render, Code.bytes])
    | unknown code unused => exact absurd (congrArg List.length whole) (by simp [render, Code.bytes])

theorem truncated_overruns : ¬ StopsAtEnd plainLuts 0 truncated := by
  intro ⟨fuel, events, run, below⟩
  obtain ⟨codes, front, stop, read⟩ := sendString_inv plainLuts 0 run
  have bound : truncated.start + (render codes).length < 2 := below _ read
  have filled : (render codes).length ≠ 0 := fun empty => absurd (empty ▸ stop) (by decide)
  have size : (render codes).length = 1 := by omega
  rw [size] at front
  exact render_ne_prefix codes front.symm

end QmkFirmware.SendString
