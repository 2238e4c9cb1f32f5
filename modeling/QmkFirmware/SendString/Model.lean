import QmkFirmware.Foundations.Fuel
import QmkFirmware.Foundations.Memory

/-! # Sending strings

A shallow embedding of `send_string_with_delay` of `quantum/send_string/send_string.c`, in a build
with the wireless task.  The function scans the memory from the address of its string on and
records what it reads and which keys and delays it asks for.  The loops take fuel, and `none` is a
run that has not ended with the fuel.
-/

namespace QmkFirmware.SendString

open QmkFirmware.Memory

inductive SendEvent where
  | read (address : Nat)
  | registerCode (keycode : UInt8)
  | unregisterCode (keycode : UInt8)
  | tapCode (keycode : UInt8)
  | waitMs
  | sendStringTask
  deriving DecidableEq, Repr

/-- Keys and delays. -/
def SendEvent.isAction : SendEvent → Bool
  | .registerCode _ => true
  | .unregisterCode _ => true
  | .tapCode _ => true
  | .waitMs => true
  | .read _ => false
  | .sendStringTask => false

def actions (events : List SendEvent) : List SendEvent := events.filter SendEvent.isAction

/-! ## Characters -/

/-- The tables of a keymap, with the memory behind them.  They are weak symbols, which a keymap for
another language replaces. -/
structure Luts where
  asciiToKeycode : Nat → UInt8
  asciiToShift : Nat → UInt8
  asciiToAltgr : Nat → UInt8
  asciiToDead : Nat → UInt8

def pgmLoadbit (mem : Nat → UInt8) (pos : Nat) : Bool := (mem (pos / 8)).toNat.testBit (pos % 8)

def kcSpace : UInt8 := 0x2C
def kcLeftShift : UInt8 := 0xE1
def kcRightAlt : UInt8 := 0xE6

def sendChar (luts : Luts) (asciiCode : UInt8) : List SendEvent :=
  let keycode := luts.asciiToKeycode asciiCode.toNat
  let isShifted := pgmLoadbit luts.asciiToShift asciiCode.toNat
  let isAltgred := pgmLoadbit luts.asciiToAltgr asciiCode.toNat
  let isDead := pgmLoadbit luts.asciiToDead asciiCode.toNat
  (if isShifted then [.registerCode kcLeftShift] else []) ++
    (if isAltgred then [.registerCode kcRightAlt] else []) ++
    [.tapCode keycode] ++
    (if isAltgred then [.unregisterCode kcRightAlt] else []) ++
    (if isShifted then [.unregisterCode kcLeftShift] else []) ++
    (if isDead then [.tapCode kcSpace] else [])

/-! ## Codes -/

def ssQmkPrefix : UInt8 := 1
def ssTapCode : UInt8 := 1
def ssDownCode : UInt8 := 2
def ssUpCode : UInt8 := 3
def ssDelayCode : UInt8 := 4

def IsDigit (c : UInt8) : Prop := 0x30 ≤ c ∧ c ≤ 0x39

instance (c : UInt8) : Decidable (IsDigit c) := inferInstanceAs (Decidable (_ ∧ _))

/-- The loop `while (ms--)` around the task and a wait of a millisecond. -/
def delay (ms : Nat) : List SendEvent := (List.replicate ms [.sendStringTask, .waitMs]).flatten

section Scan

variable (luts : Luts) (memory : Nat → UInt8)

/-- The number of a delay, the address of the byte that ends it, and the reads.  The number is kept
in 32 bits. -/
def readNumber : Nat → Nat → UInt32 → Option (UInt32 × Nat × List SendEvent)
  | 0, _, _ => none
  | fuel + 1, string, ms => do
    let keycode := memory string
    if IsDigit keycode then
      let (ms, last, reads) ← readNumber fuel (string + 1) (ms * 10 + (keycode - 0x30).toUInt32)
      some (ms, last, .read string :: reads)
    else some (ms, string, [.read string])

/-- One round of the loop for the character or code at `string`, up to the interval: the address
behind it and what was done. -/
def sendCode (fuel string : Nat) : Option (Nat × List SendEvent) := do
  if memory string = ssQmkPrefix then
    let asciiCode := memory (string + 1)
    let keycode := memory (string + 2)
    if asciiCode = ssTapCode then
      some (string + 3, [.read (string + 1), .read (string + 2), .tapCode keycode])
    else if asciiCode = ssDownCode then
      some (string + 3, [.read (string + 1), .read (string + 2), .registerCode keycode])
    else if asciiCode = ssUpCode then
      some (string + 3, [.read (string + 1), .read (string + 2), .unregisterCode keycode])
    else if asciiCode = ssDelayCode then
      let (ms, last, reads) ← readNumber memory fuel (string + 2) 0
      some (last + 1, .read (string + 1) :: reads ++ delay ms.toNat)
    else some (string + 2, [.read (string + 1)])
  else some (string + 1, sendChar luts (memory string))

def sendStringWithDelay (interval : UInt8) : Nat → Nat → Option (List SendEvent)
  | 0, _ => none
  | fuel + 1, string => do
    if memory string = 0 then some [.read string]
    else
      let (next, events) ← sendCode luts memory fuel string
      let rest ← sendStringWithDelay interval fuel next
      some (.read string :: events ++ delay interval.toNat ++ .sendStringTask :: rest)

/-! ### Fuel -/

theorem readNumber_stable (string : Nat) (ms : UInt32) : Stable fun fuel => readNumber memory fuel string ms := by
  intro fuel
  induction fuel generalizing string ms with
  | zero => exact .none _
  | succ fuel ih =>
    simp only [readNumber]
    exact .ite _ (.bind (ih _ _) fun _ => .refl _) (.refl _)

theorem sendCode_stable (string : Nat) : Stable fun fuel => sendCode luts memory fuel string := by
  intro fuel
  simp only [sendCode]
  refine .ite _ (.ite _ (.refl _) (.ite _ (.refl _) (.ite _ (.refl _) (.ite _ ?_ (.refl _))))) (.refl _)
  exact .bind (readNumber_stable memory _ _ fuel) fun _ => .refl _

theorem sendStringWithDelay_stable (interval : UInt8) (string : Nat) :
    Stable fun fuel => sendStringWithDelay luts memory interval fuel string := by
  intro fuel
  induction fuel generalizing string with
  | zero => exact .none _
  | succ fuel ih =>
    simp only [sendStringWithDelay]
    refine .ite _ (.refl _) (.bind (sendCode_stable luts memory string fuel) fun sent => ?_)
    exact .bind (ih sent.1) fun _ => .refl _

end Scan

/-! ## Codes as data -/

inductive KeyKind where
  | tap
  | down
  | up
  deriving DecidableEq, Repr

def KeyKind.code : KeyKind → UInt8
  | .tap => ssTapCode
  | .down => ssDownCode
  | .up => ssUpCode

def KeyKind.event : KeyKind → UInt8 → SendEvent
  | .tap => .tapCode
  | .down => .registerCode
  | .up => .unregisterCode

/-- A character or a code of a string.  The byte behind the number of a delay belongs to the delay,
whatever it is. -/
inductive Code where
  | char (asciiCode : UInt8) (plain : asciiCode ≠ ssQmkPrefix)
  | key (kind : KeyKind) (keycode : UInt8)
  | delay (digits : List UInt8) (last : UInt8) (numeric : ∀ digit ∈ digits, IsDigit digit)
      (ends : ¬ IsDigit last)
  | unknown (code : UInt8) (unused : code ∉ [ssTapCode, ssDownCode, ssUpCode, ssDelayCode])

def number (ms : UInt32) (digits : List UInt8) : UInt32 :=
  digits.foldl (fun ms digit => ms * 10 + (digit - 0x30).toUInt32) ms

namespace Code

def bytes : Code → List UInt8
  | .char asciiCode _ => [asciiCode]
  | .key kind keycode => [ssQmkPrefix, kind.code, keycode]
  | .delay digits last _ _ => [ssQmkPrefix, ssDelayCode] ++ digits ++ [last]
  | .unknown code _ => [ssQmkPrefix, code]

/-- What sending the code does, apart from the interval. -/
def events (luts : Luts) : Code → List SendEvent
  | .char asciiCode _ => sendChar luts asciiCode
  | .key kind keycode => [kind.event keycode]
  | .delay digits _ _ _ => SendString.delay (number 0 digits).toNat
  | .unknown _ _ => []

end Code

def render (codes : List Code) : List UInt8 := codes.flatMap Code.bytes

/-- What sending the codes does to keys and for how long it waits. -/
def play (luts : Luts) (interval : UInt8) (codes : List Code) : List SendEvent :=
  codes.flatMap fun code => actions (code.events luts ++ delay interval.toNat)

end QmkFirmware.SendString
