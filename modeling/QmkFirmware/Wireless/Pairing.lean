import QmkFirmware.Foundations.Holding
import QmkFirmware.Foundations.Runs
import QmkFirmware.Wireless.Transport
import Mathlib.Tactic

/-! # Pairing by a long press

A shallow embedding of `process_record_keychron_wireless`, `keychron_wireless_common_task` and
`wireless_pre_task` of `keychron_wireless_common.c`.  The key handler remembers the index in a static
variable of its own, `host_idx`, which hides the one of the file that the task reads: the latter stays
zero.  What a transport does when it is selected is not part of the model. -/

namespace QmkFirmware.Wireless.Pairing

open Holding Runs

/-- `BT_HST1` and `P2P4G` in the enumeration of key codes. -/
def btHst1 : BitVec 16 := 0x7E0B
def p2p4g : BitVec 16 := 0x7E0E

def p24gIndex : BitVec 8 := 24

/-- The static variables: `fileHostIdx` is `host_idx` of the file, `hostIdx` that of the key handler. -/
structure State where
  transport : Transport
  pairingKeyTimer : BitVec 32
  fileHostIdx : BitVec 8
  hostIdx : BitVec 8
  mode : BitVec 8
  time : BitVec 32

def start : State := ⟨.none, 0, 0, 0, 0, 0⟩

/-- The calls of `wireless_connect_ex` and `wireless_pairing_ex`. -/
inductive Request where
  | connect (hostIdx : BitVec 8)
  | pairing (hostIdx : BitVec 8)
deriving DecidableEq

def timerRead32 (now : Nat) : BitVec 32 := BitVec.ofNat 32 now

def timerElapsed32 (last : BitVec 32) (now : Nat) : BitVec 32 := timerRead32 now - last

def isBtHst (keycode : BitVec 16) : Bool := decide (btHst1 ≤ keycode) && decide (keycode ≤ btHst1 + 2)

def processRecordKeychronWireless (keycode : BitVec 16) (pressed : Bool) (now : Nat) (s : State) :
    List Request × State :=
  if isBtHst keycode then
    if s.transport = .bluetooth then
      if pressed then
        let hostIdx := (keycode - btHst1 + 1).setWidth 8
        ([.connect hostIdx], { s with hostIdx := hostIdx, pairingKeyTimer := timerRead32 now })
      else ([], { s with hostIdx := 0, pairingKeyTimer := 0 })
    else ([], s)
  else if keycode = p2p4g then
    if s.transport = .p2p4 then
      if pressed then ([], { s with hostIdx := p24gIndex, pairingKeyTimer := timerRead32 now })
      else ([], { s with hostIdx := 0, pairingKeyTimer := 0 })
    else ([], s)
  else ([], s)

def keychronWirelessCommonTask (now : Nat) (s : State) : List Request × State :=
  if s.pairingKeyTimer ≠ 0 then
    if timerElapsed32 s.pairingKeyTimer now > 2000 then
      ([.pairing s.fileHostIdx], { s with pairingKeyTimer := 0 })
    else ([], s)
  else ([], s)

/-- `pins` is what the two selection pins read. -/
def wirelessPreTask (pins : BitVec 8) (now : Nat) (s : State) : State :=
  let s := if s.time = 0 ∧ pins ≠ s.mode then { s with mode := pins, time := timerRead32 now } else s
  if s.time ≠ 0 ∧ timerElapsed32 s.time now > 100 ∨ s.transport = .none then
    if pins = s.mode then
      let s := { s with time := 0 }
      if s.mode = 0x01 then { s with transport := .bluetooth }
      else if s.mode = 0x02 then { s with transport := .p2p4 }
      else if s.mode = 0x03 then { s with transport := .usb }
      else s
    else { s with mode := pins, time := timerRead32 now }
  else s

inductive Action where
  | key (keycode : BitVec 16) (pressed : Bool)
  | commonTask
  | preTask (pins : BitVec 8)
deriving DecidableEq

structure Event where
  time : Nat
  action : Action

instance : Timed Event (BitVec 16) where
  time event := event.time
  change event :=
    match event.action with
    | .key keycode pressed => some (keycode, pressed)
    | _ => none

def step (s : State) (event : Event) : List Request × State :=
  match event.action with
  | .key keycode pressed => processRecordKeychronWireless keycode pressed event.time s
  | .commonTask => keychronWirelessCommonTask event.time s
  | .preTask pins => ([], wirelessPreTask pins event.time s)

def run (events : List Event) : State := events.foldl (fun s event => (step s event).2) start

/-! ## The host that is paired -/

/-- The index of the host that a key stands for. -/
def hostIndex (keycode : BitVec 16) : Option (BitVec 8) :=
  if isBtHst keycode then some ((keycode - btHst1 + 1).setWidth 8)
  else if keycode = p2p4g then some p24gIndex
  else none

/-- Every pairing request is for a host whose key has been held past the long-press time. -/
def PairsRequested (events : List Event) : Prop :=
  ∀ before event after, events = before ++ event :: after →
    ∀ hostIdx, .pairing hostIdx ∈ (step (run before) event).1 →
      ∃ keycode since, hostIndex keycode = some hostIdx ∧ since + 2000 < event.time ∧ HeldSince before keycode since

/-- The task does not find the timer running for longer than the long-press time. -/
def NotExpired (before : List Event) (event : Event) : Prop :=
  event.action = .commonTask →
    (run before).pairingKeyTimer = 0 ∨ timerElapsed32 (run before).pairingKeyTimer event.time ≤ 2000

theorem hostIndex_ne_zero (keycode : BitVec 16) : hostIndex keycode ≠ some 0 := by
  unfold hostIndex
  split
  · next host =>
    simp only [isBtHst, Bool.and_eq_true, decide_eq_true_eq, BitVec.le_def, btHst1, BitVec.toNat_add,
      BitVec.ofNat_eq_ofNat, BitVec.toNat_ofNat] at host
    intro zero
    have low := congrArg BitVec.toNat (Option.some.inj zero)
    simp only [btHst1, BitVec.toNat_setWidth, BitVec.toNat_add, BitVec.toNat_sub, BitVec.ofNat_eq_ofNat,
      BitVec.toNat_ofNat] at low
    omega
  · split
    · simp [p24gIndex]
    · simp

theorem step_fileHostIdx (s : State) (event : Event) : (step s event).2.fileHostIdx = s.fileHostIdx := by
  unfold step
  cases event.action with
  | key keycode pressed =>
    dsimp only
    unfold processRecordKeychronWireless
    split
    · split
      · split <;> rfl
      · rfl
    · split
      · split
        · split <;> rfl
        · rfl
      · rfl
  | commonTask =>
    dsimp only
    unfold keychronWirelessCommonTask
    split
    · split <;> rfl
    · rfl
  | preTask pins =>
    dsimp only
    unfold wirelessPreTask
    extract_lets sampled settled
    have same : sampled.fileHostIdx = s.fileHostIdx := by
      unfold sampled
      split <;> rfl
    split
    · split
      · split
        · exact same
        · split
          · exact same
          · split <;> exact same
      · exact same
    · exact same

theorem run_fileHostIdx (events : List Event) : (run events).fileHostIdx = 0 :=
  foldl_invariant (fun s event zero => (step_fileHostIdx s event).trans zero) rfl events

theorem key_requests {keycode : BitVec 16} {pressed : Bool} {now : Nat} {s : State} {hostIdx : BitVec 8} :
    .pairing hostIdx ∉ (processRecordKeychronWireless keycode pressed now s).1 := by
  unfold processRecordKeychronWireless
  split
  · split
    · split <;> simp
    · simp
  · split
    · split
      · split <;> simp
      · simp
    · simp

/-- Only an expired timer of the task asks for a pairing, and for the index of the file. -/
theorem pairing_iff (s : State) (event : Event) (hostIdx : BitVec 8) : .pairing hostIdx ∈ (step s event).1 ↔
    (event.action = .commonTask ∧ s.pairingKeyTimer ≠ 0 ∧ timerElapsed32 s.pairingKeyTimer event.time > 2000) ∧
      hostIdx = s.fileHostIdx := by
  unfold step
  cases event.action with
  | key keycode pressed => simp [key_requests]
  | preTask pins => simp
  | commonTask =>
    dsimp only
    unfold keychronWirelessCommonTask
    split
    · next running =>
      split
      · next expired => simpa using fun _ => ⟨running, expired⟩
      · next early => exact ⟨fun none => absurd none List.not_mem_nil, fun asked => absurd asked.1.2.2 early⟩
    · next stopped => exact ⟨fun none => absurd none List.not_mem_nil, fun asked => absurd asked.1.2.1 stopped⟩

/-- A run pairs the hosts that are asked for exactly when it pairs none. -/
theorem pairsRequested_iff (events : List Event) : PairsRequested events ↔ EveryStep NotExpired events := by
  rw [everyStep_iff_split, PairsRequested]
  refine forall_congr' fun before => forall_congr' fun event => forall_congr' fun after => forall_congr' fun split => ?_
  constructor
  · intro pairs task
    by_contra expired
    rw [not_or, BitVec.not_le] at expired
    obtain ⟨keycode, _, own, -⟩ := pairs _ ((pairing_iff _ _ _).mpr ⟨⟨task, expired⟩, rfl⟩)
    rw [run_fileHostIdx] at own
    exact hostIndex_ne_zero keycode own
  · intro idle hostIdx request
    obtain ⟨⟨task, running, expired⟩, -⟩ := (pairing_iff _ _ _).mp request
    exact absurd (idle task) (by rw [not_or, BitVec.not_le]; exact ⟨running, expired⟩)

/-- `BT_HST2` is held from 10 to 2011. -/
def longPress : List Event :=
  [⟨1, .preTask 0x01⟩, ⟨10, .key (btHst1 + 1) true⟩, ⟨2011, .commonTask⟩]

theorem longPress_pairs_other_host : ¬ PairsRequested longPress := by
  intro pairs
  obtain ⟨keycode, _, own, -⟩ := pairs (longPress.take 2) ⟨2011, .commonTask⟩ [] rfl 0 (by decide)
  exact hostIndex_ne_zero keycode own

end QmkFirmware.Wireless.Pairing
