import Mathlib.Data.Nat.Init
import Mathlib.Tactic.IntervalCases

/-! # Transports

A shallow embedding of `set_transport` and of what else writes the NKRO setting: the magic
keys, the NKRO command, autocorrect and the events of the wireless module.  The keyboard
keeps one setting for USB and one for the wireless transports; the one in force is the bit of
`keymap_config`, of which the EEPROM has a copy of its own.
-/

namespace QmkFirmware.Wireless

inductive Transport where
  | none
  | usb
  | bluetooth
  | p2p4
  deriving DecidableEq, Repr

def Transport.isWireless : Transport → Bool
  | .bluetooth | .p2p4 => true
  | .none | .usb => false

structure Nkro where
  usb : Bool
  bluetooth : Bool
  deriving DecidableEq, Repr

/-- The current transport, the saved settings, `keymap_config.nkro`, and the same bit of the
word that `eeconfig_read_keymap` reads. -/
structure TransportState where
  transport : Transport
  nkro : Nkro
  keymapNkro : Bool
  eepromNkro : Bool
  deriving DecidableEq, Repr

/-- What `set_transport` asks of the drivers. -/
inductive DriverCall where
  | clearKeyboard
  | usbTransportEnable (enable : Bool)
  | btTransportEnable (enable : Bool)
  | p24gTransportEnable (enable : Bool)
  | waitMs (time : Nat)
  | wirelessDisconnect
  | lpmTimerStop
  | lpmTimerReset
  | transportChanged (new : Transport)
  deriving DecidableEq, Repr

/-- Both wireless transports save the setting of the keymap as that of USB. -/
def enterWireless (wirelessNkro : Bool) (new : Transport) (s : TransportState) : TransportState :=
  { s with
    transport := new
    nkro := { s.nkro with usb := s.keymapNkro }
    keymapNkro := if wirelessNkro then s.nkro.bluetooth else false }

/-- The branch of `set_transport` for the new transport. -/
def switchTransport (wirelessNkro : Bool) (new : Transport) (s : TransportState) :
    TransportState × List DriverCall :=
  match new with
  | .usb =>
    ({ s with
       transport := .usb
       nkro := if wirelessNkro then { s.nkro with bluetooth := s.keymapNkro } else s.nkro
       keymapNkro := s.nkro.usb },
      [.usbTransportEnable true, .btTransportEnable false, .waitMs 5, .p24gTransportEnable false,
        .wirelessDisconnect, .lpmTimerStop])
  | .bluetooth =>
    (enterWireless wirelessNkro .bluetooth s,
      [.p24gTransportEnable false, .waitMs 1, .btTransportEnable true, .usbTransportEnable false,
        .lpmTimerReset])
  | .p2p4 =>
    (enterWireless wirelessNkro .p2p4 s,
      [.btTransportEnable false, .waitMs 1, .p24gTransportEnable true, .usbTransportEnable false,
        .lpmTimerReset])
  | .none => ({ s with transport := .none }, [])

/-- `wirelessNkro` is the build option, `connected` whether the wireless state is connected. -/
def setTransport (wirelessNkro connected : Bool) (new : Transport) (s : TransportState) :
    TransportState × List DriverCall :=
  if s.transport ≠ new then
    let cleared := if s.transport = .usb ∨ s.transport ≠ .usb ∧ connected then [.clearKeyboard] else []
    let (s, calls) := switchTransport wirelessNkro new s
    (s, cleared ++ calls ++ [.transportChanged new])
  else (s, [])

/-- The magic keys: three are for NKRO, the others change other settings of the keymap. -/
inductive MagicKey where
  | nkroOn
  | nkroOff
  | toggleNkro
  | other
  deriving DecidableEq, Repr

/-- Every magic key reads `keymap_config` from the EEPROM, changes it and writes it back. -/
def processMagic (key : MagicKey) (s : TransportState) : TransportState :=
  let nkro :=
    match key with
    | .nkroOn => true
    | .nkroOff => false
    | .toggleNkro => !s.eepromNkro
    | .other => s.eepromNkro
  { s with keymapNkro := nkro, eepromNkro := nkro }

/-- The key for NKRO of `command_common` leaves the EEPROM as it is. -/
def commandNkro (s : TransportState) : TransportState := { s with keymapNkro := !s.keymapNkro }

/-- `autocorrect_enable`, `autocorrect_disable` and `oneshot_set` write `keymap_config` as it is in RAM. -/
def eeconfigUpdateKeymap (s : TransportState) : TransportState := { s with eepromNkro := s.keymapNkro }

def wirelessEnterConnected (wirelessNkro : Bool) (s : TransportState) : TransportState :=
  if wirelessNkro then s else { s with keymapNkro := false }

def wirelessEnterBluetoothPinCodeEntry (s : TransportState) : TransportState :=
  { s with keymapNkro := false }

def wirelessExitBluetoothPinCodeEntry (s : TransportState) : TransportState :=
  { s with keymapNkro := s.eepromNkro }

inductive TransportOp where
  | setTransport (connected : Bool) (new : Transport)
  | magic (key : MagicKey)
  | commandNkro
  | autocorrect
  | connected
  | pinCodeEntry
  | pinCodeExit
  deriving DecidableEq, Repr

def TransportState.step (wirelessNkro : Bool) (s : TransportState) : TransportOp → TransportState
  | .setTransport connected new => (Wireless.setTransport wirelessNkro connected new s).1
  | .magic key => processMagic key s
  | .commandNkro => Wireless.commandNkro s
  | .autocorrect => eeconfigUpdateKeymap s
  | .connected => wirelessEnterConnected wirelessNkro s
  | .pinCodeEntry => wirelessEnterBluetoothPinCodeEntry s
  | .pinCodeExit => wirelessExitBluetoothPinCodeEntry s

/-- The state at start, with the setting that the EEPROM has for the keymap. -/
def TransportState.start (keymapNkro : Bool) : TransportState :=
  ⟨.none, ⟨false, false⟩, keymapNkro, keymapNkro⟩

/-- The state before the operation with index `n`. -/
def before (wirelessNkro : Bool) (start : TransportState) (ops : List TransportOp) (n : Nat) :
    TransportState :=
  (ops.take n).foldl (TransportState.step wirelessNkro) start

/-! ## Excursions -/

section

variable (wirelessNkro : Bool) (start : TransportState) (ops : List TransportOp)

/-- The operation `leave` leaves USB, and `back` is the next one to return to it. -/
structure Excursion (leave back : Nat) : Prop where
  order : leave < back
  inside : back < ops.length
  left : (before wirelessNkro start ops leave).transport = .usb
  away : ∀ n, leave < n → n ≤ back → (before wirelessNkro start ops n).transport ≠ .usb
  returned : (before wirelessNkro start ops (back + 1)).transport = .usb

/-- After every excursion the setting is the one that USB was left with. -/
def NkroSurvives : Prop :=
  ∀ leave back, Excursion wirelessNkro start ops leave back →
    (before wirelessNkro start ops (back + 1)).keymapNkro = (before wirelessNkro start ops leave).keymapNkro

/-- The operation with index `n` enters a wireless transport. -/
def EntersWireless (n : Nat) : Prop :=
  (before wirelessNkro start ops n).transport ≠ (before wirelessNkro start ops (n + 1)).transport ∧
    (before wirelessNkro start ops (n + 1)).transport.isWireless = true

/-- The setting in force before the last entry into a wireless transport is the one that
USB was left with; without such an entry, it is the one saved before. -/
def SavesUsb (leave back : Nat) : Prop :=
  (∃ n, leave ≤ n ∧ n < back ∧ EntersWireless wirelessNkro start ops n ∧
    (∀ m, n < m → m < back → ¬EntersWireless wirelessNkro start ops m) ∧
    (before wirelessNkro start ops n).keymapNkro = (before wirelessNkro start ops leave).keymapNkro) ∨
  (∀ n, leave ≤ n → n < back → ¬EntersWireless wirelessNkro start ops n) ∧
    (before wirelessNkro start ops leave).nkro.usb = (before wirelessNkro start ops leave).keymapNkro

end

/-! ## One operation -/

/-- What an operation does to the transport and to the settings. -/
inductive TransportStep (wirelessNkro : Bool) (s : TransportState) : TransportState → Prop where
  | stays (s' : TransportState) (transport : s'.transport = s.transport) (nkro : s'.nkro = s.nkro) :
      TransportStep wirelessNkro s s'
  | wireless (new : Transport) (isWireless : new.isWireless = true) (differs : s.transport ≠ new) :
      TransportStep wirelessNkro s (enterWireless wirelessNkro new s)
  | wired (s' : TransportState) (differs : s.transport ≠ s'.transport)
      (notWireless : s'.transport.isWireless = false) (kept : s'.nkro.usb = s.nkro.usb)
      (restored : s'.transport = .usb → s'.keymapNkro = s.nkro.usb) : TransportStep wirelessNkro s s'

theorem step_step (wirelessNkro : Bool) (s : TransportState) (op : TransportOp) :
    TransportStep wirelessNkro s (s.step wirelessNkro op) := by
  cases op with
  | magic key => exact .stays _ rfl rfl
  | commandNkro => exact .stays _ rfl rfl
  | autocorrect => exact .stays _ rfl rfl
  | connected => cases wirelessNkro <;> exact .stays _ rfl rfl
  | pinCodeEntry => exact .stays _ rfl rfl
  | pinCodeExit => exact .stays _ rfl rfl
  | setTransport connected new =>
    simp only [TransportState.step, setTransport]
    split
    · next differs =>
      cases new with
      | none => exact .wired _ differs rfl rfl (by simp [switchTransport])
      | usb => exact .wired _ differs rfl (by cases wirelessNkro <;> rfl) fun _ => rfl
      | bluetooth => exact .wireless .bluetooth rfl differs
      | p2p4 => exact .wireless .p2p4 rfl differs
    · exact .stays _ rfl rfl

section

variable {wirelessNkro : Bool} {start : TransportState} {ops : List TransportOp}

theorem before_succ {n : Nat} (inside : n < ops.length) :
    before wirelessNkro start ops (n + 1) = (before wirelessNkro start ops n).step wirelessNkro ops[n] := by
  rw [before, List.take_add_one, List.getElem?_eq_getElem inside, Option.toList_some, List.foldl_append]
  rfl

/-- An entry into a wireless transport saves the setting in force. -/
theorem saved_of_enters {n : Nat} (inside : n < ops.length)
    (enters : EntersWireless wirelessNkro start ops n) :
    (before wirelessNkro start ops (n + 1)).nkro.usb = (before wirelessNkro start ops n).keymapNkro := by
  have step := step_step wirelessNkro (before wirelessNkro start ops n) ops[n]
  rw [EntersWireless] at enters
  rw [← before_succ inside] at step
  generalize before wirelessNkro start ops (n + 1) = after at step enters ⊢
  cases step with
  | stays _ transport => exact absurd transport.symm enters.1
  | wireless new => rfl
  | wired _ _ notWireless =>
    rw [notWireless] at enters
    cases enters.2

theorem saved_of_not_enters {n : Nat} (inside : n < ops.length)
    (outside : ¬EntersWireless wirelessNkro start ops n) :
    (before wirelessNkro start ops (n + 1)).nkro.usb = (before wirelessNkro start ops n).nkro.usb := by
  have step := step_step wirelessNkro (before wirelessNkro start ops n) ops[n]
  rw [EntersWireless] at outside
  rw [← before_succ inside] at step
  generalize before wirelessNkro start ops (n + 1) = after at step outside ⊢
  cases step with
  | stays _ _ nkro => rw [nkro]
  | wireless new isWireless differs => exact absurd ⟨differs, isWireless⟩ outside
  | wired _ _ _ kept => exact kept

theorem restored_saved {n : Nat} (inside : n < ops.length)
    (away : (before wirelessNkro start ops n).transport ≠ .usb)
    (returned : (before wirelessNkro start ops (n + 1)).transport = .usb) :
    (before wirelessNkro start ops (n + 1)).keymapNkro = (before wirelessNkro start ops n).nkro.usb := by
  have step := step_step wirelessNkro (before wirelessNkro start ops n) ops[n]
  rw [← before_succ inside] at step
  generalize before wirelessNkro start ops (n + 1) = after at step returned ⊢
  cases step with
  | stays _ transport => exact absurd (transport.symm.trans returned) away
  | wireless new isWireless =>
    obtain rfl : new = .usb := returned
    cases isWireless
  | wired _ _ _ _ restored => exact restored returned

/-! ## Whole excursions -/

/-- Without an entry the saved setting stays. -/
theorem saved_stays {first last : Nat} (order : first ≤ last) (inside : last ≤ ops.length)
    (outside : ∀ n, first ≤ n → n < last → ¬EntersWireless wirelessNkro start ops n) :
    (before wirelessNkro start ops last).nkro.usb = (before wirelessNkro start ops first).nkro.usb := by
  induction last, order using Nat.le_induction with
  | base => rfl
  | succ last order ih =>
    rw [saved_of_not_enters inside (outside last order (Nat.lt_succ_self last))]
    exact ih (Nat.le_of_succ_le inside) fun n lower upper => outside n lower (Nat.lt_succ_of_lt upper)

/-- Either there is no entry, or there is a last one. -/
theorem last_entry (wirelessNkro : Bool) (start : TransportState) (ops : List TransportOp)
    {first last : Nat} (order : first ≤ last) :
    (∀ n, first ≤ n → n < last → ¬EntersWireless wirelessNkro start ops n) ∨
    ∃ n, first ≤ n ∧ n < last ∧ EntersWireless wirelessNkro start ops n ∧
      ∀ m, n < m → m < last → ¬EntersWireless wirelessNkro start ops m := by
  induction last, order using Nat.le_induction with
  | base =>
    left
    intro n lower upper
    omega
  | succ last order ih =>
    by_cases enters : EntersWireless wirelessNkro start ops last
    · right
      refine ⟨last, order, Nat.lt_succ_self last, enters, ?_⟩
      intro m lower upper
      omega
    · -- the operation is no entry, so what holds of those before it still holds
      have extend {m : Nat} (upper : m < last + 1)
          (earlier : m < last → ¬EntersWireless wirelessNkro start ops m) :
          ¬EntersWireless wirelessNkro start ops m := by
        cases Nat.lt_succ_iff_lt_or_eq.mp upper with
        | inl below => exact earlier below
        | inr same => exact same ▸ enters
      cases ih with
      | inl none => exact .inl fun n lower upper => extend upper (none n lower)
      | inr found =>
        obtain ⟨n, lower, upper, entry, none⟩ := found
        exact .inr ⟨n, lower, Nat.lt_succ_of_lt upper, entry,
          fun m later upper => extend upper (none m later)⟩

/-- What is saved when the excursion ends. -/
theorem saved_iff {leave back : Nat} (order : leave < back) (inside : back < ops.length) :
    (before wirelessNkro start ops back).nkro.usb = (before wirelessNkro start ops leave).keymapNkro ↔
      SavesUsb wirelessNkro start ops leave back := by
  have after_entry {n : Nat} (upper : n < back) (entry : EntersWireless wirelessNkro start ops n)
      (none : ∀ m, n < m → m < back → ¬EntersWireless wirelessNkro start ops m) :
      (before wirelessNkro start ops back).nkro.usb = (before wirelessNkro start ops n).keymapNkro := by
    rw [saved_stays (Nat.succ_le_of_lt upper) (Nat.le_of_lt inside) fun m lower below => none m lower below]
    exact saved_of_enters (upper.trans inside) entry
  constructor
  · intro saved
    cases last_entry wirelessNkro start ops (Nat.le_of_lt order) with
    | inl none =>
      rw [saved_stays (Nat.le_of_lt order) (Nat.le_of_lt inside) none] at saved
      exact .inr ⟨none, saved⟩
    | inr found =>
      obtain ⟨n, lower, upper, entry, none⟩ := found
      rw [after_entry upper entry none] at saved
      exact .inl ⟨n, lower, upper, entry, none, saved⟩
  · intro saves
    cases saves with
    | inl found =>
      obtain ⟨n, -, upper, entry, none, same⟩ := found
      rw [after_entry upper entry none, same]
    | inr wired => rw [saved_stays (Nat.le_of_lt order) (Nat.le_of_lt inside) wired.1, wired.2]

end

/-- Exactly the excursions that do not overwrite the saved setting survive. -/
theorem nkroSurvives_iff (wirelessNkro keymapNkro : Bool) (ops : List TransportOp) :
    NkroSurvives wirelessNkro (.start keymapNkro) ops ↔
      ∀ leave back, Excursion wirelessNkro (.start keymapNkro) ops leave back →
        SavesUsb wirelessNkro (.start keymapNkro) ops leave back := by
  refine forall_congr' fun leave => forall_congr' fun back => forall_congr' fun excursion => ?_
  have away := excursion.away back excursion.order (Nat.le_refl back)
  rw [restored_saved excursion.inside away excursion.returned]
  exact saved_iff excursion.order excursion.inside

/-- NKRO is switched on under USB; then Bluetooth, 2.4 GHz and back. -/
def viaBothWireless : List TransportOp :=
  [.setTransport false .usb, .magic .toggleNkro, .setTransport false .bluetooth, .setTransport false .p2p4,
    .setTransport false .usb]

theorem viaBothWireless_loses : ¬NkroSurvives true (.start false) viaBothWireless := by
  intro survives
  have excursion : Excursion true (.start false) viaBothWireless 2 4 := by
    refine ⟨by decide, by decide, by decide, ?_, by decide⟩
    intro n lower upper
    interval_cases n <;> decide
  exact absurd (survives 2 4 excursion) (by decide)

end QmkFirmware.Wireless
