import Mathlib.Tactic.Common

/-! # Wireless events -/

namespace QmkFirmware.Wireless

inductive EventType where
  | none
  | reset
  | discoverable
  | reconnecting
  | connected
  | disconnected
  | btPincodeEntry
  | exitBtPincodeEntry
  | sleep
  | hidSetProtocol
  | hidIndicator
  | conectionInterval
  deriving DecidableEq, Repr

/-- All members of the union of parameters are one byte. -/
structure WirelessEvent where
  evtType : EventType
  params : UInt8
  deriving DecidableEq, Repr

end QmkFirmware.Wireless
