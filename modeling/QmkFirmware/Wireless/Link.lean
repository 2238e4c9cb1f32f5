import Mathlib.Data.UInt
import QmkFirmware.Wireless.Events

/-! # The wireless link and its report buffer

A shallow embedding of `report_buffer.c`, of the state machine of `wireless.c` and of the
acknowledgements of `lkbt51.c`.  The code never looks at the contents of a report, so that
they are of any type.  The ring buffers are lists; NKRO is enabled for wireless transports,
and the module implements all functions of the transport.
-/

namespace QmkFirmware.Wireless

variable {α : Type}

inductive ReportType where
  | kb
  | nkro
  | consumer
  deriving DecidableEq, Repr

structure Report (α : Type) where
  type : ReportType
  content : α
  deriving DecidableEq, Repr

def Report.isKeyboard (report : Report α) : Bool :=
  match report.type with
  | .kb | .nkro => true
  | .consumer => false

/-! ## Report buffer -/

/-- The variables of `report_buffer.c`; there is no `kbRpt` before the first report. -/
structure ReportBuffer (α : Type) where
  queue : List (Report α)
  kbRpt : Option (Report α)
  retry : UInt8
  reportTimer : UInt32
  retryTime : UInt32
  reportInterval : UInt8

/-- One place of the ring stays free. -/
def reportBufferCapacity : Nat := 255
def reportRetryCount : UInt8 := 30

def timerElapsed (now last : UInt32) : UInt32 := now - last

namespace ReportBuffer

def init (now : UInt32) (b : ReportBuffer α) : ReportBuffer α :=
  { b with queue := [], retry := 0, reportTimer := now }

def enqueue (report : Report α) (b : ReportBuffer α) : ReportBuffer α :=
  if b.queue.length = reportBufferCapacity then b else { b with queue := b.queue ++ [report] }

def nextInterval (now : UInt32) (b : ReportBuffer α) : Bool :=
  b.reportInterval.toUInt32 < timerElapsed now b.reportTimer

/-- The buffer after the task and the report that the task hands to the transport. -/
def task (now : UInt32) (b : ReportBuffer α) : ReportBuffer α × Option (Report α) :=
  if (b.queue ≠ [] ∨ b.retry ≠ 0) ∧ b.nextInterval now then
    if b.retry = 0 then
      match b.queue with
      | [] => (b, none)
      | report :: queue =>
        let b := { b with queue := queue, kbRpt := some report }
        -- at the very start of the clock the report is taken and not sent
        if 2 < now then
          ({ b with retry := reportRetryCount, retryTime := now, reportTimer := now }, some report)
        else (b, none)
    -- no acknowledgement for more than two milliseconds
    else if 2 < timerElapsed now b.retryTime then
      ({ b with retry := b.retry - 1, retryTime := now, reportTimer := now }, b.kbRpt)
    else (b, none)
  else (b, none)

/-- The commands that carry reports. -/
def isReportCommand (command : UInt8) : Bool :=
  command ∈ [0x11, 0x12, 0x13, 0x14, 0x16]

/-- The acknowledgement of a command with a status. -/
def ackHandler (command status : UInt8) (connectionInterval : UInt16) (b : ReportBuffer α) :
    ReportBuffer α :=
  if isReportCommand command then
    if status = 0 then { b with retry := 0, reportInterval := connectionInterval.toUInt8 }
    else if status = 2 then { b with retry := 0, reportInterval := (connectionInterval + 5).toUInt8 }
    -- the module is busy; the report is repeated later
    else if status = 3 then { b with reportInterval := (connectionInterval + 10).toUInt8 }
    else b
  else b

end ReportBuffer

/-! ## Link -/

inductive WtState where
  | reset
  | initialized
  | disconnected
  | connected
  | paring
  | reconnecting
  | suspend
  deriving DecidableEq, Repr

structure Link (α : Type) where
  wirelessState : WtState
  pincodeEntry : Bool
  hostIndex : UInt8
  ledState : UInt8
  reportProtocol : Bool
  events : List WirelessEvent
  buffer : ReportBuffer α

/-- A link at start, with the default interval of 2.4 GHz. -/
def Link.fresh : Link α where
  wirelessState := .reset
  pincodeEntry := false
  hostIndex := 0
  ledState := 0
  reportProtocol := true
  events := []
  buffer := ⟨[], none, 0, 0, 0, 1⟩

def eventQueueCapacity : Nat := 15

namespace Link

/-- When the ring is full, the oldest event is overwritten. -/
def eventEnqueue (event : WirelessEvent) (link : Link α) : Link α :=
  let events := if link.events.length = eventQueueCapacity then link.events.tail else link.events
  { link with events := events ++ [event] }

/-! ### Connections -/

def connect (batteryCriticalLow : Bool) (now : UInt32) (link : Link α) : Link α :=
  if batteryCriticalLow ∨ now = 0 then link else { link with wirelessState := .reconnecting }

def connectEx (batteryCriticalLow : Bool) (hostIdx : UInt8) (link : Link α) : Link α :=
  if batteryCriticalLow then link
  else if hostIdx ≠ 0 then
    if link.hostIndex = hostIdx ∧ link.wirelessState = .connected then link
    else { link with hostIndex := hostIdx, ledState := 0, wirelessState := .reconnecting }
  else { link with wirelessState := .reconnecting }

def pairingEx (batteryCriticalLow : Bool) (hostIdx : UInt8) (link : Link α) : Link α :=
  if batteryCriticalLow then link else { link with wirelessState := .paring, hostIndex := hostIdx }

/-! ### Submissions -/

/-- Reports are accepted when connected, and in pairing while a pin code is entered. -/
def Accepts (link : Link α) : Prop :=
  link.wirelessState = .connected ∨ link.wirelessState = .paring ∧ link.pincodeEntry = true

instance (link : Link α) : Decidable link.Accepts := inferInstanceAs (Decidable (_ ∨ _))

def sendKeyboard (batteryCriticalLow : Bool) (now : UInt32) (report : α) (link : Link α) :
    Link α × Option (Report α) :=
  if batteryCriticalLow then (link, none)
  else if link.wirelessState = .paring ∧ link.pincodeEntry = false then (link, none)
  else if link.Accepts then ({ link with buffer := link.buffer.enqueue ⟨.kb, report⟩ }, none)
  else if link.wirelessState ≠ .reset then (link.connect batteryCriticalLow now, none)
  else (link, none)

/-- An NKRO report is queued and handed over at once. -/
def sendNkro (batteryCriticalLow : Bool) (now : UInt32) (report : α) (link : Link α) :
    Link α × Option (Report α) :=
  if batteryCriticalLow then (link, none)
  else if link.wirelessState = .paring ∧ link.pincodeEntry = false then (link, none)
  else if link.Accepts then
    ({ link with buffer := link.buffer.enqueue ⟨.nkro, report⟩ }, some ⟨.nkro, report⟩)
  else if link.wirelessState ≠ .reset then (link.connect batteryCriticalLow now, none)
  else (link, none)

def sendConsumer (batteryCriticalLow : Bool) (now : UInt32) (data : α) (link : Link α) :
    Link α × Option (Report α) :=
  if link.wirelessState = .connected then
    if link.buffer.queue = [] ∧ link.buffer.nextInterval now then
      ({ link with buffer := { link.buffer with reportTimer := now } }, some ⟨.consumer, data⟩)
    else ({ link with buffer := link.buffer.enqueue ⟨.consumer, data⟩ }, none)
  else if link.wirelessState ≠ .reset then (link.connect batteryCriticalLow now, none)
  else (link, none)

/-- Consumer reports come through `wireless_send_extra`. -/
def sendExtraConsumer (batteryCriticalLow : Bool) (now : UInt32) (data : α) (link : Link α) :
    Link α × Option (Report α) :=
  if batteryCriticalLow then (link, none) else link.sendConsumer batteryCriticalLow now data

/-- A report on its way from the host driver. -/
def submit (batteryCriticalLow : Bool) (now : UInt32) (report : Report α) (link : Link α) :
    Link α × Option (Report α) :=
  match report.type with
  | .kb => link.sendKeyboard batteryCriticalLow now report.content
  | .nkro => link.sendNkro batteryCriticalLow now report.content
  | .consumer => link.sendExtraConsumer batteryCriticalLow now report.content

/-! ### Events -/

/-- What an event does to the link, apart from the reports that `clear_keyboard` submits
when the connected state is entered. -/
def processEvent (now : UInt32) (event : WirelessEvent) (link : Link α) : Link α :=
  match event.evtType with
  | .reset => { link with wirelessState := .reset }
  | .connected => { link with wirelessState := .connected, hostIndex := event.params }
  | .discoverable => { link with wirelessState := .paring, hostIndex := event.params }
  | .reconnecting => { link with wirelessState := .reconnecting, hostIndex := event.params }
  | .disconnected =>
    { link with wirelessState := .disconnected, ledState := 0, buffer := link.buffer.init now }
  | .btPincodeEntry => { link with pincodeEntry := true }
  | .exitBtPincodeEntry => { link with pincodeEntry := false }
  | .sleep =>
    { link with
      ledState := 0
      wirelessState := if link.wirelessState = .paring then .suspend else link.wirelessState }
  | .hidIndicator => { link with ledState := event.params }
  | .hidSetProtocol => { link with reportProtocol := false }
  | .conectionInterval => { link with buffer := { link.buffer with reportInterval := event.params } }
  | .none => link

/-- The report buffer works only while the link is connected. -/
def bufferTask (now : UInt32) (link : Link α) : Link α × Option (Report α) :=
  if link.wirelessState = .connected then
    ({ link with buffer := (link.buffer.task now).1 }, (link.buffer.task now).2)
  else (link, none)

end Link

end QmkFirmware.Wireless
