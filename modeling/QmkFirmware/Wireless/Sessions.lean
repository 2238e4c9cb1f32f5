import QmkFirmware.Foundations.Runs
import QmkFirmware.Wireless.ReportBuffer

/-! # Sessions

Time is divided into periods in which the state of the link stays the same; a session is a
period in the connected state.  Each report carries the period in which it was submitted,
and the log has the period in which it was transmitted.  No keyboard report crosses from
one session into the next, unless the queue still holds one when the link is connected.
-/

namespace QmkFirmware.Wireless

open QmkFirmware.Runs

variable {α : Type}

/-- The state of the link and the number of the period. -/
structure Period where
  state : WtState
  epoch : Nat
  deriving DecidableEq, Repr

structure Transmission (α : Type) where
  report : Report (α × Period)
  during : Period
  deriving DecidableEq, Repr

structure SessionSystem (α : Type) where
  link : Link (α × Period)
  epoch : Nat
  log : List (Transmission α)

/-- The operations.  When a connection is entered, `clear_keyboard` submits the reports
`cleared`. -/
inductive SessionOp (α : Type) where
  | event (event : WirelessEvent)
  | submit (batteryCriticalLow : Bool) (now : UInt32) (report : Report α)
  | wirelessTask (batteryCriticalLow : Bool) (now : UInt32) (cleared : List (Report α))
  | bufferTask (now : UInt32)
  | ack (command status : UInt8) (connectionInterval : UInt16)
  | connect (batteryCriticalLow : Bool) (now : UInt32)
  | connectEx (batteryCriticalLow : Bool) (hostIdx : UInt8)
  | pairingEx (batteryCriticalLow : Bool) (hostIdx : UInt8)

namespace SessionSystem

def period (s : SessionSystem α) : Period := ⟨s.link.wirelessState, s.epoch⟩

/-- The link after an operation; a new state begins a new period. -/
def move (s : SessionSystem α) (link : Link (α × Period)) : SessionSystem α :=
  { s with
    link := link
    epoch := if link.wirelessState = s.link.wirelessState then s.epoch else s.epoch + 1 }

def transmit (s : SessionSystem α) (handed : Option (Report (α × Period))) : SessionSystem α :=
  { s with log := s.log ++ handed.toList.map fun report => ⟨report, s.period⟩ }

/-- The link after an operation and the report that it has handed to the transport. -/
def finish (s : SessionSystem α) (result : Link (α × Period) × Option (Report (α × Period))) :
    SessionSystem α :=
  (s.transmit result.2).move result.1

def submit (batteryCriticalLow : Bool) (now : UInt32) (s : SessionSystem α) (report : Report α) :
    SessionSystem α :=
  s.finish (s.link.submit batteryCriticalLow now ⟨report.type, (report.content, s.period)⟩)

def event (batteryCriticalLow : Bool) (now : UInt32) (cleared : List (Report α)) (s : SessionSystem α)
    (event : WirelessEvent) : SessionSystem α :=
  let s := s.move (s.link.processEvent now event)
  if event.evtType = .connected then cleared.foldl (submit batteryCriticalLow now) s else s

/-- All events are taken from the queue. -/
def takeEvents (s : SessionSystem α) : SessionSystem α := { s with link := { s.link with events := [] } }

/-- The loop of `wireless_event_task`, which empties the queue of events. -/
def eventTask (batteryCriticalLow : Bool) (now : UInt32) (cleared : List (Report α)) (s : SessionSystem α) :
    SessionSystem α :=
  s.link.events.foldl (event batteryCriticalLow now cleared) s.takeEvents

def bufferTask (now : UInt32) (s : SessionSystem α) : SessionSystem α := s.finish (s.link.bufferTask now)

def step (s : SessionSystem α) : SessionOp α → SessionSystem α
  | .event event => s.move (s.link.eventEnqueue event)
  | .submit batteryCriticalLow now report => s.submit batteryCriticalLow now report
  | .wirelessTask batteryCriticalLow now cleared =>
    (s.eventTask batteryCriticalLow now cleared).bufferTask now
  | .bufferTask now => s.bufferTask now
  | .ack command status connectionInterval =>
    s.move { s.link with buffer := s.link.buffer.ackHandler command status connectionInterval }
  | .connect batteryCriticalLow now => s.move (s.link.connect batteryCriticalLow now)
  | .connectEx batteryCriticalLow hostIdx => s.move (s.link.connectEx batteryCriticalLow hostIdx)
  | .pairingEx batteryCriticalLow hostIdx => s.move (s.link.pairingEx batteryCriticalLow hostIdx)

/-- The link after `wireless_init`. -/
def start : SessionSystem α := ⟨{ Link.fresh with wirelessState := .initialized }, 0, []⟩

def run (ops : List (SessionOp α)) : SessionSystem α := ops.foldl step start

/-- A keyboard report that is transmitted in a session was submitted in it, and one that was
submitted while a pin code was entered is transmitted before pairing is left. -/
def Confined (s : SessionSystem α) : Prop :=
  ∀ transmission ∈ s.log, transmission.report.isKeyboard = true →
    (transmission.during.state = .connected → transmission.report.content.2 = transmission.during) ∧
    (transmission.report.content.2.state = .paring → transmission.report.content.2 = transmission.during)

end SessionSystem

/-- A report that the task may still transmit. -/
def ReportBuffer.Holds (b : ReportBuffer α) (report : Report α) : Prop :=
  report ∈ b.queue ∨ b.retry ≠ 0 ∧ b.kbRpt = some report

/-- When the event begins a session, no keyboard report is left over. -/
def SessionSystem.CleanEvent (s : SessionSystem α) (event : WirelessEvent) : Prop :=
  event.evtType = .connected → s.link.wirelessState ≠ .connected →
    ∀ report, s.link.buffer.Holds report → report.isKeyboard = false

/-- Every session that the operation begins finds a clean buffer. -/
def SessionSystem.CleanStart (s : SessionSystem α) : SessionOp α → Prop
  | .wirelessTask batteryCriticalLow now cleared =>
    EveryStep (fun earlier event => (earlier.foldl (SessionSystem.event batteryCriticalLow now cleared)
      s.takeEvents).CleanEvent event) s.link.events
  | _ => True

theorem forall_holds_iff (b : ReportBuffer α) (p : Report α → Prop) :
    (∀ report, b.Holds report → p report) ↔
      (∀ report ∈ b.queue, p report) ∧ (b.retry ≠ 0 → ∀ report ∈ b.kbRpt, p report) := by
  constructor
  · intro every
    exact ⟨fun report queued => every report (.inl queued),
      fun pending report there => every report (.inr ⟨pending, there⟩)⟩
  · rintro ⟨queued, pending⟩ report (inQueue | again)
    · exact queued report inQueue
    · exact pending again.1 report again.2

instance (s : SessionSystem α) (event : WirelessEvent) : Decidable (s.CleanEvent event) :=
  decidable_of_iff (event.evtType = .connected → s.link.wirelessState ≠ .connected →
      (∀ report ∈ s.link.buffer.queue, report.isKeyboard = false) ∧
        (s.link.buffer.retry ≠ 0 → ∀ report ∈ s.link.buffer.kbRpt, report.isKeyboard = false))
    (imp_congr_right fun _ => imp_congr_right fun _ =>
      (forall_holds_iff s.link.buffer fun report => report.isKeyboard = false).symm)

instance (s : SessionSystem α) : (op : SessionOp α) → Decidable (s.CleanStart op)
  | .wirelessTask batteryCriticalLow now cleared =>
    inferInstanceAs (Decidable (EveryStep (fun earlier event =>
      (earlier.foldl (SessionSystem.event batteryCriticalLow now cleared) s.takeEvents).CleanEvent event)
        s.link.events))
  | .event _ | .submit _ _ _ | .bufferTask _ | .ack _ _ _ | .connect _ _ | .connectEx _ _
  | .pairingEx _ _ => .isTrue trivial

/-! ## One operation -/

section

variable {s : SessionSystem α}

/-- What is kept from one state to the next. -/
structure SessionSystem.Sound (s : SessionSystem α) : Prop where
  current : s.link.wirelessState = .connected → ∀ report, s.link.buffer.Holds report →
    report.isKeyboard = true → report.content.2 = s.period
  confined : s.Confined

/-- The link of a result stays in its session and holds nothing new but reports of the period. -/
def KeepsSession (s : SessionSystem α) (link : Link (α × Period)) : Prop :=
  link.wirelessState = .connected → s.link.wirelessState = .connected ∧
    ∀ report, link.buffer.Holds report → s.link.buffer.Holds report ∨ report.content.2 = s.period

/-- The report of a result is of the period, or was held in a session. -/
def HandsOver (s : SessionSystem α) (report : Report (α × Period)) : Prop :=
  report.content.2 = s.period ∨ s.link.wirelessState = .connected ∧ s.link.buffer.Holds report

theorem move_sound (sound : s.Sound) {link : Link (α × Period)} (keeps : KeepsSession s link) :
    (s.move link).Sound where
  confined := sound.confined
  current connected report holds keyboard := by
    obtain ⟨before, held⟩ := keeps connected
    have same : link.wirelessState = s.link.wirelessState := connected.trans before.symm
    have period : (s.move link).period = s.period := by
      simp [SessionSystem.move, SessionSystem.period, same]
    rw [period]
    cases held report holds with
    | inl old => exact sound.current before report old keyboard
    | inr new => exact new

theorem finish_sound (sound : s.Sound) {result : Link (α × Period) × Option (Report (α × Period))}
    (keeps : KeepsSession s result.1) (hands : ∀ report, result.2 = some report → HandsOver s report) :
    (s.finish result).Sound := by
  have logged : (s.transmit result.2).Sound := by
    refine ⟨sound.current, ?_⟩
    intro transmission member keyboard
    cases List.mem_append.mp member with
    | inl old => exact sound.confined transmission old keyboard
    | inr new =>
      obtain ⟨report, handed, rfl⟩ := List.mem_map.mp new
      -- what is handed over was submitted just now or was held since the session began
      have period : report.content.2 = s.period := by
        cases hands report (Option.mem_toList.mp handed) with
        | inl own => exact own
        | inr held => exact sound.current held.1 report held.2 keyboard
      exact ⟨fun _ => period, fun _ => period⟩
  exact move_sound logged keeps

/-! ## Submissions -/

theorem keepsSession_refl (s : SessionSystem α) : KeepsSession s s.link :=
  fun connected => ⟨connected, fun _ => .inl⟩

theorem keepsSession_of_not_connected {link : Link (α × Period)} (left : link.wirelessState ≠ .connected) :
    KeepsSession s link :=
  fun connected => absurd connected left

theorem keepsSession_connect (s : SessionSystem α) (batteryCriticalLow : Bool) (now : UInt32) :
    KeepsSession s (s.link.connect batteryCriticalLow now) := by
  rw [Link.connect]
  split
  · exact keepsSession_refl s
  · exact keepsSession_of_not_connected (by simp)

/-- A new report of the period. -/
theorem keepsSession_enqueue (s : SessionSystem α) {report : Report (α × Period)}
    (own : report.content.2 = s.period) :
    KeepsSession s { s.link with buffer := s.link.buffer.enqueue report } := by
  intro connected
  refine ⟨connected, fun other holds => ?_⟩
  simp only [ReportBuffer.enqueue] at holds
  split at holds
  · exact .inl holds
  · cases holds with
    | inl queued =>
      rw [List.mem_append, List.mem_singleton] at queued
      cases queued with
      | inl old => exact .inl (.inl old)
      | inr new => exact .inr (new ▸ own)
    | inr pending => exact .inl (.inr pending)

theorem submit_sound (sound : s.Sound) (batteryCriticalLow : Bool) (now : UInt32) (report : Report α) :
    (s.submit batteryCriticalLow now report).Sound := by
  have result : KeepsSession s
      (s.link.submit batteryCriticalLow now ⟨report.type, (report.content, s.period)⟩).1 ∧
      ∀ handed, (s.link.submit batteryCriticalLow now ⟨report.type, (report.content, s.period)⟩).2 =
        some handed → HandsOver s handed := by
    rw [Link.submit]
    split
    · -- keyboard reports are only queued
      simp only [Link.sendKeyboard]
      split_ifs
      · exact ⟨keepsSession_refl s, by simp⟩
      · exact ⟨keepsSession_refl s, by simp⟩
      · exact ⟨keepsSession_enqueue s rfl, by simp⟩
      · exact ⟨keepsSession_connect s _ now, by simp⟩
      · exact ⟨keepsSession_refl s, by simp⟩
    · simp only [Link.sendNkro]
      split_ifs
      · exact ⟨keepsSession_refl s, by simp⟩
      · exact ⟨keepsSession_refl s, by simp⟩
      · -- queued and handed over in the same period
        refine ⟨keepsSession_enqueue s rfl, fun handed same => .inl ?_⟩
        cases same
        rfl
      · exact ⟨keepsSession_connect s _ now, by simp⟩
      · exact ⟨keepsSession_refl s, by simp⟩
    · simp only [Link.sendExtraConsumer, Link.sendConsumer]
      split_ifs
      · exact ⟨keepsSession_refl s, by simp⟩
      · refine ⟨fun connected => ⟨connected, fun _ => .inl⟩, fun handed same => .inl ?_⟩
        cases same
        rfl
      · exact ⟨keepsSession_enqueue s rfl, by simp⟩
      · exact ⟨keepsSession_connect s _ now, by simp⟩
      · exact ⟨keepsSession_refl s, by simp⟩
  exact finish_sound sound result.1 result.2

/-! ## Tasks and events -/

/-- The task holds no report that it did not hold before, and hands over what it held. -/
theorem task_holds (now : UInt32) (b : ReportBuffer α) :
    (∀ report, (b.task now).1.Holds report → b.Holds report) ∧
    ∀ report, (b.task now).2 = some report → b.Holds report := by
  have step := b.task_step now
  generalize b.task now = result at step ⊢
  cases step with
  | idle => exact ⟨fun _ => id, by simp⟩
  | sent report takes =>
    have queued : report ∈ b.queue := List.mem_of_mem_head? takes.2.2
    constructor
    · rintro other (later | pending)
      · exact .inl (List.mem_of_mem_tail later)
      · cases pending.2
        exact .inl queued
    · rintro other ⟨⟩
      exact .inl queued
  | dropped report takes =>
    constructor
    · rintro other (later | pending)
      · exact .inl (List.mem_of_mem_tail later)
      · exact absurd takes.1 pending.1
    · simp
  | repeated _ repeats =>
    constructor
    · rintro other (queued | pending)
      · exact .inl queued
      · exact .inr ⟨repeats.1, pending.2⟩
    · exact fun report there => .inr ⟨repeats.1, there⟩

theorem bufferTask_sound (sound : s.Sound) (now : UInt32) : (s.bufferTask now).Sound := by
  rw [SessionSystem.bufferTask, Link.bufferTask]
  split
  · next connected =>
    obtain ⟨kept, handed⟩ := task_holds now s.link.buffer
    exact finish_sound sound (fun _ => ⟨connected, fun report holds => .inl (kept report holds)⟩)
      fun report there => .inr ⟨connected, handed report there⟩
  · exact finish_sound sound (keepsSession_refl s) (by simp)

theorem processEvent_keepsSession (s : SessionSystem α) (now : UInt32) {event : WirelessEvent}
    (other : event.evtType ≠ .connected) : KeepsSession s (s.link.processEvent now event) := by
  rw [Link.processEvent]
  split
  · exact keepsSession_of_not_connected (by simp)
  · next connected => exact absurd connected other
  · exact keepsSession_of_not_connected (by simp)
  · exact keepsSession_of_not_connected (by simp)
  · exact keepsSession_of_not_connected (by simp)
  · exact fun connected => ⟨connected, fun _ => .inl⟩
  · exact fun connected => ⟨connected, fun _ => .inl⟩
  · -- only pairing is left for sleep
    intro connected
    by_cases paring : s.link.wirelessState = .paring
    · simp [paring] at connected
    · exact ⟨by simpa [paring] using connected, fun _ => .inl⟩
  · exact fun connected => ⟨connected, fun _ => .inl⟩
  · exact fun connected => ⟨connected, fun _ => .inl⟩
  · exact fun connected => ⟨connected, fun _ => .inl⟩
  · exact keepsSession_refl s

theorem event_sound (sound : s.Sound) (batteryCriticalLow : Bool) (now : UInt32) (cleared : List (Report α))
    {event : WirelessEvent} (clean : s.CleanEvent event) :
    (s.event batteryCriticalLow now cleared event).Sound := by
  rw [SessionSystem.event]
  by_cases connects : event.evtType = .connected
  · have entered : (s.move (s.link.processEvent now event)).Sound := by
      have link : s.link.processEvent now event =
          { s.link with wirelessState := .connected, hostIndex := event.params } := by
        rw [Link.processEvent, connects]
      rw [link]
      -- a second connected event does not begin a session
      by_cases already : s.link.wirelessState = .connected
      · exact move_sound sound fun _ => ⟨already, fun _ => .inl⟩
      · refine ⟨fun _ report holds keyboard => ?_, sound.confined⟩
        have left := clean connects already report holds
        rw [keyboard] at left
        cases left
    rw [if_pos connects]
    exact @foldl_invariant _ _ (SessionSystem.submit batteryCriticalLow now) SessionSystem.Sound
      (fun _ report sound => submit_sound sound batteryCriticalLow now report) _ entered cleared
  · rw [if_neg connects]
    exact move_sound sound (processEvent_keepsSession s now connects)

theorem step_sound (sound : s.Sound) {op : SessionOp α} (clean : s.CleanStart op) : (s.step op).Sound := by
  cases op with
  | event event => exact move_sound sound fun connected => ⟨connected, fun _ => .inl⟩
  | submit batteryCriticalLow now report => exact submit_sound sound batteryCriticalLow now report
  | wirelessTask batteryCriticalLow now cleared =>
    have emptied : s.takeEvents.Sound := ⟨sound.current, sound.confined⟩
    have events : (s.eventTask batteryCriticalLow now cleared).Sound :=
      foldl_everyStep (fun earlier event =>
          (earlier.foldl (SessionSystem.event batteryCriticalLow now cleared) s.takeEvents).CleanEvent event)
        (fun _ (s : SessionSystem α) => s.Sound) emptied
        (fun _ _ clean sound => event_sound sound batteryCriticalLow now cleared clean) _ clean
    exact bufferTask_sound events now
  | bufferTask now => exact bufferTask_sound sound now
  | ack command status interval =>
    obtain ⟨queue, kbRpt⟩ := s.link.buffer.ackHandler_queue command status interval
    refine move_sound sound fun connected => ⟨connected, fun report holds => .inl ?_⟩
    cases holds with
    | inl queued => exact .inl (queue ▸ queued)
    | inr pending =>
      exact .inr ⟨s.link.buffer.ackHandler_retry command status interval pending.1,
        kbRpt.symm.trans pending.2⟩
  | connect batteryCriticalLow now => exact move_sound sound (keepsSession_connect s batteryCriticalLow now)
  | connectEx batteryCriticalLow hostIdx =>
    refine move_sound sound ?_
    rw [Link.connectEx]
    split_ifs
    · exact keepsSession_refl s
    · exact keepsSession_refl s
    · exact keepsSession_of_not_connected (by simp)
    · exact keepsSession_of_not_connected (by simp)
  | pairingEx batteryCriticalLow hostIdx =>
    refine move_sound sound ?_
    rw [Link.pairingEx]
    split_ifs
    · exact keepsSession_refl s
    · exact keepsSession_of_not_connected (by simp)

end

/-! ## Runs -/

/-- In every run in which each session begins with a buffer that holds no keyboard report. -/
theorem reports_stay_in_session (ops : List (SessionOp α))
    (clean : EveryStep (fun earlier op => (SessionSystem.run earlier).CleanStart op) ops) (n : Nat) :
    (SessionSystem.run (ops.take n)).Confined := by
  have initial : (SessionSystem.start : SessionSystem α).Sound :=
    ⟨fun connected => (by cases connected), fun _ member => absurd member List.not_mem_nil⟩
  have sound : (SessionSystem.run (ops.take n)).Sound :=
    foldl_everyStep (fun earlier op => (SessionSystem.run earlier).CleanStart op)
      (fun _ (s : SessionSystem α) => s.Sound) initial
      (fun _ _ clean sound => step_sound sound clean) (ops.take n) (clean.take n)
  exact sound.confined

/-- A report is submitted in one session and another in the next, with a disconnection
between them. -/
def twoSessions : List (SessionOp Nat) :=
  [.event ⟨.connected, 1⟩, .wirelessTask false 10 [], .submit false 11 ⟨.kb, 4⟩, .event ⟨.disconnected, 1⟩,
    .wirelessTask false 12 [], .event ⟨.connected, 1⟩, .wirelessTask false 20 [], .submit false 30 ⟨.kb, 5⟩,
    .wirelessTask false 40 []]

theorem twoSessions_confined :
    (SessionSystem.run twoSessions).log = [⟨⟨.kb, (5, ⟨.connected, 3⟩)⟩, ⟨.connected, 3⟩⟩] ∧
    (SessionSystem.run (twoSessions.take 9)).Confined :=
  ⟨by decide, reports_stay_in_session twoSessions (by decide) 9⟩

/-- A digit of the pin code is typed in pairing and transmitted in the session that follows. -/
def pinCode : List (SessionOp Nat) :=
  [.event ⟨.discoverable, 1⟩, .event ⟨.btPincodeEntry, 0⟩, .wirelessTask false 10 [],
    .submit false 20 ⟨.kb, 0x1E⟩, .event ⟨.connected, 1⟩, .wirelessTask false 30 []]

theorem pinCode_crosses : ¬(SessionSystem.run pinCode).Confined := by
  intro confined
  have log : (SessionSystem.run pinCode).log = [⟨⟨.kb, (0x1E, ⟨.paring, 1⟩)⟩, ⟨.connected, 2⟩⟩] := by decide
  have crossed := confined ⟨⟨.kb, (0x1E, ⟨.paring, 1⟩)⟩, ⟨.connected, 2⟩⟩ (by simp [log]) rfl
  exact absurd (crossed.1 rfl) (by decide)

end QmkFirmware.Wireless
