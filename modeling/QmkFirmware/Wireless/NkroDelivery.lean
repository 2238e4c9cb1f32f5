import QmkFirmware.Foundations.Runs
import QmkFirmware.Foundations.Stutter
import QmkFirmware.Wireless.ReportBuffer

/-! # Delivery of NKRO reports

An NKRO report is handed to the transport when it is submitted, and it is queued as well.
What the task then takes from the queue is new to the host only by accident: the host sees
the reports as they were submitted exactly as long as the task repeats the last one.
-/

namespace QmkFirmware.Wireless

open QmkFirmware.Runs QmkFirmware.Stutter

variable {α : Type} [DecidableEq α]

inductive NkroOp (α : Type) where
  | send (batteryCriticalLow : Bool) (now : UInt32) (report : α)
  | task (now : UInt32)
  | ack (command status : UInt8) (connectionInterval : UInt16)

/-- The link with the reports that were submitted and those that the transport was handed. -/
structure NkroSystem (α : Type) where
  link : Link α
  submitted : List α
  handed : List α

def NkroSystem.hand (s : NkroSystem α) (result : Link α × Option (Report α)) : NkroSystem α :=
  { s with link := result.1, handed := s.handed ++ result.2.toList.map Report.content }

def NkroSystem.step (s : NkroSystem α) : NkroOp α → NkroSystem α
  | .send batteryCriticalLow now report =>
    -- with a critically low battery nothing is sent
    let submitted := if batteryCriticalLow then s.submitted else s.submitted ++ [report]
    { s with submitted := submitted }.hand (s.link.sendNkro batteryCriticalLow now report)
  | .task now => s.hand (s.link.bufferTask now)
  | .ack command status connectionInterval =>
    { s with link := { s.link with buffer := s.link.buffer.ackHandler command status connectionInterval } }

/-- A link that is connected, and no report so far. -/
def NkroSystem.start (link : Link α) : NkroSystem α := ⟨{ link with wirelessState := .connected }, [], []⟩

def NkroSystem.run (link : Link α) (ops : List (NkroOp α)) : NkroSystem α :=
  ops.foldl NkroSystem.step (.start link)

/-- Up to repetitions, the transport was handed what was submitted. -/
def NkroSystem.Delivered (s : NkroSystem α) : Prop :=
  s.handed.destutter (· ≠ ·) = s.submitted.destutter (· ≠ ·)

instance (s : NkroSystem α) : Decidable s.Delivered :=
  inferInstanceAs (Decidable (s.handed.destutter _ = s.submitted.destutter _))

/-- If the task is about to hand a report to the transport, it is the last one submitted. -/
def NkroSystem.RepeatsLast (s : NkroSystem α) : NkroOp α → Prop
  | .task now => ∀ report,
    s.link.buffer.Takes now report ∧ 2 < now ∨
      s.link.buffer.Repeats now ∧ s.link.buffer.kbRpt = some report →
    s.submitted.getLast? = some report.content
  | .send _ _ _ | .ack _ _ _ => True

section

variable {s : NkroSystem α}

omit [DecidableEq α] in
theorem NkroSystem.step_connected (connected : s.link.wirelessState = .connected) (op : NkroOp α) :
    (s.step op).link.wirelessState = .connected := by
  cases op with
  | send batteryCriticalLow now report =>
    simp only [NkroSystem.step, NkroSystem.hand, Link.sendNkro]
    split_ifs with battery pairing accepts
    · exact connected
    · exact connected
    · exact connected
    · exact absurd (.inl connected) accepts
    · exact connected
  | task now =>
    simp only [NkroSystem.step, NkroSystem.hand, Link.bufferTask, if_pos connected]
    exact connected
  | ack command status connectionInterval => exact connected

/-- A submission is handed over at once. -/
theorem NkroSystem.send_delivered (connected : s.link.wirelessState = .connected)
    (delivered : s.Delivered) (batteryCriticalLow : Bool) (now : UInt32) (report : α) :
    (s.step (.send batteryCriticalLow now report)).Delivered := by
  cases batteryCriticalLow with
  | true => simpa [NkroSystem.step, NkroSystem.hand, Link.sendNkro, NkroSystem.Delivered] using delivered
  | false =>
    have accepts : s.link.Accepts := .inl connected
    have handed := destutter_concat_congr delivered report
    simpa [NkroSystem.step, NkroSystem.hand, Link.sendNkro, connected, accepts, NkroSystem.Delivered]
      using handed

/-- What the task hands over is delivered already exactly if it was submitted last. -/
theorem NkroSystem.hand_delivered (delivered : s.Delivered) (link : Link α) (report : Report α) :
    (s.hand (link, some report)).Delivered ↔ s.submitted.getLast? = some report.content := by
  -- equal up to repetitions, so the last ones are equal
  have last : s.handed.getLast? = s.submitted.getLast? := by
    rw [← getLast?_destutter s.handed, delivered, getLast?_destutter]
  rw [NkroSystem.Delivered, NkroSystem.hand, ← last, ← destutter_concat_eq_iff, delivered]
  simp

theorem NkroSystem.task_delivered (connected : s.link.wirelessState = .connected)
    (delivered : s.Delivered) (now : UInt32) :
    (s.step (.task now)).Delivered ↔ s.RepeatsLast (.task now) := by
  have nothing (link : Link α) : (s.hand (link, none)).Delivered := by
    simpa [NkroSystem.Delivered, NkroSystem.hand] using delivered
  rw [NkroSystem.step, Link.bufferTask, if_pos connected, NkroSystem.RepeatsLast]
  have step := s.link.buffer.task_step now
  generalize s.link.buffer.task now = result at step ⊢
  cases step with
  | idle noTake noRepeat =>
    refine iff_of_true (nothing _) ?_
    rintro report (takes | repeats)
    · exact absurd takes.1 (noTake report)
    · exact absurd repeats.1 noRepeat
  | sent report takes noRepeat started =>
    rw [hand_delivered delivered]
    constructor
    · rintro last other (taken | repeats)
      · rwa [Option.some.inj (taken.1.2.2.symm.trans takes.2.2)]
      · exact absurd repeats.1 noRepeat
    · intro every
      exact every report (.inl ⟨takes, started⟩)
  | dropped report takes noRepeat early =>
    refine iff_of_true (nothing _) ?_
    rintro other (taken | repeats)
    · exact absurd taken.2 early
    · exact absurd repeats.1 noRepeat
  | repeated noTake repeats =>
    cases pending : s.link.buffer.kbRpt with
    | none =>
      refine iff_of_true (nothing _) ?_
      rintro other (taken | again)
      · exact absurd taken.1 (noTake other)
      · cases again.2
    | some report =>
      rw [hand_delivered delivered]
      constructor
      · rintro last other (taken | again)
        · exact absurd taken.1 (noTake other)
        · rwa [← Option.some.inj again.2]
      · intro every
        exact every report (.inr ⟨repeats, rfl⟩)

end

/-- In every run on a connected link. -/
theorem nkro_delivered_iff (link : Link α) (ops : List (NkroOp α)) :
    (∀ n, (NkroSystem.run link (ops.take n)).Delivered) ↔
      EveryStep (fun earlier op => (NkroSystem.run link earlier).RepeatsLast op) ops := by
  have initial : (NkroSystem.start link).Delivered := rfl
  refine forall_take_iff_everyStep (fun s => s.link.wirelessState = .connected) NkroSystem.Delivered
    NkroSystem.RepeatsLast rfl initial (fun s op connected => NkroSystem.step_connected connected op) ?_ ops
  intro s op connected delivered
  cases op with
  | send batteryCriticalLow now report =>
    exact iff_of_true (NkroSystem.send_delivered connected delivered batteryCriticalLow now report) trivial
  | task now => exact NkroSystem.task_delivered connected delivered now
  | ack command status connectionInterval => exact iff_of_true delivered trivial

/-- Two reports, and then the task takes the first one from the queue. -/
def pressAndRelease : List (NkroOp Nat) := [.send false 10 1, .send false 11 0, .task 20]

theorem pressAndRelease_replays : ¬(NkroSystem.run .fresh pressAndRelease).Delivered := by
  decide

end QmkFirmware.Wireless
