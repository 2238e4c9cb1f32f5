import QmkFirmware.Wireless.Link

/-! # What the task of the report buffer can do

The task leaves the buffer alone, takes the first report from the queue, or repeats the
report that waits for its acknowledgement.
-/

namespace QmkFirmware.Wireless.ReportBuffer

variable {α : Type}

/-- The task takes a report from the queue. -/
def Takes (now : UInt32) (b : ReportBuffer α) (report : Report α) : Prop :=
  b.retry = 0 ∧ b.nextInterval now = true ∧ b.queue.head? = some report

/-- The task repeats the pending report. -/
def Repeats (now : UInt32) (b : ReportBuffer α) : Prop :=
  b.retry ≠ 0 ∧ b.nextInterval now = true ∧ 2 < timerElapsed now b.retryTime

instance (now : UInt32) (b : ReportBuffer α) : Decidable (b.Repeats now) :=
  inferInstanceAs (Decidable (_ ∧ _))

/-- The buffer after a report was taken from the queue. -/
def taken (b : ReportBuffer α) (report : Report α) : ReportBuffer α :=
  { b with queue := b.queue.tail, kbRpt := some report }

/-- The buffer after a report was handed to the transport. -/
def handed (now : UInt32) (retry : UInt8) (b : ReportBuffer α) : ReportBuffer α :=
  { b with retry := retry, retryTime := now, reportTimer := now }

/-- The cases of the task, with the buffer after it and the report that it hands over. -/
inductive TaskStep (now : UInt32) (b : ReportBuffer α) : ReportBuffer α × Option (Report α) → Prop where
  | idle (noTake : ∀ report, ¬b.Takes now report) (noRepeat : ¬b.Repeats now) : TaskStep now b (b, none)
  | sent (report : Report α) (takes : b.Takes now report) (noRepeat : ¬b.Repeats now) (started : 2 < now) :
      TaskStep now b ((b.taken report).handed now reportRetryCount, some report)
  /-- The report is lost: it has left the queue, and is neither handed over nor repeated. -/
  | dropped (report : Report α) (takes : b.Takes now report) (noRepeat : ¬b.Repeats now) (early : ¬2 < now) :
      TaskStep now b (b.taken report, none)
  | repeated (noTake : ∀ report, ¬b.Takes now report) (repeats : b.Repeats now) :
      TaskStep now b (b.handed now (b.retry - 1), b.kbRpt)

theorem task_step (now : UInt32) (b : ReportBuffer α) : TaskStep now b (b.task now) := by
  rw [task]
  split
  · next active =>
    obtain ⟨waiting, interval⟩ := active
    -- without a retry the report comes from the queue
    by_cases fresh : b.retry = 0
    · have waits := waiting.resolve_right (not_not.mpr fresh)
      have noRepeat : ¬b.Repeats now := fun repeats => repeats.1 fresh
      cases queued : b.queue with
      | nil => exact absurd queued waits
      | cons report queue =>
        have takes : b.Takes now report := ⟨fresh, interval, by rw [queued]; rfl⟩
        have rest : queue = b.queue.tail := by rw [queued, List.tail_cons]
        simp only [if_pos fresh, rest]
        split
        · next started => exact .sent report takes noRepeat started
        · next early => exact .dropped report takes noRepeat early
    · rw [if_neg fresh]
      have noTake : ∀ report, ¬b.Takes now report := fun _ takes => fresh takes.1
      split
      · next expired => exact .repeated noTake ⟨fresh, interval, expired⟩
      · next pending => exact .idle noTake fun repeats => pending repeats.2.2
  · next inactive =>
    refine .idle ?_ fun repeats => inactive ⟨.inr repeats.1, repeats.2.1⟩
    intro report takes
    refine inactive ⟨.inl ?_, takes.2.1⟩
    intro empty
    have head := takes.2.2
    rw [empty] at head
    cases head

theorem ackHandler_queue (command status : UInt8) (interval : UInt16) (b : ReportBuffer α) :
    (b.ackHandler command status interval).queue = b.queue ∧
    (b.ackHandler command status interval).kbRpt = b.kbRpt := by
  rw [ackHandler]
  split_ifs <;> exact ⟨rfl, rfl⟩

/-- An acknowledgement only ever ends the repetitions. -/
theorem ackHandler_retry (command status : UInt8) (interval : UInt16) (b : ReportBuffer α)
    (pending : (b.ackHandler command status interval).retry ≠ 0) : b.retry ≠ 0 := by
  rw [ackHandler] at pending
  split_ifs at pending
  · exact absurd rfl pending
  · exact absurd rfl pending
  · exact pending
  · exact pending
  · exact pending

end QmkFirmware.Wireless.ReportBuffer
