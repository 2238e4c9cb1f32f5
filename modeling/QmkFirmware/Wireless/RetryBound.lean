import QmkFirmware.Foundations.Runs
import QmkFirmware.Wireless.ReportBuffer

/-! # How often a report is transmitted

Every report that leaves the queue is kept with the reports that were handed to the transport until
the next one left it.  A hand-over either fills the retry counter or takes one from it, so that the
counter and the hand-overs of the last report always add up to the same number.
-/

namespace QmkFirmware.Wireless

open QmkFirmware.Runs ReportBuffer

variable {α : Type}

inductive RetryOp (α : Type) where
  | enqueue (report : Report α)
  | task (now : UInt32)
  | ack (command status : UInt8) (connectionInterval : UInt16)

/-- A report that left the queue, and what was handed over before the next one did. -/
structure Dequeued (α : Type) where
  report : Report α
  handed : List (Report α)

/-- The report itself was handed over, at least once and not more often than it may be repeated. -/
structure Dequeued.Bounded (dequeued : Dequeued α) : Prop where
  own : ∀ report ∈ dequeued.handed, report = dequeued.report
  atLeast : 1 ≤ dequeued.handed.length
  atMost : dequeued.handed.length ≤ 1 + reportRetryCount.toNat

/-- The buffer of a connected link, and the reports that left its queue, the last one first. -/
structure RetrySystem (α : Type) where
  buffer : ReportBuffer α
  history : List (Dequeued α)

/-- A report that is handed over counts for the one that left the queue last. -/
def hand : Option (Report α) → List (Dequeued α) → List (Dequeued α)
  | some report, last :: earlier => { last with handed := last.handed ++ [report] } :: earlier
  | _, history => history

def RetrySystem.step (s : RetrySystem α) : RetryOp α → RetrySystem α
  | .enqueue report => { s with buffer := s.buffer.enqueue report }
  | .task now =>
    let result := s.buffer.task now
    let dequeued := if result.1.queue.length < s.buffer.queue.length then s.buffer.queue.head? else none
    ⟨result.1, hand result.2 ((dequeued.map fun report => ⟨report, []⟩).toList ++ s.history)⟩
  | .ack command status connectionInterval =>
    { s with buffer := s.buffer.ackHandler command status connectionInterval }

def RetrySystem.run (buffer : ReportBuffer α) (boot : UInt32) (ops : List (RetryOp α)) : RetrySystem α :=
  ops.foldl RetrySystem.step ⟨buffer.init boot, []⟩

/-- Every report that has left the queue was transmitted as often as it should be. -/
def RetrySystem.Bounded (s : RetrySystem α) : Prop := ∀ dequeued ∈ s.history, dequeued.Bounded

/-- The task takes no report from the queue in the first milliseconds of the clock. -/
def RetrySystem.NotEarly (s : RetrySystem α) : RetryOp α → Prop
  | .task now => ∀ report, s.buffer.Takes now report → 2 < now
  | .enqueue _ | .ack _ _ _ => True

/-- While a retry is pending, it is for the last report, and the counter knows how often it was
handed over. -/
def RetrySystem.Counted (s : RetrySystem α) : Prop :=
  s.buffer.retry ≠ 0 → ∃ last earlier, s.history = last :: earlier ∧ s.buffer.kbRpt = some last.report ∧
    last.handed.length + s.buffer.retry.toNat = 1 + reportRetryCount.toNat

namespace RetrySystem

variable {s : RetrySystem α}

theorem taken_shorter {now : UInt32} {b : ReportBuffer α} {report : Report α} (takes : b.Takes now report) :
    (b.taken report).queue.length < b.queue.length := by
  have head := takes.2.2
  cases queued : b.queue with
  | nil => rw [queued] at head; exact nomatch head
  | cons first rest =>
    rw [taken]
    dsimp only
    rw [queued]
    exact Nat.lt_succ_self _

/-- The cases of the task, with what they do to the history. -/
inductive Handled (now : UInt32) (s : RetrySystem α) : RetrySystem α → Prop where
  | idle (noTake : ∀ report, ¬ s.buffer.Takes now report) : Handled now s s
  | sent (report : Report α) (takes : s.buffer.Takes now report) (started : 2 < now) :
      Handled now s ⟨(s.buffer.taken report).handed now reportRetryCount, ⟨report, [report]⟩ :: s.history⟩
  | dropped (report : Report α) (takes : s.buffer.Takes now report) (early : ¬ 2 < now) :
      Handled now s ⟨s.buffer.taken report, ⟨report, []⟩ :: s.history⟩
  | repeated (noTake : ∀ report, ¬ s.buffer.Takes now report) (repeats : s.buffer.Repeats now) :
      Handled now s ⟨s.buffer.handed now (s.buffer.retry - 1), hand s.buffer.kbRpt s.history⟩

theorem step_task (now : UInt32) : Handled now s (s.step (.task now)) := by
  rw [RetrySystem.step]
  have step := s.buffer.task_step now
  generalize s.buffer.task now = result at step ⊢
  cases step with
  | idle noTake noRepeat =>
    rw [if_neg (Nat.lt_irrefl _)]
    exact .idle noTake
  | sent report takes noRepeat started =>
    have shorter : ((s.buffer.taken report).handed now reportRetryCount).queue.length < s.buffer.queue.length :=
      taken_shorter takes
    dsimp only
    rw [if_pos shorter, takes.2.2]
    exact .sent report takes started
  | dropped report takes noRepeat early =>
    dsimp only
    rw [if_pos (taken_shorter takes), takes.2.2]
    exact .dropped report takes early
  | repeated noTake repeats =>
    have same : ¬ (s.buffer.handed now (s.buffer.retry - 1)).queue.length < s.buffer.queue.length := Nat.lt_irrefl _
    dsimp only
    rw [if_neg same]
    exact .repeated noTake repeats

theorem retry_pred {retry : UInt8} (pending : retry ≠ 0) : (retry - 1).toNat + 1 = retry.toNat := by
  have filled : retry.toNat ≠ 0 := fun zero => pending (UInt8.toNat_inj.mp zero)
  have one : (1 : UInt8) ≤ retry := by
    rw [UInt8.le_iff_toNat_le]
    exact Nat.one_le_iff_ne_zero.mpr filled
  rw [UInt8.toNat_sub_of_le _ _ one]
  exact Nat.sub_add_cancel (Nat.one_le_iff_ne_zero.mpr filled)

theorem task_counted (counted : s.Counted) (now : UInt32) : (s.step (.task now)).Counted := by
  have step := step_task (s := s) now
  generalize s.step (.task now) = next at step ⊢
  cases step with
  | idle => exact counted
  | sent report => exact fun _ => ⟨⟨report, [report]⟩, s.history, rfl, rfl, rfl⟩
  | dropped report takes => exact fun pending => absurd takes.1 pending
  | repeated noTake repeats =>
    intro _
    obtain ⟨last, earlier, history, kbRpt, sum⟩ := counted repeats.1
    refine ⟨{ last with handed := last.handed ++ [last.report] }, earlier, ?_, kbRpt, ?_⟩
    · rw [history, kbRpt]
      rfl
    · have less := retry_pred repeats.1
      rw [List.length_append, List.length_singleton, ← sum, ← less]
      exact Nat.add_right_comm _ _ _

theorem enqueue_retry (report : Report α) (b : ReportBuffer α) :
    (b.enqueue report).retry = b.retry ∧ (b.enqueue report).kbRpt = b.kbRpt := by
  rw [enqueue]
  split
  · exact ⟨rfl, rfl⟩
  · exact ⟨rfl, rfl⟩

/-- An acknowledgement that does not end the repetitions leaves the counter alone. -/
theorem ack_retry (command status : UInt8) (interval : UInt16) (b : ReportBuffer α)
    (pending : (b.ackHandler command status interval).retry ≠ 0) :
    (b.ackHandler command status interval).retry = b.retry := by
  rw [ackHandler] at pending ⊢
  split_ifs at pending ⊢
  · exact absurd rfl pending
  · exact absurd rfl pending
  · rfl
  · rfl
  · rfl

theorem step_counted (counted : s.Counted) (op : RetryOp α) : (s.step op).Counted := by
  cases op with
  | enqueue report =>
    obtain ⟨retry, kbRpt⟩ := enqueue_retry report s.buffer
    intro pending
    obtain ⟨last, earlier, history, report, sum⟩ := counted (retry ▸ pending)
    exact ⟨last, earlier, history, kbRpt.trans report, retry ▸ sum⟩
  | task now => exact task_counted counted now
  | ack command status interval =>
    intro pending
    have retry := ack_retry command status interval s.buffer pending
    obtain ⟨last, earlier, history, report, sum⟩ := counted (retry ▸ pending)
    have kbRpt := (s.buffer.ackHandler_queue command status interval).2
    exact ⟨last, earlier, history, kbRpt.trans report, retry ▸ sum⟩

/-- A repetition is one of the last report, which may be repeated once more. -/
theorem bounded_again {last : Dequeued α} (bounded : last.Bounded) {retry : UInt8} (pending : retry ≠ 0)
    (sum : last.handed.length + retry.toNat = 1 + reportRetryCount.toNat) :
    Dequeued.Bounded { last with handed := last.handed ++ [last.report] } := by
  have less := retry_pred pending
  have size : (last.handed ++ [last.report]).length = last.handed.length + 1 := List.length_append
  constructor
  · intro report member
    exact (List.mem_append.mp member).elim (bounded.own report) List.mem_singleton.mp
  · dsimp only
    omega
  · dsimp only
    omega

theorem task_bounded (counted : s.Counted) (bounded : s.Bounded) (now : UInt32) :
    (s.step (.task now)).Bounded ↔ s.NotEarly (.task now) := by
  have step := step_task (s := s) now
  generalize s.step (.task now) = next at step ⊢
  cases step with
  | idle noTake => exact iff_of_true bounded fun report takes => absurd takes (noTake report)
  | sent report takes started =>
    refine iff_of_true (List.forall_mem_cons.mpr ⟨⟨?_, ?_, ?_⟩, bounded⟩) fun _ _ => started
    · exact fun _ => List.mem_singleton.mp
    · exact Nat.le_refl 1
    · exact Nat.le_add_right 1 _
  | dropped report takes early =>
    -- nothing is handed over for the report
    refine iff_of_false (fun all => ?_) fun late => early (late report takes)
    exact Nat.not_succ_le_zero 0 (all _ List.mem_cons_self).atLeast
  | repeated noTake repeats =>
    refine iff_of_true ?_ fun report takes => absurd takes (noTake report)
    obtain ⟨last, earlier, history, kbRpt, sum⟩ := counted repeats.1
    have both : last.Bounded ∧ ∀ dequeued ∈ earlier, dequeued.Bounded :=
      List.forall_mem_cons.mp (history ▸ bounded)
    rw [history, kbRpt]
    exact List.forall_mem_cons.mpr ⟨bounded_again both.1 repeats.1 sum, both.2⟩

end RetrySystem

/-! ## Runs -/

/-- In every run of a connected link, each report that leaves the queue is handed over between once
and as often as it may be repeated, exactly if none leaves it too early. -/
theorem retries_bounded_iff (buffer : ReportBuffer α) (boot : UInt32) (ops : List (RetryOp α)) :
    (∀ n, (RetrySystem.run buffer boot (ops.take n)).Bounded) ↔
      EveryStep (fun earlier op => (RetrySystem.run buffer boot earlier).NotEarly op) ops := by
  have counted : RetrySystem.Counted ⟨buffer.init boot, []⟩ := fun pending => absurd rfl pending
  have bounded : RetrySystem.Bounded ⟨buffer.init boot, []⟩ := nofun
  refine forall_take_iff_everyStep RetrySystem.Counted RetrySystem.Bounded RetrySystem.NotEarly counted bounded
    (fun _ op counted => RetrySystem.step_counted counted op) ?_ ops
  intro s op counted bounded
  cases op with
  | enqueue report => exact iff_of_true bounded trivial
  | task now => exact RetrySystem.task_bounded counted bounded now
  | ack command status interval => exact iff_of_true bounded trivial

/-- Two reports, of which the task takes the first one at the wrap of the clock. -/
def atWrap : List (RetryOp Nat) := [.enqueue ⟨.kb, 4⟩, .enqueue ⟨.kb, 5⟩, .task 1, .task 10]

theorem atWrap_lost : ¬ (RetrySystem.run ⟨[], none, 0, 0, 0, 1⟩ 0xFFFFFF00 atWrap).Bounded := by
  intro bounded
  have entry : (⟨⟨.kb, 4⟩, []⟩ : Dequeued Nat) ∈ (RetrySystem.run ⟨[], none, 0, 0, 0, 1⟩ 0xFFFFFF00 atWrap).history :=
    List.mem_cons_of_mem _ (List.mem_singleton_self _)
  exact Nat.not_succ_le_zero 0 (bounded _ entry).atLeast

end QmkFirmware.Wireless
