import QmkFirmware.Foundations.Runs
import QmkFirmware.Wireless.ReportBuffer

/-! # Order of keyboard and consumer reports

The reports are numbered as they are submitted.  Those that were transmitted, followed by
those that still wait in the queue, are to be all the numbers in order, with repetitions in
place only.
-/

namespace QmkFirmware.Wireless

open QmkFirmware.Runs

variable {α : Type}

inductive OrderOp (α : Type) where
  | keyboard (now : UInt32) (report : α)
  | consumer (now : UInt32) (data : α)
  | task (now : UInt32)
  | ack (command status : UInt8) (connectionInterval : UInt16)

def Report.number (report : Report (α × Nat)) : Nat := report.content.2

/-- The link with the number of submissions and the reports that were transmitted. -/
structure OrderSystem (α : Type) where
  link : Link (α × Nat)
  count : Nat
  transmitted : List (Report (α × Nat))

def OrderSystem.sent (s : OrderSystem α) : List Nat := s.transmitted.map Report.number

def OrderSystem.waiting (s : OrderSystem α) : List Nat := s.link.buffer.queue.map Report.number

def OrderSystem.submit (s : OrderSystem α) (result : Link (α × Nat) × Option (Report (α × Nat))) :
    OrderSystem α :=
  ⟨result.1, s.count + 1, s.transmitted ++ result.2.toList⟩

def OrderSystem.step (s : OrderSystem α) : OrderOp α → OrderSystem α
  | .keyboard now report => s.submit (s.link.sendKeyboard false now (report, s.count))
  | .consumer now data => s.submit (s.link.sendConsumer false now (data, s.count))
  | .task now =>
    let result := s.link.bufferTask now
    { s with link := result.1, transmitted := s.transmitted ++ result.2.toList }
  | .ack command status connectionInterval =>
    { s with link := { s.link with buffer := s.link.buffer.ackHandler command status connectionInterval } }

/-- A connected link with an empty queue. -/
def OrderSystem.start (link : Link (α × Nat)) : OrderSystem α where
  link := { link with wirelessState := .connected, buffer := { link.buffer with queue := [], retry := 0 } }
  count := 0
  transmitted := []

def OrderSystem.run (link : Link (α × Nat)) (ops : List (OrderOp α)) : OrderSystem α :=
  ops.foldl OrderSystem.step (.start link)

/-- The numbers come in order, and none of those below `count` is missing. -/
structure Complete (count : Nat) (numbers : List Nat) : Prop where
  order : numbers.Pairwise (· ≤ ·)
  all : ∀ i < count, i ∈ numbers

/-- The reports are transmitted in the order of their submission, none is transmitted again
after a later one, and each that was not yet transmitted is waiting. -/
def OrderSystem.InOrder (s : OrderSystem α) : Prop := Complete s.count (s.sent ++ s.waiting)

/-- The queue has room for a report that is submitted. -/
def OrderSystem.HasRoom (s : OrderSystem α) : OrderOp α → Prop
  | .keyboard _ _ | .consumer _ _ => s.link.buffer.queue.length ≠ reportBufferCapacity
  | .task _ | .ack _ _ _ => True

instance (s : OrderSystem α) : (op : OrderOp α) → Decidable (s.HasRoom op)
  | .keyboard _ _ | .consumer _ _ => inferInstanceAs (Decidable (_ ≠ _))
  | .task _ | .ack _ _ _ => .isTrue trivial

/-- A consumer report is sent past the queue while a report waits for its acknowledgement. -/
def OrderSystem.Bypasses (s : OrderSystem α) : OrderOp α → Prop
  | .consumer now _ =>
    s.link.buffer.queue = [] ∧ s.link.buffer.nextInterval now = true ∧ s.link.buffer.retry ≠ 0
  | .keyboard _ _ | .task _ | .ack _ _ _ => False

instance (s : OrderSystem α) : (op : OrderOp α) → Decidable (s.Bypasses op)
  | .consumer _ _ => inferInstanceAs (Decidable (_ ∧ _))
  | .keyboard _ _ | .task _ | .ack _ _ _ => .isFalse id

/-- This has happened to the report that is still waiting. -/
def Overtaken (link : Link (α × Nat)) (earlier : List (OrderOp α)) : Prop :=
  ∃ (index : Nat) (bound : index < earlier.length),
    (OrderSystem.run link (earlier.take index)).Bypasses earlier[index] ∧
    ∀ n, index < n → n ≤ earlier.length → (OrderSystem.run link (earlier.take n)).link.buffer.retry ≠ 0

/-- The task does not take a report in the first milliseconds of the clock, and does not
repeat one that was overtaken. -/
def KeepsOrder (link : Link (α × Nat)) (earlier : List (OrderOp α)) : OrderOp α → Prop
  | .task now =>
    (∀ report, (OrderSystem.run link earlier).link.buffer.Takes now report → 2 < now) ∧
    ((OrderSystem.run link earlier).link.buffer.Repeats now → ¬Overtaken link earlier)
  | .keyboard _ _ | .consumer _ _ | .ack _ _ _ => True

/-! ## Numbers -/

/-- What holds of the numbers in any case. -/
structure OrderSystem.Numbered (s : OrderSystem α) : Prop where
  connected : s.link.wirelessState = .connected
  bounded : ∀ i ∈ s.sent ++ s.waiting, i < s.count
  increasing : s.waiting.Pairwise (· < ·)
  later : ∀ i ∈ s.waiting, ∀ j ∈ s.sent, j < i
  pending : s.link.buffer.retry ≠ 0 → ∃ report, s.link.buffer.kbRpt = some report ∧ report.number ∈ s.sent

theorem Complete.concat {count : Nat} {numbers : List Nat} (complete : Complete count numbers)
    (bounded : ∀ i ∈ numbers, i < count) : Complete (count + 1) (numbers ++ [count]) where
  order := by
    refine List.pairwise_append.mpr ⟨complete.order, List.pairwise_singleton _ _, ?_⟩
    intro i member j last
    rw [List.mem_singleton] at last
    exact last ▸ Nat.le_of_lt (bounded i member)
  all i below := by
    rw [List.mem_append, List.mem_singleton]
    by_cases last : i = count
    · exact .inr last
    · exact .inl (complete.all i (by omega))

/-- A repetition keeps the order exactly if nothing later came before it. -/
theorem complete_repeat_iff {count i : Nat} {sent waiting : List Nat}
    (complete : Complete count (sent ++ waiting)) (member : i ∈ sent) :
    Complete count (sent ++ [i] ++ waiting) ↔ ∀ earlier ∈ sent, earlier ≤ i := by
  constructor
  · intro repeated earlier before
    have order := (List.pairwise_append.mp repeated.order).1
    exact (List.pairwise_append.mp order).2.2 earlier before i (List.mem_singleton_self i)
  · intro latest
    obtain ⟨sentOrder, waitingOrder, later⟩ := List.pairwise_append.mp complete.order
    constructor
    · refine List.pairwise_append.mpr ⟨?_, waitingOrder, ?_⟩
      · refine List.pairwise_append.mpr ⟨sentOrder, List.pairwise_singleton _ _, ?_⟩
        intro earlier before j last
        rw [List.mem_singleton] at last
        exact last ▸ latest earlier before
      · intro j before k waits
        cases List.mem_append.mp before with
        | inl old => exact later j old k waits
        | inr last =>
          rw [List.mem_singleton] at last
          exact later j (last ▸ member) k waits
    · intro j below
      have found := complete.all j below
      simp only [List.mem_append] at found ⊢
      exact found.imp_left .inl

/-! ## Submissions -/

/-- What a submission does: the new number is queued or transmitted, or the queue is full. -/
structure Submitted (s s' : OrderSystem α) : Prop where
  connected : s'.link.wirelessState = .connected
  retry : s'.link.buffer.retry = s.link.buffer.retry
  kbRpt : s'.link.buffer.kbRpt = s.link.buffer.kbRpt
  count : s'.count = s.count + 1
  numbers : s.link.buffer.queue.length ≠ reportBufferCapacity ∧
      (s'.sent = s.sent ∧ s'.waiting = s.waiting ++ [s.count] ∨
        s.waiting = [] ∧ s'.waiting = [] ∧ s'.sent = s.sent ++ [s.count]) ∨
    s.link.buffer.queue.length = reportBufferCapacity ∧ s'.sent = s.sent ∧ s'.waiting = s.waiting

section

variable {s : OrderSystem α}

theorem enqueue_submitted (connected : s.link.wirelessState = .connected) (type : ReportType) (report : α) :
    Submitted s (s.submit
      ({ s.link with buffer := s.link.buffer.enqueue ⟨type, (report, s.count)⟩ }, none)) := by
  rw [ReportBuffer.enqueue]
  split
  · next full => exact ⟨connected, rfl, rfl, rfl, .inr ⟨full, by simp [OrderSystem.submit, OrderSystem.sent], rfl⟩⟩
  · next room =>
    refine ⟨connected, rfl, rfl, rfl, .inl ⟨room, .inl ⟨by simp [OrderSystem.submit, OrderSystem.sent], ?_⟩⟩⟩
    simp [OrderSystem.submit, OrderSystem.waiting, Report.number]

theorem keyboard_submitted (connected : s.link.wirelessState = .connected) (now : UInt32) (report : α) :
    Submitted s (s.step (.keyboard now report)) := by
  have accepts : s.link.Accepts := .inl connected
  have sends : s.link.sendKeyboard false now (report, s.count) =
      ({ s.link with buffer := s.link.buffer.enqueue ⟨.kb, (report, s.count)⟩ }, none) := by
    simp [Link.sendKeyboard, connected, accepts]
  rw [OrderSystem.step, sends]
  exact enqueue_submitted connected .kb report

theorem consumer_submitted (connected : s.link.wirelessState = .connected) (now : UInt32) (data : α) :
    Submitted s (s.step (.consumer now data)) := by
  rw [OrderSystem.step, Link.sendConsumer, if_pos connected]
  split
  · next direct =>
    have empty : s.waiting = [] := by rw [OrderSystem.waiting, direct.1]; rfl
    refine ⟨connected, rfl, rfl, rfl, .inl ⟨by simp [direct.1, reportBufferCapacity], .inr ⟨empty, empty, ?_⟩⟩⟩
    simp [OrderSystem.submit, OrderSystem.sent, Report.number]
  · exact enqueue_submitted connected .consumer data

theorem Submitted.numbered {s' : OrderSystem α} (submitted : Submitted s s') (numbered : s.Numbered) :
    s'.Numbered := by
  obtain ⟨connected, retry, kbRpt, count, numbers⟩ := submitted
  have bounded := numbered.bounded
  have later := numbered.later
  have pending (sent : ∀ i ∈ s.sent, i ∈ s'.sent) : s'.link.buffer.retry ≠ 0 →
      ∃ report, s'.link.buffer.kbRpt = some report ∧ report.number ∈ s'.sent := by
    intro waits
    obtain ⟨report, there, member⟩ := numbered.pending (retry ▸ waits)
    exact ⟨report, kbRpt.trans there, sent _ member⟩
  obtain ⟨-, ⟨sent, waiting⟩ | ⟨empty, waiting, sent⟩⟩ | ⟨-, sent, waiting⟩ := numbers
  · refine ⟨connected, ?_, ?_, ?_, pending fun i member => sent ▸ member⟩
    · rw [sent, waiting, count]
      grind
    · rw [waiting]
      grind [numbered.increasing]
    · rw [sent, waiting]
      grind
  · refine ⟨connected, ?_, by simp [waiting], by simp [waiting], pending fun i member => by simp [sent, member]⟩
    rw [sent, waiting, count]
    grind
  · refine ⟨connected, ?_, waiting ▸ numbered.increasing, ?_, pending fun i member => sent ▸ member⟩
    · rw [sent, waiting, count]
      grind
    · rw [sent, waiting]
      exact later

/-- A submission keeps the order exactly if the queue has room for it. -/
theorem Submitted.inOrder {s' : OrderSystem α} (submitted : Submitted s s') (numbered : s.Numbered)
    (inOrder : s.InOrder) : s'.InOrder ↔ s.link.buffer.queue.length ≠ reportBufferCapacity := by
  obtain ⟨-, -, -, count, numbers⟩ := submitted
  have added := inOrder.concat numbered.bounded
  rw [OrderSystem.InOrder, count]
  obtain ⟨room, ⟨sent, waiting⟩ | ⟨empty, waiting, sent⟩⟩ | ⟨full, sent, waiting⟩ := numbers
  · rw [sent, waiting, ← List.append_assoc]
    exact iff_of_true added room
  · rw [empty, List.append_nil] at added
    rw [sent, waiting, List.append_nil]
    exact iff_of_true added room
  · rw [sent, waiting]
    refine iff_of_false (fun complete => ?_) (not_not.mpr full)
    exact Nat.lt_irrefl _ (numbered.bounded _ (complete.all s.count (Nat.lt_succ_self _)))

/-! ## The task -/

/-- The system after the task has changed the buffer and transmitted a report, or none. -/
def OrderSystem.afterTask (s : OrderSystem α)
    (result : ReportBuffer (α × Nat) × Option (Report (α × Nat))) : OrderSystem α :=
  { s with link := { s.link with buffer := result.1 }, transmitted := s.transmitted ++ result.2.toList }

theorem step_task (connected : s.link.wirelessState = .connected) (now : UInt32) :
    s.step (.task now) = s.afterTask (s.link.buffer.task now) := by
  rw [OrderSystem.step, Link.bufferTask, if_pos connected, OrderSystem.afterTask]

theorem waiting_of_takes {now : UInt32} {report : Report (α × Nat)} (takes : s.link.buffer.Takes now report) :
    s.waiting = report.number :: s.link.buffer.queue.tail.map Report.number := by
  rw [OrderSystem.waiting, List.head?_eq_some_iff.mp takes.2.2 |>.choose_spec]
  rfl

theorem sent_afterTask (result : ReportBuffer (α × Nat) × Option (Report (α × Nat))) :
    (s.afterTask result).sent = s.sent ++ result.2.toList.map Report.number := by
  simp [OrderSystem.afterTask, OrderSystem.sent]

theorem task_numbered (numbered : s.Numbered) (now : UInt32) : (s.step (.task now)).Numbered := by
  rw [step_task numbered.connected]
  have bounded := numbered.bounded
  have increasing := numbered.increasing
  have ordered := numbered.later
  have step := s.link.buffer.task_step now
  generalize s.link.buffer.task now = result at step ⊢
  cases step with
  | idle =>
    have same : s.afterTask (s.link.buffer, none) = s := by simp [OrderSystem.afterTask]
    rw [same]
    exact numbered
  | sent report takes =>
    rw [waiting_of_takes takes] at bounded increasing ordered
    have handed := sent_afterTask (s := s)
      ((s.link.buffer.taken report).handed now reportRetryCount, some report)
    refine ⟨numbered.connected, ?_, increasing.of_cons, ?_, ?_⟩
    · rw [handed, List.append_assoc]
      exact bounded
    · rw [handed]
      intro i member j found
      cases List.mem_append.mp found with
      | inl old => exact ordered i (List.mem_cons_of_mem _ member) j old
      | inr last =>
        rw [List.mem_singleton.mp last]
        exact (List.pairwise_cons.mp increasing).1 i member
    · rw [handed]
      exact fun _ => ⟨report, rfl, by simp⟩
  | dropped report takes =>
    rw [waiting_of_takes takes] at bounded increasing ordered
    have handed : (s.afterTask (s.link.buffer.taken report, none)).sent = s.sent := by
      rw [sent_afterTask]
      simp
    refine ⟨numbered.connected, ?_, increasing.of_cons, ?_, ?_⟩
    · rw [handed]
      intro i member
      refine bounded i ?_
      rw [List.mem_append] at member ⊢
      exact member.imp_right (List.mem_cons_of_mem _)
    · rw [handed]
      intro i member
      exact ordered i (List.mem_cons_of_mem _ member)
    · intro pending
      exact absurd takes.1 pending
  | repeated _ repeats =>
    obtain ⟨pending, isPending, isSent⟩ := numbered.pending repeats.1
    have handed := sent_afterTask (s := s) (s.link.buffer.handed now (s.link.buffer.retry - 1), s.link.buffer.kbRpt)
    have again : ∀ i ∈ s.link.buffer.kbRpt.toList.map Report.number, i ∈ s.sent := by
      intro i member
      rw [isPending, Option.toList_some, List.map_singleton, List.mem_singleton] at member
      rwa [member]
    refine ⟨numbered.connected, ?_, increasing, ?_, ?_⟩
    · rw [handed]
      intro i member
      refine bounded i ?_
      simp only [List.mem_append] at member ⊢
      exact member.imp_left fun sent => sent.elim id (again i)
    · rw [handed]
      intro i member j found
      exact ordered i member j ((List.mem_append.mp found).elim id (again j))
    · rw [handed]
      exact fun _ => ⟨pending, isPending, List.mem_append_left _ isSent⟩

theorem ack_numbered (numbered : s.Numbered) (command status : UInt8) (interval : UInt16) :
    (s.step (.ack command status interval)).Numbered := by
  obtain ⟨queue, kbRpt⟩ := s.link.buffer.ackHandler_queue command status interval
  have waiting : (s.step (.ack command status interval)).waiting = s.waiting := by
    rw [OrderSystem.waiting, OrderSystem.step, queue]
    rfl
  refine ⟨numbered.connected, ?_, waiting ▸ numbered.increasing, ?_, ?_⟩
  · rw [waiting]
    exact numbered.bounded
  · rw [waiting]
    exact numbered.later
  · intro pending
    obtain ⟨report, there, member⟩ :=
      numbered.pending (s.link.buffer.ackHandler_retry command status interval pending)
    exact ⟨report, kbRpt.trans there, member⟩

theorem step_numbered (numbered : s.Numbered) (op : OrderOp α) : (s.step op).Numbered := by
  cases op with
  | keyboard now report => exact (keyboard_submitted numbered.connected now report).numbered numbered
  | consumer now data => exact (consumer_submitted numbered.connected now data).numbered numbered
  | task now => exact task_numbered numbered now
  | ack command status interval => exact ack_numbered numbered command status interval

/-- A report with a later number was sent while this one waits for its acknowledgement. -/
def OrderSystem.Late (s : OrderSystem α) : Prop :=
  s.link.buffer.retry ≠ 0 ∧ ∃ report, s.link.buffer.kbRpt = some report ∧ ∃ i ∈ s.sent, report.number < i

/-- The task keeps the order exactly if it takes no report too early and repeats none too late. -/
theorem task_inOrder (numbered : s.Numbered) (inOrder : s.InOrder) (now : UInt32) :
    (s.step (.task now)).InOrder ↔
      (∀ report, s.link.buffer.Takes now report → 2 < now) ∧ (s.link.buffer.Repeats now → ¬s.Late) := by
  rw [step_task numbered.connected]
  have step := s.link.buffer.task_step now
  generalize s.link.buffer.task now = result at step ⊢
  cases step with
  | idle noTake noRepeat =>
    have same : s.afterTask (s.link.buffer, none) = s := by simp [OrderSystem.afterTask]
    rw [same]
    exact iff_of_true inOrder ⟨fun report takes => absurd takes (noTake report),
      fun repeats => absurd repeats noRepeat⟩
  | sent report takes noRepeat started =>
    -- the report moves from the queue to the transmitted ones
    refine iff_of_true ?_ ⟨fun _ _ => started, fun repeats => absurd repeats noRepeat⟩
    have complete : Complete s.count (s.sent ++ s.waiting) := inOrder
    rw [waiting_of_takes takes, List.append_cons] at complete
    rw [OrderSystem.InOrder, sent_afterTask]
    exact complete
  | dropped report takes noRepeat early =>
    -- the report is in neither any more
    refine iff_of_false (fun complete => ?_) fun keeps => early (keeps.1 report takes)
    have waits := waiting_of_takes takes
    have bound : report.number < s.count := numbered.bounded _ (by simp [waits])
    have unsent := numbered.later report.number (by simp [waits])
    have increasing := numbered.increasing
    rw [waits, List.pairwise_cons] at increasing
    have found := complete.all report.number bound
    rw [sent_afterTask, List.mem_append] at found
    cases found with
    | inl old => exact Nat.lt_irrefl _ (unsent _ (by simpa using old))
    | inr later => exact Nat.lt_irrefl _ (increasing.1 _ later)
  | repeated noTake repeats =>
    -- a repetition is in order only behind its own number
    obtain ⟨report, pending, member⟩ := numbered.pending repeats.1
    have waiting : (s.afterTask (s.link.buffer.handed now (s.link.buffer.retry - 1),
      s.link.buffer.kbRpt)).waiting = s.waiting := rfl
    rw [OrderSystem.InOrder, sent_afterTask, waiting, pending]
    refine (complete_repeat_iff inOrder member).trans ?_
    constructor
    · intro latest
      refine ⟨fun other takes => absurd takes (noTake other), ?_⟩
      rintro - ⟨-, other, there, i, before, above⟩
      obtain rfl : report = other := Option.some.inj (pending.symm.trans there)
      exact absurd (latest i before) (Nat.not_le_of_lt above)
    · intro keeps i before
      exact Nat.le_of_not_lt fun above => keeps.2 repeats ⟨repeats.1, report, pending, i, before, above⟩

/-- A consumer report that is sent directly goes past the pending report, and its number is the latest. -/
theorem late_consumer (numbered : s.Numbered) (now : UInt32) (data : α) :
    (s.step (.consumer now data)).Late ↔ (s.step (.consumer now data)).link.buffer.retry ≠ 0 ∧
      (s.Late ∨ s.Bypasses (.consumer now data)) := by
  have submitted := consumer_submitted numbered.connected now data
  rw [OrderSystem.Late, OrderSystem.Late, submitted.retry, submitted.kbRpt]
  by_cases direct : s.link.buffer.queue = [] ∧ s.link.buffer.nextInterval now = true
  · have sent : (s.step (.consumer now data)).sent = s.sent ++ [s.count] := by
      rw [OrderSystem.step, Link.sendConsumer, if_pos numbered.connected, if_pos direct]
      simp [OrderSystem.submit, OrderSystem.sent, Report.number]
    refine and_congr_right fun waits => ?_
    obtain ⟨report, pending, member⟩ := numbered.pending waits
    refine iff_of_true ⟨report, pending, s.count, by simp [sent], ?_⟩ (.inr ⟨direct.1, direct.2, waits⟩)
    exact numbered.bounded _ (List.mem_append_left _ member)
  · have sent : (s.step (.consumer now data)).sent = s.sent := by
      rw [OrderSystem.step, Link.sendConsumer, if_pos numbered.connected, if_neg direct]
      simp [OrderSystem.submit, OrderSystem.sent]
    have queued : ¬s.Bypasses (.consumer now data) := fun bypasses => direct ⟨bypasses.1, bypasses.2.1⟩
    rw [sent]
    simp [queued]

/-- A task does not make the pending report late: it repeats it, or takes the next one as the pending report. -/
theorem late_task (numbered : s.Numbered) (now : UInt32) :
    (s.step (.task now)).Late ↔ (s.step (.task now)).link.buffer.retry ≠ 0 ∧ s.Late := by
  rw [step_task numbered.connected]
  have ordered := numbered.later
  have step := s.link.buffer.task_step now
  generalize s.link.buffer.task now = result at step ⊢
  cases step with
  | idle =>
    have same : s.afterTask (s.link.buffer, none) = s := by simp [OrderSystem.afterTask]
    rw [same]
    exact ⟨fun late => ⟨late.1, late⟩, And.right⟩
  | sent report takes =>
    -- the report that is taken has the latest number
    refine iff_of_false ?_ fun late => late.2.1 takes.1
    rintro ⟨-, other, there, i, member, above⟩
    obtain rfl : report = other := Option.some.inj there
    rw [sent_afterTask] at member
    cases List.mem_append.mp member with
    | inl old =>
      exact absurd (ordered report.number (by simp [waiting_of_takes takes]) i old) (Nat.lt_asymm above)
    | inr last => exact absurd (List.mem_singleton.mp last) (Nat.ne_of_gt above)
  | dropped report takes =>
    exact iff_of_false (fun late => late.1 takes.1) fun late => late.1 takes.1
  | repeated _ repeats =>
    obtain ⟨report, pending, member⟩ := numbered.pending repeats.1
    rw [OrderSystem.Late, OrderSystem.Late, sent_afterTask]
    refine and_congr_right fun _ => ?_
    constructor
    · rintro ⟨other, there, i, found, above⟩
      refine ⟨repeats.1, other, there, i, ?_, above⟩
      rw [pending] at found
      cases List.mem_append.mp found with
      | inl old => exact old
      | inr last => exact List.mem_singleton.mp last ▸ member
    · rintro ⟨-, other, there, i, found, above⟩
      exact ⟨other, there, i, List.mem_append_left _ found, above⟩

/-- The pending report gets late by a consumer report that is sent past it, and is so until it is
acknowledged or given up. -/
theorem late_step (numbered : s.Numbered) (op : OrderOp α) :
    (s.step op).Late ↔ (s.step op).link.buffer.retry ≠ 0 ∧ (s.Late ∨ s.Bypasses op) := by
  cases op with
  | keyboard now report =>
    -- the report is queued
    have accepts : s.link.Accepts := .inl numbered.connected
    have sent : (s.step (.keyboard now report)).sent = s.sent := by
      simp [OrderSystem.step, Link.sendKeyboard, numbered.connected, accepts, OrderSystem.submit, OrderSystem.sent]
    have submitted := keyboard_submitted numbered.connected now report
    rw [OrderSystem.Late, OrderSystem.Late, sent, submitted.retry, submitted.kbRpt]
    simp [OrderSystem.Bypasses]
  | consumer now data => exact late_consumer numbered now data
  | task now =>
    rw [OrderSystem.Bypasses, or_false]
    exact late_task numbered now
  | ack command status interval =>
    obtain ⟨-, kbRpt⟩ := s.link.buffer.ackHandler_queue command status interval
    have kept := s.link.buffer.ackHandler_retry command status interval
    simp only [OrderSystem.Bypasses, or_false]
    constructor
    · rintro ⟨pending, report, there, later⟩
      exact ⟨pending, kept pending, report, kbRpt.symm.trans there, later⟩
    · rintro ⟨pending, -, report, there, later⟩
      exact ⟨pending, report, kbRpt.trans there, later⟩

end

/-! ## Runs -/

theorem start_numbered (link : Link (α × Nat)) : (OrderSystem.start link : OrderSystem α).Numbered :=
  ⟨rfl, fun _ member => absurd member List.not_mem_nil, List.Pairwise.nil,
    fun _ member => absurd member List.not_mem_nil, fun pending => absurd rfl pending⟩

theorem overtaken_iff_late (link : Link (α × Nat)) (earlier : List (OrderOp α)) :
    Overtaken link earlier ↔ (OrderSystem.run link earlier).Late :=
  (@since_iff _ _ OrderSystem.step (.start link) OrderSystem.Numbered OrderSystem.Late
    (fun s => s.link.buffer.retry ≠ 0) OrderSystem.Bypasses (start_numbered link)
    (fun _ op numbered => step_numbered numbered op) (fun late => late.1 rfl)
    (fun _ op numbered => late_step numbered op) earlier).symm

/-- A key, and a consumer report while the key waits for its acknowledgement. -/
def volumeDuringRetry : List (OrderOp Nat) := [.keyboard 10 4, .task 12, .consumer 20 0xE9, .task 30]

/-- The same with an acknowledgement. -/
def volumeAfterAck : List (OrderOp Nat) :=
  [.keyboard 10 4, .task 12, .ack 0x11 0 1, .consumer 20 0xE9, .task 30]

end QmkFirmware.Wireless
