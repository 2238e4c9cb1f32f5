import QmkFirmware.Foundations.Ring
import QmkFirmware.Foundations.Runs
import QmkFirmware.Wireless.Link

/-! # The ring of wireless events

`wireless_event_queue` with its head and tail.  It is a queue of at most fifteen events, of which
the oldest is lost when one more comes; the link takes it as that.
-/

namespace QmkFirmware.Wireless

open QmkFirmware.Runs

def eventQueueSize : Nat := 16

/-- The ring, with its cells at the indexes below sixteen. -/
structure EventQueue where
  events : Nat → WirelessEvent
  head : UInt8
  tail : UInt8
  headInside : head.toNat < eventQueueSize
  tailInside : tail.toNat < eventQueueSize

/-- An index one further on, stored in eight bits. -/
def nextIndex (i : UInt8) : UInt8 := UInt8.ofNat ((i.toNat + 1) % eventQueueSize)

theorem toNat_nextIndex (i : UInt8) : (nextIndex i).toNat = Ring.next eventQueueSize i.toNat := by
  have below : (i.toNat + 1) % eventQueueSize < 2 ^ 8 := Nat.lt_trans (Nat.mod_lt _ (by decide)) (by decide)
  exact UInt8.toNat_ofNat_of_lt' below

theorem nextIndex_lt (i : UInt8) : (nextIndex i).toNat < eventQueueSize :=
  toNat_nextIndex i ▸ Nat.mod_lt _ (by decide)

namespace EventQueue

/-- `wireless_event_queue_init`: all bytes are zero. -/
def init : EventQueue where
  events _ := ⟨.none, 0⟩
  head := 0
  tail := 0
  headInside := by decide
  tailInside := by decide

/-- The oldest event is given up when the next head would be at the tail. -/
def makeRoom (queue : EventQueue) : EventQueue :=
  if nextIndex queue.head = queue.tail then
    { queue with tail := nextIndex queue.tail, tailInside := nextIndex_lt queue.tail }
  else queue

def store (queue : EventQueue) (event : WirelessEvent) : EventQueue :=
  { queue with
    events := Function.update queue.events queue.head.toNat event
    head := nextIndex queue.head
    headInside := nextIndex_lt queue.head }

def enqueue (queue : EventQueue) (event : WirelessEvent) : EventQueue × Bool := (queue.makeRoom.store event, true)

/-- The event is stored only where the result is true. -/
def dequeue (queue : EventQueue) : EventQueue × Option WirelessEvent :=
  if queue.head = queue.tail then (queue, none)
  else
    ({ queue with tail := nextIndex queue.tail, tailInside := nextIndex_lt queue.tail },
      some (queue.events queue.tail.toNat))

/-- The events of the ring, the oldest first. -/
def contents (queue : EventQueue) : List WirelessEvent :=
  Ring.contents eventQueueSize queue.events queue.head.toNat queue.tail.toNat

variable (queue : EventQueue)

@[simp] theorem contents_init : init.contents = [] := rfl

theorem head_eq_tail_iff : queue.head = queue.tail ↔ queue.contents = [] := by
  rw [contents, Ring.contents_eq_nil_iff queue.headInside queue.tailInside, UInt8.toNat_inj]

theorem contents_enqueue (event : WirelessEvent) :
    (queue.enqueue event).1.contents = Ring.keepRecent eventQueueCapacity queue.contents event := by
  have next := toNat_nextIndex queue.head
  -- the ring is full exactly when the next head would be at the tail
  by_cases full : nextIndex queue.head = queue.tail
  · have atTail : Ring.next eventQueueSize queue.head.toNat = queue.tail.toNat := by rw [← next, full]
    have length : queue.contents.length = eventQueueCapacity := by
      rw [contents, Ring.length_contents]
      exact Ring.held_full queue.headInside queue.tailInside atTail
    have written := @Ring.contents_overwrite _ _ queue.events _ _ (by decide) queue.headInside queue.tailInside atTail event
    rw [Ring.keepRecent_of_eq length (by decide)]
    simp only [enqueue, makeRoom, if_pos full, store, contents, toNat_nextIndex]
    exact written
  · have free : Ring.next eventQueueSize queue.head.toNat ≠ queue.tail.toNat := by
      rw [← next]
      exact fun same => full (UInt8.toNat_inj.mp same)
    have room : queue.contents.length < eventQueueCapacity := by
      have more := Ring.held_next_head queue.headInside queue.tailInside free
      have below := Ring.held_lt (Ring.next_lt queue.headInside) queue.tail.toNat
      rw [contents, Ring.length_contents]
      rw [more] at below
      exact Nat.lt_of_succ_lt_succ below
    have written := @Ring.contents_write _ _ queue.events _ _ queue.headInside queue.tailInside free event
    rw [Ring.keepRecent_of_lt room]
    simp only [enqueue, makeRoom, if_neg full, store, contents, toNat_nextIndex]
    exact written

theorem dequeue_eq :
    queue.dequeue.2 = queue.contents.head? ∧ queue.dequeue.1.contents = queue.contents.tail := by
  by_cases empty : queue.head = queue.tail
  · have none := (head_eq_tail_iff queue).mp empty
    rw [dequeue, if_pos empty]
    exact ⟨by rw [none, List.head?_nil], by rw [none, List.tail_nil]⟩
  · have differ : queue.head.toNat ≠ queue.tail.toNat := fun same => empty (UInt8.toNat_inj.mp same)
    have first := @Ring.contents_eq_cons _ _ queue.events _ _ queue.headInside queue.tailInside differ
    rw [dequeue, if_neg empty]
    simp only [contents, toNat_nextIndex]
    rw [first]
    exact ⟨rfl, rfl⟩

end EventQueue

/-! ## Runs -/

inductive QueueCall where
  | enqueue (event : WirelessEvent)
  | dequeue

/-- What a call returns. -/
inductive QueueResult where
  | enqueued (result : Bool)
  | dequeued (event : Option WirelessEvent)
deriving DecidableEq

/-- A queue with the results of the calls so far. -/
structure Observed (σ : Type) where
  queue : σ
  results : List QueueResult

def EventQueue.call (observed : Observed EventQueue) : QueueCall → Observed EventQueue
  | .enqueue event =>
    let (queue, result) := observed.queue.enqueue event
    ⟨queue, observed.results ++ [.enqueued result]⟩
  | .dequeue =>
    let (queue, event) := observed.queue.dequeue
    ⟨queue, observed.results ++ [.dequeued event]⟩

def EventQueue.run (queue : EventQueue) (calls : List QueueCall) : Observed EventQueue :=
  calls.foldl EventQueue.call ⟨queue, []⟩

/-! The abstract queue is a list that keeps the most recent events. -/

def Fifo.call (capacity : Nat) (observed : Observed (List WirelessEvent)) : QueueCall → Observed (List WirelessEvent)
  | .enqueue event => ⟨Ring.keepRecent capacity observed.queue event, observed.results ++ [.enqueued true]⟩
  | .dequeue => ⟨observed.queue.tail, observed.results ++ [.dequeued observed.queue.head?]⟩

def Fifo.run (capacity : Nat) (queue : List WirelessEvent) (calls : List QueueCall) : Observed (List WirelessEvent) :=
  calls.foldl (Fifo.call capacity) ⟨queue, []⟩

def enqueued (calls : List QueueCall) : List WirelessEvent :=
  calls.flatMap fun call => match call with
    | .enqueue event => [event]
    | .dequeue => []

def delivered (results : List QueueResult) : List WirelessEvent :=
  results.flatMap fun result => match result with
    | .enqueued _ => []
    | .dequeued event => event.toList

@[simp] theorem enqueued_append (calls more : List QueueCall) :
    enqueued (calls ++ more) = enqueued calls ++ enqueued more := List.flatMap_append

namespace Fifo

variable (capacity : Nat) (queue : List WirelessEvent)

/-- The events that have been delivered and those that are held come in the order of the calls, each of them once;
those that are held are the last ones. -/
theorem run_order (calls : List QueueCall) :
    (delivered (run capacity queue calls).results ++ (run capacity queue calls).queue).Sublist
      (queue ++ enqueued calls) ∧
    (run capacity queue calls).queue <:+ queue ++ enqueued calls := by
  induction calls using List.reverseRecOn with
  | nil => simp [run, delivered, enqueued]
  | append_singleton calls last ih =>
    obtain ⟨order, suffix⟩ := ih
    have after : run capacity queue (calls ++ [last]) = call capacity (run capacity queue calls) last :=
      List.foldl_append
    rw [after]
    generalize run capacity queue calls = observed at order suffix
    cases last with
    | enqueue event =>
      have recent := Ring.keepRecent_suffix capacity observed.queue event
      have all : queue ++ enqueued (calls ++ [.enqueue event]) = (queue ++ enqueued calls) ++ [event] := by
        rw [enqueued_append, List.append_assoc]
        rfl
      have same : delivered (call capacity observed (.enqueue event)).results = delivered observed.results := by
        simp [call, delivered]
      rw [all, same]
      constructor
      · apply List.Sublist.trans (List.Sublist.append_left recent.sublist _)
        rw [← List.append_assoc]
        exact order.append_right [event]
      · exact recent.trans (List.suffix_append_self_iff.mpr suffix)
    | dequeue =>
      have all : enqueued (calls ++ [.dequeue]) = enqueued calls := by
        simp [enqueued]
      have same : delivered (call capacity observed .dequeue).results ++ (call capacity observed .dequeue).queue =
          delivered observed.results ++ observed.queue := by
        cases held : observed.queue <;> simp [call, delivered, held]
      rw [all, same]
      exact ⟨order, (List.tail_suffix _).trans suffix⟩

end Fifo

namespace EventQueue

/-- The calls have had the same results, and the events of the ring are those of the list. -/
structure Represents (ring : Observed EventQueue) (list : Observed (List WirelessEvent)) : Prop where
  results : ring.results = list.results
  contents : ring.queue.contents = list.queue

theorem call_fifo (ring : Observed EventQueue) (list : Observed (List WirelessEvent)) (op : QueueCall)
    (same : Represents ring list) : Represents (call ring op) (Fifo.call eventQueueCapacity list op) := by
  obtain ⟨results, contents⟩ := same
  cases op with
  | enqueue event =>
    constructor
    · simp only [call, Fifo.call, results]
      rfl
    · simp only [call, Fifo.call, contents_enqueue, contents]
  | dequeue =>
    have taken := dequeue_eq ring.queue
    rw [contents] at taken
    constructor
    · simp only [call, Fifo.call, results, taken.1]
    · simp only [call, Fifo.call, taken.2]

/-- From every position of the head and the tail, and with every order of the calls, the ring is a queue that
keeps the most recent fifteen events. -/
theorem run_refines_fifo (queue : EventQueue) (calls : List QueueCall) :
    Represents (queue.run calls) (Fifo.run eventQueueCapacity queue.contents calls) ∧
    (delivered (queue.run calls).results ++ (queue.run calls).queue.contents).Sublist
      (queue.contents ++ enqueued calls) ∧
    (queue.run calls).queue.contents <:+ queue.contents ++ enqueued calls := by
  have initial : Represents ⟨queue, []⟩ ⟨queue.contents, []⟩ := ⟨rfl, rfl⟩
  have same : Represents (queue.run calls) (Fifo.run eventQueueCapacity queue.contents calls) :=
    foldl_simulation call_fifo initial calls
  have order := Fifo.run_order eventQueueCapacity queue.contents calls
  rw [same.results, same.contents]
  exact ⟨same, order⟩

end EventQueue

end QmkFirmware.Wireless
