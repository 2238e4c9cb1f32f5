import QmkFirmware.DeferredExec.Operations
import QmkFirmware.Foundations.Runs

/-! # Tokens and times of deferred executors

The clock of the code wraps around after `2 ^ 32` milliseconds.  Beside the table we keep a
clock that does not, and for each token the time at which its executor is to run.  As long
as the callbacks make no calls themselves, no executor runs before that time.
-/

namespace QmkFirmware.DeferredExec

open QmkFirmware.Runs

variable {γ : Type} {tableCount : Nat}

/-! ## Times -/

/-- When an executor is to run, and whether its delays are all below `2 ^ 31`. -/
structure Trigger where
  due : Nat
  short : Bool

/-- The trigger that a delay sets at a time. -/
def Trigger.after (clock : Nat) (delayMs : UInt32) : Trigger :=
  ⟨clock + delayMs.toNat, decide (delayMs.toNat < 2 ^ 31)⟩

/-- The trigger after a repetition, which counts from the trigger before. -/
def Trigger.again (trigger : Trigger) (delayMs : UInt32) : Trigger :=
  ⟨trigger.due + delayMs.toNat, trigger.short && decide (delayMs.toNat < 2 ^ 31)⟩

def Trigger.Near (clock : Nat) (trigger : Trigger) : Prop :=
  trigger.short = true → trigger.due < clock + 2 ^ 31

theorem Trigger.after_near (clock : Nat) (delayMs : UInt32) : (Trigger.after clock delayMs).Near clock := by
  intro short
  exact Nat.add_lt_add_left (of_decide_eq_true short) clock

/-- The time that the code stores for a new delay. -/
theorem Trigger.after_time (clock : Nat) (delayMs : UInt32) :
    UInt32.ofNat clock + delayMs = .ofNat (Trigger.after clock delayMs).due := by
  rw [Trigger.after, UInt32.ofNat_add, UInt32.ofNat_toNat]

theorem Trigger.again_near {clock : Nat} {trigger : Trigger} (delayMs : UInt32)
    (past : trigger.short = true → trigger.due ≤ clock) : (trigger.again delayMs).Near clock := by
  intro short
  rw [Trigger.again, Bool.and_eq_true] at short
  exact Nat.add_lt_add_of_le_of_lt (past short.1) (of_decide_eq_true short.2)

/-- The wrapping clock does not take a near trigger for past before it is. -/
theorem due_of_timerDiff {due clock : Nat} (near : due < clock + 2 ^ 31)
    (reached : timerDiff (.ofNat due) (.ofNat clock) ≤ 0) : due ≤ clock := by
  by_contra early
  -- an early trigger is at most half a turn ahead, so the signed difference is positive
  have difference : UInt32.ofNat due - UInt32.ofNat clock = UInt32.ofNat (due - clock) :=
    (UInt32.ofNat_sub (by omega)).symm
  have value : (UInt32.ofNat (due - clock)).toBitVec.toNat = due - clock :=
    (UInt32.toNat_ofNat' (n := due - clock)).trans (Nat.mod_eq_of_lt (by omega))
  rw [timerDiff, difference, BitVec.toInt_eq_toNat_of_lt (by rw [value]; omega), value] at reached
  omega

/-! ## Tables -/

/-- The tokens of the entries in use are valid and distinct, and the times in the table are
those of the unbounded clock. -/
structure Timely (tableCount : Nat) (s : Deferred γ) (clock : Nat) (triggers : UInt8 → Trigger) : Prop where
  distinct : Distinct tableCount s.table
  used : ∀ i < tableCount, (s.table i).callback.isSome = true → (s.table i).token ≠ invalidDeferredToken
  time : ∀ i < tableCount, (s.table i).token ≠ invalidDeferredToken →
    (s.table i).triggerTime = .ofNat (triggers (s.table i).token).due
  near : ∀ i < tableCount, (s.table i).token ≠ invalidDeferredToken →
    (triggers (s.table i).token).Near clock

section

variable {s : Deferred γ} {clock : Nat} {triggers : UInt8 → Trigger}

theorem Timely.later (timely : Timely tableCount s clock triggers) (elapsed : Nat) :
    Timely tableCount s (clock + elapsed) triggers where
  distinct := timely.distinct
  used := timely.used
  time := timely.time
  near i inside valid short := by
    have bound := timely.near i inside valid short
    omega

/-- A new entry, or a new time for an entry. -/
theorem Timely.put (timely : Timely tableCount s clock triggers) {i : Nat} {entry : Executor γ}
    {trigger : Trigger} (valid : entry.token ≠ invalidDeferredToken)
    (own : ∀ j < tableCount, j ≠ i → (s.table j).token ≠ entry.token)
    (time : entry.triggerTime = .ofNat trigger.due) (near : trigger.Near clock) :
    Timely tableCount (s.set i entry) clock (Function.update triggers entry.token trigger) where
  distinct := timely.distinct.set (.inr own)
  used := forall_set (P := fun entry => entry.callback.isSome = true → entry.token ≠ invalidDeferredToken)
    (fun _ => valid) fun j inside _ => timely.used j inside
  time := by
    refine forall_set (P := fun stored => stored.token ≠ invalidDeferredToken →
      stored.triggerTime = .ofNat (Function.update triggers entry.token trigger stored.token).due) ?_ ?_
    · intro _
      rw [Function.update_self, time]
    · intro j inside apart set
      rw [Function.update_of_ne (own j inside apart)]
      exact timely.time j inside set
  near := by
    refine forall_set (P := fun stored => stored.token ≠ invalidDeferredToken →
      (Function.update triggers entry.token trigger stored.token).Near clock) ?_ ?_
    · intro _
      rw [Function.update_self]
      exact near
    · intro j inside apart set
      rw [Function.update_of_ne (own j inside apart)]
      exact timely.near j inside set

theorem Timely.free (timely : Timely tableCount s clock triggers) (i : Nat) :
    Timely tableCount (s.set i .empty) clock triggers where
  distinct := timely.distinct.set (.inl rfl)
  used := forall_set (P := fun entry => entry.callback.isSome = true → entry.token ≠ invalidDeferredToken)
    (fun set => by cases set) fun j inside _ => timely.used j inside
  time := forall_set (P := fun entry => entry.token ≠ invalidDeferredToken →
      entry.triggerTime = .ofNat (triggers entry.token).due)
    (fun set => absurd rfl set) fun j inside _ => timely.time j inside
  near := forall_set (P := fun entry => entry.token ≠ invalidDeferredToken →
      (triggers entry.token).Near clock)
    (fun set => absurd rfl set) fun j inside _ => timely.near j inside

end

/-! ## Runs -/

/-- An executor was invoked: its token and trigger, and the time. -/
structure Invocation where
  token : UInt8
  trigger : Trigger
  clock : Nat

/-- The table with the clock, the triggers of the tokens and the invocations so far. -/
structure Timed (γ : Type) where
  deferred : Deferred γ
  clock : Nat
  triggers : UInt8 → Trigger
  invocations : List Invocation

/-- The operations.  Callbacks return a delay and do nothing else; with `elsewhere` another
table has moved the counter of the tokens. -/
inductive QuietOp (γ : Type) where
  | defer (delayMs : UInt32) (callback : Option γ)
  | extend (token : UInt8) (delayMs : UInt32)
  | cancel (token : UInt8)
  | task (delays : Nat → UInt32)
  | elsewhere (currentToken : UInt8)

def quietReactions (delays : Nat → UInt32) (i : Nat) : Reaction γ := ⟨[], delays i⟩

section

variable (tableCount : Nat)

def Timed.visit (delays : Nat → UInt32) (t : Timed γ) (i : Nat) : Timed γ :=
  let token := (t.deferred.table i).token
  let deferred := t.deferred.visit tableCount (.ofNat t.clock) (quietReactions delays) i
  if (t.deferred.table i).IsDue (.ofNat t.clock) then
    { t with
      deferred := deferred
      triggers := Function.update t.triggers token ((t.triggers token).again (delays i))
      invocations := t.invocations ++ [⟨token, t.triggers token, t.clock⟩] }
  else { t with deferred := deferred }

def Timed.task (delays : Nat → UInt32) (t : Timed γ) : Timed γ :=
  let now := UInt32.ofNat t.clock
  if 0 < timerDiff now t.deferred.lastExecutionTime then
    (List.range tableCount).foldl (Timed.visit tableCount delays)
      { t with deferred := { t.deferred with lastExecutionTime := now } }
  else t

/-- An operation `elapsed` milliseconds after the last one. -/
def Timed.step (t : Timed γ) (op : Nat × QuietOp γ) : Timed γ :=
  let t := { t with clock := t.clock + op.1 }
  let now := UInt32.ofNat t.clock
  match op.2 with
  | .defer delayMs callback =>
    let (token, deferred) := deferExecAdvanced tableCount now delayMs callback t.deferred
    { t with
      deferred := deferred
      triggers := if token = invalidDeferredToken then t.triggers
        else Function.update t.triggers token (.after t.clock delayMs) }
  | .extend token delayMs =>
    let (found, deferred) := extendDeferredExecAdvanced tableCount now token delayMs t.deferred
    { t with
      deferred := deferred
      triggers := if found then Function.update t.triggers token (.after t.clock delayMs) else t.triggers }
  | .cancel token => { t with deferred := (cancelDeferredExecAdvanced tableCount token t.deferred).2 }
  | .task delays => t.task tableCount delays
  | .elsewhere currentToken => { t with deferred := { t.deferred with currentToken := currentToken } }

end

/-- The visits of the task are those of the code. -/
theorem Timed.task_deferred (delays : Nat → UInt32) (t : Timed γ) :
    (t.task tableCount delays).deferred =
      deferredExecAdvancedTask tableCount (.ofNat t.clock) (quietReactions delays) t.deferred := by
  have visited : ∀ (indices : List Nat) (t : Timed γ),
      (indices.foldl (Timed.visit tableCount delays) t).deferred =
        indices.foldl (Deferred.visit tableCount (.ofNat t.clock) (quietReactions delays)) t.deferred := by
    intro indices
    induction indices with
    | nil => exact fun _ => rfl
    | cons i indices ih =>
      intro t
      have clock : (t.visit tableCount delays i).clock = t.clock := by
        rw [Timed.visit]
        split <;> rfl
      have deferred : (t.visit tableCount delays i).deferred =
          t.deferred.visit tableCount (.ofNat t.clock) (quietReactions delays) i := by
        rw [Timed.visit]
        split <;> rfl
      rw [List.foldl_cons, ih, clock, deferred, List.foldl_cons]
  rw [Timed.task, deferredExecAdvancedTask]
  split
  · exact visited _ _
  · rfl

/-- What holds in every state that is reached. -/
structure Timed.Sound (tableCount : Nat) (t : Timed γ) : Prop where
  timely : Timely tableCount t.deferred t.clock t.triggers
  punctual : ∀ invocation ∈ t.invocations, invocation.trigger.short = true →
    invocation.trigger.due ≤ invocation.clock

/-- An entry whose time has come is requeued or freed. -/
theorem Timely.requeue {s : Deferred γ} {clock : Nat} {triggers : UInt8 → Trigger}
    (timely : Timely tableCount s clock triggers) {i : Nat} (inside : i < tableCount)
    (valid : (s.table i).token ≠ invalidDeferredToken) (delayMs : UInt32)
    (past : (triggers (s.table i).token).short = true → (triggers (s.table i).token).due ≤ clock) :
    Timely tableCount (s.requeue i delayMs) clock
      (Function.update triggers (s.table i).token ((triggers (s.table i).token).again delayMs)) := by
  have others := timely.distinct.others inside valid
  have repeated : Timely tableCount
      (s.set i { s.table i with triggerTime := (s.table i).triggerTime + delayMs }) clock
      (Function.update triggers (s.table i).token ((triggers (s.table i).token).again delayMs)) := by
    refine timely.put valid others ?_ (Trigger.again_near delayMs past)
    rw [Trigger.again, UInt32.ofNat_add, UInt32.ofNat_toNat, timely.time i inside valid]
  rw [Deferred.requeue]
  split
  · exact repeated
  · -- a freed entry is an entry that was repeated and then freed
    have freed := repeated.free i
    rwa [show (s.set i { s.table i with triggerTime := (s.table i).triggerTime + delayMs }).set i .empty =
      s.set i .empty by simp [Deferred.set]] at freed

theorem visit_sound {t : Timed γ} (sound : t.Sound tableCount) (delays : Nat → UInt32) {i : Nat}
    (inside : i < tableCount) : (t.visit tableCount delays i).Sound tableCount := by
  rw [Timed.visit, Deferred.visit]
  split
  · next isDue =>
    obtain ⟨valid, reached⟩ := isDue
    -- the entry is due by the wrapping clock, hence by the unbounded one
    have past : (t.triggers (t.deferred.table i).token).short = true →
        (t.triggers (t.deferred.table i).token).due ≤ t.clock := by
      intro short
      rw [sound.timely.time i inside valid] at reached
      exact due_of_timerDiff (sound.timely.near i inside valid short) reached
    refine ⟨sound.timely.requeue inside valid (delays i) past, ?_⟩
    intro invocation member
    rw [List.mem_append, List.mem_singleton] at member
    cases member with
    | inl earlier => exact sound.punctual invocation earlier
    | inr last => exact last ▸ past
  · exact sound

theorem task_sound {t : Timed γ} (sound : t.Sound tableCount) (delays : Nat → UInt32) :
    (t.task tableCount delays).Sound tableCount := by
  rw [Timed.task]
  split
  · have visited : ∀ indices : List Nat, (∀ i ∈ indices, i < tableCount) → ∀ t : Timed γ,
        t.Sound tableCount → (indices.foldl (Timed.visit tableCount delays) t).Sound tableCount := by
      intro indices
      induction indices with
      | nil => exact fun _ _ sound => sound
      | cons i indices ih =>
        intro inside t sound
        rw [List.forall_mem_cons] at inside
        exact ih inside.2 _ (visit_sound sound delays inside.1)
    exact visited _ (fun i member => List.mem_range.mp member) _
      ⟨⟨sound.timely.distinct, sound.timely.used, sound.timely.time, sound.timely.near⟩, sound.punctual⟩
  · exact sound

theorem step_sound {t : Timed γ} (sound : t.Sound tableCount) (op : Nat × QuietOp γ) :
    (t.step tableCount op).Sound tableCount := by
  obtain ⟨elapsed, op⟩ := op
  have timely := sound.timely.later elapsed
  cases op with
  | defer delayMs callback =>
    refine ⟨?_, sound.punctual⟩
    simp only [Timed.step]
    cases defer_cases tableCount (.ofNat (t.clock + elapsed)) delayMs callback t.deferred with
    | inl nothing =>
      obtain ⟨invalid, currentToken, result⟩ := nothing
      rw [invalid, if_pos rfl, result]
      exact ⟨timely.distinct, timely.used, timely.time, timely.near⟩
    | inr claimed =>
      obtain ⟨function, i, token, -, free, usable, result⟩ := claimed
      obtain ⟨valid, fresh⟩ := (tokenCanBeUsed_iff t.deferred.table token).mp usable
      rw [result, if_neg valid]
      -- the new token is not in the table, so the triggers of the others stay
      have moved : Timely tableCount { t.deferred with currentToken := token } (t.clock + elapsed) t.triggers :=
        ⟨timely.distinct, timely.used, timely.time, timely.near⟩
      exact moved.put valid (fun j inside _ => fresh j inside) (Trigger.after_time _ delayMs)
        (Trigger.after_near _ delayMs)
  | extend token delayMs =>
    refine ⟨?_, sound.punctual⟩
    simp only [Timed.step]
    cases extend_cases tableCount (.ofNat (t.clock + elapsed)) token delayMs t.deferred with
    | inl nothing =>
      rw [nothing]
      exact timely
    | inr found =>
      obtain ⟨i, there, valid, result⟩ := found
      obtain ⟨inside, rfl⟩ := findToken_some there
      rw [result, if_pos rfl]
      exact timely.put valid (timely.distinct.others inside valid) (Trigger.after_time _ delayMs)
        (Trigger.after_near _ delayMs)
  | cancel token =>
    refine ⟨?_, sound.punctual⟩
    simp only [Timed.step]
    cases cancel_cases tableCount token t.deferred with
    | inl nothing =>
      rw [nothing.1]
      exact timely
    | inr found =>
      obtain ⟨i, -, -, result⟩ := found
      rw [result]
      exact timely.free i
  | task delays =>
    -- the clock goes on before the task runs
    have waited : ({ t with clock := t.clock + elapsed } : Timed γ).Sound tableCount :=
      ⟨timely, sound.punctual⟩
    exact task_sound waited delays
  | elsewhere currentToken =>
    exact ⟨⟨timely.distinct, timely.used, timely.time, timely.near⟩, sound.punctual⟩

/-- The empty table, at any time and with any counter. -/
def Timed.start (clock : Nat) (currentToken : UInt8) (lastExecutionTime : UInt32) : Timed γ :=
  ⟨⟨fun _ => .empty, currentToken, lastExecutionTime⟩, clock, fun _ => ⟨0, false⟩, []⟩

theorem start_sound (tableCount clock : Nat) (currentToken : UInt8) (lastExecutionTime : UInt32) :
    (Timed.start clock currentToken lastExecutionTime : Timed γ).Sound tableCount where
  timely := {
    distinct := fun _ _ _ _ _ used => absurd rfl used
    used := fun _ _ set => by cases set
    time := fun _ _ used => absurd rfl used
    near := fun _ _ used => absurd rfl used }
  punctual _ member := by cases member

def Timed.run (tableCount : Nat) (start : Timed γ) (ops : List (Nat × QuietOp γ)) : Timed γ :=
  ops.foldl (Timed.step tableCount) start

/-! ## Other entries -/

theorem cancel_keeps (s : Deferred γ) {token : UInt8} {i : Nat} (apart : (s.table i).token ≠ token) :
    (cancelDeferredExecAdvanced tableCount token s).2.table i = s.table i := by
  cases cancel_cases tableCount token s with
  | inl nothing => rw [nothing.1]
  | inr found =>
    obtain ⟨j, there, -, result⟩ := found
    have separate : i ≠ j := by
      rintro rfl
      exact apart (findToken_some there).2
    rw [result]
    exact set_table_other s separate _

theorem extend_keeps (s : Deferred γ) (now delayMs : UInt32) {token : UInt8} {i : Nat}
    (apart : (s.table i).token ≠ token) :
    (extendDeferredExecAdvanced tableCount now token delayMs s).2.table i = s.table i := by
  cases extend_cases tableCount now token delayMs s with
  | inl nothing => rw [nothing]
  | inr found =>
    obtain ⟨j, there, -, result⟩ := found
    have separate : i ≠ j := by
      rintro rfl
      exact apart (findToken_some there).2
    rw [result]
    exact set_table_other s separate _

/-- What is promised of a table: live entries have valid and distinct tokens, the search for
a new token ends and finds one, cancelling and extending change only the entry with the
token, and no executor with short delays has run before its time. -/
structure Guarantees (tableCount : Nat) (t : Timed γ) : Prop where
  valid : ∀ i < tableCount, (t.deferred.table i).callback.isSome = true →
    (t.deferred.table i).token ≠ invalidDeferredToken
  distinct : ∀ i < tableCount, ∀ j < tableCount, i ≠ j →
    (t.deferred.table i).callback.isSome = true → (t.deferred.table j).callback.isSome = true →
    (t.deferred.table i).token ≠ (t.deferred.table j).token
  allocates : ∃ token, allocateToken tableCount t.deferred.table t.deferred.currentToken =
    some (token, token) ∧ tokenCanBeUsed tableCount t.deferred.table token = true
  cancelling : ∀ token i, (t.deferred.table i).token ≠ token →
    (cancelDeferredExecAdvanced tableCount token t.deferred).2.table i = t.deferred.table i
  extending : ∀ now token delayMs i, (t.deferred.table i).token ≠ token →
    (extendDeferredExecAdvanced tableCount now token delayMs t.deferred).2.table i = t.deferred.table i
  punctual : ∀ invocation ∈ t.invocations, invocation.trigger.short = true →
    invocation.trigger.due ≤ invocation.clock

/-- In every table that is reached from an empty one. -/
theorem deferred_exec_guarantees (small : tableCount < 255) (clock : Nat) (currentToken : UInt8)
    (lastExecutionTime : UInt32) (ops : List (Nat × QuietOp γ)) :
    Guarantees tableCount (Timed.run tableCount (.start clock currentToken lastExecutionTime) ops) := by
  have sound : (Timed.run tableCount (.start clock currentToken lastExecutionTime) ops).Sound tableCount :=
    @foldl_invariant _ _ (Timed.step tableCount) (Timed.Sound tableCount)
      (fun _ op sound => step_sound sound op) _
      (start_sound tableCount clock currentToken lastExecutionTime) ops
  exact {
    valid := sound.timely.used
    distinct := by
      intro i inside j alsoInside apart first _ same
      exact apart (sound.timely.distinct i inside j alsoInside same (sound.timely.used i inside first))
    allocates := allocateToken_succeeds small _ _
    cancelling := fun _ _ apart => cancel_keeps _ apart
    extending := fun now _ delayMs _ apart => extend_keeps _ now delayMs apart
    punctual := sound.punctual }

/-- A delay of two milliseconds across the wrap of the clock. -/
def acrossWrap : List (Nat × QuietOp Nat) :=
  [(0, .defer 2 (some 7)), (1, .task fun _ => 0), (1, .task fun _ => 5)]

theorem acrossWrap_guarantees :
    ((Timed.run 8 (.start (2 ^ 32 - 1) 0 0) acrossWrap).invocations.map fun invocation =>
      (invocation.trigger.due, invocation.clock)) = [(2 ^ 32 + 1, 2 ^ 32 + 1)] ∧
    Guarantees 8 (Timed.run 8 (.start (2 ^ 32 - 1) 0 0) acrossWrap) :=
  ⟨by decide, deferred_exec_guarantees (by decide) _ _ _ acrossWrap⟩

end QmkFirmware.DeferredExec
