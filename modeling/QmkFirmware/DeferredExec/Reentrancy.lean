import QmkFirmware.DeferredExec.Operations
import QmkFirmware.Foundations.Runs

/-! # Callbacks that use the table

A callback may defer, extend and cancel while the task holds on to its entry.  Beside the
table we keep the executors that were issued and have neither been cancelled nor come to
their end.  They all stay in the table, unless a callback that returns zero has left its
entry to another executor.
-/

namespace QmkFirmware.DeferredExec

open QmkFirmware.Runs

variable {γ : Type}

/-- An executor for which a token was returned. -/
structure Issued (γ : Type) where
  id : Nat
  slot : Nat
  token : UInt8
  callback : γ
  deriving DecidableEq, Repr

/-- The table with the executors that are due to stay in it. -/
structure Tracked (γ : Type) where
  deferred : Deferred γ
  nextId : Nat
  live : List (Issued γ)

/-- An operation; with `elsewhere` another table has moved the counter of the tokens. -/
inductive Op (γ : Type) where
  | call (call : Call γ)
  | task (now : UInt32) (reactions : Nat → Reaction γ)
  | elsewhere (currentToken : UInt8)

section

variable (tableCount : Nat)

def Tracked.issue (t : Tracked γ) (token : UInt8) (callback : Option γ) : List (Issued γ) :=
  match callback, findToken tableCount t.deferred.table invalidDeferredToken with
  | some function, some slot =>
    if token = invalidDeferredToken then t.live else ⟨t.nextId, slot, token, function⟩ :: t.live
  | _, _ => t.live

def Tracked.call (t : Tracked γ) : Call γ → Tracked γ
  | .defer now delayMs callback =>
    let result := deferExecAdvanced tableCount now delayMs callback t.deferred
    ⟨result.2, t.nextId + 1, t.issue tableCount result.1 callback⟩
  | .extend now token delayMs =>
    { t with deferred := (extendDeferredExecAdvanced tableCount now token delayMs t.deferred).2 }
  | .cancel token =>
    { t with
      deferred := (cancelDeferredExecAdvanced tableCount token t.deferred).2
      live := t.live.filter fun executor => executor.token ≠ token }

/-- The executor whose callback runs for an entry. -/
def Tracked.running (t : Tracked γ) (i : Nat) : Option Nat :=
  (t.live.find? fun executor => executor.slot = i).map Issued.id

/-- The executor that returns zero has come to its end. -/
def Tracked.finish (t : Tracked γ) (i : Nat) (running : Option Nat) (delayMs : UInt32) : Tracked γ :=
  { t with
    deferred := t.deferred.requeue i delayMs
    live := if 0 < delayMs then t.live else t.live.filter fun executor => some executor.id ≠ running }

def Tracked.visit (now : UInt32) (reactions : Nat → Reaction γ) (t : Tracked γ) (i : Nat) : Tracked γ :=
  if (t.deferred.table i).IsDue now then
    ((reactions i).calls.foldl (Tracked.call tableCount) t).finish i (t.running i) (reactions i).delayMs
  else t

def Tracked.startTask (now : UInt32) (t : Tracked γ) : Tracked γ :=
  { t with deferred := { t.deferred with lastExecutionTime := now } }

def Tracked.step (t : Tracked γ) : Op γ → Tracked γ
  | .call call => t.call tableCount call
  | .task now reactions =>
    if 0 < timerDiff now t.deferred.lastExecutionTime then
      (List.range tableCount).foldl (Tracked.visit tableCount now reactions) (t.startTask now)
    else t
  | .elsewhere currentToken => { t with deferred := { t.deferred with currentToken := currentToken } }

def Tracked.run (start : Tracked γ) (ops : List (Op γ)) : Tracked γ :=
  ops.foldl (Tracked.step tableCount) start

/-- Every live executor has an entry of its own, with its token and its callback. -/
structure InTable (t : Tracked γ) : Prop where
  held : ∀ executor ∈ t.live, executor.slot < tableCount ∧ executor.token ≠ invalidDeferredToken ∧
    (t.deferred.table executor.slot).token = executor.token ∧
    (t.deferred.table executor.slot).callback = some executor.callback
  separate : t.live.Pairwise fun executor other => executor.slot ≠ other.slot

/-- The callback returns zero after another executor has taken its entry. -/
def TakenOver (now : UInt32) (reactions : Nat → Reaction γ) (t : Tracked γ) (i : Nat) : Prop :=
  (t.deferred.table i).IsDue now ∧ (reactions i).delayMs = 0 ∧
    ∃ executor ∈ ((reactions i).calls.foldl (Tracked.call tableCount) t).live,
      executor.slot = i ∧ some executor.id ≠ t.running i

/-- No callback that the operation runs leaves its entry to another executor and returns zero. -/
def SafeOp (t : Tracked γ) : Op γ → Prop
  | .call _ => True
  | .task now reactions => 0 < timerDiff now t.deferred.lastExecutionTime →
    EveryStep (fun earlier i => ¬TakenOver tableCount now reactions
      (earlier.foldl (Tracked.visit tableCount now reactions) (t.startTask now)) i) (List.range tableCount)
  | .elsewhere _ => True

instance (now : UInt32) (reactions : Nat → Reaction γ) (t : Tracked γ) (i : Nat) :
    Decidable (TakenOver tableCount now reactions t i) :=
  inferInstanceAs (Decidable (_ ∧ _ ∧ ∃ executor ∈ (List.foldl _ t _).live, _))

instance (t : Tracked γ) : (op : Op γ) → Decidable (SafeOp tableCount t op)
  | .call _ => .isTrue trivial
  | .task _ _ => inferInstanceAs (Decidable (_ → EveryStep _ (List.range tableCount)))
  | .elsewhere _ => .isTrue trivial

end

/-! ## The code -/

section

variable {tableCount : Nat}

theorem Tracked.call_deferred (t : Tracked γ) (call : Call γ) :
    (t.call tableCount call).deferred = t.deferred.call tableCount call := by
  cases call <;> rfl

theorem Tracked.calls_deferred (calls : List (Call γ)) (t : Tracked γ) :
    (calls.foldl (Tracked.call tableCount) t).deferred =
      calls.foldl (Deferred.call tableCount) t.deferred := by
  induction calls generalizing t with
  | nil => rfl
  | cons call calls ih => rw [List.foldl_cons, ih, Tracked.call_deferred, List.foldl_cons]

theorem Tracked.visit_deferred (now : UInt32) (reactions : Nat → Reaction γ) (t : Tracked γ) (i : Nat) :
    (t.visit tableCount now reactions i).deferred = t.deferred.visit tableCount now reactions i := by
  rw [Tracked.visit, Deferred.visit]
  split
  · rw [Tracked.finish, Tracked.calls_deferred]
  · rfl

/-- The tracked task is the task of the code. -/
theorem Tracked.task_deferred (now : UInt32) (reactions : Nat → Reaction γ) (t : Tracked γ) :
    (t.step tableCount (.task now reactions)).deferred =
      deferredExecAdvancedTask tableCount now reactions t.deferred := by
  have visited : ∀ (indices : List Nat) (t : Tracked γ),
      (indices.foldl (Tracked.visit tableCount now reactions) t).deferred =
        indices.foldl (Deferred.visit tableCount now reactions) t.deferred := by
    intro indices
    induction indices with
    | nil => exact fun _ => rfl
    | cons i indices ih =>
      intro t
      rw [List.foldl_cons, ih, Tracked.visit_deferred, List.foldl_cons]
  rw [Tracked.step, deferredExecAdvancedTask]
  split
  · exact visited _ _
  · rfl

end

/-! ## Calls -/

section

variable {tableCount : Nat} {t : Tracked γ}

/-- A change of the table that touches no entry of a live executor. -/
theorem InTable.mono (inTable : InTable tableCount t) {t' : Tracked γ}
    (live : t'.live.Sublist t.live)
    (kept : ∀ executor ∈ t'.live,
      (t'.deferred.table executor.slot).token = (t.deferred.table executor.slot).token ∧
      (t'.deferred.table executor.slot).callback = (t.deferred.table executor.slot).callback) :
    InTable tableCount t' where
  held executor member := by
    obtain ⟨inside, valid, token, callback⟩ := inTable.held executor (live.subset member)
    obtain ⟨sameToken, sameCallback⟩ := kept executor member
    exact ⟨inside, valid, sameToken.trans token, sameCallback.trans callback⟩
  separate := inTable.separate.sublist live

theorem call_inTable (inTable : InTable tableCount t) (call : Call γ) :
    InTable tableCount (t.call tableCount call) := by
  cases call with
  | defer now delayMs callback =>
    rw [Tracked.call]
    cases defer_cases tableCount now delayMs callback t.deferred with
    | inl nothing =>
      obtain ⟨invalid, currentToken, result⟩ := nothing
      have none : t.issue tableCount invalidDeferredToken callback = t.live := by
        simp only [Tracked.issue, if_true]
        split <;> rfl
      rw [invalid, none, result]
      exact inTable.mono (List.Sublist.refl _) fun _ _ => ⟨rfl, rfl⟩
    | inr claimed =>
      obtain ⟨function, i, token, rfl, free, usable, result⟩ := claimed
      obtain ⟨valid, -⟩ := (tokenCanBeUsed_iff t.deferred.table token).mp usable
      obtain ⟨inside, empty⟩ := findToken_some free
      have issued : t.issue tableCount token (some function) = ⟨t.nextId, i, token, function⟩ :: t.live := by
        simp [Tracked.issue, free, valid]
      -- the live executors have valid tokens, so none of them is in the free entry
      have elsewhere : ∀ executor ∈ t.live, executor.slot ≠ i := by
        intro executor member same
        obtain ⟨-, used, token, -⟩ := inTable.held executor member
        rw [same, empty] at token
        exact used token.symm
      rw [result, issued]
      constructor
      · intro executor member
        cases List.mem_cons.mp member with
        | inl new =>
          subst new
          exact ⟨inside, valid, by simp, by simp⟩
        | inr old =>
          rw [set_table_other _ (elsewhere executor old)]
          exact inTable.held executor old
      · refine List.pairwise_cons.mpr ⟨?_, inTable.separate⟩
        intro executor member
        exact (elsewhere executor member).symm
  | extend now token delayMs =>
    refine inTable.mono (List.Sublist.refl _) fun executor _ => ?_
    rw [Tracked.call]
    cases extend_cases tableCount now token delayMs t.deferred with
    | inl nothing => rw [nothing]; exact ⟨rfl, rfl⟩
    | inr found =>
      obtain ⟨i, -, -, result⟩ := found
      rw [result]
      exact set_triggerTime_kept t.deferred i executor.slot _
  | cancel token =>
    refine inTable.mono List.filter_sublist fun executor member => ?_
    rw [Tracked.call]
    cases cancel_cases tableCount token t.deferred with
    | inl nothing => rw [nothing.1]; exact ⟨rfl, rfl⟩
    | inr found =>
      obtain ⟨i, there, -, result⟩ := found
      obtain ⟨live, apart⟩ := List.mem_filter.mp member
      -- a cancelled entry has the token, and its executor is no longer live
      have separate : executor.slot ≠ i := by
        intro same
        have token := (inTable.held executor live).2.2.1
        rw [same, (findToken_some there).2] at token
        simp [token] at apart
      rw [result, set_table_other _ separate]
      exact ⟨rfl, rfl⟩

theorem calls_inTable (inTable : InTable tableCount t) (calls : List (Call γ)) :
    InTable tableCount (calls.foldl (Tracked.call tableCount) t) :=
  @foldl_invariant _ _ (Tracked.call tableCount) (InTable tableCount)
    (fun _ call inTable => call_inTable inTable call) t inTable calls

/-! ## Visits -/

/-- The end of a callback keeps every executor in the table exactly if none has taken over
the entry. -/
theorem visit_inTable (inTable : InTable tableCount t) (now : UInt32) (reactions : Nat → Reaction γ)
    (i : Nat) :
    InTable tableCount (t.visit tableCount now reactions i) ↔ ¬TakenOver tableCount now reactions t i := by
  rw [Tracked.visit, TakenOver]
  split
  · next isDue =>
    have called := calls_inTable inTable (reactions i).calls
    -- from here on only the table after the calls of the callback matters
    generalize (reactions i).calls.foldl (Tracked.call tableCount) t = t' at called ⊢
    rw [Tracked.finish, Deferred.requeue]
    by_cases repeats : 0 < (reactions i).delayMs
    · rw [if_pos repeats, if_pos repeats]
      have nonzero : (reactions i).delayMs ≠ 0 := (UInt32.lt_iff_le_and_ne.mp repeats).2.symm
      simp only [nonzero, false_and, and_false, not_false_eq_true, iff_true]
      exact called.mono (List.Sublist.refl _) fun executor _ =>
        set_triggerTime_kept t'.deferred i executor.slot _
    · have zero : (reactions i).delayMs = 0 := UInt32.le_zero_iff.mp (UInt32.not_lt.mp repeats)
      rw [if_neg repeats, if_neg repeats, and_iff_right isDue, and_iff_right zero]
      constructor
      · intro after taken
        obtain ⟨executor, member, slot, other⟩ := taken
        -- the executor that took the entry is live, and the entry is empty
        have held := after.held executor (List.mem_filter.mpr ⟨member, by simpa using other⟩)
        rw [slot, set_table_self] at held
        exact held.2.1 held.2.2.1.symm
      · intro free
        refine called.mono List.filter_sublist fun executor member => ?_
        obtain ⟨live, other⟩ := List.mem_filter.mp member
        have separate : executor.slot ≠ i := by
          intro slot
          exact free ⟨executor, live, slot, by simpa using other⟩
        rw [set_table_other _ separate]
        exact ⟨rfl, rfl⟩
  · next notDue => simp [notDue, inTable]

theorem step_inTable (inTable : InTable tableCount t) {op : Op γ} (safe : SafeOp tableCount t op) :
    InTable tableCount (t.step tableCount op) := by
  cases op with
  | call call => exact call_inTable inTable call
  | elsewhere currentToken => exact inTable.mono (List.Sublist.refl _) fun _ _ => ⟨rfl, rfl⟩
  | task now reactions =>
    rw [Tracked.step]
    split
    · next runs =>
      have started : InTable tableCount (t.startTask now) :=
        inTable.mono (List.Sublist.refl _) fun _ _ => ⟨rfl, rfl⟩
      exact foldl_everyStep _ (fun _ t => InTable tableCount t) started
        (fun earlier i safe inTable => (visit_inTable inTable now reactions i).mpr safe) _ (safe runs)
    · exact inTable

end

/-! ## Runs -/

def Tracked.start (currentToken : UInt8) (lastExecutionTime : UInt32) : Tracked γ :=
  ⟨⟨fun _ => .empty, currentToken, lastExecutionTime⟩, 0, []⟩

/-- In a run in which no callback that returns zero has left its entry to another executor,
every executor stays in the table until it is cancelled or comes to its end. -/
theorem executors_stay (tableCount : Nat) (currentToken : UInt8) (lastExecutionTime : UInt32)
    (ops : List (Op γ))
    (safe : EveryStep (fun earlier op => SafeOp tableCount
      (Tracked.run tableCount (.start currentToken lastExecutionTime) earlier) op) ops) (n : Nat) :
    InTable tableCount (Tracked.run tableCount (.start currentToken lastExecutionTime) (ops.take n)) := by
  have initial : InTable tableCount (.start currentToken lastExecutionTime : Tracked γ) :=
    ⟨fun _ member => absurd member List.not_mem_nil, List.Pairwise.nil⟩
  exact foldl_everyStep _ (fun _ t => InTable tableCount t) initial
    (fun _ _ safe inTable => step_inTable inTable safe) (ops.take n) (safe.take n)

/-- An executor is deferred and invoked once; its callback makes the calls and returns zero. -/
def oneShot (calls : List (Call Nat)) : List (Op Nat) :=
  [.call (.defer 0 1 (some 0)), .task 1 fun _ => ⟨calls, 0⟩]

/-- The callback defers its successor. -/
theorem successor_stays :
    ((Tracked.run 8 (.start 0 0) (oneShot [.defer 1 10 (some 1)])).live.map Issued.callback = [1]) ∧
    InTable 8 (Tracked.run 8 (.start 0 0) ((oneShot [.defer 1 10 (some 1)]).take 2)) :=
  ⟨by decide, executors_stay 8 0 0 (oneShot [.defer 1 10 (some 1)]) (by decide) 2⟩

/-- The callback cancels itself first, and its successor gets the entry that is then freed. -/
theorem successor_lost : ¬InTable 8 (Tracked.run 8 (.start 0 0) (oneShot [.cancel 1, .defer 1 10 (some 1)])) := by
  intro inTable
  have held := inTable.held ⟨1, 0, 2, 1⟩ (by decide)
  exact absurd held.2.2.1 (by decide)

end QmkFirmware.DeferredExec
