import Mathlib.Data.UInt
import Mathlib.Logic.Function.Basic

/-! # Deferred executors

A shallow embedding of `quantum/deferred_exec.c`.  A table is a function of which the
first `tableCount` entries count.  A callback stands for the function with its argument,
and what it does when it is invoked is an input: the calls it makes, each with the time
at which it makes it, and the delay it returns.
-/

namespace QmkFirmware.DeferredExec

variable {γ : Type}

def invalidDeferredToken : UInt8 := 0

structure Executor (γ : Type) where
  token : UInt8
  triggerTime : UInt32
  callback : Option γ

def Executor.empty : Executor γ := ⟨invalidDeferredToken, 0, none⟩

/-- A table with the counter of the tokens, which all tables share, and the time of the
last execution. -/
structure Deferred (γ : Type) where
  table : Nat → Executor γ
  currentToken : UInt8
  lastExecutionTime : UInt32

def Deferred.set (s : Deferred γ) (i : Nat) (entry : Executor γ) : Deferred γ :=
  { s with table := Function.update s.table i entry }

/-! ## Tokens -/

section

variable (tableCount : Nat)

/-- The first entry with a token. -/
def findToken (table : Nat → Executor γ) (token : UInt8) : Option Nat :=
  (List.range tableCount).find? fun i => (table i).token = token

def tokenCanBeUsed (table : Nat → Executor γ) (token : UInt8) : Bool :=
  if token = invalidDeferredToken then false else (findToken tableCount table token).isNone

/-- The loop of `allocate_token`, with the token it returns and the counter after it; there
is no result if the loop has not ended after `fuel` rounds. -/
def allocateLoop (table : Nat → Executor γ) (first : UInt8) : Nat → UInt8 → Option (UInt8 × UInt8)
  | 0, _ => none
  | fuel + 1, currentToken =>
    if tokenCanBeUsed tableCount table currentToken then some (currentToken, currentToken)
    else
      -- all 256 values have been tried when the counter is back
      let currentToken := currentToken + 1
      if currentToken = first then some (invalidDeferredToken, currentToken)
      else allocateLoop table first fuel currentToken

def allocateToken (table : Nat → Executor γ) (currentToken : UInt8) : Option (UInt8 × UInt8) :=
  allocateLoop tableCount table (currentToken + 1) 256 (currentToken + 1)

/-! ## Operations -/

def deferExecAdvanced (now delayMs : UInt32) (callback : Option γ) (s : Deferred γ) : UInt8 × Deferred γ :=
  if tableCount = 0 ∨ delayMs = 0 ∨ callback.isNone then (invalidDeferredToken, s)
  else
    match findToken tableCount s.table invalidDeferredToken with
    | none => (invalidDeferredToken, s)
    | some i =>
      match allocateToken tableCount s.table s.currentToken with
      | none => (invalidDeferredToken, s)
      | some (token, currentToken) =>
        let s := { s with currentToken := currentToken }
        if token = invalidDeferredToken then (invalidDeferredToken, s)
        else (currentToken, s.set i ⟨currentToken, now + delayMs, callback⟩)

def extendDeferredExecAdvanced (now : UInt32) (token : UInt8) (delayMs : UInt32) (s : Deferred γ) :
    Bool × Deferred γ :=
  if tableCount = 0 ∨ delayMs = 0 ∨ token = invalidDeferredToken then (false, s)
  else
    match findToken tableCount s.table token with
    | none => (false, s)
    | some i => (true, s.set i { s.table i with triggerTime := now + delayMs })

def cancelDeferredExecAdvanced (token : UInt8) (s : Deferred γ) : Bool × Deferred γ :=
  if tableCount = 0 ∨ token = invalidDeferredToken then (false, s)
  else
    match findToken tableCount s.table token with
    | none => (false, s)
    | some i => (true, s.set i .empty)

/-- A call of the interface, at the time `now`. -/
inductive Call (γ : Type) where
  | defer (now delayMs : UInt32) (callback : Option γ)
  | extend (now : UInt32) (token : UInt8) (delayMs : UInt32)
  | cancel (token : UInt8)

def Deferred.call (s : Deferred γ) : Call γ → Deferred γ
  | .defer now delayMs callback => (deferExecAdvanced tableCount now delayMs callback s).2
  | .extend now token delayMs => (extendDeferredExecAdvanced tableCount now token delayMs s).2
  | .cancel token => (cancelDeferredExecAdvanced tableCount token s).2

/-! ## Task -/

/-- What a callback does when it is invoked. -/
structure Reaction (γ : Type) where
  calls : List (Call γ)
  delayMs : UInt32

/-- The signed difference of two times. -/
def timerDiff (a b : UInt32) : Int := (a - b).toBitVec.toInt

def Executor.IsDue (entry : Executor γ) (now : UInt32) : Prop :=
  entry.token ≠ invalidDeferredToken ∧ timerDiff entry.triggerTime now ≤ 0

instance (entry : Executor γ) (now : UInt32) : Decidable (entry.IsDue now) :=
  inferInstanceAs (Decidable (_ ∧ _))

/-- The entry is requeued or its slot is freed, whatever the callback has done to it. -/
def Deferred.requeue (s : Deferred γ) (i : Nat) (delayMs : UInt32) : Deferred γ :=
  if 0 < delayMs then s.set i { s.table i with triggerTime := (s.table i).triggerTime + delayMs }
  else s.set i .empty

def Deferred.visit (now : UInt32) (reactions : Nat → Reaction γ) (s : Deferred γ) (i : Nat) : Deferred γ :=
  if (s.table i).IsDue now then
    ((reactions i).calls.foldl (Deferred.call tableCount) s).requeue i (reactions i).delayMs
  else s

def deferredExecAdvancedTask (now : UInt32) (reactions : Nat → Reaction γ) (s : Deferred γ) : Deferred γ :=
  if 0 < timerDiff now s.lastExecutionTime then
    (List.range tableCount).foldl (Deferred.visit tableCount now reactions) { s with lastExecutionTime := now }
  else s

end

end QmkFirmware.DeferredExec
