import Mathlib.Data.List.Induction
import Mathlib.Logic.Function.Basic

/-! # Values held in slots

A trace of starts and stops.  A start holds a value in a slot until the value is stopped there; at a rest
nothing may be held.
-/

namespace QmkFirmware.Occupancy

inductive Event (κ ν : Type) where
  | start (slot : κ) (value : ν)
  | stop (slot : κ) (value : ν)
  | rest
deriving DecidableEq

variable {κ ν : Type}

/-- The event must not come as long as the slot holds a value. -/
def Event.NeedsFree (slot : κ) : Event κ ν → Prop
  | .start other _ => other = slot
  | .stop _ _ => False
  | .rest => True

instance [DecidableEq κ] (slot : κ) (event : Event κ ν) : Decidable (event.NeedsFree slot) :=
  match event with
  | .start other _ => inferInstanceAs (Decidable (other = slot))
  | .stop _ _ => inferInstanceAs (Decidable False)
  | .rest => inferInstanceAs (Decidable True)

/-- Every value that is started is stopped before the next start in its slot and before the next rest. -/
def Matched (trace : List (Event κ ν)) : Prop :=
  ∀ before slot value between next after, trace = before ++ .start slot value :: (between ++ next :: after) →
    next.NeedsFree slot → .stop slot value ∈ between

theorem matched_nil : Matched ([] : List (Event κ ν)) := by
  intro before slot value between next after split
  exact absurd split (by simp)

variable [DecidableEq κ] [DecidableEq ν]

/-! ## What is held -/

def afterEvent (held : κ → Option ν) : Event κ ν → κ → Option ν
  | .start slot value => Function.update held slot (some value)
  | .stop slot value => if held slot = some value then Function.update held slot none else held
  | .rest => held

/-- The value that is held in a slot after a trace. -/
def held (trace : List (Event κ ν)) : κ → Option ν := trace.foldl afterEvent fun _ => none

variable {trace : List (Event κ ν)} {event : Event κ ν} {slot other : κ} {value : ν}

@[simp] theorem held_nil : held ([] : List (Event κ ν)) slot = none := rfl

theorem held_concat : held (trace ++ [event]) = afterEvent (held trace) event := List.foldl_append

@[simp] theorem held_rest : held (trace ++ [.rest]) = held trace := held_concat

theorem held_start : held (trace ++ [.start slot value]) other = if other = slot then some value else held trace other := by
  rw [held_concat]
  exact Function.update_apply _ _ _ _

theorem held_stop : held (trace ++ [.stop slot value]) other =
    if other = slot ∧ held trace slot = some value then none else held trace other := by
  rw [held_concat, afterEvent]
  by_cases sounds : held trace slot = some value
  · rw [if_pos sounds, Function.update_apply]
    simp [sounds]
  · rw [if_neg sounds]
    simp [sounds]

/-- A value is held as long as it is not stopped and no other one is started. -/
theorem held_of_untouched (before : List (Event κ ν)) {between : List (Event κ ν)} (unstopped : .stop slot value ∉ between)
    (unstarted : ∀ next, .start slot next ∉ between) :
    held (before ++ .start slot value :: between) slot = some value := by
  induction between using List.reverseRecOn with
  | nil => rw [held_start, if_pos rfl]
  | append_singleton between last ih =>
    rw [List.mem_append, not_or] at unstopped
    have earlier := ih unstopped.1 fun next member => unstarted next (List.mem_append_left _ member)
    rw [← List.cons_append, ← List.append_assoc]
    cases last with
    | start other next =>
      have differ : slot ≠ other := by
        intro same
        exact unstarted next (by simp [same])
      rw [held_start, if_neg differ, earlier]
    | stop other next =>
      rw [held_stop, earlier]
      apply if_neg
      rintro ⟨rfl, sounds⟩
      rw [earlier] at sounds
      cases sounds
      exact unstopped.2 List.mem_cons_self
    | rest => rw [held_rest, earlier]

/-- Nothing is held in any slot. -/
def Free (trace : List (Event κ ν)) : Prop := ∀ slot, held trace slot = none

/-- The slots in which something has been started. -/
def started (trace : List (Event κ ν)) : List κ :=
  trace.filterMap fun event => match event with
    | .start slot _ => some slot
    | .stop _ _ => none
    | .rest => none

theorem held_of_not_started (never : slot ∉ started trace) : held trace slot = none := by
  induction trace using List.reverseRecOn with
  | nil => rfl
  | append_singleton trace last ih =>
    rw [started, List.filterMap_append, List.mem_append, not_or] at never
    have earlier := ih never.1
    cases last with
    | start other next =>
      have differ : slot ≠ other := by
        intro same
        exact never.2 (by simp [same])
      rw [held_start, if_neg differ, earlier]
    | stop other next => rw [held_stop, earlier, ite_self]
    | rest => rw [held_rest, earlier]

instance (trace : List (Event κ ν)) : Decidable (Free trace) :=
  decidable_of_iff (∀ slot ∈ started trace, held trace slot = none) (by
    constructor
    · intro checked slot
      by_cases member : slot ∈ started trace
      · exact checked slot member
      · exact held_of_not_started member
    · intro free slot _
      exact free slot)

/-! ## Longer traces -/

theorem Matched.concat (matched : Matched trace) (free : ∀ slot, event.NeedsFree slot → held trace slot = none) :
    Matched (trace ++ [event]) := by
  intro before slot value between next after split needs
  cases after using List.reverseRecOn with
  | nil =>
    -- the event is the one that needs the slot free
    rw [← List.cons_append, ← List.append_assoc] at split
    obtain ⟨rfl, same⟩ := List.append_inj' split rfl
    cases same
    by_contra unstopped
    -- a second start in the slot would have been matched by a stop already
    have unstarted : ∀ restarted, .start slot restarted ∉ between := by
      intro restarted member
      obtain ⟨first, second, rfl⟩ := List.append_of_mem member
      have stopped := matched before slot value first (.start slot restarted) second rfl rfl
      exact unstopped (List.mem_append_left _ stopped)
    have sounds := held_of_untouched before unstopped unstarted
    rw [free slot needs] at sounds
    cases sounds
  | append_singleton after last =>
    -- the two events are both in the trace before
    have earlier : trace ++ [event] = (before ++ .start slot value :: (between ++ next :: after)) ++ [last] := by
      rw [split]
      simp
    have same := (List.append_inj' earlier rfl).1
    exact matched before slot value between next after same needs

end QmkFirmware.Occupancy
