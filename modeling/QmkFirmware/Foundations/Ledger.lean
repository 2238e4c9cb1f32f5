import Mathlib.Logic.Function.Basic
import Mathlib.Data.List.Basic

/-! # A ledger of keys and chords

What it means that no key press is lost or sent twice when chords of keys can stand for
something else: every key is in one of four states, and every entry in the book of a keyboard is
a legal move of one key or one chord.
-/

namespace QmkFirmware

variable {κ ι : Type}

/-- One entry: a press comes in, goes on as itself or is taken by a chord; a chord starts or ends;
a release comes in and goes on or not. -/
inductive Ledger.Entry (κ ι : Type) where
  | press (key : κ)
  | deliver (key : κ)
  | absorb (key : κ) (chord : ι)
  | comboDown (chord : ι)
  | comboUp (chord : ι)
  | release (key : κ) (goesOn : Bool)
deriving DecidableEq

/-- A key is up; it is down and its press is still undecided; its press went on as itself; or its
press was taken by a chord. -/
inductive Ledger.Status (ι : Type) where
  | up
  | pending
  | delivered
  | absorbed (chord : ι)
deriving DecidableEq

structure Ledger (κ ι : Type) where
  status : κ → Ledger.Status ι
  sounding : ι → Bool

variable [DecidableEq κ] [DecidableEq ι]

def Ledger.setStatus (l : Ledger κ ι) (key : κ) (status : Ledger.Status ι) : Ledger κ ι :=
  { l with status := Function.update l.status key status }

def Ledger.setSounding (l : Ledger κ ι) (chord : ι) (sounding : Bool) : Ledger κ ι :=
  { l with sounding := Function.update l.sounding chord sounding }

omit [DecidableEq ι] in
theorem Ledger.status_setStatus (l : Ledger κ ι) (key other : κ) (status : Ledger.Status ι) :
    (l.setStatus key status).status other = if other = key then status else l.status other :=
  Function.update_apply l.status key status other

omit [DecidableEq ι] in
/-- If the new status of `key` is `wanted` exactly when the old one was, the keys with the status `wanted` stay the
same. -/
theorem Ledger.status_setStatus_iff (l : Ledger κ ι) {key : κ} {status wanted : Ledger.Status ι} (other : κ)
    (same : status = wanted ↔ l.status key = wanted) :
    (l.setStatus key status).status other = wanted ↔ l.status other = wanted := by
  rw [status_setStatus]
  by_cases own : other = key
  · rw [if_pos own, own, same]
  · rw [if_neg own]

omit [DecidableEq κ] in
theorem Ledger.sounding_setSounding (l : Ledger κ ι) (chord other : ι) (sounding : Bool) :
    (l.setSounding chord sounding).sounding other = if other = chord then sounding else l.sounding other :=
  Function.update_apply l.sounding chord sounding other

/-- The legal moves.  A press is decided once; a release goes on exactly if the press was delivered;
a chord starts and ends in turn. -/
def Ledger.enter (l : Ledger κ ι) : Ledger.Entry κ ι → Option (Ledger κ ι)
  | .press key => if l.status key = .up then some (l.setStatus key .pending) else none
  | .deliver key => if l.status key = .pending then some (l.setStatus key .delivered) else none
  | .absorb key chord => if l.status key = .pending then some (l.setStatus key (.absorbed chord)) else none
  | .comboDown chord => if l.sounding chord = false then some (l.setSounding chord true) else none
  | .comboUp chord => if l.sounding chord = true then some (l.setSounding chord false) else none
  | .release key goesOn =>
    match l.status key, goesOn with
    | .delivered, true => some (l.setStatus key .up)
    | .absorbed _, false => some (l.setStatus key .up)
    | _, _ => none

theorem Ledger.enter_delivered {l : Ledger κ ι} {key : κ} (delivered : l.status key = .delivered) :
    l.enter (.release key true) = some (l.setStatus key .up) := by simp [enter, delivered]

theorem Ledger.enter_absorbed {l : Ledger κ ι} {key : κ} {chord : ι} (absorbed : l.status key = .absorbed chord) :
    l.enter (.release key false) = some (l.setStatus key .up) := by simp [enter, absorbed]

def Ledger.replay (l : Ledger κ ι) : List (Ledger.Entry κ ι) → Option (Ledger κ ι)
  | [] => some l
  | entry :: entries => (l.enter entry).bind fun l => l.replay entries

def Ledger.empty : Ledger κ ι where
  status _ := .up
  sounding _ := false

/-- A chord sounds exactly while a key that it took is down. -/
def Ledger.Balanced (l : Ledger κ ι) : Prop :=
  ∀ chord, l.sounding chord = true ↔ ∃ key, l.status key = .absorbed chord

/-! ## Replaying -/

theorem Ledger.replay_append (l : Ledger κ ι) (first second : List (Ledger.Entry κ ι)) :
    l.replay (first ++ second) = (l.replay first).bind fun l => l.replay second := by
  induction first generalizing l with
  | nil => rfl
  | cons entry first ih =>
    rw [List.cons_append, replay, replay]
    cases l.enter entry with
    | none => rfl
    | some next => exact ih next

/-- The ledger once `chords` have ended. -/
def Ledger.silence (l : Ledger κ ι) (chords : List ι) : Ledger κ ι :=
  { l with sounding := fun chord => l.sounding chord && !decide (chord ∈ chords) }

/-- Chords that sound end one after the other. -/
theorem Ledger.replay_comboUps {chords : List ι} (l : Ledger κ ι) (once : chords.Nodup)
    (sounding : ∀ chord ∈ chords, l.sounding chord = true) :
    l.replay (chords.map .comboUp) = some (l.silence chords) := by
  induction chords generalizing l with
  | nil => simp [replay, silence]
  | cons chord chords ih =>
    rw [List.nodup_cons] at once
    rw [List.forall_mem_cons] at sounding
    have rest : ∀ other ∈ chords, (l.setSounding chord false).sounding other = true := by
      intro other member
      have apart : other ≠ chord := by
        rintro rfl
        exact once.1 member
      rw [sounding_setSounding, if_neg apart]
      exact sounding.2 other member
    rw [List.map_cons, replay, enter, if_pos sounding.1, Option.bind_some, ih _ once.2 rest]
    simp only [silence]
    congr 2
    funext other
    rw [sounding_setSounding]
    by_cases same : other = chord
    · simp [same]
    · simp [same]

end QmkFirmware
