import Mathlib.Data.Set.Basic
import Mathlib.Logic.Function.Basic

/-! # Mirrors

A target that is brought up to date with a source now and then.  The cells in which the two may differ are dirty: writes
to the source add to them, and cells that are copied need not stay.
-/

namespace QmkFirmware.Mirror

variable {κ α : Type} {dirty more copied : Set κ} {source target other : κ → α}

/-- All cells that are not dirty are up to date. -/
def UpToDate (dirty : Set κ) (source target : κ → α) : Prop := ∀ cell, cell ∉ dirty → target cell = source cell

theorem UpToDate.mono (upToDate : UpToDate dirty source target) (subset : dirty ⊆ more) : UpToDate more source target :=
  fun cell clean => upToDate cell fun member => clean (subset member)

theorem upToDate_univ (source target : κ → α) : UpToDate Set.univ source target :=
  fun cell clean => absurd (Set.mem_univ cell) clean

/-- A cell that is written becomes dirty. -/
theorem UpToDate.write (upToDate : UpToDate dirty source target) (subset : dirty ⊆ more)
    (changed : ∀ cell, other cell ≠ source cell → cell ∈ more) : UpToDate more other target := by
  intro cell clean
  rw [upToDate cell fun member => clean (subset member)]
  exact not_not.mp fun differs => clean (changed cell (Ne.symm differs))

/-- Cells that are copied are up to date, also if the copying ends early. -/
theorem UpToDate.copy (upToDate : UpToDate dirty source target) (fresh : ∀ cell ∈ copied, other cell = source cell)
    (kept : ∀ cell, cell ∉ copied → other cell = target cell) : UpToDate (dirty \ copied) source other := by
  intro cell clean
  by_cases member : cell ∈ copied
  · exact fresh cell member
  · rw [kept cell member]
    exact upToDate cell fun isDirty => clean ⟨isDirty, member⟩

end QmkFirmware.Mirror
