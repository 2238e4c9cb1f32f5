import Mathlib.Data.List.Basic

/-! # Run-length codes

A sequence written as runs, each of them a repeated value or a literal stretch, and sources that
yield a sequence call by call.
-/

namespace QmkFirmware.RunLength

variable {α σ : Type}

inductive Run (α : Type) where
  | repeated (count : Nat) (value : α)
  | literal (values : List α)

def Run.expand : Run α → List α
  | repeated count value => List.replicate count value
  | literal values => values

def expand (runs : List (Run α)) : List α := runs.flatMap Run.expand

@[simp] theorem expand_cons (run : Run α) (runs : List (Run α)) : expand (run :: runs) = run.expand ++ expand runs := rfl

theorem expand_concat (runs : List (Run α)) (run : Run α) : expand (runs ++ [run]) = expand runs ++ run.expand := by
  simp [expand]

/-! ## Sources -/

/-- Calling the source once for each of the values returns them in order. -/
inductive Yields (source : σ → α × σ) : σ → List α → σ → Prop
  | nil (s : σ) : Yields source s [] s
  | cons {s next last : σ} {value : α} {values : List α} (call : source s = (value, next))
      (more : Yields source next values last) : Yields source s (value :: values) last

namespace Yields

variable {source : σ → α × σ} {s middle last : σ} {first second : List α}

theorem append (left : Yields source s first middle) (right : Yields source middle second last) :
    Yields source s (first ++ second) last := by
  induction left with
  | nil => exact right
  | cons call _ ih => exact .cons call (ih right)

end Yields

end QmkFirmware.RunLength
