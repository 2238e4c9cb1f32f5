import Mathlib.Data.List.Destutter

/-! # Lists without immediate repetitions

How the list without immediate repetitions changes when an element comes last.
-/

namespace QmkFirmware.Stutter

variable {α : Type} [DecidableEq α]

theorem destutter'_concat (a : α) (l : List α) (x : α) :
    (l ++ [x]).destutter' (· ≠ ·) a =
      if (a :: l).getLast? = some x then l.destutter' (· ≠ ·) a else l.destutter' (· ≠ ·) a ++ [x] := by
  induction l generalizing a with
  | nil => by_cases same : a = x <;> simp [same]
  | cons b l ih =>
    rw [List.cons_append, List.destutter'_cons, List.destutter'_cons, List.getLast?_cons_cons]
    by_cases same : a = b
    · subst same
      simp only [ne_eq, not_true_eq_false, if_false]
      exact ih a
    · simp only [ne_eq, same, not_false_eq_true, if_true]
      rw [ih b]
      split <;> rfl

theorem destutter_concat (l : List α) (x : α) :
    (l ++ [x]).destutter (· ≠ ·) =
      if l.getLast? = some x then l.destutter (· ≠ ·) else l.destutter (· ≠ ·) ++ [x] := by
  cases l with
  | nil => simp
  | cons a l => exact destutter'_concat a l x

theorem getLast?_destutter (l : List α) : (l.destutter (· ≠ ·)).getLast? = l.getLast? := by
  induction l using List.reverseRecOn with
  | nil => rfl
  | append_singleton l x ih =>
    rw [destutter_concat, List.getLast?_concat]
    split
    · next last => rw [ih, last]
    · rw [List.getLast?_concat]

/-- An element adds nothing exactly if it repeats the last one. -/
theorem destutter_concat_eq_iff (l : List α) (x : α) :
    (l ++ [x]).destutter (· ≠ ·) = l.destutter (· ≠ ·) ↔ l.getLast? = some x := by
  rw [destutter_concat]
  split
  · next last => simp [last]
  · next other => simp [other]

/-- The same element after two lists that are equal up to repetitions. -/
theorem destutter_concat_congr {l m : List α} (same : l.destutter (· ≠ ·) = m.destutter (· ≠ ·)) (x : α) :
    (l ++ [x]).destutter (· ≠ ·) = (m ++ [x]).destutter (· ≠ ·) := by
  have last : l.getLast? = m.getLast? := by
    rw [← getLast?_destutter l, same, getLast?_destutter]
  rw [destutter_concat, destutter_concat, same, last]

end QmkFirmware.Stutter
