import Mathlib.Tactic.Common

/-! # Switches between rows and columns

Closed switches connect rows with columns.  Without diodes, a row conducts to every column that it is connected with,
also on a detour over other rows.
-/

namespace QmkFirmware.Conduction

variable {Row Col : Type} {closed : Row → Col → Prop} {row other : Row} {col : Col}

/-- A current flows from the row to the column. -/
inductive Conducts (closed : Row → Col → Prop) (row : Row) : Col → Prop where
  | direct {col : Col} (own : closed row col) : Conducts closed row col
  | detour {via col : Col} {other : Row} (reached : Conducts closed row via) (back : closed other via)
      (onward : closed other col) : Conducts closed row col

/-- Two columns that both rows conduct to. -/
def SharePair (closed : Row → Col → Prop) (row other : Row) : Prop :=
  ∃ first second, first ≠ second ∧ Conducts closed row first ∧ Conducts closed row second ∧
    Conducts closed other first ∧ Conducts closed other second

/-- A row that shares no pair of columns with another row conducts only through its own switches. -/
theorem closed_of_conducts (unshared : ∀ other, other ≠ row → ¬SharePair closed row other)
    (conducts : Conducts closed row col) : closed row col := by
  induction conducts with
  | direct own => exact own
  | @detour via col other reached back onward own =>
    by_cases same : other = row
    · rwa [same] at onward
    by_cases returned : via = col
    · rwa [returned] at own
    -- the detour makes a pair with the other row
    exact absurd ⟨via, col, returned, .direct own, .detour (.direct own) back onward, .direct back, .direct onward⟩
      (unshared other same)

end QmkFirmware.Conduction
