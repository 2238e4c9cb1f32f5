import Mathlib.Data.List.Basic
import Mathlib.Data.List.Nodup
import Mathlib.Data.List.ProdSigma

/-! # Sweeps

A sweep visits each index of a list once, and its step works on the part of the state
that belongs to the index.  The result of a sweep is then known part by part, and a flag
that a step raises is raised by the sweep if any part raises it.
-/

namespace QmkFirmware.Sweep

variable {σ ι β : Type} {step : σ → ι → σ} {part : σ → ι → β}

/-- The step for an index changes the part of that index by `effect` and no other part. -/
structure Local (step : σ → ι → σ) (part : σ → ι → β) (effect : ι → β → β) : Prop where
  own : ∀ s i, part (step s i) i = effect i (part s i)
  other : ∀ s i j, i ≠ j → part (step s i) j = part s j

variable {effect : ι → β → β}

theorem Local.foldl_of_notMem (sweep : Local step part effect) {indices : List ι} {j : ι}
    (outside : j ∉ indices) (s : σ) : part (indices.foldl step s) j = part s j := by
  induction indices generalizing s with
  | nil => rfl
  | cons i indices ih =>
    rw [List.mem_cons, not_or] at outside
    rw [List.foldl_cons, ih outside.2, sweep.other s i j (Ne.symm outside.1)]

theorem Local.foldl_of_mem (sweep : Local step part effect) {indices : List ι}
    (nodup : indices.Nodup) {j : ι} (visited : j ∈ indices) (s : σ) :
    part (indices.foldl step s) j = effect j (part s j) := by
  induction indices generalizing s with
  | nil => cases visited
  | cons i indices ih =>
    obtain ⟨once, nodup⟩ := List.nodup_cons.mp nodup
    rw [List.foldl_cons]
    cases List.mem_cons.mp visited with
    | inl first =>
      subst first
      rw [sweep.foldl_of_notMem once, sweep.own]
    | inr later =>
      have apart : i ≠ j := fun same => once (same ▸ later)
      rw [ih nodup later, sweep.other s i j apart]

/-- A flag that the step for an index raises depending on its part. -/
theorem Local.foldl_flag (sweep : Local step part effect) (flag : σ → Prop)
    (raises : ι → β → Prop) (raised : ∀ s i, flag (step s i) ↔ flag s ∨ raises i (part s i))
    {indices : List ι} (nodup : indices.Nodup) (s : σ) :
    flag (indices.foldl step s) ↔ flag s ∨ ∃ i ∈ indices, raises i (part s i) := by
  induction indices generalizing s with
  | nil => simp
  | cons i indices ih =>
    obtain ⟨once, nodup⟩ := List.nodup_cons.mp nodup
    have untouched : ∀ j ∈ indices, part (step s i) j = part s j :=
      fun j member => sweep.other s i j fun same => once (same ▸ member)
    rw [List.foldl_cons, ih nodup, raised, List.exists_mem_cons_iff, or_assoc]
    refine or_congr_right (or_congr_right (exists_congr fun j => and_congr_right fun member => ?_))
    rw [untouched j member]

/-- Two steps that agree on each part as it was before the sweep make the same sweep. -/
theorem Local.foldl_congr (sweep : Local step part effect) {other : σ → ι → σ} {indices : List ι}
    (nodup : indices.Nodup) {s : σ}
    (same : ∀ s', ∀ i ∈ indices, part s' i = part s i → other s' i = step s' i) :
    indices.foldl other s = indices.foldl step s := by
  induction indices generalizing s with
  | nil => rfl
  | cons i indices ih =>
    obtain ⟨once, nodup⟩ := List.nodup_cons.mp nodup
    rw [List.foldl_cons, List.foldl_cons, same s i List.mem_cons_self rfl]
    refine ih nodup fun s' j member unchanged => ?_
    have apart : i ≠ j := fun same => once (same ▸ member)
    exact same s' j (List.mem_cons_of_mem i member) (unchanged.trans (sweep.other s i j apart))

/-- Two nested loops are one loop over the pairs. -/
theorem foldl_product {κ : Type} (step : σ → ι → κ → σ) (rows : List ι) (cols : List κ) (s : σ) :
    rows.foldl (fun s row => cols.foldl (fun s col => step s row col) s) s =
      (rows ×ˢ cols).foldl (fun s key => step s key.1 key.2) s := by
  induction rows generalizing s with
  | nil => rfl
  | cons row rows ih => rw [List.foldl_cons, ih, List.product_cons, List.foldl_append, List.foldl_map]

end QmkFirmware.Sweep
