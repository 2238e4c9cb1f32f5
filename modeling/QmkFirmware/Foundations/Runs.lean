import Mathlib.Data.List.Induction

/-! # Runs of a step function

A run feeds a list of operations to a step function.  The rules below are the only
inductions over runs that the subsystem proofs need: an invariant that every step
keeps, a simulation between two step functions, an invariant for the runs in
which every step meets a condition, and what success means after failed attempts.
-/

namespace QmkFirmware.Runs

variable {σ τ ι : Type}

/-- What every step preserves, every run preserves. -/
theorem foldl_invariant {step : σ → ι → σ} {invariant : σ → Prop}
    (preserved : ∀ state op, invariant state → invariant (step state op))
    {state : σ} (initial : invariant state) (ops : List ι) : invariant (ops.foldl step state) := by
  induction ops generalizing state with
  | nil => exact initial
  | cons op ops ih => exact ih (preserved state op initial)

/-- A relation that every pair of steps for one of the operations preserves relates the two runs. -/
theorem foldl_simulation_of_mem {step : σ → ι → σ} {abstract : τ → ι → τ} {related : σ → τ → Prop} {ops : List ι}
    (simulated : ∀ op ∈ ops, ∀ state model, related state model → related (step state op) (abstract model op))
    {state : σ} {model : τ} (initial : related state model) :
    related (ops.foldl step state) (ops.foldl abstract model) := by
  induction ops generalizing state model with
  | nil => exact initial
  | cons op ops ih =>
    exact ih (fun later member => simulated later (List.mem_cons_of_mem _ member))
      (simulated op List.mem_cons_self state model initial)

/-- A relation that every pair of steps preserves relates the two runs. -/
theorem foldl_simulation {step : σ → ι → σ} {abstract : τ → ι → τ} {related : σ → τ → Prop}
    (simulated : ∀ state model op, related state model → related (step state op) (abstract model op))
    {state : σ} {model : τ} (initial : related state model) (ops : List ι) :
    related (ops.foldl step state) (ops.foldl abstract model) :=
  foldl_simulation_of_mem (fun op _ state model => simulated state model op) initial

/-! ## Conditions on every step -/

/-- Each operation meets the condition after the operations before it. -/
def EveryStep (condition : List ι → ι → Prop) (ops : List ι) : Prop :=
  ∀ (index : Nat) (bound : index < ops.length), condition (ops.take index) ops[index]

instance {condition : List ι → ι → Prop} [∀ ops op, Decidable (condition ops op)] (ops : List ι) :
    Decidable (EveryStep condition ops) :=
  inferInstanceAs (Decidable (∀ index, ∀ _ : index < ops.length, _))

theorem everyStep_concat {condition : List ι → ι → Prop} {ops : List ι} {op : ι} :
    EveryStep condition (ops ++ [op]) ↔ EveryStep condition ops ∧ condition ops op := by
  constructor
  · intro every
    constructor
    · intro index bound
      have earlier := every index (by simp; omega)
      rwa [List.take_append_of_le_length (Nat.le_of_lt bound), List.getElem_append_left bound] at earlier
    · simpa using every ops.length (by simp)
  · intro every index bound
    by_cases earlier : index < ops.length
    · rw [List.take_append_of_le_length (Nat.le_of_lt earlier), List.getElem_append_left earlier]
      exact every.1 index earlier
    · obtain rfl : index = ops.length := by
        simp only [List.length_append, List.length_singleton] at bound
        omega
      simpa using every.2

theorem everyStep_iff_split {condition : List ι → ι → Prop} {ops : List ι} :
    EveryStep condition ops ↔ ∀ before op after, ops = before ++ op :: after → condition before op := by
  constructor
  · rintro every before op after rfl
    simpa using every before.length (by simp)
  · intro every index bound
    exact every _ _ (ops.drop (index + 1)) (by rw [← List.drop_eq_getElem_cons bound, List.take_append_drop])

theorem EveryStep.take {condition : List ι → ι → Prop} {ops : List ι} (every : EveryStep condition ops)
    (n : Nat) : EveryStep condition (ops.take n) := by
  intro index bound
  rw [List.length_take] at bound
  have inside : index < ops.length := by omega
  have below : index ≤ n := by omega
  have earlier := every index inside
  rwa [List.take_take, Nat.min_eq_left below, List.getElem_take]

theorem EveryStep.append {condition : List ι → ι → Prop} {ops more : List ι}
    (every : EveryStep condition ops) (free : ∀ earlier, ∀ op ∈ more, condition earlier op) :
    EveryStep condition (ops ++ more) := by
  induction more generalizing ops with
  | nil => rwa [List.append_nil]
  | cons op more ih =>
    have first : EveryStep condition (ops ++ [op]) :=
      everyStep_concat.mpr ⟨every, free ops op List.mem_cons_self⟩
    rw [List.append_cons]
    exact ih first fun earlier op member => free earlier op (List.mem_cons_of_mem _ member)

/-- What every step that meets the condition preserves, holds after a run of such steps. -/
theorem foldl_everyStep {step : σ → ι → σ} {state : σ} (condition : List ι → ι → Prop)
    (invariant : List ι → σ → Prop) (initial : invariant [] state)
    (preserved : ∀ ops op, condition ops op → invariant ops (ops.foldl step state) →
      invariant (ops ++ [op]) (step (ops.foldl step state) op))
    (ops : List ι) (every : EveryStep condition ops) : invariant ops (ops.foldl step state) := by
  induction ops using List.reverseRecOn with
  | nil => exact initial
  | append_singleton ops op ih =>
    rw [everyStep_concat] at every
    rw [List.foldl_append]
    exact preserved ops op every.2 (ih every.1)

/-- When a step leads on from what holds exactly if it is safe, all prefixes hold exactly if all
steps are safe. -/
theorem forall_prefix_iff_everyStep (holds : List ι → Prop) {safe : List ι → ι → Prop} (initial : holds [])
    (precise : ∀ earlier op, holds earlier → (holds (earlier ++ [op]) ↔ safe earlier op)) (ops : List ι) :
    (∀ n, holds (ops.take n)) ↔ EveryStep safe ops := by
  constructor
  · intro every index bound
    have after := every (index + 1)
    rw [List.take_add_one, List.getElem?_eq_getElem bound, Option.toList_some] at after
    exact (precise _ _ (every index)).mp after
  · intro every n
    induction n with
    | zero => exact initial
    | succ n before =>
      rw [List.take_add_one]
      by_cases bound : n < ops.length
      · rw [List.getElem?_eq_getElem bound, Option.toList_some]
        exact (precise _ _ before).mpr (every n bound)
      · rw [List.getElem?_eq_none (Nat.le_of_not_lt bound), Option.toList_none, List.append_nil]
        exact before

/-- The same where what holds is said of the state. -/
theorem forall_take_iff_everyStep {step : σ → ι → σ} {state : σ} (invariant holds : σ → Prop)
    (safe : σ → ι → Prop) (sound : invariant state) (initial : holds state)
    (preserved : ∀ state op, invariant state → invariant (step state op))
    (precise : ∀ state op, invariant state → holds state → (holds (step state op) ↔ safe state op))
    (ops : List ι) :
    (∀ n, holds ((ops.take n).foldl step state)) ↔
      EveryStep (fun earlier op => safe (earlier.foldl step state) op) ops := by
  apply forall_prefix_iff_everyStep (fun ops => holds (ops.foldl step state)) initial
  intro earlier op before
  rw [List.foldl_append]
  exact precise _ _ (foldl_invariant preserved sound earlier) before

/-- What starts with a step and lasts while a condition does, is there exactly if there was such a
step since which the condition has held. -/
theorem since_iff {step : σ → ι → σ} {state : σ} {invariant holds lasts : σ → Prop} {starts : σ → ι → Prop}
    (sound : invariant state) (preserved : ∀ state op, invariant state → invariant (step state op))
    (initial : ¬holds state)
    (precise : ∀ state op, invariant state →
      (holds (step state op) ↔ lasts (step state op) ∧ (holds state ∨ starts state op)))
    (ops : List ι) :
    holds (ops.foldl step state) ↔ ∃ (index : Nat) (bound : index < ops.length),
      starts ((ops.take index).foldl step state) ops[index] ∧
      ∀ n, index < n → n ≤ ops.length → lasts ((ops.take n).foldl step state) := by
  -- on the last step: it is the one that started, or the one before has lasted through it
  induction ops using List.reverseRecOn with
  | nil => exact iff_of_false initial (by simp)
  | append_singleton ops op ih =>
    have last : (ops ++ [op]).take (ops.length + 1) = ops ++ [op] := List.take_of_length_le (by simp)
    have split : ∀ n, n ≤ ops.length → (ops ++ [op]).take n = ops.take n := fun n below =>
      List.take_append_of_le_length below
    have now := precise (ops.foldl step state) op (foldl_invariant preserved sound ops)
    rw [List.foldl_append, List.foldl_cons, List.foldl_nil, now, ih]
    constructor
    · rintro ⟨lasting, ⟨index, bound, started, since⟩ | started⟩
      · refine ⟨index, by rw [List.length_append]; omega, ?_, ?_⟩
        · rwa [split index (Nat.le_of_lt bound), List.getElem_append_left bound]
        · intro n lower upper
          rw [List.length_append, List.length_singleton] at upper
          cases Nat.le_or_eq_of_le_succ upper with
          | inl inside =>
            rw [split n inside]
            exact since n lower inside
          | inr whole =>
            rw [whole, last, List.foldl_append]
            exact lasting
      · refine ⟨ops.length, by simp, by simpa using started, ?_⟩
        intro n lower upper
        rw [List.length_append, List.length_singleton] at upper
        rw [show n = ops.length + 1 by omega, last, List.foldl_append]
        exact lasting
    · rintro ⟨index, bound, started, since⟩
      rw [List.length_append, List.length_singleton] at bound since
      have lasting := since (ops.length + 1) bound (Nat.le_refl _)
      rw [last, List.foldl_append] at lasting
      refine ⟨lasting, ?_⟩
      cases Nat.lt_or_eq_of_le (Nat.lt_succ_iff.mp bound) with
      | inl inside =>
        rw [split index (Nat.le_of_lt inside), List.getElem_append_left inside] at started
        refine .inl ⟨index, inside, started, fun n lower upper => ?_⟩
        have held := since n lower (Nat.le_succ_of_le upper)
        rwa [split n upper] at held
      | inr whole =>
        subst whole
        exact .inr (by simpa using started)

/-! ## Attempts -/

/-- Tries until an attempt succeeds, `n` times at most. -/
def retry (attempt : σ → Bool × σ) : Nat → σ → Bool × σ
  | 0, state => (false, state)
  | n + 1, state => if (attempt state).1 then attempt state else retry attempt n (attempt state).2

/-- The property holds of each attempt that has only failures before it. -/
def EachReached (n : Nat) (fails property : Nat → Prop) : Prop :=
  ∀ k < n, (∀ j < k, fails j) → property k

theorem eachReached_succ {n : Nat} {fails property : Nat → Prop} : EachReached (n + 1) fails property ↔
    property 0 ∧ (fails 0 → EachReached n (fun k => fails (k + 1)) (fun k => property (k + 1))) := by
  constructor
  · intro each
    refine ⟨each 0 (Nat.succ_pos n) nofun, ?_⟩
    intro first k bound before
    apply each (k + 1) (Nat.succ_lt_succ bound)
    rintro (_ | j) earlier
    · exact first
    · exact before j (Nat.lt_of_succ_lt_succ earlier)
  · rintro ⟨initial, each⟩ (_ | k) bound before
    · exact initial
    · exact each (before 0 (Nat.succ_pos k)) k (Nat.lt_of_succ_lt_succ bound) fun j earlier =>
        before (j + 1) (Nat.succ_lt_succ earlier)

/-- When what each attempt finds is known, success is good exactly if the property holds of the
attempts that are reached. -/
theorem retry_good_iff {attempt : σ → Bool × σ} (good : σ → Prop) {found : Nat → σ → Prop}
    {fails property : Nat → Prop}
    (failed : ∀ k state, found k state → (attempt state).1 = false →
      fails k ∧ property k ∧ found (k + 1) (attempt state).2)
    (succeeded : ∀ k state, found k state → (attempt state).1 = true →
      ¬fails k ∧ (good (attempt state).2 ↔ property k))
    (n : Nat) {state : σ} (initial : found 0 state) :
    ((retry attempt n state).1 = true → good (retry attempt n state).2) ↔ EachReached n fails property := by
  -- behind a failure the rest is counted anew from the state that it leaves
  induction n generalizing state found fails property with
  | zero => exact ⟨fun _ => nofun, fun _ => nofun⟩
  | succ n ih =>
    rw [eachReached_succ, retry]
    cases result : (attempt state).1 with
    | true =>
      obtain ⟨through, holds⟩ := succeeded 0 state initial result
      rw [if_pos rfl, result, holds]
      exact ⟨fun property => ⟨property rfl, fun fails => absurd fails through⟩, fun both _ => both.1⟩
    | false =>
      obtain ⟨fails, holds, next⟩ := failed 0 state initial result
      rw [if_neg (by decide), ih (fun k => failed (k + 1)) (fun k => succeeded (k + 1)) next]
      exact ⟨fun each => ⟨holds, fun _ => each⟩, fun both => both.2 fails⟩

end QmkFirmware.Runs
