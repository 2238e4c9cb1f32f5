import Mathlib.Tactic

/-! # Computations that record what they do

`Traced ε σ` passes a state `σ` along and collects the events `ε` on the way.
`Always p` says that every event of a run satisfies `p`; its rules follow the
structure of the program, so that a bound on each memory access of a function
turns into one condition per access.
-/

namespace QmkFirmware

structure Outcome (ε σ α : Type) where
  value : α
  state : σ
  events : List ε

def Traced (ε σ α : Type) : Type := σ → Outcome ε σ α

namespace Traced

variable {ε σ α β : Type}

instance : Monad (Traced ε σ) where
  pure value := fun s => ⟨value, s, []⟩
  bind first next := fun s =>
    let result := next (first s).value (first s).state
    ⟨result.value, result.state, (first s).events ++ result.events⟩

def record (event : ε) : Traced ε σ Unit := fun s => ⟨(), s, [event]⟩

def read : Traced ε σ σ := fun s => ⟨s, s, []⟩

def update (change : σ → σ) : Traced ε σ Unit := fun s => ⟨(), change s, []⟩

/-- The loop `for (i = start; i < start + count; i++)`. -/
def loop (body : Nat → Traced ε σ Unit) : Nat → Nat → Traced ε σ Unit
  | 0, _ => pure ()
  | count + 1, start => do
    body start
    loop body count (start + 1)

/-! ## Running -/

@[simp] theorem pure_run (value : α) (s : σ) :
    (pure value : Traced ε σ α) s = ⟨value, s, []⟩ := rfl

@[simp] theorem bind_value (first : Traced ε σ α) (next : α → Traced ε σ β) (s : σ) :
    ((first >>= next) s).value = (next (first s).value (first s).state).value := rfl

@[simp] theorem bind_state (first : Traced ε σ α) (next : α → Traced ε σ β) (s : σ) :
    ((first >>= next) s).state = (next (first s).value (first s).state).state := rfl

@[simp] theorem record_run (event : ε) (s : σ) : record event s = ⟨(), s, [event]⟩ := rfl

@[simp] theorem read_run (s : σ) : (read : Traced ε σ σ) s = ⟨s, s, []⟩ := rfl

@[simp] theorem update_run (change : σ → σ) (s : σ) :
    (update change : Traced ε σ Unit) s = ⟨(), change s, []⟩ := rfl

/-! ## Properties of every event -/

def Always (p : ε → Prop) (program : Traced ε σ α) (s : σ) : Prop :=
  ∀ event ∈ (program s).events, p event

variable (p : ε → Prop)

@[simp] theorem always_pure (value : α) (s : σ) :
    Always p (pure value : Traced ε σ α) s ↔ True := by
  simp [Always]

@[simp] theorem always_bind (first : Traced ε σ α) (next : α → Traced ε σ β) (s : σ) :
    Always p (first >>= next) s ↔
      Always p first s ∧ Always p (next (first s).value) (first s).state := by
  constructor
  · intro holds
    exact ⟨fun event member => holds event (List.mem_append_left _ member),
      fun event member => holds event (List.mem_append_right _ member)⟩
  · intro ⟨now, later⟩ event member
    cases List.mem_append.mp member with
    | inl earlier => exact now event earlier
    | inr rest => exact later event rest

@[simp] theorem always_record (event : ε) (s : σ) :
    Always p (record event : Traced ε σ Unit) s ↔ p event := by
  simp [Always]

@[simp] theorem always_read (s : σ) : Always p (read : Traced ε σ σ) s ↔ True := by
  simp [Always]

@[simp] theorem always_update (change : σ → σ) (s : σ) :
    Always p (update change : Traced ε σ Unit) s ↔ True := by
  simp [Always]

@[simp] theorem always_ite (condition : Prop) [Decidable condition] (yes no : Traced ε σ α) (s : σ) :
    Always p (if condition then yes else no) s ↔
      (condition → Always p yes s) ∧ (¬ condition → Always p no s) := by
  split
  next holds => simp [holds]
  next fails => simp [fails]

/-! ## Loops -/

/-- An invariant of the state, indexed by the loop counter. -/
theorem loop_invariant {body : Nat → Traced ε σ Unit} (invariant : Nat → σ → Prop)
    (step : ∀ i s, invariant i s → invariant (i + 1) (body i s).state) :
    ∀ (count start : Nat) (s : σ), invariant start s →
      invariant (start + count) (loop body count start s).state
  | 0, _, _, holds => holds
  | count + 1, start, s, holds => by
    have rest := loop_invariant invariant step count (start + 1) _ (step start s holds)
    rw [Nat.add_right_comm] at rest
    exact rest

/-- A loop each of whose rounds is fine in every state. -/
theorem always_loop {body : Nat → Traced ε σ Unit} {count start : Nat}
    (rounds : ∀ i, start ≤ i → i < start + count → ∀ s, Always p (body i) s) (s : σ) :
    Always p (loop body count start) s := by
  induction count generalizing start s with
  | zero => simp [loop]
  | succ count ih =>
    rw [loop, always_bind]
    exact ⟨rounds start (Nat.le_refl _) (by omega) s, ih (fun i low high => rounds i (by omega) (by omega)) _⟩

/-- A loop whose rounds are judged by their counter alone. -/
theorem always_loop_iff {body : Nat → Traced ε σ Unit} {round : Nat → Prop}
    (uniform : ∀ i s, Always p (body i) s ↔ round i) (count start : Nat) (s : σ) :
    Always p (loop body count start) s ↔ ∀ i, start ≤ i → i < start + count → round i := by
  induction count generalizing start s with
  | zero =>
    simp only [loop, always_pure, true_iff]
    omega
  | succ count ih =>
    simp only [loop, always_bind, uniform, ih]
    constructor
    · intro ⟨first, rest⟩ i low high
      by_cases now : i = start
      · exact now ▸ first
      · exact rest i (by omega) (by omega)
    · intro all
      exact ⟨all start (by omega) (by omega), fun i low high => all i (by omega) (by omega)⟩

end Traced

end QmkFirmware
