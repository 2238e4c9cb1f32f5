import Mathlib.Data.List.DropRight
import Mathlib.Data.List.Basic
import Mathlib.Logic.Function.Basic

/-! # Rings of cells

A ring keeps a queue in `size` cells, from the tail on and up to the head, which is the cell that is
written next.  One cell is always free, so that the ring is empty exactly when the head is at the
tail.  An item that comes when no other cell is free takes the place of the oldest one.
-/

namespace QmkFirmware.Ring

variable {α : Type}

/-- The queue with one more item, of which the last `capacity` are kept. -/
def keepRecent (capacity : Nat) (queue : List α) (item : α) : List α := (queue ++ [item]).rtake capacity

theorem keepRecent_of_lt {capacity : Nat} {queue : List α} (free : queue.length < capacity) (item : α) :
    keepRecent capacity queue item = queue ++ [item] := by
  have all : (queue ++ [item]).length - capacity = 0 := by
    simp only [List.length_append, List.length_singleton]
    omega
  rw [keepRecent, List.rtake, all, List.drop_zero]

theorem keepRecent_of_eq {capacity : Nat} {queue : List α} (full : queue.length = capacity) (some : 0 < capacity)
    (item : α) : keepRecent capacity queue item = queue.tail ++ [item] := by
  have one : (queue ++ [item]).length - capacity = 1 := by
    simp only [List.length_append, List.length_singleton]
    omega
  rw [keepRecent, List.rtake, one, List.drop_one]
  cases queue with
  | nil =>
    rw [List.length_nil] at full
    omega
  | cons first rest => rfl

theorem keepRecent_suffix (capacity : Nat) (queue : List α) (item : α) :
    keepRecent capacity queue item <:+ queue ++ [item] := List.drop_suffix _ _

/-! ## Cells in a row -/

/-- The `count` cells from `start` on, around the ring. -/
def window (size : Nat) (cells : Nat → α) (start count : Nat) : List α :=
  (List.range' start count).map fun i => cells (i % size)

variable {size : Nat} {cells : Nat → α} {start count : Nat}

@[simp] theorem length_window : (window size cells start count).length = count := by
  simp [window]

theorem window_succ (inside : start < size) :
    window size cells start (count + 1) = cells start :: window size cells (start + 1) count := by
  rw [window, List.range'_succ, List.map_cons, Nat.mod_eq_of_lt inside]
  rfl

theorem window_concat :
    window size cells start (count + 1) = window size cells start count ++ [cells ((start + count) % size)] := by
  rw [window, List.range'_concat, List.map_append, Nat.one_mul]
  rfl

theorem window_mod : window size cells (start % size) count = window size cells start count := by
  induction count with
  | zero => rfl
  | succ count ih => rw [window_concat, window_concat, ih, Nat.mod_add_mod]

/-- A cell that is not in the window can be written. -/
theorem window_update {index : Nat} (item : α) (outside : ∀ k < count, (start + k) % size ≠ index) :
    window size (Function.update cells index item) start count = window size cells start count := by
  apply List.map_congr_left
  intro i member
  obtain ⟨k, bound, rfl⟩ := List.mem_range'.mp member
  rw [Nat.one_mul, Function.update_of_ne (outside k bound)]

/-! ## From the tail to the head -/

/-- The cell after a cell. -/
def next (size i : Nat) : Nat := (i + 1) % size

/-- The number of cells from the tail to the head. -/
def held (size head tail : Nat) : Nat := (head + size - tail) % size

/-- The queue of a ring, the oldest item first. -/
def contents (size : Nat) (cells : Nat → α) (head tail : Nat) : List α :=
  window size cells tail (held size head tail)

variable {head tail : Nat}

@[simp] theorem length_contents : (contents size cells head tail).length = held size head tail := length_window

theorem next_lt (inside : head < size) : next size head < size :=
  Nat.mod_lt _ (Nat.zero_lt_of_lt inside)

theorem next_ne (several : 2 ≤ size) (inside : head < size) : next size head ≠ head := by
  rw [next]
  by_cases last : head + 1 = size
  · rw [last, Nat.mod_self]
    omega
  · rw [Nat.mod_eq_of_lt (by omega)]
    omega

theorem held_lt (inside : head < size) (tail : Nat) : held size head tail < size :=
  Nat.mod_lt _ (Nat.zero_lt_of_lt inside)

/-- The head is as far behind the tail as there are items. -/
theorem tail_add_held (headInside : head < size) (tailInside : tail < size) :
    (tail + held size head tail) % size = head := by
  rw [held, Nat.add_mod_mod]
  have around : tail + (head + size - tail) = head + size := by omega
  rw [around, Nat.add_mod_right, Nat.mod_eq_of_lt headInside]

theorem held_eq_zero_iff (headInside : head < size) (tailInside : tail < size) :
    held size head tail = 0 ↔ head = tail := by
  constructor
  · intro none
    have around := tail_add_held headInside tailInside
    rw [none, Nat.add_zero, Nat.mod_eq_of_lt tailInside] at around
    exact around.symm
  · intro same
    rw [held, same, Nat.add_sub_cancel_left, Nat.mod_self]

/-- The distance is the only one below the size that leads from the tail to the head. -/
theorem held_eq_of {distance : Nat} (inside : distance < size) (tailInside : tail < size)
    (leads : (tail + distance) % size = head) : held size head tail = distance := by
  rw [held, ← leads]
  -- the way from the tail to the head passes the end of the cells at most once
  by_cases before : tail + distance < size
  · rw [Nat.mod_eq_of_lt before]
    have plain : tail + distance + size - tail = distance + size := by omega
    rw [plain, Nat.add_mod_right, Nat.mod_eq_of_lt inside]
  · have once : tail + distance - size < size := by omega
    rw [Nat.mod_eq_sub_mod (Nat.le_of_not_lt before), Nat.mod_eq_of_lt once]
    have around : tail + distance - size + size - tail = distance := by omega
    rw [around, Nat.mod_eq_of_lt inside]

theorem held_next_head (headInside : head < size) (tailInside : tail < size) (free : next size head ≠ tail) :
    held size (next size head) tail = held size head tail + 1 := by
  have leads : (tail + (held size head tail + 1)) % size = next size head := by
    rw [← Nat.add_assoc, ← Nat.mod_add_mod, tail_add_held headInside tailInside]
    rfl
  -- with one more item the ring would be full only if the next head were the tail
  have below : held size head tail + 1 ≠ size := by
    intro all
    rw [all, Nat.add_mod_right, Nat.mod_eq_of_lt tailInside] at leads
    exact free leads.symm
  have inside := held_lt headInside tail
  exact held_eq_of (by omega) tailInside leads

theorem held_next_tail (headInside : head < size) (tailInside : tail < size) (some : head ≠ tail) :
    held size head tail = held size head (next size tail) + 1 := by
  have nonempty : held size head tail ≠ 0 := fun none =>
    some ((held_eq_zero_iff headInside tailInside).mp none)
  have inside := held_lt headInside tail
  have leads : (next size tail + (held size head tail - 1)) % size = head := by
    rw [next, Nat.mod_add_mod, show tail + 1 + (held size head tail - 1) = tail + held size head tail by omega]
    exact tail_add_held headInside tailInside
  rw [held_eq_of (by omega) (next_lt tailInside) leads]
  omega

theorem held_full (headInside : head < size) (tailInside : tail < size) (full : next size head = tail) :
    held size head tail = size - 1 := by
  have leads : (tail + (size - 1)) % size = head := by
    rw [← full, next, Nat.mod_add_mod, show head + 1 + (size - 1) = head + size by omega, Nat.add_mod_right,
      Nat.mod_eq_of_lt headInside]
  exact held_eq_of (by omega) tailInside leads

/-! ## The operations on the queue -/

theorem contents_eq_nil_iff (headInside : head < size) (tailInside : tail < size) :
    contents size cells head tail = [] ↔ head = tail := by
  rw [← List.length_eq_zero_iff, length_contents, held_eq_zero_iff headInside tailInside]

/-- The oldest item is in the cell at the tail. -/
theorem contents_eq_cons (headInside : head < size) (tailInside : tail < size) (some : head ≠ tail) :
    contents size cells head tail = cells tail :: contents size cells head (next size tail) := by
  rw [contents, held_next_tail headInside tailInside some, window_succ tailInside, contents, next, window_mod]

/-- The next item is written to the cell at the head. -/
theorem contents_write (headInside : head < size) (tailInside : tail < size) (free : next size head ≠ tail) (item : α) :
    contents size (Function.update cells head item) (next size head) tail = contents size cells head tail ++ [item] := by
  rw [contents, held_next_head headInside tailInside free, window_concat, tail_add_held headInside tailInside,
    Function.update_self, window_update, contents]
  intro k before same
  -- the cells of the window are as far behind the tail as the index says
  have inside := held_lt headInside tail
  have exact := held_eq_of (by omega) tailInside same
  omega

/-- When the head would come to the tail, the oldest item makes room. -/
theorem contents_overwrite (several : 2 ≤ size) (headInside : head < size) (tailInside : tail < size)
    (full : next size head = tail) (item : α) :
    contents size (Function.update cells head item) (next size head) (next size tail) =
      (contents size cells head tail).tail ++ [item] := by
  have free : next size head ≠ next size tail := by
    rw [full]
    exact (next_ne several tailInside).symm
  have some : head ≠ tail := full ▸ (next_ne several headInside).symm
  rw [contents_write headInside (next_lt tailInside) free, contents_eq_cons headInside tailInside some, List.tail_cons]

end QmkFirmware.Ring
