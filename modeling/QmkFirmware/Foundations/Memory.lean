import Mathlib.Data.List.Basic
import Mathlib.Tactic

/-! # Flat memories

A memory is a function from addresses to cells.  `blit` is `memcpy` into a
memory, `slice` is `memcpy` out of it, and `chunk` is the view of a buffer as a
sequence of fixed-size words.  Nothing here knows what the cells mean.
-/

namespace QmkFirmware.Memory

variable {α : Type}

/-- Copy `data` into `memory`, starting at `address`. -/
def blit (memory : Nat → α) (address : Nat) (data : List α) : Nat → α := fun i =>
  if address ≤ i then data.getD (i - address) (memory i) else memory i

/-- The `count` cells of `memory` from `address` on. -/
def slice (memory : Nat → α) (address : Nat) : Nat → List α
  | 0 => []
  | count + 1 => memory address :: slice memory (address + 1) count

/-- The first `count` words of width `width` of a buffer. -/
def chunk (width : Nat) : Nat → List α → List (List α)
  | 0, _ => []
  | count + 1, data => data.take width :: chunk width count (data.drop width)

/-! ## `blit` -/

@[simp] theorem blit_nil (memory : Nat → α) (address : Nat) : blit memory address [] = memory := by
  funext i
  simp [blit]

theorem blit_of_lt {memory : Nat → α} {address i : Nat} {data : List α} (h : i < address) :
    blit memory address data i = memory i := by
  simp [blit, Nat.not_le.mpr h]

theorem blit_of_ge {memory : Nat → α} {address i : Nat} {data : List α}
    (h : address + data.length ≤ i) : blit memory address data i = memory i := by
  unfold blit
  split
  · simp [List.getD_eq_getElem?_getD, List.getElem?_eq_none (by omega : data.length ≤ i - address)]
  · rfl

theorem blit_outside {memory : Nat → α} {address i : Nat} {data : List α}
    (h : ¬ (address ≤ i ∧ i < address + data.length)) : blit memory address data i = memory i := by
  by_cases low : i < address
  · exact blit_of_lt low
  · exact blit_of_ge (by omega)

theorem blit_inside {memory : Nat → α} {address i : Nat} {data : List α} (fallback : α)
    (low : address ≤ i) (high : i < address + data.length) :
    blit memory address data i = data.getD (i - address) fallback := by
  have inside : i - address < data.length := by omega
  simp [blit, low, List.getD_eq_getElem?_getD, List.getElem?_eq_getElem inside]

/-- Copying two runs of data one after the other is copying them together. -/
theorem blit_append (memory : Nat → α) (address : Nat) (first second : List α) :
    blit memory address (first ++ second) =
      blit (blit memory address first) (address + first.length) second := by
  funext i
  by_cases low : i < address
  · rw [blit_of_lt low, blit_of_lt (by omega), blit_of_lt low]
  · by_cases mid : i < address + first.length
    · rw [blit_of_lt mid, blit_inside (memory i) (by omega) (by simp; omega),
        blit_inside (memory i) (by omega) mid]
      simp [List.getD_eq_getElem?_getD, List.getElem?_append_left (by omega : i - address < first.length)]
    · by_cases high : i < address + (first ++ second).length
      · rw [blit_inside (memory i) (by omega) high,
          blit_inside (memory i) (by omega) (by simp at high; omega)]
        rw [List.getD_eq_getElem?_getD, List.getElem?_append_right (by omega),
          List.getD_eq_getElem?_getD]
        rw [Nat.sub_sub]
      · rw [blit_of_ge (by omega), blit_of_ge (by simp at high; omega), blit_of_ge (by omega)]

/-- A shorter copy does the same to the cells it reaches. -/
theorem blit_take {memory : Nat → α} {address i n : Nat} {data : List α} (h : i < address + n) :
    blit memory address (data.take n) i = blit memory address data i := by
  by_cases inside : address ≤ i ∧ i < address + data.length
  · rw [blit_inside (memory i) inside.1 (by simp; omega), blit_inside (memory i) inside.1 inside.2,
      List.getD_eq_getElem?_getD, List.getElem?_take_of_lt (by omega), List.getD_eq_getElem?_getD]
  · rw [blit_outside inside, blit_outside (by simp; omega)]

/-- Cells on which two memories agree still agree after the same copy. -/
theorem blit_congr {memory other : Nat → α} {i : Nat} (same : memory i = other i)
    (address : Nat) (data : List α) : blit memory address data i = blit other address data i := by
  simp [blit, same]

/-! ### Single cells -/

theorem blit_here (memory : Nat → α) (address : Nat) (cell : α) : blit memory address [cell] address = cell := by
  rw [blit, if_pos (Nat.le_refl address), Nat.sub_self]
  rfl

theorem update_eq_blit (memory : Nat → α) (address : Nat) (cell : α) :
    Function.update memory address cell = blit memory address [cell] := by
  funext i
  by_cases here : i = address
  · rw [here, Function.update_self, blit_here]
  · rw [Function.update_of_ne here, blit_outside (by rw [List.length_singleton]; omega)]

/-- A cell in front of a copy. -/
theorem blit_update (memory : Nat → α) (address : Nat) (cell : α) (data : List α) :
    blit (Function.update memory address cell) (address + 1) data = blit memory address (cell :: data) := by
  rw [update_eq_blit]
  exact (blit_append memory address [cell] data).symm

/-! ## Sequences of copies -/

/-- Make the copies of a list of addresses and data, one after the other. -/
def patched (memory : Nat → α) (patches : List (Nat × List α)) : Nat → α :=
  patches.foldl (fun memory patch => blit memory patch.1 patch.2) memory

/-- No copy reaches the cell. -/
def Untouched (patches : List (Nat × List α)) (i : Nat) : Prop :=
  ∀ patch ∈ patches, ¬ (patch.1 ≤ i ∧ i < patch.1 + patch.2.length)

@[simp] theorem patched_nil (memory : Nat → α) : patched memory [] = memory := rfl

theorem patched_concat (memory : Nat → α) (patches : List (Nat × List α)) (patch : Nat × List α) :
    patched memory (patches ++ [patch]) = blit (patched memory patches) patch.1 patch.2 := by
  rw [patched, List.foldl_append]
  rfl

theorem patched_of_untouched {memory : Nat → α} {patches : List (Nat × List α)} {i : Nat}
    (untouched : Untouched patches i) : patched memory patches i = memory i := by
  induction patches generalizing memory with
  | nil => rfl
  | cons patch patches ih =>
    rw [Untouched, List.forall_mem_cons] at untouched
    have rest : patched (blit memory patch.1 patch.2) patches i = blit memory patch.1 patch.2 i := ih untouched.2
    exact rest.trans (blit_outside untouched.1)

theorem patched_congr {memory other : Nat → α} {i : Nat} (same : memory i = other i)
    (patches : List (Nat × List α)) : patched memory patches i = patched other patches i := by
  induction patches generalizing memory other with
  | nil => exact same
  | cons patch patches ih => exact ih (blit_congr same patch.1 patch.2)

theorem untouched_concat {patches : List (Nat × List α)} {patch : Nat × List α} {i : Nat}
    (earlier : Untouched patches i) (outside : ¬ (patch.1 ≤ i ∧ i < patch.1 + patch.2.length)) :
    Untouched (patches ++ [patch]) i := by
  intro other member
  rcases List.mem_append.mp member with member | member
  · exact earlier other member
  · rwa [List.mem_singleton.mp member]

/-! ## `slice` -/

@[simp] theorem length_slice (memory : Nat → α) (address count : Nat) :
    (slice memory address count).length = count := by
  induction count generalizing address with
  | zero => rfl
  | succ count ih => simp [slice, ih]

theorem getElem?_slice {memory : Nat → α} {address count k : Nat} (h : k < count) :
    (slice memory address count)[k]? = some (memory (address + k)) := by
  induction count generalizing address k with
  | zero => omega
  | succ count ih =>
    cases k with
    | zero => rfl
    | succ k =>
      rw [slice, List.getElem?_cons_succ, ih (by omega)]
      congr 2
      omega

theorem getD_slice {memory : Nat → α} {address count k : Nat} (fallback : α) (h : k < count) :
    (slice memory address count).getD k fallback = memory (address + k) := by
  simp [List.getD_eq_getElem?_getD, getElem?_slice h]

theorem slice_eq_iff {memory : Nat → α} {address count : Nat} {data : List α} (fallback : α)
    (length : data.length = count) :
    slice memory address count = data ↔ ∀ k < count, memory (address + k) = data.getD k fallback := by
  subst length
  constructor
  · intro same k inside
    rw [← same, getD_slice _ inside]
  · intro same
    apply List.ext_getElem?
    intro k
    by_cases inside : k < data.length
    · rw [getElem?_slice inside, same k inside]
      simp [List.getD_eq_getElem?_getD, List.getElem?_eq_getElem inside]
    · rw [List.getElem?_eq_none (by simpa using inside), List.getElem?_eq_none (by omega)]

theorem slice_congr {memory other : Nat → α} {address count : Nat}
    (same : ∀ i, address ≤ i → i < address + count → memory i = other i) :
    slice memory address count = slice other address count := by
  induction count generalizing address with
  | zero => rfl
  | succ count ih =>
    rw [slice, slice, same address (by omega) (by omega)]
    rw [ih (fun i low high => same i (by omega) (by omega))]

theorem slice_blit (memory : Nat → α) (address : Nat) (data : List α) :
    slice (blit memory address data) address data.length = data := by
  apply List.ext_getElem?
  intro k
  by_cases h : k < data.length
  · rw [getElem?_slice h, blit_inside (memory 0) (by omega) (by omega)]
    simp [List.getD_eq_getElem?_getD, List.getElem?_eq_getElem h]
  · rw [List.getElem?_eq_none (by simp; omega), List.getElem?_eq_none (by omega)]

theorem slice_blit_of_disjoint {memory : Nat → α} {address start count : Nat} {data : List α}
    (apart : start + count ≤ address ∨ address + data.length ≤ start) :
    slice (blit memory address data) start count = slice memory start count := by
  apply slice_congr
  intro i low high
  exact blit_outside (by omega)

/-- Copying back what is already there changes nothing. -/
theorem blit_slice (memory : Nat → α) (address count : Nat) :
    blit memory address (slice memory address count) = memory := by
  funext i
  by_cases inside : address ≤ i ∧ i < address + count
  · rw [blit_inside (memory i) inside.1 (by simp; omega), getD_slice _ (by omega)]
    congr 1
    omega
  · exact blit_outside (by simpa using inside)

theorem slice_add (memory : Nat → α) (address first second : Nat) :
    slice memory address (first + second) =
      slice memory address first ++ slice memory (address + first) second := by
  induction first generalizing address with
  | zero => simp [slice]
  | succ first ih =>
    rw [Nat.succ_add, slice, slice, ih, List.cons_append, Nat.add_right_comm, Nat.add_assoc]

theorem slice_const (value : α) (address count : Nat) :
    slice (fun _ => value) address count = List.replicate count value := by
  induction count generalizing address with
  | zero => rfl
  | succ count ih => rw [slice, ih, List.replicate_succ]

/-! ## `chunk` -/

@[simp] theorem length_chunk (width count : Nat) (data : List α) :
    (chunk width count data).length = count := by
  induction count generalizing data with
  | zero => rfl
  | succ count ih => simp [chunk, ih]

theorem flatten_chunk {width count : Nat} {data : List α} (size : data.length = count * width) :
    (chunk width count data).flatten = data := by
  induction count generalizing data with
  | zero =>
    rw [Nat.zero_mul, List.length_eq_zero_iff] at size
    simp [chunk, size]
  | succ count ih =>
    rw [Nat.succ_mul] at size
    rw [chunk, List.flatten_cons, ih (by simp; omega), List.take_append_drop]

theorem length_of_mem_chunk {width count : Nat} {data word : List α}
    (size : data.length = count * width) (member : word ∈ chunk width count data) :
    word.length = width := by
  induction count generalizing data with
  | zero => cases member
  | succ count ih =>
    rw [Nat.succ_mul] at size
    rcases List.mem_cons.mp member with rfl | member
    · simp; omega
    · exact ih (by simp; omega) member

end QmkFirmware.Memory
