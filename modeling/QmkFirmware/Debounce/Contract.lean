import QmkFirmware.Debounce.Eager
import QmkFirmware.Foundations.Runs

/-! # What the debouncer promises

In a sequence of calls each key runs through its own machine, so that what holds of one
key in a run holds of the whole matrix.
-/

namespace QmkFirmware.Debounce

open QmkFirmware.Runs

variable {width : Nat}

/-! ## Runs -/

def run (board : Board width) (start : System width) (calls : List (Call width)) : System width :=
  calls.foldl (System.call board) start

theorem run_concat (board : Board width) (start : System width) (calls : List (Call width))
    (call : Call width) : run board start (calls ++ [call]) = (run board start calls).call board call := by
  simp [run]

/-- The input of one key in each call. -/
def inputsOf (row col : Nat) (calls : List (Call width)) : List (Bool × Nat) :=
  calls.map fun call => ((call.raw row).getLsbD col, call.elapsed.toNat)

theorem start_consistent (board : Board width) (matrix : Nat → BitVec width) (lastTime now : UInt32) :
    Consistent board (.start matrix lastTime now) where
  settled _ _ _ := .inl rfl
  bounded _ _ _ := Nat.zero_le _
  flagged _ _ _ runs := absurd rfl runs
  quiet := rfl
  clock running := by cases running

/-- Every call announces the changes of the raw matrix. -/
def AllAnnounced (board : Board width) (start : System width) (calls : List (Call width)) : Prop :=
  EveryStep (fun earlier call => Announced board (run board start earlier) call) calls

instance (board : Board width) (s : System width) (call : Call width) :
    Decidable (Announced board s call) :=
  inferInstanceAs (Decidable ((∃ row < board.numRows, _) → _))

instance (board : Board width) (start : System width) (calls : List (Call width)) :
    Decidable (AllAnnounced board start calls) :=
  inferInstanceAs (Decidable (EveryStep _ calls))

section

variable {board : Board width} {start : System width} {calls : List (Call width)}

theorem run_consistent (initial : Consistent board start) (announced : AllAnnounced board start calls) :
    Consistent board (run board start calls) :=
  foldl_everyStep (fun earlier call => Announced board (run board start earlier) call)
    (fun _ s => Consistent board s) initial
    (fun _ _ announces consistent => call_consistent consistent announces) calls announced

/-- In a run each key goes through the run of its own machine. -/
theorem run_key (initial : Consistent board start) {row col : Nat} (key : board.Key row col)
    {earlier later : List (Call width)} (announced : AllAnnounced board start (earlier ++ later)) :
    (run board start (earlier ++ later)).key row col =
      keyRun board.gDebounce.toNat ((run board start earlier).key row col) (inputsOf row col later) := by
  induction later using List.reverseRecOn with
  | nil => rw [List.append_nil, inputsOf, List.map_nil, keyRun_nil]
  | append_singleton later call ih =>
    rw [← List.append_assoc] at announced ⊢
    obtain ⟨before, announces⟩ := everyStep_concat.mp announced
    rw [run_concat, call_key (run_consistent initial before) announces key, ih before]
    simp [keyRun, inputsOf]

end

/-! ## The contract -/

section

variable (board : Board width) (start : System width) (calls : List (Call width))

/-- The system after the first `n` calls. -/
def after (n : Nat) : System width := run board start (calls.take n)

/-- The time from the call with index `i` to the one with index `j`. -/
def elapsedBetween (i j : Nat) : Nat :=
  (((calls.take (j + 1)).drop (i + 1)).map fun call => call.elapsed.toNat).sum

/-- The call with index `n` changes the cooked bit of a key. -/
def Changes (n row col : Nat) : Prop :=
  ((after board start calls (n + 1)).key row col).cooked ≠ ((after board start calls n).key row col).cooked

/-- What the debouncer promises of a sequence of calls. -/
structure Contract : Prop where
  /-- The result of a call tells whether it has changed the cooked matrix. -/
  result : ∀ n < calls.length, (after board start calls (n + 1)).debouncer.cookedChanged = true ↔
    ∃ row < board.numRows, (after board start calls (n + 1)).cooked row ≠ (after board start calls n).cooked row
  /-- Two changes of a key are at least the debounce time apart. -/
  spaced : ∀ row col, board.Key row col → ∀ i j, i < j → j < calls.length →
    Changes board start calls i row col → Changes board start calls j row col →
    board.gDebounce.toNat ≤ elapsedBetween calls i j
  /-- The raw bit of a key whose counter is idle passes in the same call. -/
  prompt : ∀ row col, board.Key row col → ∀ n < calls.length,
    ((after board start calls n).key row col).counter = 0 →
    ((after board start calls (n + 1)).key row col).cooked =
      ((after board start calls (n + 1)).raw row).getLsbD col
  /-- Each key has its raw bit or a running counter. -/
  settled : ∀ row col, board.Key row col → ∀ n ≤ calls.length,
    ((after board start calls n).key row col).cooked = ((after board start calls n).raw row).getLsbD col ∨
    ((after board start calls n).key row col).counter ≠ 0
  /-- A raw bit that is stable for the debounce time reaches the cooked matrix. -/
  reached : ∀ row col, board.Key row col → ∀ i j, i ≤ j → j < calls.length → ∀ bit,
    (∀ n, i ≤ n → n ≤ j → ((after board start calls (n + 1)).raw row).getLsbD col = bit) →
    board.gDebounce.toNat ≤ elapsedBetween calls i j →
    ((after board start calls (j + 1)).key row col).cooked = bit

end

section

variable {board : Board width} {start : System width} {calls : List (Call width)}

theorem after_succ {n : Nat} (inside : n < calls.length) :
    after board start calls (n + 1) = (after board start calls n).call board calls[n] := by
  rw [after, List.take_add_one, List.getElem?_eq_getElem inside, Option.toList_some, run_concat]
  rfl

theorem after_raw {n : Nat} (inside : n < calls.length) :
    (after board start calls (n + 1)).raw = calls[n].raw := by
  rw [after_succ inside]
  rfl

theorem after_consistent (initial : Consistent board start) (announced : AllAnnounced board start calls)
    (n : Nat) : Consistent board (after board start calls n) :=
  run_consistent initial (EveryStep.take announced n)

theorem after_key (initial : Consistent board start) (announced : AllAnnounced board start calls)
    {row col : Nat} (key : board.Key row col) {n : Nat} (inside : n < calls.length) :
    (after board start calls (n + 1)).key row col =
      keyStep board.gDebounce.toNat (((after board start calls (n + 1)).raw row).getLsbD col)
        calls[n].elapsed.toNat ((after board start calls n).key row col) := by
  rw [after_raw inside, after_succ inside]
  exact call_key (after_consistent initial announced n) (announced n inside) key

/-- From one call to a later one, the key runs through the calls between them. -/
theorem after_key_later (initial : Consistent board start) (announced : AllAnnounced board start calls)
    {row col : Nat} (key : board.Key row col) {i j : Nat} (order : i ≤ j) :
    (after board start calls j).key row col =
      keyRun board.gDebounce.toNat ((after board start calls i).key row col)
        (inputsOf row col ((calls.take j).drop i)) := by
  have parts : calls.take i ++ (calls.take j).drop i = calls.take j := by
    have first : (calls.take j).take i = calls.take i := by
      rw [List.take_take, Nat.min_eq_left order]
    rw [← first, List.take_append_drop]
  have upto : AllAnnounced board start (calls.take j) := EveryStep.take announced j
  rw [← parts] at upto
  rw [after, ← parts, run_key initial key upto, parts, after]

theorem duration_inputsOf (row col : Nat) (calls : List (Call width)) :
    duration (inputsOf row col calls) = (calls.map fun call => call.elapsed.toNat).sum := by
  rw [duration, inputsOf, List.map_map]
  rfl

variable (initial : Consistent board start) (announced : AllAnnounced board start calls)

include initial announced

/-- A change starts the counter, and until it has run down there is no other. -/
theorem changes_spaced {row col : Nat} (key : board.Key row col) {i j : Nat} (order : i < j)
    (inside : j < calls.length) (first : Changes board start calls i row col)
    (second : Changes board start calls j row col) :
    board.gDebounce.toNat ≤ elapsedBetween calls i j := by
  have started : ((after board start calls (i + 1)).key row col).counter = board.gDebounce.toNat := by
    rw [Changes, after_key initial announced key (order.trans inside)] at first
    rw [after_key initial announced key (order.trans inside)]
    exact (keyStep_changes first).2
  rw [Changes, after_key initial announced key inside,
    after_key_later initial announced key (Nat.succ_le_of_lt order)] at second
  have counted := counter_le_duration second
  rw [started, duration_inputsOf] at counted
  have split : (calls.take (j + 1)).drop (i + 1) = (calls.take j).drop (i + 1) ++ [calls[j]] := by
    rw [List.take_add_one, List.getElem?_eq_getElem inside, Option.toList_some,
      List.drop_append_of_le_length]
    rw [List.length_take]
    omega
  rw [elapsedBetween, split, List.map_append, List.sum_append]
  simpa using counted

theorem raw_reached {row col : Nat} (key : board.Key row col) {i j : Nat} (order : i ≤ j)
    (inside : j < calls.length) {bit : Bool}
    (stable : ∀ n, i ≤ n → n ≤ j → ((after board start calls (n + 1)).raw row).getLsbD col = bit)
    (enough : board.gDebounce.toNat ≤ elapsedBetween calls i j) :
    ((after board start calls (j + 1)).key row col).cooked = bit := by
  have consistent := after_consistent initial announced (i + 1)
  have settled := consistent.settled row col key
  rw [stable i (Nat.le_refl i) order] at settled
  rw [after_key_later initial announced key (Nat.succ_le_succ order)]
  refine keyRun_passes settled ?_ ?_
  · intro input member
    -- the inputs are those of the calls from `i + 1` to `j`
    obtain ⟨call, called, rfl⟩ := List.mem_map.mp member
    obtain ⟨n, bound, rfl⟩ := List.mem_iff_getElem.mp called
    rw [List.length_drop, List.length_take] at bound
    have raw := stable (i + 1 + n) (by omega) (by omega)
    rw [after_raw (by omega)] at raw
    rw [List.getElem_drop, List.getElem_take]
    exact raw
  · rw [duration_inputsOf]
    exact (consistent.bounded row col key).trans enough

end

/-- For every sequence of calls that announce the changes of the raw matrix, whatever the
matrices and the times between the calls are. -/
theorem debounce_contract (board : Board width) (matrix : Nat → BitVec width) (lastTime now : UInt32)
    (calls : List (Call width)) (announced : AllAnnounced board (.start matrix lastTime now) calls) :
    Contract board (.start matrix lastTime now) calls where
  result n inside := by
    have initial := start_consistent board matrix lastTime now
    rw [after_succ inside]
    exact call_result (after_consistent initial announced n) calls[n]
  spaced row col key i j order inside :=
    changes_spaced (start_consistent board matrix lastTime now) announced key order inside
  prompt row col key n inside idle := by
    rw [after_key (start_consistent board matrix lastTime now) announced key inside]
    exact keyStep_idle idle
  settled row col key n _ :=
    (after_consistent (start_consistent board matrix lastTime now) announced n).settled row col key
  reached row col key i j order inside bit stable enough :=
    raw_reached (start_consistent board matrix lastTime now) announced key order inside stable enough

/-- The keyboard of the test suite. -/
def testBoard : Board 16 := ⟨4, 10, 5, by decide⟩

/-- The key in row 0 and column 1, down or up. -/
def oneKey (down : Bool) (row : Nat) : BitVec 16 := if row = 0 ∧ down then 2 else 0

/-- The key bounces once after it goes down, and once more after it comes up. -/
def oneKeyShort : List (Call 16) :=
  [⟨oneKey true, 0, true⟩, ⟨oneKey false, 1, true⟩, ⟨oneKey false, 4, false⟩, ⟨oneKey true, 1, true⟩,
    ⟨oneKey true, 4, false⟩]

theorem oneKeyShort_contract :
    ((List.range 5).map fun n => ((after testBoard (.start (fun _ => 0) 0 0) oneKeyShort (n + 1)).key 0 1).cooked) =
      [true, true, false, false, true] ∧
    AllAnnounced testBoard (.start (fun _ => 0) 0 0) oneKeyShort ∧
    Contract testBoard (.start (fun _ => 0) 0 0) oneKeyShort := by
  have announced : AllAnnounced testBoard (.start (fun _ => 0) 0 0) oneKeyShort := by decide
  exact ⟨by decide +kernel, announced, debounce_contract testBoard _ _ _ oneKeyShort announced⟩

end QmkFirmware.Debounce
