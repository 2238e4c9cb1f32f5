import Mathlib.Order.Interval.Finset.Nat
import QmkFirmware.DeferredExec.Model

/-! # What the operations on a table do

The search for a token ends after at most 256 rounds, and finds a token that no entry has
unless all are taken.  Each operation then changes one entry or none.
-/

namespace QmkFirmware.DeferredExec

variable {γ : Type} {tableCount : Nat}

/-! ## Search -/

theorem findToken_some {table : Nat → Executor γ} {token : UInt8} {i : Nat}
    (found : findToken tableCount table token = some i) : i < tableCount ∧ (table i).token = token := by
  have member := List.mem_of_find?_eq_some found
  have holds := List.find?_some found
  exact ⟨List.mem_range.mp member, of_decide_eq_true holds⟩

theorem findToken_none {table : Nat → Executor γ} {token : UInt8}
    (missing : findToken tableCount table token = none) : ∀ i < tableCount, (table i).token ≠ token := by
  intro i inside
  have none := List.find?_eq_none.mp missing i (List.mem_range.mpr inside)
  simpa using none

theorem tokenCanBeUsed_iff (table : Nat → Executor γ) (token : UInt8) :
    tokenCanBeUsed tableCount table token = true ↔
      token ≠ invalidDeferredToken ∧ ∀ i < tableCount, (table i).token ≠ token := by
  rw [tokenCanBeUsed]
  split
  · next invalid => simp [invalid]
  · next valid =>
    rw [Option.isNone_iff_eq_none, and_iff_right valid]
    constructor
    · exact findToken_none
    · intro unused
      by_contra found
      obtain ⟨i, there⟩ := Option.ne_none_iff_exists'.mp found
      obtain ⟨inside, same⟩ := findToken_some there
      exact unused i inside same

/-! ## Allocation -/

/-- The rounds from `first + k` on.  The loop ends, since after 256 rounds the counter is
back at `first`. -/
theorem allocateLoop_spec (tableCount : Nat) (table : Nat → Executor γ) (first : UInt8) (fuel : Nat) {k : Nat}
    (rounds : k + (fuel + 1) = 256) :
    (∃ token, allocateLoop tableCount table first (fuel + 1) (first + .ofNat k) = some (token, token) ∧
      tokenCanBeUsed tableCount table token = true) ∨
    allocateLoop tableCount table first (fuel + 1) (first + .ofNat k) = some (invalidDeferredToken, first) ∧
      ∀ j, k ≤ j → j < 256 → tokenCanBeUsed tableCount table (first + .ofNat j) = false := by
  induction fuel generalizing k with
  | zero =>
    obtain rfl : k = 255 := by omega
    rw [allocateLoop]
    split
    · next usable => exact .inl ⟨_, rfl, usable⟩
    · next used =>
      -- the last of the 256 rounds
      have wraps : first + .ofNat 255 + 1 = first := by
        rw [add_assoc]
        exact add_zero first
      right
      rw [if_pos wraps, wraps]
      refine ⟨rfl, fun j lower upper => ?_⟩
      obtain rfl : j = 255 := by omega
      simpa using used
  | succ fuel ih =>
    rw [allocateLoop]
    split
    · next usable => exact .inl ⟨_, rfl, usable⟩
    · next used =>
      have next : first + .ofNat k + 1 = first + .ofNat (k + 1) := by
        rw [UInt8.ofNat_add, add_assoc]
        rfl
      have apart : first + .ofNat (k + 1) ≠ first := by
        intro same
        have zero : (UInt8.ofNat (k + 1)) = 0 := by simpa using same
        have value := congrArg UInt8.toNat zero
        rw [UInt8.toNat_ofNat', Nat.mod_eq_of_lt (by omega)] at value
        cases value
      rw [next, if_neg apart]
      refine (ih (k := k + 1) (by omega)).imp_right fun exhausted => ⟨exhausted.1, ?_⟩
      intro j lower upper
      -- this round has refused the token `first + k`
      obtain rfl | later : k = j ∨ k + 1 ≤ j := by omega
      · simpa using used
      · exact exhausted.2 j later upper

/-- A result that is not the invalid token can be used, and becomes the counter. -/
theorem allocateToken_spec (tableCount : Nat) (table : Nat → Executor γ) (currentToken : UInt8) :
    (∃ token, allocateToken tableCount table currentToken = some (token, token) ∧
      tokenCanBeUsed tableCount table token = true) ∨
    allocateToken tableCount table currentToken = some (invalidDeferredToken, currentToken + 1) ∧
      ∀ token, tokenCanBeUsed tableCount table token = false := by
  have spec := allocateLoop_spec tableCount table (currentToken + 1) 255 (k := 0) rfl
  rw [show currentToken + 1 + .ofNat 0 = currentToken + 1 from add_zero _] at spec
  refine spec.imp_right fun exhausted => ⟨exhausted.1, fun token => ?_⟩
  have every := exhausted.2 (token - (currentToken + 1)).toNat (Nat.zero_le _) (UInt8.toNat_lt _)
  rwa [UInt8.ofNat_toNat, add_sub_cancel] at every

/-- With fewer than 255 entries there is always a token left. -/
theorem allocateToken_succeeds (small : tableCount < 255) (table : Nat → Executor γ) (currentToken : UInt8) :
    ∃ token, allocateToken tableCount table currentToken = some (token, token) ∧
      tokenCanBeUsed tableCount table token = true := by
  cases allocateToken_spec tableCount table currentToken with
  | inl found => exact found
  | inr exhausted =>
    -- all 255 valid tokens would have to be in the table
    have taken : Finset.Icc 1 255 ⊆ (Finset.range tableCount).image fun i => (table i).token.toNat := by
      intro n member
      rw [Finset.mem_Icc] at member
      have value : (UInt8.ofNat n).toNat = n := by
        rw [UInt8.toNat_ofNat', Nat.mod_eq_of_lt (by omega)]
      have valid : UInt8.ofNat n ≠ invalidDeferredToken := by
        intro invalid
        rw [invalid] at value
        have zero : invalidDeferredToken.toNat = 0 := rfl
        omega
      have unusable := exhausted.2 (UInt8.ofNat n)
      rw [← Bool.not_eq_true, tokenCanBeUsed_iff, and_iff_right valid] at unusable
      push Not at unusable
      obtain ⟨i, inside, same⟩ := unusable
      exact Finset.mem_image.mpr ⟨i, Finset.mem_range.mpr inside, by rw [same, value]⟩
    have count := (Finset.card_le_card taken).trans Finset.card_image_le
    rw [Nat.card_Icc, Finset.card_range] at count
    omega

/-! ## One operation -/

/-- A deferred execution takes the first free entry, or nothing happens to the table. -/
theorem defer_cases (tableCount : Nat) (now delayMs : UInt32) (callback : Option γ) (s : Deferred γ) :
    ((deferExecAdvanced tableCount now delayMs callback s).1 = invalidDeferredToken ∧
      ∃ currentToken, (deferExecAdvanced tableCount now delayMs callback s).2 =
        { s with currentToken := currentToken }) ∨
    ∃ function i token, callback = some function ∧
      findToken tableCount s.table invalidDeferredToken = some i ∧
      tokenCanBeUsed tableCount s.table token = true ∧
      deferExecAdvanced tableCount now delayMs callback s =
        (token, { s with currentToken := token }.set i ⟨token, now + delayMs, some function⟩) := by
  rw [deferExecAdvanced]
  split
  · exact .inl ⟨rfl, s.currentToken, rfl⟩
  · next valid =>
    -- a missing callback has been refused
    obtain ⟨function, rfl⟩ : ∃ function, callback = some function := by
      cases callback with
      | none => simp at valid
      | some function => exact ⟨function, rfl⟩
    cases free : findToken tableCount s.table invalidDeferredToken with
    | none => exact .inl ⟨rfl, s.currentToken, rfl⟩
    | some i =>
      cases allocateToken_spec tableCount s.table s.currentToken with
      | inl found =>
        obtain ⟨token, result, usable⟩ := found
        have valid := ((tokenCanBeUsed_iff s.table token).mp usable).1
        simp only [result, if_neg valid]
        exact .inr ⟨function, i, token, rfl, rfl, usable, rfl⟩
      | inr exhausted =>
        simp only [exhausted.1]
        exact .inl ⟨rfl, _, rfl⟩

theorem extend_cases (tableCount : Nat) (now : UInt32) (token : UInt8) (delayMs : UInt32) (s : Deferred γ) :
    extendDeferredExecAdvanced tableCount now token delayMs s = (false, s) ∨
    ∃ i, findToken tableCount s.table token = some i ∧ token ≠ invalidDeferredToken ∧
      extendDeferredExecAdvanced tableCount now token delayMs s =
        (true, s.set i { s.table i with triggerTime := now + delayMs }) := by
  rw [extendDeferredExecAdvanced]
  split
  · exact .inl rfl
  · next valid =>
    cases found : findToken tableCount s.table token with
    | none => exact .inl rfl
    | some i => exact .inr ⟨i, rfl, fun invalid => valid (.inr (.inr invalid)), rfl⟩

theorem cancel_cases (tableCount : Nat) (token : UInt8) (s : Deferred γ) :
    (cancelDeferredExecAdvanced tableCount token s = (false, s) ∧
      (token = invalidDeferredToken ∨ ∀ i < tableCount, (s.table i).token ≠ token)) ∨
    ∃ i, findToken tableCount s.table token = some i ∧ token ≠ invalidDeferredToken ∧
      cancelDeferredExecAdvanced tableCount token s = (true, s.set i .empty) := by
  rw [cancelDeferredExecAdvanced]
  split
  · next invalid =>
    refine .inl ⟨rfl, ?_⟩
    cases invalid with
    | inl none => exact .inr fun i inside => by omega
    | inr token => exact .inl token
  · next valid =>
    cases found : findToken tableCount s.table token with
    | none => exact .inl ⟨rfl, .inr (findToken_none found)⟩
    | some i => exact .inr ⟨i, rfl, fun invalid => valid (.inr invalid), rfl⟩

/-! ## Entries -/

@[simp] theorem set_table_self (s : Deferred γ) (i : Nat) (entry : Executor γ) :
    (s.set i entry).table i = entry := Function.update_self ..

theorem set_table_other (s : Deferred γ) {i j : Nat} (apart : j ≠ i) (entry : Executor γ) :
    (s.set i entry).table j = s.table j := Function.update_of_ne apart ..

/-- What holds of the new entry and of the other ones holds of all. -/
theorem forall_set {s : Deferred γ} {i : Nat} {entry : Executor γ} {P : Executor γ → Prop} (new : P entry)
    (others : ∀ j < tableCount, j ≠ i → P (s.table j)) :
    ∀ j < tableCount, P ((s.set i entry).table j) := by
  intro j inside
  by_cases same : j = i
  · rw [same, set_table_self]
    exact new
  · rw [set_table_other s same]
    exact others j inside same

/-- A new time leaves the tokens and the callbacks. -/
theorem set_triggerTime_kept (s : Deferred γ) (i j : Nat) (triggerTime : UInt32) :
    ((s.set i { s.table i with triggerTime }).table j).token = (s.table j).token ∧
    ((s.set i { s.table i with triggerTime }).table j).callback = (s.table j).callback := by
  by_cases same : j = i
  · rw [same, set_table_self]
    exact ⟨rfl, rfl⟩
  · rw [set_table_other _ same]
    exact ⟨rfl, rfl⟩

/-- No two entries that are in use have the same token. -/
def Distinct (tableCount : Nat) (table : Nat → Executor γ) : Prop :=
  ∀ i < tableCount, ∀ j < tableCount, (table i).token = (table j).token →
    (table i).token ≠ invalidDeferredToken → i = j

/-- The other entries do not have the token of an entry in use. -/
theorem Distinct.others {table : Nat → Executor γ} (distinct : Distinct tableCount table) {i : Nat}
    (inside : i < tableCount) (used : (table i).token ≠ invalidDeferredToken) :
    ∀ j < tableCount, j ≠ i → (table j).token ≠ (table i).token := by
  intro j alsoInside apart same
  exact apart (distinct i inside j alsoInside same.symm used).symm

theorem Distinct.set {s : Deferred γ} (distinct : Distinct tableCount s.table) {i : Nat} {entry : Executor γ}
    (own : entry.token = invalidDeferredToken ∨ ∀ j < tableCount, j ≠ i → (s.table j).token ≠ entry.token) :
    Distinct tableCount (s.set i entry).table := by
  intro j inside k alsoInside same used
  -- only a pair with the new entry is new
  by_cases first : j = i <;> by_cases second : k = i
  · rw [first, second]
  · rw [first, set_table_self] at used
    rw [first, set_table_self, set_table_other s second] at same
    exact absurd same.symm (own.resolve_left used k alsoInside second)
  · rw [set_table_other s first] at used
    rw [second, set_table_self, set_table_other s first] at same
    exact absurd same (own.resolve_left (same ▸ used) j inside first)
  · rw [set_table_other s first] at same used
    rw [set_table_other s second] at same
    exact distinct j inside k alsoInside same used

end QmkFirmware.DeferredExec
