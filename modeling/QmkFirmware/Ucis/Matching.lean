import QmkFirmware.Ucis.Model
import Mathlib.Data.Nat.Find

/-! # The matcher

`match_mnemonic` walks through `input` to a zero, at most to the place after the text.  So it takes a mnemonic that begins
with the text for the text, and a character that is left behind the text for a part of it.
-/

namespace QmkFirmware.Ucis

/-! ## One mnemonic -/

/-- Below the place, the input is not zero and is the mnemonic. -/
def Agrees (input : Nat → UInt8) (mnemonic : List UInt8) (place : Nat) : Prop :=
  ∀ j < place, input j ≠ 0 ∧ input j = mnemonic.getD j 0

section Loop

variable {input : Nat → UInt8} {mnemonic : List UInt8}

theorem Agrees.le {place below : Nat} (agrees : Agrees input mnemonic place) (le : below ≤ place) :
    Agrees input mnemonic below := fun j inside => agrees j (inside.trans_le le)

theorem Agrees.succ {place : Nat} (agrees : Agrees input mnemonic place) (some : input place ≠ 0)
    (same : input place = mnemonic.getD place 0) : Agrees input mnemonic (place + 1) := by
  intro j inside
  obtain before | rfl := Nat.lt_succ_iff_lt_or_eq.mp inside
  · exact agrees j before
  · exact ⟨some, same⟩

/-- The loop reads the places up to which the input agrees, and ends at a zero or behind the text. -/
theorem matchLoop_spec (count : Nat) {fuel i : Nat} (enough : i + fuel = count + 2) (before : Agrees input mnemonic i) :
    ((matchLoop input count mnemonic fuel i).1 = true ↔
        ∃ r, i ≤ r ∧ r ≤ count + 1 ∧ input r = 0 ∧ Agrees input mnemonic r) ∧
      ∀ r, r ∈ (matchLoop input count mnemonic fuel i).2 ↔ i ≤ r ∧ r ≤ count + 1 ∧ Agrees input mnemonic r := by
  induction fuel generalizing i with
  | zero =>
    constructor
    · refine iff_of_false nofun ?_
      rintro ⟨r, above, below, -⟩
      omega
    · intro r
      refine iff_of_false nofun ?_
      rintro ⟨above, below, -⟩
      omega
  | succ fuel ih =>
    have inside : i ≤ count + 1 := by omega
    rw [matchLoop]
    split_ifs with zero ends
    · have last : ∀ r, i ≤ r → Agrees input mnemonic r → r = i := by
        intro r above agrees
        by_contra different
        exact (agrees i (by omega)).1 zero
      refine ⟨iff_of_true rfl ⟨i, le_rfl, inside, zero, before⟩, fun r => ?_⟩
      rw [List.mem_singleton]
      constructor
      · rintro rfl
        exact ⟨le_rfl, inside, before⟩
      · rintro ⟨above, -, agrees⟩
        exact last r above agrees
    · have last : ∀ r, i ≤ r → r ≤ count + 1 → Agrees input mnemonic r → r = i := by
        intro r above below agrees
        by_contra different
        obtain behind | mismatch := ends
        · omega
        · exact mismatch (agrees i (by omega)).2
      constructor
      · refine iff_of_false nofun ?_
        rintro ⟨r, above, below, found, agrees⟩
        rw [last r above below agrees] at found
        exact zero found
      · intro r
        rw [List.mem_singleton]
        constructor
        · rintro rfl
          exact ⟨le_rfl, inside, before⟩
        · rintro ⟨above, below, agrees⟩
          exact last r above below agrees
    · obtain ⟨within, same⟩ := not_or.mp ends
      have next : Agrees input mnemonic (i + 1) := before.succ zero (not_not.mp same)
      obtain ⟨matched, reads⟩ := ih (by omega) next
      constructor
      · rw [matched]
        constructor
        · rintro ⟨r, above, below⟩
          exact ⟨r, by omega, below⟩
        · rintro ⟨r, above, below, found, agrees⟩
          refine ⟨r, ?_, below, found, agrees⟩
          obtain rfl | later := Nat.eq_or_lt_of_le above
          · exact absurd found zero
          · exact later
      · intro r
        rw [List.mem_cons, reads]
        constructor
        · rintro (rfl | ⟨above, below⟩)
          · exact ⟨le_rfl, inside, before⟩
          · exact ⟨by omega, below⟩
        · rintro ⟨above, below⟩
          obtain rfl | later := Nat.eq_or_lt_of_le above
          · exact .inl rfl
          · exact .inr ⟨later, below⟩

end Loop

/-- The text that has been typed, which is in `input` up to its count. -/
structure HasText (s : State) (text : List UInt8) : Prop where
  count : s.count = text.length
  input : ∀ i (inside : i < text.length), s.input i = text[i]
  nonzero : ∀ c ∈ text, c ≠ 0

theorem hasText_nil {s : State} (empty : s.count = 0) : HasText s [] where
  count := empty
  input i inside := absurd inside (Nat.not_lt_zero i)
  nonzero := List.forall_mem_nil _

section Matching

variable {s : State} {text : List UInt8}

/-- The input agrees with the mnemonics that begin with it. -/
theorem agrees_iff_begins {input : Nat → UInt8} {bytes : List UInt8} (same : ∀ i (inside : i < bytes.length), input i = bytes[i])
    (nonzero : ∀ c ∈ bytes, c ≠ 0) (mnemonic : List UInt8) : Agrees input mnemonic bytes.length ↔ bytes <+: mnemonic := by
  rw [List.prefix_iff_getElem?]
  constructor
  · intro agrees i inside
    obtain ⟨some, equal⟩ := agrees i inside
    rw [same i inside] at some equal
    rw [List.getD_eq_getElem?_getD] at equal
    cases found : mnemonic[i]? with
    | none =>
      rw [found] at equal
      exact absurd equal some
    | some c =>
      rw [found] at equal
      rw [equal]
      rfl
  · intro begins i inside
    rw [same i inside]
    refine ⟨nonzero _ (List.getElem_mem inside), ?_⟩
    rw [List.getD_eq_getElem?_getD, begins i inside]
    rfl

theorem HasText.agrees (has : HasText s text) (mnemonic : List UInt8) :
    Agrees s.input mnemonic text.length ↔ text <+: mnemonic := agrees_iff_begins has.input has.nonzero mnemonic

/-- One more place is that of a character behind the text. -/
theorem HasText.agrees_succ (has : HasText s text) (some : s.input text.length ≠ 0) (mnemonic : List UInt8) :
    Agrees s.input mnemonic (text.length + 1) ↔ text ++ [s.input text.length] <+: mnemonic := by
  have longer := @agrees_iff_begins s.input (text ++ [s.input text.length]) ?_ ?_ mnemonic
  · rwa [List.length_append, List.length_singleton] at longer
  · intro i inside
    rw [List.length_append, List.length_singleton] at inside
    by_cases within : i < text.length
    · rw [List.getElem_append_left within, has.input i within]
    · obtain rfl : i = text.length := by omega
      simp
  · intro c there
    obtain there | there := List.mem_append.mp there
    · exact has.nonzero c there
    · rw [List.mem_singleton.mp there]
      exact some

theorem matchMnemonic_spec (has : HasText s text) (mnemonic : List UInt8) :
    ((matchMnemonic s mnemonic).1 = true ↔
        ∃ r ≤ text.length + 1, s.input r = 0 ∧ Agrees s.input mnemonic r) ∧
      ∀ r, r ∈ (matchMnemonic s mnemonic).2 ↔ r ≤ text.length + 1 ∧ Agrees s.input mnemonic r := by
  have spec := @matchLoop_spec s.input mnemonic s.count (s.count + 2) 0 (Nat.zero_add _) nofun
  simp only [Nat.zero_le, true_and] at spec
  rw [← has.count]
  exact spec

/-- The text is not zero. -/
theorem HasText.le_of_zero (has : HasText s text) {r : Nat} (zero : s.input r = 0) : text.length ≤ r := by
  by_contra inside
  have below : r < text.length := by omega
  rw [has.input r below] at zero
  exact has.nonzero _ (List.getElem_mem below) zero

/-- Without a character behind the text, the mnemonics that begin with it match. -/
theorem match_iff (has : HasText s text) (zero : s.input text.length = 0) (mnemonic : List UInt8) :
    (matchMnemonic s mnemonic).1 = true ↔ text <+: mnemonic := by
  rw [(matchMnemonic_spec has mnemonic).1, ← has.agrees]
  constructor
  · rintro ⟨r, -, found, agrees⟩
    exact agrees.le (has.le_of_zero found)
  · exact fun agrees => ⟨text.length, Nat.le_succ _, zero, agrees⟩

/-- With one, the mnemonics that begin with both match, if nothing is behind them. -/
theorem match_iff_left (has : HasText s text) (some : s.input text.length ≠ 0) (mnemonic : List UInt8) :
    (matchMnemonic s mnemonic).1 = true ↔
      s.input (text.length + 1) = 0 ∧ text ++ [s.input text.length] <+: mnemonic := by
  rw [(matchMnemonic_spec has mnemonic).1, ← has.agrees_succ some]
  constructor
  · rintro ⟨r, below, found, agrees⟩
    have above := has.le_of_zero found
    obtain rfl : r = text.length + 1 := by
      by_contra different
      obtain rfl : r = text.length := by omega
      exact some found
    exact ⟨found, agrees⟩
  · rintro ⟨found, agrees⟩
    exact ⟨_, le_rfl, found, agrees⟩

theorem mem_reads_iff (has : HasText s text) (mnemonic : List UInt8) (r : Nat) :
    r ∈ (matchMnemonic s mnemonic).2 ↔ r ≤ text.length + 1 ∧ Agrees s.input mnemonic r :=
  (matchMnemonic_spec has mnemonic).2 r

end Matching

/-! ## The table -/

section Table

variable (config : Config) (s : State)

/-- What `ucis_finish` decides at an index: it ends with the symbol or with the end of the table, or goes on. -/
def outcome (i : Nat) : Option (Option Nat) :=
  match config.ucisSymbolTable[i]? with
  | none => some none
  | some symbol => if (matchMnemonic s symbol.mnemonic).1 then some (some i) else none

/-- What it reads there. -/
def readsAt (i : Nat) : List Nat :=
  match config.ucisSymbolTable[i]? with
  | none => []
  | some symbol => (matchMnemonic s symbol.mnemonic).2

variable {config s}

theorem findLoop_of_some {i : Nat} {v : Option Nat} (ends : outcome config s i = some v) (fuel : Nat) :
    findLoop config s (fuel + 1) i = some (v, readsAt config s i) := by
  unfold outcome at ends
  rw [findLoop, readsAt]
  cases there : config.ucisSymbolTable[i]? with
  | none =>
    rw [there] at ends
    cases ends
    rfl
  | some symbol =>
    rw [there] at ends
    dsimp only at ends ⊢
    split at ends
    next matched =>
      cases ends
      rw [if_pos matched]
    next => cases ends

theorem findLoop_of_none {i : Nat} (goes : outcome config s i = none) (fuel : Nat) :
    findLoop config s (fuel + 1) i =
      (findLoop config s fuel ((i + 1) % 256)).map fun rest => (rest.1, readsAt config s i ++ rest.2) := by
  unfold outcome at goes
  rw [findLoop, readsAt]
  cases there : config.ucisSymbolTable[i]? with
  | none =>
    rw [there] at goes
    cases goes
  | some symbol =>
    rw [there] at goes
    dsimp only at goes ⊢
    split at goes
    next => cases goes
    next different => rw [if_neg different]

/-- The loop ends at the first index that decides. -/
theorem findLoop_ends {k : Nat} {v : Option Nat} (ends : outcome config s k = some v)
    (before : ∀ j < k, outcome config s j = none) (small : k < 256) {fuel i : Nat} (le : i ≤ k) (enough : k < i + fuel) :
    ∃ reads, findLoop config s fuel i = some (v, reads) ∧
      ∀ r, r ∈ reads ↔ ∃ j, i ≤ j ∧ j ≤ k ∧ r ∈ readsAt config s j := by
  induction fuel generalizing i with
  | zero => omega
  | succ fuel ih =>
    obtain rfl | earlier := Nat.eq_or_lt_of_le le
    · refine ⟨_, findLoop_of_some ends fuel, fun r => ⟨fun read => ⟨i, le_rfl, le_rfl, read⟩, ?_⟩⟩
      rintro ⟨j, above, below, read⟩
      rwa [Nat.le_antisymm below above] at read
    · obtain ⟨reads, found, later⟩ := @ih (i + 1) earlier (by omega)
      refine ⟨readsAt config s i ++ reads, ?_, fun r => ?_⟩
      · rw [findLoop_of_none (before i earlier), Nat.mod_eq_of_lt (by omega), found]
        rfl
      · rw [List.mem_append, later]
        constructor
        · rintro (read | ⟨j, above, below, read⟩)
          · exact ⟨i, le_rfl, le, read⟩
          · exact ⟨j, by omega, below, read⟩
        · rintro ⟨j, above, below, read⟩
          obtain rfl | above := Nat.eq_or_lt_of_le above
          · exact .inl read
          · exact .inr ⟨j, above, below, read⟩

/-- If none of the first 256 does, it does not end. -/
theorem findLoop_never (goes : ∀ j < 256, outcome config s j = none) (fuel : Nat) {i : Nat} (small : i < 256) :
    findLoop config s fuel i = none := by
  induction fuel generalizing i with
  | zero => rfl
  | succ fuel ih =>
    rw [findLoop_of_none (goes i small), ih (Nat.mod_lt _ (by decide))]
    rfl

/-- The loop ends at the first index that decides, or does not end. -/
theorem findLoop_cases (config : Config) (s : State) :
    (∃ k v reads, k < 256 ∧ outcome config s k = some v ∧ (∀ j < k, outcome config s j = none) ∧
      findLoop config s 256 0 = some (v, reads) ∧ ∀ r, r ∈ reads ↔ ∃ j ≤ k, r ∈ readsAt config s j) ∨
      (∀ j < 256, outcome config s j = none) ∧ findLoop config s 256 0 = none := by
  by_cases ends : ∃ k < 256, outcome config s k ≠ none
  · obtain ⟨small, decided⟩ := Nat.find_spec ends
    have before : ∀ j < Nat.find ends, outcome config s j = none := by
      intro j earlier
      by_contra other
      exact Nat.find_min ends earlier ⟨by omega, other⟩
    generalize Nat.find ends = k at small decided before
    obtain ⟨v, value⟩ := Option.ne_none_iff_exists'.mp decided
    obtain ⟨reads, found, places⟩ := findLoop_ends value before small (Nat.zero_le k) (by omega : k < 0 + 256)
    simp only [Nat.zero_le, true_and] at places
    exact .inl ⟨k, v, reads, small, value, before, found, places⟩
  · have goes : ∀ j < 256, outcome config s j = none := by
      intro j small
      by_contra other
      exact ends ⟨j, small, other⟩
    exact .inr ⟨goes, findLoop_never goes 256 (by decide)⟩

end Table

end QmkFirmware.Ucis
