import QmkFirmware.Combos.Model

/-! # Chords

The bits of a combo's state are the keys of the combo that are down, and the ring holds the
combos that are complete and do not overlap.  `Chords` says so for a given list of keys that each
combo has counted; a key press keeps it, with the key counted by one combo after the other, as
long as only combos at the front of the ring are dropped and the ring has room.
-/

namespace QmkFirmware.Combos

/-! ## Bits -/

theorem getLsbD_keyStateDown (state : BitVec 8) (i j : Nat) :
    (keyStateDown state i).getLsbD j = (state.getLsbD j || decide (j < 8) && decide (j = i)) := by
  rw [keyStateDown, BitVec.getLsbD_or, Bits.getLsbD_mask]

theorem getLsbD_keyStateUp (state : BitVec 8) (i j : Nat) :
    (keyStateUp state i).getLsbD j = (state.getLsbD j && !decide (j = i)) := by
  rw [keyStateUp, BitVec.getLsbD_and, BitVec.getLsbD_not, Bits.getLsbD_mask]
  by_cases inside : j < 8
  · simp [inside]
  · rw [BitVec.getLsbD_of_ge _ j (by omega)]
    rfl

theorem keyNotYetReleased_eq (state : BitVec 8) (i : Nat) : keyNotYetReleased state i = state.getLsbD i := by
  rw [Bool.eq_iff_iff, keyNotYetReleased, decide_eq_true_eq]
  exact Bits.and_mask_ne_zero state i

/-- A key that is not down stays so. -/
theorem keyStateUp_of_clear {state : BitVec 8} {i : Nat} (clear : state.getLsbD i = false) :
    keyStateUp state i = state := by
  apply BitVec.eq_of_getLsbD_eq
  intro j _
  rw [getLsbD_keyStateUp]
  by_cases same : j = i
  · rw [same, clear]
    rfl
  · simp [same]

theorem allComboKeysAreDown_iff (state : BitVec 8) (keyCount : Nat) :
    allComboKeysAreDown state keyCount = true ↔ keyCount ≤ 8 ∧ ∀ j, state.getLsbD j = decide (j < keyCount) := by
  rw [allComboKeysAreDown, decide_eq_true_eq]
  constructor
  · intro equal
    constructor
    · by_contra long
      have larger : 2 ^ 9 ≤ 2 ^ keyCount := Nat.pow_le_pow_right (by decide) (by omega)
      have small := state.isLt
      omega
    · intro j
      rw [BitVec.getLsbD, ← equal, Nat.testBit_two_pow_sub_one]
  · rintro ⟨_, bits⟩
    apply Nat.eq_of_testBit_eq
    intro j
    rw [Nat.testBit_two_pow_sub_one, ← bits j]
    rfl

/-- The one key that is down, if any is. -/
theorem onlyOneKeyIsDown_iff {state : BitVec 8} {i : Nat} (down : state.getLsbD i = true) :
    onlyOneKeyIsDown state = true ↔ ∀ j, state.getLsbD j = true → j = i := by
  have small (state : BitVec 8) : ∀ i : Fin 8, state.getLsbD i = true →
      (onlyOneKeyIsDown state = true ↔ ∀ j : Fin 8, state.getLsbD j = true → j = i) := by
    revert state
    decide +kernel
  have inside {j : Nat} (down : state.getLsbD j = true) : j < 8 := BitVec.lt_of_getLsbD down
  rw [small state ⟨i, inside down⟩ down]
  constructor
  · intro only j set
    have same := only ⟨j, inside set⟩ set
    exact Fin.mk.inj_iff.mp same
  · intro only j set
    exact Fin.ext (only j set)

/-! ## Keys of a combo -/

/-- The index of a key in a combo. -/
def Combo.keyIndex (combo : Combo) (keycode : Keycode) : Option Nat := (combo.find keycode).1

theorem findKeyIndexAndCount_count (keycode : Keycode) (keys : List Keycode) (keyIndex : Option Nat) (keyCount : Nat) :
    (findKeyIndexAndCount keycode keys keyIndex keyCount).2 = keyCount + keys.length := by
  induction keys generalizing keyIndex keyCount with
  | nil => rfl
  | cons key keys ih =>
    rw [findKeyIndexAndCount, ih, List.length_cons]
    omega

theorem findKeyIndexAndCount_index {keycode : Keycode} (real : keycode ≠ comboEnd) {keys : List Keycode}
    {keyIndex : Option Nat} {keyCount j : Nat}
    (found : (findKeyIndexAndCount keycode keys keyIndex keyCount).1 = some j) :
    keyIndex = some j ∨ keyCount ≤ j ∧ keys[j - keyCount]? = some keycode := by
  induction keys generalizing keyIndex keyCount with
  | nil =>
    rw [findKeyIndexAndCount, if_neg real] at found
    exact .inl found
  | cons key keys ih =>
    rcases ih found with here | ⟨later, member⟩
    · split at here
      · next same =>
        cases here
        exact .inr ⟨Nat.le_refl _, by rw [Nat.sub_self, same]; rfl⟩
      · exact .inl here
    · right
      refine ⟨by omega, ?_⟩
      rw [show j - keyCount = j - (keyCount + 1) + 1 by omega]
      exact member

theorem findKeyIndexAndCount_none {keycode : Keycode} (real : keycode ≠ comboEnd) (keys : List Keycode)
    (keyIndex : Option Nat) (keyCount : Nat) :
    (findKeyIndexAndCount keycode keys keyIndex keyCount).1 = none ↔ keyIndex = none ∧ keycode ∉ keys := by
  induction keys generalizing keyIndex keyCount with
  | nil =>
    rw [findKeyIndexAndCount, if_neg real]
    simp
  | cons key keys ih =>
    rw [findKeyIndexAndCount, ih, List.mem_cons, not_or]
    split
    · next same => simp [same]
    · next other => simp [other]

section Find

variable (combo : Combo) {k other : Keycode} {j : Nat}

theorem Combo.find_eq (keycode : Keycode) : combo.find keycode = (combo.keyIndex keycode, combo.keys.length) := by
  rw [← Nat.zero_add combo.keys.length, ← findKeyIndexAndCount_count keycode combo.keys none 0]
  rfl

theorem Combo.getElem?_of_keyIndex (real : k ≠ comboEnd) (index : combo.keyIndex k = some j) :
    combo.keys[j]? = some k := by
  rcases findKeyIndexAndCount_index real index with none | ⟨_, member⟩
  · cases none
  · exact member

theorem Combo.lt_of_keyIndex (real : k ≠ comboEnd) (index : combo.keyIndex k = some j) : j < combo.keys.length :=
  (List.getElem?_eq_some_iff.mp (combo.getElem?_of_keyIndex real index)).1

theorem Combo.mem_of_keyIndex (real : k ≠ comboEnd) (index : combo.keyIndex k = some j) : k ∈ combo.keys :=
  List.mem_of_getElem? (combo.getElem?_of_keyIndex real index)

theorem Combo.keyIndex_none (real : k ≠ comboEnd) : combo.keyIndex k = none ↔ k ∉ combo.keys := by
  rw [Combo.keyIndex, Combo.find, findKeyIndexAndCount_none real]
  simp

theorem Combo.keyIndex_inj (real : k ≠ comboEnd) (otherReal : other ≠ comboEnd) (index : combo.keyIndex k = some j)
    (otherIndex : combo.keyIndex other = some j) : k = other :=
  Option.some.inj ((combo.getElem?_of_keyIndex real index).symm.trans (combo.getElem?_of_keyIndex otherReal otherIndex))

theorem Combo.real_of_mem (member : k ∈ combo.keys) : k ≠ comboEnd := by
  rintro rfl
  exact combo.ended member

theorem Combo.exists_keyIndex (member : k ∈ combo.keys) : ∃ j, combo.keyIndex k = some j := by
  apply Option.ne_none_iff_exists'.mp
  intro none
  exact (combo.keyIndex_none (combo.real_of_mem member)).mp none member

end Find

/-! ## The ring -/

theorem slotsFrom_self (read : Slot) : slotsFrom 4 read read = [] := by
  revert read
  decide

theorem slotsFrom_cons {read write : Slot} (busy : read ≠ write) :
    slotsFrom 4 read write = read :: slotsFrom 4 (read + 1) write := by
  revert read write
  decide

theorem slotsFrom_concat {read write : Slot} (room : write + 1 ≠ read) :
    slotsFrom 4 read (write + 1) = slotsFrom 4 read write ++ [write] := by
  revert read write
  decide

theorem slotsFrom_nodup (read write : Slot) : (slotsFrom 4 read write).Nodup ∧ write ∉ slotsFrom 4 read write := by
  revert read write
  decide

/-- The ready combos, oldest first. -/
def State.ready (s : State) : List Nat := s.slots.map s.comboBuffer

theorem State.ready_of_idle {s : State} (idle : s.comboBufferRead = s.comboBufferWrite) : s.ready = [] := by
  rw [State.ready, State.slots, idle, slotsFrom_self]
  rfl

theorem State.ready_of_busy {s : State} (busy : s.comboBufferRead ≠ s.comboBufferWrite) :
    s.ready = s.comboBuffer s.comboBufferRead ::
      ({ s with comboBufferRead := s.comboBufferRead + 1 } : State).ready := by
  rw [State.ready, State.slots, slotsFrom_cons busy]
  rfl

/-- A combo that is queued in a ring with room comes last. -/
theorem State.ready_queue {s : State} (room : s.comboBufferWrite + 1 ≠ s.comboBufferRead) (index : Nat) :
    ({ s with
      comboBuffer := Function.update s.comboBuffer s.comboBufferWrite index
      comboBufferWrite := s.comboBufferWrite + 1 } : State).ready = s.ready ++ [index] := by
  simp only [State.ready, State.slots]
  rw [slotsFrom_concat room, List.map_append, List.map_singleton, Function.update_self]
  congr 1
  apply List.map_congr_left
  intro i member
  apply Function.update_of_ne
  rintro rfl
  exact (slotsFrom_nodup _ _).2 member

/-! ## The invariant -/

theorem State.flags_setFlags (s : State) (index i : Nat) (flags : Flags) :
    (s.setFlags index flags).flags i = if i = index then flags else s.flags i :=
  Function.update_apply s.flags index flags i

def Combo.Disjoint (table : Table) (i j : Nat) : Prop := List.Disjoint (table.get i).keys (table.get j).keys

/-- All keys of combo `i` are down, by its state. -/
def State.Complete (table : Table) (s : State) (i : Nat) : Prop :=
  allComboKeysAreDown (s.flags i).state (table.get i).keys.length = true

/-- A combo in the ring. -/
structure State.Ready (table : Table) (s : State) (i : Nat) : Prop where
  known : i < table.count
  inactive : (s.flags i).active = false
  enabled : (s.flags i).disabled = false
  complete : s.Complete table i
  keys : (table.get i).keys ≠ []

/-- What each combo has counted is in its state; a disabled combo is active or complete. -/
structure Counted (table : Table) (s : State) (counted : Nat → List Keycode) : Prop where
  real : ∀ i, ∀ k ∈ counted i, k ≠ comboEnd
  bits : ∀ i < table.count, (s.flags i).active = false → ∀ j, (s.flags i).state.getLsbD j = true ↔
    j < 8 ∧ ∃ k ∈ counted i, (table.get i).keyIndex k = some j
  dropped : ∀ i < table.count, (s.flags i).active = false → (s.flags i).disabled = true → s.Complete table i
  active : ∀ i < table.count, (s.flags i).active = true → (s.flags i).disabled = true

/-- And the ring holds the combos that are complete and neither active nor disabled. -/
structure Chords (table : Table) (s : State) (counted : Nat → List Keycode) : Prop extends
    Counted table s counted where
  ready : ∀ i, i ∈ s.ready ↔ s.Ready table i
  apart : s.ready.Pairwise (Combo.Disjoint table)

section Counted

variable {table : Table} {s : State} {counted : Nat → List Keycode} {k : Keycode} {m : Nat}

/-- Every index of a complete combo is that of a key which was counted. -/
theorem Counted.of_complete (h : Counted table s counted) {i : Nat} (known : i < table.count)
    (inactive : (s.flags i).active = false) (complete : s.Complete table i) :
    (table.get i).keys.length ≤ 8 ∧ ∀ j < (table.get i).keys.length, ∃ k ∈ counted i,
      (table.get i).keyIndex k = some j := by
  obtain ⟨short, bits⟩ := (allComboKeysAreDown_iff _ _).mp complete
  refine ⟨short, ?_⟩
  intro j bound
  have down : (s.flags i).state.getLsbD j = true := by rw [bits j, decide_eq_true bound]
  exact ((h.bits i known inactive j).mp down).2

theorem Counted.mem_of_complete (h : Counted table s counted) {i : Nat} (known : i < table.count)
    (inactive : (s.flags i).active = false) (complete : s.Complete table i) {k : Keycode}
    (member : k ∈ (table.get i).keys) : k ∈ counted i := by
  obtain ⟨j, index⟩ := (table.get i).exists_keyIndex member
  have real := (table.get i).real_of_mem member
  obtain ⟨_, all⟩ := h.of_complete known inactive complete
  obtain ⟨other, counted, otherIndex⟩ := all j ((table.get i).lt_of_keyIndex real index)
  rwa [(table.get i).keyIndex_inj real (h.real i other counted) index otherIndex]

/-- A key that is counted by one more combo. -/
theorem real_update (h : Counted table s counted) (real : k ≠ comboEnd) (i : Nat) :
    ∀ other ∈ Function.update counted m (k :: counted m) i, other ≠ comboEnd := by
  intro other member
  rw [Function.update_apply] at member
  split at member
  · rcases List.mem_cons.mp member with rfl | member
    · exact real
    · exact h.real m other member
  · exact h.real i other member

/-- What a combo counts matters only for its own keys. -/
theorem Chords.count (h : Chords table s counted) (real : k ≠ comboEnd)
    (aside : (s.flags m).active = true ∨ (table.get m).keyIndex k = none) :
    Chords table s (Function.update counted m (k :: counted m)) := by
  refine ⟨⟨real_update h.toCounted real, ?_, h.dropped, h.active⟩, h.ready, h.apart⟩
  intro i known inactive j
  rw [h.bits i known inactive j]
  by_cases same : i = m
  · subst same
    have none : (table.get i).keyIndex k = none := by
      rcases aside with active | none
      · rw [inactive] at active
        cases active
      · exact none
    simp [none]
  · rw [Function.update_of_ne same]

/-- Disabling combos that are complete, with the ring that is left. -/
theorem Counted.disable {after : State} (h : Counted table s counted) (dropped : List Nat)
    (flags : ∀ i, after.flags i = if i ∈ dropped then { s.flags i with disabled := true } else s.flags i)
    (complete : ∀ i ∈ dropped, s.Complete table i)
    (ready : ∀ i, i ∈ after.ready ↔ s.Ready table i ∧ i ∉ dropped)
    (apart : after.ready.Pairwise (Combo.Disjoint table)) : Chords table after counted := by
  have active (i : Nat) : (after.flags i).active = (s.flags i).active := by
    rw [flags i]
    split <;> rfl
  have state (i : Nat) : (after.flags i).state = (s.flags i).state := by
    rw [flags i]
    split <;> rfl
  have same (i : Nat) : after.Complete table i ↔ s.Complete table i := by rw [State.Complete, State.Complete, state]
  refine ⟨⟨h.real, ?_, ?_, ?_⟩, ?_, apart⟩
  · intro i
    rw [active, state]
    exact h.bits i
  · intro i known inactive disabled
    rw [same]
    by_cases drop : i ∈ dropped
    · exact complete i drop
    · rw [flags i, if_neg drop] at disabled
      exact h.dropped i known ((active i).symm.trans inactive) disabled
  · intro i known isActive
    rw [flags i]
    split
    · rfl
    · exact h.active i known ((active i).symm.trans isActive)
  · intro i
    rw [ready i]
    constructor
    · rintro ⟨r, kept⟩
      refine ⟨r.known, (active i).trans r.inactive, ?_, (same i).mpr r.complete, r.keys⟩
      rw [flags i, if_neg kept]
      exact r.enabled
    · intro r
      have kept : i ∉ dropped := by
        intro drop
        have enabled := r.enabled
        rw [flags i, if_pos drop] at enabled
        cases enabled
      have enabled := r.enabled
      rw [flags i, if_neg kept] at enabled
      exact ⟨⟨r.known, (active i).symm.trans r.inactive, enabled, (same i).mp r.complete, r.keys⟩, kept⟩

/-- The order in which keys were counted does not matter. -/
theorem Chords.recount {other : Nat → List Keycode} (h : Chords table s counted)
    (real : ∀ i, ∀ k ∈ other i, k ≠ comboEnd) (same : ∀ i < table.count, ∀ k, k ∈ counted i ↔ k ∈ other i) :
    Chords table s other := by
  refine ⟨⟨real, ?_, h.dropped, h.active⟩, h.ready, h.apart⟩
  intro i known inactive j
  rw [h.bits i known inactive j]
  simp only [same i known]

/-- The flags and the ring are all that counts. -/
theorem Chords.congr {after : State} (h : Chords table s counted) (flags : after.flags = s.flags)
    (ready : after.ready = s.ready) : Chords table after counted := by
  refine h.disable [] (fun i => by simp [flags]) nofun ?_ (ready ▸ h.apart)
  intro i
  rw [ready, h.ready i]
  simp

end Counted

/-! ## Overlaps -/

section Overlaps

variable {table : Table} {s : State}

theorem overlaps_none {i j : Nat} : overlaps table i j = none ↔ Combo.Disjoint table i j := by
  unfold overlaps Combo.Disjoint
  dsimp only
  split
  · next shared =>
    simp only [List.any_eq_true, List.contains_iff_mem] at shared
    obtain ⟨key, member, other⟩ := shared
    constructor
    · intro none
      split at none <;> cases none
    · intro disjoint
      exact absurd other (disjoint member)
  · next apart =>
    simp only [List.any_eq_true, List.contains_iff_mem, not_exists, not_and] at apart
    exact ⟨fun _ key member other => apart key member other, fun _ => rfl⟩

theorem overlaps_some {i j drop : Nat} (overlap : overlaps table i j = some drop) : drop = i ∨ drop = j := by
  unfold overlaps at overlap
  dsimp only at overlap
  split at overlap
  · split at overlap
    · exact .inr (Option.some.inj overlap).symm
    · exact .inl (Option.some.inj overlap).symm
  · cases overlap

/-- Only combos at the front of the ring are dropped for combo `index`, and if it is queued, there
is room: what the loop over the ready combos has to find. -/
def dropsInFront (table : Table) (index : Nat) (comboBuffer : Slot → Nat) (write : Slot) : List Slot → Slot → Bool
  | [], read => decide (write + 1 ≠ read)
  | i :: rest, read =>
    match overlaps table (comboBuffer i) index with
    | none => dropsInFront table index comboBuffer write rest read
    | some drop =>
      if drop = index then true
      else decide (i = read) && dropsInFront table index comboBuffer write rest (read + 1)

/-- What the loop over the ready combos leaves: some combos at the front have been dropped, and
either `index` is disabled or it overlaps with none of those that are left. -/
inductive Overlapped (table : Table) (index : Nat) (s : State) : Bool × State → Prop where
  | queue {after : State} (dropped : List Nat) (ready : s.ready = dropped ++ after.ready)
      (flags : ∀ i, after.flags i = if i ∈ dropped then { s.flags i with disabled := true } else s.flags i)
      (apart : ∀ i ∈ after.ready, Combo.Disjoint table i index)
      (room : after.comboBufferWrite + 1 ≠ after.comboBufferRead)
      (frame : after = { s with flags := after.flags, comboBufferRead := after.comboBufferRead }) :
      Overlapped table index s (false, after)
  | drop {after : State} (dropped : List Nat) (ready : s.ready = dropped ++ after.ready)
      (flags : ∀ i, after.flags i = if i ∈ index :: dropped then { s.flags i with disabled := true } else s.flags i)
      (frame : after = { s with flags := after.flags, comboBufferRead := after.comboBufferRead }) :
      Overlapped table index s (true, after)

/-- Another combo was dropped before the rest of the loop. -/
theorem Overlapped.after_drop {index : Nat} (front : Nat) (read : Slot) {result : Bool × State}
    (rest : Overlapped table index { s.disableCombo front with comboBufferRead := read } result)
    (ready : s.ready = front :: ({ s with comboBufferRead := read } : State).ready) :
    Overlapped table index s result := by
  have flagged (i : Nat) : (s.disableCombo front).flags i =
      if i = front then { s.flags i with disabled := true } else s.flags i := by
    rw [State.disableCombo, State.flags_setFlags]
    split
    · next same => rw [same]
    · rfl
  cases rest with
  | queue dropped later flags apart room frame =>
    refine .queue (front :: dropped) ?_ ?_ apart room ?_
    · rw [ready, List.cons_append]
      exact congrArg (front :: ·) later
    · intro i
      rw [flags i]
      simp only [flagged]
      by_cases same : i = front
      · simp [same]
      · simp [same]
    · rw [frame]
      rfl
  | drop dropped later flags frame =>
    refine .drop (front :: dropped) ?_ ?_ ?_
    · rw [ready, List.cons_append]
      exact congrArg (front :: ·) later
    · intro i
      rw [flags i]
      simp only [flagged]
      by_cases same : i = front
      · simp [same]
      · simp [same]
    · rw [frame]
      rfl

/-- The loop over the slots `rest`, after slots `kept` with combos that do not overlap. -/
theorem disableOverlapping_spec {index : Nat} {rest : List Slot} (kept : List Slot) (slots : s.slots = kept ++ rest)
    (apart : ∀ i ∈ kept, Combo.Disjoint table (s.comboBuffer i) index)
    (front : dropsInFront table index s.comboBuffer s.comboBufferWrite rest s.comboBufferRead = true) :
    Overlapped table index s (disableOverlapping table index rest s) := by
  induction rest generalizing s kept with
  | nil =>
    rw [List.append_nil] at slots
    refine .queue [] rfl (fun i => rfl) ?_ (of_decide_eq_true front) rfl
    intro i member
    obtain ⟨slot, inside, rfl⟩ := List.mem_map.mp member
    exact apart slot (slots ▸ inside)
  | cons i rest ih =>
    unfold disableOverlapping
    change (match overlaps table (s.comboBuffer i) index with
      | none => dropsInFront table index s.comboBuffer s.comboBufferWrite rest s.comboBufferRead
      | some drop =>
        if drop = index then true
        else decide (i = s.comboBufferRead) &&
          dropsInFront table index s.comboBuffer s.comboBufferWrite rest (s.comboBufferRead + 1)) = true at front
    cases overlap : overlaps table (s.comboBuffer i) index with
    | none =>
      rw [overlap] at front
      refine ih (kept ++ [i]) (by rw [slots, List.append_assoc]; rfl) ?_ front
      intro slot member
      rcases List.mem_append.mp member with member | member
      · exact apart slot member
      · rw [List.mem_singleton.mp member]
        exact overlaps_none.mp overlap
    | some drop =>
      rw [overlap] at front
      dsimp only at front ⊢
      by_cases own : drop = index
      · rw [if_pos own]
        refine .drop [] rfl ?_ rfl
        intro j
        rw [State.disableCombo, State.flags_setFlags, own]
        by_cases same : j = index
        · simp [same]
        · simp [same]
      · rw [if_neg own, Bool.and_eq_true, decide_eq_true_eq] at front
        obtain ⟨atRead, front⟩ := front
        have here : i = (s.disableCombo drop).comboBufferRead := atRead
        rw [if_neg own, if_pos here]
        obtain rfl : drop = s.comboBuffer i := (overlaps_some overlap).resolve_right own
        have busy : s.comboBufferRead ≠ s.comboBufferWrite := by
          intro idle
          rw [State.slots, idle, slotsFrom_self] at slots
          cases kept <;> cases slots
        -- the slot at the front comes once, so nothing was kept before it
        have first : s.slots = s.comboBufferRead :: slotsFrom 4 (s.comboBufferRead + 1) s.comboBufferWrite :=
          slotsFrom_cons busy
        obtain rfl : kept = [] := by
          cases kept with
          | nil => rfl
          | cons slot kept =>
            have nodup := (slotsFrom_nodup s.comboBufferRead s.comboBufferWrite).1
            rw [← State.slots, slots, List.cons_append, List.nodup_cons] at nodup
            rw [slots, List.cons_append, List.cons.injEq] at first
            exact absurd (by simp [first.1, atRead]) nodup.1
        rw [List.nil_append, first, List.cons.injEq] at slots
        apply Overlapped.after_drop (s.comboBuffer i) (s.comboBufferRead + 1)
        · apply ih []
          · exact slots.2
          · exact nofun
          · exact front
        · rw [atRead]
          exact State.ready_of_busy busy

end Overlaps

/-! ## A key press -/

section Press

variable {table : Table} {s : State} {counted : Nat → List Keycode} {k : Keycode} {m : Nat}

/-- A combo that has just become complete is queued or disabled. -/
theorem Counted.readyCombo (h : Counted table s counted) (own : s.Ready table m)
    (ready : ∀ i, i ∈ s.ready ↔ s.Ready table i ∧ i ≠ m) (apart : s.ready.Pairwise (Combo.Disjoint table))
    (front : dropsInFront table m s.comboBuffer s.comboBufferWrite s.slots s.comboBufferRead = true) :
    Chords table (readyCombo table m s) counted := by
  -- a combo that was dropped is not in what is left of the ring, since it overlaps with itself
  have left {dropped rest : List Nat} (parts : s.ready = dropped ++ rest) (i : Nat) :
      i ∈ rest ↔ (s.Ready table i ∧ i ≠ m) ∧ i ∉ dropped := by
    rw [← ready i, parts, List.mem_append]
    constructor
    · intro member
      refine ⟨.inr member, ?_⟩
      intro drop
      rw [parts, List.pairwise_append] at apart
      have keys := ((ready i).mp (parts ▸ List.mem_append_right dropped member)).1.keys
      obtain ⟨key, inside⟩ := List.exists_mem_of_ne_nil _ keys
      exact apart.2.2 i drop i member inside inside
    · rintro ⟨member | member, kept⟩
      · exact absurd member kept
      · exact member
  have complete {dropped rest : List Nat} (parts : s.ready = dropped ++ rest) (i : Nat) (drop : i ∈ dropped) :
      s.Complete table i := ((ready i).mp (parts ▸ List.mem_append_left rest drop)).1.complete
  have notOwn {dropped rest : List Nat} (parts : s.ready = dropped ++ rest) : m ∉ dropped :=
    fun drop => ((ready m).mp (parts ▸ List.mem_append_left rest drop)).2 rfl
  have overlapped := disableOverlapping_spec [] (List.nil_append s.slots).symm nofun front
  unfold Combos.readyCombo
  generalize disableOverlapping table m s.slots s = result at overlapped
  cases overlapped with
  | queue dropped parts flags apartOwn room frame =>
    refine h.disable dropped flags (complete parts) ?_ ?_
    · intro i
      rw [State.ready_queue room, List.mem_append, left parts i, List.mem_singleton]
      constructor
      · rintro (⟨⟨r, _⟩, kept⟩ | rfl)
        · exact ⟨r, kept⟩
        · exact ⟨own, notOwn parts⟩
      · rintro ⟨r, kept⟩
        by_cases same : i = m
        · exact .inr same
        · exact .inl ⟨⟨r, same⟩, kept⟩
    · rw [State.ready_queue room, List.pairwise_append]
      rw [parts, List.pairwise_append] at apart
      refine ⟨apart.2.1, List.pairwise_singleton _ _, ?_⟩
      intro i member j last
      rw [List.mem_singleton.mp last]
      exact apartOwn i member
  | drop dropped parts flags frame =>
    refine h.disable (m :: dropped) flags ?_ ?_ ?_
    · intro i drop
      rcases List.mem_cons.mp drop with rfl | drop
      · exact own.complete
      · exact complete parts i drop
    · intro i
      rw [left parts i, List.mem_cons, not_or, and_assoc]
    · rw [parts, List.pairwise_append] at apart
      exact apart.2.1

theorem countKey_flags {j : Nat} (inactive : (s.flags m).active = false) (i : Nat) :
    (countKey m j s).flags i =
      if i = m then { s.flags m with state := keyStateDown (s.flags m).state j } else s.flags i := by
  rw [countKey, if_neg (by rw [inactive]; decide)]
  exact State.flags_setFlags s m i _

/-- A key of a combo that counts it. -/
theorem Counted.countKey (h : Counted table s counted) {j : Nat} (real : k ≠ comboEnd)
    (index : (table.get m).keyIndex k = some j) (inactive : (s.flags m).active = false)
    (enabled : (s.flags m).disabled = false) :
    Counted table (countKey m j s) (Function.update counted m (k :: counted m)) := by
  have flags := countKey_flags (j := j) inactive
  refine ⟨real_update h real, ?_, ?_, ?_⟩
  · intro i known isInactive bit
    rw [flags i] at isInactive ⊢
    by_cases same : i = m
    · subst same
      rw [if_pos rfl, Function.update_self, getLsbD_keyStateDown, Bool.or_eq_true, Bool.and_eq_true,
        decide_eq_true_eq, decide_eq_true_eq, h.bits i known inactive bit]
      constructor
      · rintro (⟨bound, other, member, otherIndex⟩ | ⟨bound, rfl⟩)
        · exact ⟨bound, other, List.mem_cons_of_mem _ member, otherIndex⟩
        · exact ⟨bound, k, List.mem_cons_self, index⟩
      · rintro ⟨bound, other, member, otherIndex⟩
        rcases List.mem_cons.mp member with rfl | member
        · exact .inr ⟨bound, Option.some.inj (otherIndex.symm.trans index)⟩
        · exact .inl ⟨bound, other, member, otherIndex⟩
    · rw [if_neg same] at isInactive ⊢
      rw [Function.update_of_ne same]
      exact h.bits i known isInactive bit
  · intro i known isInactive disabled
    rw [State.Complete]
    rw [flags i] at isInactive disabled ⊢
    by_cases same : i = m
    · rw [if_pos same] at disabled
      cases enabled.symm.trans disabled
    · rw [if_neg same] at isInactive disabled ⊢
      exact h.dropped i known isInactive disabled
  · intro i known isActive
    rw [flags i] at isActive ⊢
    by_cases same : i = m
    · rw [if_pos same] at isActive
      cases inactive.symm.trans isActive
    · rw [if_neg same] at isActive ⊢
      exact h.active i known isActive

/-- What the loop over all combos leaves alone: the flags of active combos among others. -/
structure Framed (table : Table) (s after : State) : Prop where
  timer : after.timer = s.timer
  enable : after.enable = s.enable
  keyBuffer : after.keyBuffer = s.keyBuffer
  sent : after.sent = s.sent
  active : ∀ i < table.count, (after.flags i).active = (s.flags i).active ∧
    ((s.flags i).active = true → after.flags i = s.flags i)

theorem Framed.refl (table : Table) (s : State) : Framed table s s := ⟨rfl, rfl, rfl, rfl, fun _ _ => ⟨rfl, fun _ => rfl⟩⟩

theorem Framed.trans {middle last : State} (first : Framed table s middle) (second : Framed table middle last) :
    Framed table s last := by
  refine ⟨second.timer.trans first.timer, second.enable.trans first.enable, second.keyBuffer.trans first.keyBuffer,
    second.sent.trans first.sent, ?_⟩
  intro i known
  obtain ⟨active, same⟩ := first.active i known
  obtain ⟨active', same'⟩ := second.active i known
  exact ⟨active'.trans active, fun isActive => (same' (active.trans isActive)).trans (same isActive)⟩

/-- An active combo is disabled already. -/
theorem Counted.framed_flags {after : State} (h : Counted table s counted) (dropped : List Nat)
    (flags : ∀ i, after.flags i = if i ∈ dropped then { s.flags i with disabled := true } else s.flags i) :
    ∀ i < table.count, (after.flags i).active = (s.flags i).active ∧
      ((s.flags i).active = true → after.flags i = s.flags i) := by
  intro i known
  rw [flags i]
  split
  · refine ⟨rfl, ?_⟩
    intro isActive
    rw [← h.active i known isActive]
  · exact ⟨rfl, fun _ => rfl⟩

theorem flags_disableCombo (s : State) (i : Nat) : (s.disableCombo m).flags i =
    if i ∈ [m] then { s.flags i with disabled := true } else s.flags i := by
  rw [State.disableCombo, State.flags_setFlags]
  by_cases isOwn : i = m
  · simp [isOwn]
  · simp [isOwn]

theorem Counted.framed_readyCombo (h : Counted table s counted)
    (front : dropsInFront table m s.comboBuffer s.comboBufferWrite s.slots s.comboBufferRead = true) :
    Framed table s (Combos.readyCombo table m s) := by
  have overlapped := disableOverlapping_spec [] (List.nil_append s.slots).symm nofun front
  unfold Combos.readyCombo
  generalize disableOverlapping table m s.slots s = result at overlapped
  cases overlapped with
  | queue dropped parts flags apartOwn room frame =>
    have active := h.framed_flags dropped flags
    rw [frame] at active ⊢
    exact ⟨rfl, rfl, rfl, rfl, active⟩
  | drop dropped parts flags frame =>
    have active := h.framed_flags (m :: dropped) flags
    rw [frame] at active ⊢
    exact ⟨rfl, rfl, rfl, rfl, active⟩

/-- A combo that counts one more key, and is queued or disabled if that was the last one. -/
theorem Chords.chordPress (h : Chords table s counted) (known : m < table.count) {j : Nat} (real : k ≠ comboEnd)
    (index : (table.get m).keyIndex k = some j) (fresh : k ∉ counted m) (inactive : (s.flags m).active = false)
    (enabled : (s.flags m).disabled = false) (now : BitVec 16)
    (front : allComboKeysAreDown (keyStateDown (s.flags m).state j) (table.get m).keys.length = true →
      ¬(s.timer ≠ 0 ∧ timerElapsed now s.timer > comboTerm) →
      dropsInFront table m s.comboBuffer s.comboBufferWrite s.slots s.comboBufferRead = true) :
    Chords table (chordPress table m j (table.get m).keys.length now s)
      (Function.update counted m (k :: counted m)) ∧
      Framed table s (chordPress table m j (table.get m).keys.length now s) := by
  have member : k ∈ (table.get m).keys := (table.get m).mem_of_keyIndex real index
  have incomplete : ¬s.Complete table m := fun complete => fresh (h.mem_of_complete known inactive complete member)
  have counting := h.countKey real index inactive enabled
  have flags := countKey_flags (j := j) inactive
  have own : (countKey m j s).flags m = { s.flags m with state := keyStateDown (s.flags m).state j } := by
    rw [flags, if_pos rfl]
  have same : countKey m j s = { s with flags := (countKey m j s).flags, longestTerm := (countKey m j s).longestTerm } := by
    rw [countKey, if_neg (by rw [inactive]; decide)]
    rfl
  have framed : Framed table s (countKey m j s) := by
    refine ⟨by rw [same], by rw [same], by rw [same], by rw [same], ?_⟩
    intro i _
    rw [flags i]
    by_cases isOwn : i = m
    · rw [if_pos isOwn, isOwn, inactive]
      exact ⟨rfl, nofun⟩
    · rw [if_neg isOwn]
      exact ⟨rfl, fun _ => rfl⟩
  have ring : (countKey m j s).ready = s.ready := by rw [same]; rfl
  -- the other combos are ready exactly if they were
  have others (i : Nat) : i ∈ (countKey m j s).ready ↔ (countKey m j s).Ready table i ∧ i ≠ m := by
    rw [ring, h.ready i]
    by_cases isOwn : i = m
    · subst isOwn
      exact ⟨fun r => absurd r.complete incomplete, fun both => absurd rfl both.2⟩
    · have unchanged : (countKey m j s).flags i = s.flags i := by rw [flags, if_neg isOwn]
      constructor
      · intro r
        refine ⟨⟨r.known, ?_, ?_, ?_, r.keys⟩, isOwn⟩
        · rw [unchanged]
          exact r.inactive
        · rw [unchanged]
          exact r.enabled
        · rw [State.Complete, unchanged]
          exact r.complete
      · rintro ⟨r, _⟩
        have complete := r.complete
        rw [State.Complete, unchanged] at complete
        exact ⟨r.known, unchanged ▸ r.inactive, unchanged ▸ r.enabled, complete, r.keys⟩
  have apart : (countKey m j s).ready.Pairwise (Combo.Disjoint table) := by
    rw [ring]
    exact h.apart
  unfold Combos.chordPress
  dsimp only
  split
  · next complete =>
    have ready : (countKey m j s).Ready table m :=
      ⟨known, by rw [own]; exact inactive, by rw [own]; exact enabled, complete, List.ne_nil_of_mem member⟩
    split
    · constructor
      · refine counting.disable [m] (flags_disableCombo _) ?_ ?_ apart
        · intro i isOwn
          rw [List.mem_singleton.mp isOwn]
          exact ready.complete
        · intro i
          rw [List.mem_singleton]
          exact others i
      · exact framed.trans ⟨rfl, rfl, rfl, rfl, counting.framed_flags [m] (flags_disableCombo _)⟩
    · next inTime =>
      rw [own] at complete
      rw [framed.timer] at inTime
      have inFront := front complete inTime
      have place : dropsInFront table m (countKey m j s).comboBuffer (countKey m j s).comboBufferWrite
          (countKey m j s).slots (countKey m j s).comboBufferRead = true := by
        rw [same]
        exact inFront
      exact ⟨counting.readyCombo ready others apart place, framed.trans (counting.framed_readyCombo place)⟩
  · next stillIncomplete =>
    refine ⟨⟨counting, ?_, apart⟩, framed⟩
    intro i
    rw [others i]
    constructor
    · exact And.left
    · intro r
      refine ⟨r, ?_⟩
      rintro rfl
      exact stillIncomplete r.complete

/-- A combo for which the key is up already, and which is not complete, does nothing. -/
theorem chordRelease_of_clear {j n : Nat} (partOfCombo : Bool) (clear : (s.flags m).state.getLsbD j = false)
    (incomplete : (s.flags m).active = false → allComboKeysAreDown (s.flags m).state n = false) :
    chordRelease m j n partOfCombo s = (false, s) := by
  have first : (!(s.flags m).active && allComboKeysAreDown (s.flags m).state n) = false := by
    cases active : (s.flags m).active with
    | false => simpa using incomplete active
    | true => rfl
  have same : s.setComboState m (keyStateUp (s.flags m).state j) = s := by
    rw [keyStateUp_of_clear clear]
    show { s with flags := Function.update s.flags m (s.flags m) } = s
    rw [Function.update_eq_self]
  simp only [chordRelease, first, keyNotYetReleased_eq, clear, Bool.and_false, Bool.false_eq_true, if_false, same]

/-- The press that the loop over the combos handles completes combo `m`, and in time. -/
def completes (table : Table) (event : KeyEvent) (m : Nat) (s : State) : Prop :=
  (s.flags m).active = false ∧ (s.flags m).disabled = false ∧ s.enable = true ∧
    ∃ j ∈ (table.get m).keyIndex event.keycode,
      allComboKeysAreDown (keyStateDown (s.flags m).state j) (table.get m).keys.length = true ∧
      ¬(s.timer ≠ 0 ∧ timerElapsed event.now s.timer > comboTerm)

instance (table : Table) (event : KeyEvent) (m : Nat) (s : State) : Decidable (completes table event m s) :=
  inferInstanceAs (Decidable (_ ∧ _ ∧ _ ∧ _))

/-- Whenever a press completes a combo, only combos at the front of the ring are dropped for it, and
if it is queued, there is room. -/
def DropsInFront (table : Table) (event : KeyEvent) (s : State) : Prop :=
  ∀ m < table.count, completes table event m (processCombos table event s m).2 →
    dropsInFront table m (processCombos table event s m).2.comboBuffer
      (processCombos table event s m).2.comboBufferWrite (processCombos table event s m).2.slots
      (processCombos table event s m).2.comboBufferRead = true

variable {event : KeyEvent}

theorem Chords.processSingleCombo (h : Chords table s counted) (known : m < table.count)
    (real : event.keycode ≠ comboEnd) (pressed : event.pressed = true) (enabled : s.enable = true)
    (fresh : event.keycode ∉ counted m)
    (quiet : (s.flags m).active = true → ∀ j ∈ (table.get m).keyIndex event.keycode,
      (s.flags m).state.getLsbD j = false)
    (front : completes table event m s →
      dropsInFront table m s.comboBuffer s.comboBufferWrite s.slots s.comboBufferRead = true) :
    Chords table (processSingleCombo table event m s).2
        (Function.update counted m (event.keycode :: counted m)) ∧
      Framed table s (processSingleCombo table event m s).2 ∧
      ((processSingleCombo table event m s).1 = false → (processSingleCombo table event m s).2 = s) := by
  unfold Combos.processSingleCombo
  rw [Combo.find_eq]
  cases index : (table.get m).keyIndex event.keycode with
  | none => exact ⟨h.count real (.inr index), .refl table s, fun _ => rfl⟩
  | some j =>
    rw [index] at quiet
    dsimp only
    cases active : (s.flags m).active with
    | true =>
      rw [pressed, h.active m known active, enabled, if_neg (by decide),
        chordRelease_of_clear _ (quiet active j rfl) (by rw [active]; nofun)]
      exact ⟨h.count real (.inl active), .refl table s, fun _ => rfl⟩
    | false =>
      have member := (table.get m).mem_of_keyIndex real index
      have notDisabled : (s.flags m).disabled = false := by
        by_contra disabled
        have complete := h.dropped m known active (by simpa using disabled)
        exact fresh (h.mem_of_complete known active complete member)
      rw [pressed, notDisabled, enabled, if_pos (by decide)]
      obtain ⟨chords, framed⟩ := h.chordPress known real index fresh active notDisabled event.now
        fun complete inTime => front ⟨active, notDisabled, enabled, j, index, complete, inTime⟩
      exact ⟨chords, framed, nofun⟩

/-- The loop over all combos for a press: they count the key one after the other. -/
theorem Chords.processCombos {buffer : List Keycode} (h : Chords table s fun _ => buffer)
    (real : event.keycode ≠ comboEnd) (pressed : event.pressed = true) (enabled : s.enable = true)
    (fresh : event.keycode ∉ buffer)
    (quiet : ∀ i < table.count, (s.flags i).active = true → ∀ j ∈ (table.get i).keyIndex event.keycode,
      (s.flags i).state.getLsbD j = false)
    (front : DropsInFront table event s) (m : Nat) (bound : m ≤ table.count) :
    Chords table (processCombos table event s m).2
        (fun i => if i < m then event.keycode :: buffer else buffer) ∧
      Framed table s (processCombos table event s m).2 ∧
      ((processCombos table event s m).1 = false → (processCombos table event s m).2 = s) := by
  induction m with
  | zero => exact ⟨h, .refl table s, fun _ => rfl⟩
  | succ m ih =>
    obtain ⟨chords, framed, same⟩ := ih (by omega)
    have known : m < table.count := by omega
    have single := chords.processSingleCombo known real pressed (framed.enable.trans enabled)
      (by rw [if_neg (by omega)]; exact fresh)
      (by
        intro active j index
        obtain ⟨sameActive, unchanged⟩ := framed.active m known
        rw [unchanged (sameActive.symm.trans active)]
        exact quiet m known (sameActive.symm.trans active) j index)
      (front m known)
    obtain ⟨next, nextFramed, nextSame⟩ := single
    refine ⟨?_, framed.trans nextFramed, ?_⟩
    · have counts : (Function.update (fun i => if i < m then event.keycode :: buffer else buffer) m
          (event.keycode :: if m < m then event.keycode :: buffer else buffer)) =
          fun i => if i < m + 1 then event.keycode :: buffer else buffer := by
        funext i
        rw [Function.update_apply]
        by_cases own : i = m
        · simp [own]
        · rw [if_neg own]
          split
          · rw [if_pos (by omega)]
          · rw [if_neg (by omega)]
      rw [counts] at next
      exact next
    · intro neither
      rw [Combos.processCombos] at neither ⊢
      obtain ⟨before, now⟩ := Bool.or_eq_false_iff.mp neither
      exact (nextSame now).trans (same before)

/-- While combos are switched off, a press does nothing to them. -/
theorem processCombos_of_off (h : Chords table s fun _ => []) (real : event.keycode ≠ comboEnd)
    (off : s.enable = false)
    (quiet : ∀ i < table.count, (s.flags i).active = true → ∀ j ∈ (table.get i).keyIndex event.keycode,
      (s.flags i).state.getLsbD j = false) (m : Nat) (bound : m ≤ table.count) :
    processCombos table event s m = (false, s) := by
  induction m with
  | zero => rfl
  | succ m ih =>
    have known : m < table.count := by omega
    rw [processCombos, ih (by omega)]
    unfold processSingleCombo
    rw [Combo.find_eq]
    cases index : (table.get m).keyIndex event.keycode with
    | none => rfl
    | some j =>
      have member := (table.get m).mem_of_keyIndex real index
      have clear : (s.flags m).state.getLsbD j = false := by
        cases active : (s.flags m).active with
        | true => exact quiet m known active j index
        | false =>
          by_contra set
          obtain ⟨_, k, none, _⟩ := (h.bits m known active j).mp (by simpa using set)
          cases none
      have incomplete (inactive : (s.flags m).active = false) :
          allComboKeysAreDown (s.flags m).state (table.get m).keys.length = false := by
        by_contra complete
        cases h.mem_of_complete known inactive (by simpa [State.Complete] using complete) member
      dsimp only
      rw [off, Bool.and_false, Bool.and_false, if_neg (by decide), chordRelease_of_clear _ clear incomplete]
      rfl

end Press

end QmkFirmware.Combos
