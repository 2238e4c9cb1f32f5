import QmkFirmware.Combos.Chords

/-! # Flushing the key buffer

When the buffer is flushed, every ready combo takes its keys out of it, and the rest goes on as
it is.  For the ledger this decides every press that is pending: `Flushed` says how.
-/

namespace QmkFirmware.Combos

/-! ## Records -/

/-- The combo that a record is the event of. -/
def QueuedRecord.comboOf (record : QueuedRecord) : Option Nat :=
  match record.kind with
  | .key => none
  | .tick _ => none
  | .combo index => some index

/-- What becomes of the key of a record. -/
def QueuedRecord.status (record : QueuedRecord) : Ledger.Status Nat :=
  match record.kind with
  | .key => .delivered
  | .tick index => .absorbed index
  | .combo index => .absorbed index

/-- A buffer in which all keys of combo `i` are found. -/
def Gathered (table : Table) (i : Nat) (buffer : List Keycode) : Prop :=
  (table.get i).keys.length ≤ 8 ∧ ∀ j < (table.get i).keys.length, ∃ k ∈ buffer, (table.get i).keyIndex k = some j

section Records

variable {table : Table} {i : Nat}

/-- The loop of `apply_combo` with the keys it has seen as `state`, in the middle of a buffer that
holds the rest of the keys of combo `i`. -/
structure Scanning (table : Table) (i : Nat) (state : BitVec 8) (records : List QueuedRecord) : Prop where
  real : ∀ r ∈ records, r.keycode ≠ comboEnd
  nodup : (records.map QueuedRecord.keycode).Nodup
  short : (table.get i).keys.length ≤ 8
  inside : ∀ j, state.getLsbD j = true → j < (table.get i).keys.length
  covered : ∀ j < (table.get i).keys.length, state.getLsbD j = true ∨
    ∃ r ∈ records, (table.get i).keyIndex r.keycode = some j
  fresh : ∀ r ∈ records, ∀ j ∈ (table.get i).keyIndex r.keycode, state.getLsbD j = false
  plain : ∀ r ∈ records, r.keycode ∈ (table.get i).keys → r.kind = .key

section Scanning

variable {state : BitVec 8} {record : QueuedRecord} {records : List QueuedRecord} {j : Nat}

theorem Scanning.skip (h : Scanning table i state (record :: records))
    (index : (table.get i).keyIndex record.keycode = none) : Scanning table i state records := by
  have rest {r : QueuedRecord} (member : r ∈ records) : r ∈ record :: records := List.mem_cons_of_mem _ member
  refine ⟨fun r member => h.real r (rest member), (List.nodup_cons.mp h.nodup).2, h.short, h.inside, ?_,
    fun r member => h.fresh r (rest member), fun r member => h.plain r (rest member)⟩
  intro j bound
  rcases h.covered j bound with set | ⟨r, member, found⟩
  · exact .inl set
  · rcases List.mem_cons.mp member with rfl | member
    · cases index.symm.trans found
    · exact .inr ⟨r, member, found⟩

/-- Another record has another index. -/
theorem Scanning.apart (h : Scanning table i state (record :: records))
    (index : (table.get i).keyIndex record.keycode = some j) {r : QueuedRecord} (member : r ∈ records) :
    (table.get i).keyIndex r.keycode ≠ some j := by
  intro found
  have same := (table.get i).keyIndex_inj (h.real record List.mem_cons_self)
    (h.real r (List.mem_cons_of_mem _ member)) index found
  exact (List.nodup_cons.mp h.nodup).1 (same ▸ List.mem_map_of_mem member)

theorem Scanning.next (h : Scanning table i state (record :: records))
    (index : (table.get i).keyIndex record.keycode = some j) :
    Scanning table i (keyStateDown state j) records := by
  have rest {r : QueuedRecord} (member : r ∈ records) : r ∈ record :: records := List.mem_cons_of_mem _ member
  have bound := (table.get i).lt_of_keyIndex (h.real record List.mem_cons_self) index
  refine ⟨fun r member => h.real r (rest member), (List.nodup_cons.mp h.nodup).2, h.short, ?_, ?_, ?_,
    fun r member => h.plain r (rest member)⟩
  · intro j' set
    rw [getLsbD_keyStateDown] at set
    simp only [Bool.or_eq_true, Bool.and_eq_true, decide_eq_true_eq] at set
    rcases set with set | ⟨_, rfl⟩
    · exact h.inside j' set
    · exact bound
  · intro j' bound'
    rw [getLsbD_keyStateDown]
    rcases h.covered j' bound' with set | ⟨r, member, found⟩
    · exact .inl (by simp [set])
    · rcases List.mem_cons.mp member with rfl | member
      · have same := Option.some.inj (index.symm.trans found)
        have small : j' < 8 := Nat.lt_of_lt_of_le bound' h.short
        exact .inl (by simp [same, small])
      · exact .inr ⟨r, member, found⟩
  · intro r member j' found
    have other : j' ≠ j := by
      rintro rfl
      exact h.apart index member found
    rw [getLsbD_keyStateDown, h.fresh r (rest member) j' found]
    simp [other]

/-- Once all keys have been seen, none is left. -/
theorem Scanning.done (h : Scanning table i state records)
    (complete : allComboKeysAreDown state (table.get i).keys.length = true) {r : QueuedRecord} (member : r ∈ records) :
    r.keycode ∉ (table.get i).keys := by
  intro own
  obtain ⟨j, found⟩ := (table.get i).exists_keyIndex own
  have set := ((allComboKeysAreDown_iff _ _).mp complete).2 j
  rw [h.fresh r member j found, decide_eq_true ((table.get i).lt_of_keyIndex (h.real r member) found)] at set
  cases set

theorem Scanning.not_done (h : Scanning table i state [])
    (incomplete : ¬allComboKeysAreDown state (table.get i).keys.length = true) : False := by
  apply incomplete
  rw [allComboKeysAreDown_iff]
  refine ⟨h.short, ?_⟩
  intro j
  by_cases bound : j < (table.get i).keys.length
  · rw [decide_eq_true bound]
    rcases h.covered j bound with set | ⟨r, none, _⟩
    · exact set
    · cases none
  · rw [decide_eq_false bound]
    by_contra set
    exact bound (h.inside j (by simpa using set))

end Scanning

/-- The loop marks all keys of the combo that are left, and the last of them as its event. -/
theorem applyToRecords_spec {records : List QueuedRecord} {state : BitVec 8} (h : Scanning table i state records)
    (incomplete : ¬allComboKeysAreDown state (table.get i).keys.length = true) :
    (applyToRecords table i state records).2 = true ∧
      (applyToRecords table i state records).1.map QueuedRecord.keycode = records.map QueuedRecord.keycode ∧
      (∀ r ∈ (applyToRecords table i state records).1,
        (r.keycode ∈ (table.get i).keys → r.kind = .tick i ∨ r.kind = .combo i) ∧
        (r.keycode ∉ (table.get i).keys → r ∈ records)) ∧
      ((applyToRecords table i state records).1.filterMap QueuedRecord.comboOf).Perm
        (i :: records.filterMap QueuedRecord.comboOf) := by
  induction records generalizing state with
  | nil => exact (h.not_done incomplete).elim
  | cons record records ih =>
    have real := h.real record List.mem_cons_self
    unfold applyToRecords
    rw [Combo.find_eq]
    cases index : (table.get i).keyIndex record.keycode with
    | none =>
      have foreign : record.keycode ∉ (table.get i).keys := ((table.get i).keyIndex_none real).mp index
      obtain ⟨last, keys, marked, combos⟩ := ih (h.skip index) incomplete
      refine ⟨last, ?_, ?_, ?_⟩
      · rw [List.map_cons, List.map_cons, keys]
      · rw [List.forall_mem_cons]
        refine ⟨⟨fun member => absurd member foreign, fun _ => List.mem_cons_self⟩, ?_⟩
        intro r member
        exact ⟨(marked r member).1, fun other => List.mem_cons_of_mem _ ((marked r member).2 other)⟩
      · cases own : record.comboOf with
        | none => rwa [List.filterMap_cons_none own, List.filterMap_cons_none own]
        | some c =>
          rw [List.filterMap_cons_some own, List.filterMap_cons_some own]
          exact (combos.cons c).trans (.swap i c _)
    | some j =>
      have member : record.keycode ∈ (table.get i).keys := (table.get i).mem_of_keyIndex real index
      have plain : record.comboOf = none := by
        rw [QueuedRecord.comboOf, h.plain record List.mem_cons_self member]
      have next := h.next index
      dsimp only
      split
      · next complete =>
        refine ⟨rfl, rfl, ?_, ?_⟩
        · rw [List.forall_mem_cons]
          refine ⟨⟨fun _ => .inr rfl, fun other => absurd member other⟩, ?_⟩
          intro r rest
          exact ⟨fun own => absurd own (next.done complete rest), fun _ => List.mem_cons_of_mem _ rest⟩
        · rw [List.filterMap_cons_none plain]
          exact List.Perm.refl _
      · next stillIncomplete =>
        obtain ⟨last, keys, marked, combos⟩ := ih next stillIncomplete
        refine ⟨last, ?_, ?_, ?_⟩
        · rw [List.map_cons, List.map_cons, keys]
        · rw [List.forall_mem_cons]
          refine ⟨⟨fun _ => .inl rfl, fun other => absurd member other⟩, ?_⟩
          intro r rest
          exact ⟨(marked r rest).1, fun other => List.mem_cons_of_mem _ ((marked r rest).2 other)⟩
        · rwa [List.filterMap_cons_none plain, List.filterMap_cons_none rfl]

end Records

/-! ## The ready combos -/

/-- A state whose key buffer can be flushed: the presses in it are as they came in, and all keys of
each ready combo are there. -/
structure Flushable (table : Table) (s : State) : Prop where
  kinds : ∀ r ∈ s.keyBuffer, r.kind = .key
  nodup : (s.keyBuffer.map QueuedRecord.keycode).Nodup
  real : ∀ k ∈ s.keyBuffer.map QueuedRecord.keycode, k ≠ comboEnd
  enabled : ∀ i ∈ s.ready, (s.flags i).disabled = false
  keys : ∀ i ∈ s.ready, (table.get i).keys ≠ []
  gathered : ∀ i ∈ s.ready, Gathered table i (s.keyBuffer.map QueuedRecord.keycode)
  apart : s.ready.Pairwise (Combo.Disjoint table)

/-- State `s` has become `after` by applying the combos `done`. -/
structure Applied (table : Table) (s : State) (done : List Nat) (after : State) : Prop where
  keys : after.keyBuffer.map QueuedRecord.keycode = s.keyBuffer.map QueuedRecord.keycode
  marked : ∀ r ∈ after.keyBuffer, ∀ i ∈ done, r.keycode ∈ (table.get i).keys → r.kind = .tick i ∨ r.kind = .combo i
  plain : ∀ r ∈ after.keyBuffer, (∀ i ∈ done, r.keycode ∉ (table.get i).keys) → r.kind = .key
  combos : (after.keyBuffer.filterMap QueuedRecord.comboOf).Perm done
  flags : ∀ i, after.flags i = if i ∈ done then { s.flags i with disabled := true, active := true } else s.flags i
  ready : s.ready = done ++ after.ready
  frame : after = { s with
    keyBuffer := after.keyBuffer
    flags := after.flags
    comboBufferRead := after.comboBufferRead }

section Apply

variable {table : Table} {s after : State} {done : List Nat}

theorem Flushable.applied_nil (h : Flushable table s) : Applied table s [] s := by
  refine ⟨rfl, fun _ _ _ none => absurd none List.not_mem_nil, fun r member _ => h.kinds r member, ?_, fun _ => rfl,
    rfl, rfl⟩
  rw [List.filterMap_eq_nil_iff.mpr]
  intro r member
  rw [QueuedRecord.comboOf, h.kinds r member]

/-- A combo that waits in the ring shares no key with those that have been applied. -/
theorem Flushable.disjoint (h : Flushable table s) (applied : Applied table s done after) {i other : Nat}
    (waiting : i ∈ after.ready) (member : other ∈ done) : Combo.Disjoint table other i := by
  have apart := h.apart
  rw [applied.ready, List.pairwise_append] at apart
  exact apart.2.2 other member i waiting

theorem Flushable.not_done (h : Flushable table s) (applied : Applied table s done after) {i : Nat}
    (waiting : i ∈ after.ready) : i ∉ done := by
  intro member
  have inRing : i ∈ s.ready := by
    rw [applied.ready]
    exact List.mem_append_right done waiting
  obtain ⟨key, own⟩ := List.exists_mem_of_ne_nil _ (h.keys i inRing)
  exact h.disjoint applied waiting member own own

theorem Flushable.scanning (h : Flushable table s) (applied : Applied table s done after) {i : Nat}
    (waiting : i ∈ after.ready) : Scanning table i 0 after.keyBuffer := by
  have inRing : i ∈ s.ready := by
    rw [applied.ready]
    exact List.mem_append_right done waiting
  have zero (j : Nat) : (0 : BitVec 8).getLsbD j = false := BitVec.getLsbD_zero
  obtain ⟨short, all⟩ := h.gathered i inRing
  refine ⟨?_, ?_, short, ?_, ?_, fun _ _ j _ => zero j, ?_⟩
  · intro r member
    apply h.real
    rw [← applied.keys]
    exact List.mem_map_of_mem member
  · rw [applied.keys]
    exact h.nodup
  · intro j set
    cases (zero j).symm.trans set
  · intro j bound
    obtain ⟨k, member, index⟩ := all j bound
    rw [← applied.keys] at member
    obtain ⟨r, inside, rfl⟩ := List.mem_map.mp member
    exact .inr ⟨r, inside, index⟩
  · intro r member own
    apply applied.plain r member
    intro other isDone foreign
    exact h.disjoint applied waiting isDone foreign own

theorem dropComboFromBuffer_front {i : Nat} (busy : s.comboBufferRead ≠ s.comboBufferWrite)
    (front : s.comboBuffer s.comboBufferRead = i) :
    dropComboFromBuffer i s = { s.disableCombo i with comboBufferRead := s.comboBufferRead + 1 } := by
  rw [dropComboFromBuffer, State.slots, slotsFrom_cons busy, dropFromSlots, if_pos front]
  exact if_pos rfl

/-- The combo at the front of the ring takes its keys and leaves the ring. -/
theorem Flushable.applyCombo (h : Flushable table s) (applied : Applied table s done after) {i : Nat}
    {rest : List Nat} (front : after.ready = i :: rest) :
    Applied table s (done ++ [i]) (applyCombo table i after) ∧ (applyCombo table i after).ready = rest := by
  have waiting : i ∈ after.ready := by
    rw [front]
    exact List.mem_cons_self
  have inRing : i ∈ s.ready := by
    rw [applied.ready]
    exact List.mem_append_right done waiting
  have busy : after.comboBufferRead ≠ after.comboBufferWrite := by
    intro idle
    rw [State.ready_of_idle idle] at front
    cases front
  rw [State.ready_of_busy busy, List.cons.injEq] at front
  have fresh := h.not_done applied waiting
  have own : after.flags i = s.flags i := by rw [applied.flags, if_neg fresh]
  have incomplete : ¬allComboKeysAreDown 0 (table.get i).keys.length = true := by
    rw [allComboKeysAreDown_iff]
    rintro ⟨_, bits⟩
    have first := bits 0
    rw [decide_eq_true (List.length_pos_of_ne_nil (h.keys i inRing))] at first
    cases first
  obtain ⟨last, keys, marked, combos⟩ := applyToRecords_spec (h.scanning applied waiting) incomplete
  unfold Combos.applyCombo
  rw [own, h.enabled i inRing, if_neg (by decide)]
  generalize applyToRecords table i 0 after.keyBuffer = result at last keys marked combos
  obtain ⟨records, isLast⟩ := result
  dsimp only at last keys marked combos ⊢
  rw [last, if_pos rfl,
    dropComboFromBuffer_front (s := State.activateCombo { after with keyBuffer := records } i) busy front.1]
  refine ⟨⟨keys.trans applied.keys, ?_, ?_, ?_, ?_, ?_, ?_⟩, front.2⟩
  · intro r member c isDone inside
    rcases List.mem_append.mp isDone with isDone | isOwn
    · apply applied.marked r _ c isDone inside
      exact (marked r member).2 fun foreign => h.disjoint applied waiting isDone inside foreign
    · rw [List.mem_singleton.mp isOwn] at inside ⊢
      exact (marked r member).1 inside
  · intro r member foreign
    apply applied.plain r ((marked r member).2 (foreign i (by simp)))
    intro c isDone
    exact foreign c (List.mem_append_left _ isDone)
  · exact combos.trans ((applied.combos.cons i).trans (List.perm_append_singleton i done).symm)
  · intro c
    show (State.flags (State.disableCombo (State.activateCombo _ i) i) c) = _
    rw [State.disableCombo, State.flags_setFlags, State.activateCombo, State.flags_setFlags, if_pos rfl,
      State.flags_setFlags]
    by_cases same : c = i
    · rw [if_pos same, if_pos (by simp [same]), same]
      show { after.flags i with disabled := true, active := true } = _
      rw [own]
    · rw [if_neg same, if_neg same]
      show after.flags c = _
      rw [applied.flags]
      simp [same]
  · rw [applied.ready, State.ready_of_busy busy, front.1, List.append_assoc]
    rfl
  · rw [applied.frame]
    rfl

/-- The loop over the ready combos applies them all. -/
theorem Flushable.applyAll (h : Flushable table s) (slots : List Slot) (applied : Applied table s done after)
    (left : after.ready = slots.map s.comboBuffer) :
    Applied table s s.ready (slots.foldl (fun s i => Combos.applyCombo table (s.comboBuffer i) s) after) ∧
      (slots.foldl (fun s i => Combos.applyCombo table (s.comboBuffer i) s) after).ready = [] := by
  induction slots generalizing done after with
  | nil =>
    have all : s.ready = done := by
      rw [applied.ready, left]
      exact List.append_nil done
    rw [all]
    exact ⟨applied, left⟩
  | cons slot slots ih =>
    have buffer : after.comboBuffer = s.comboBuffer := by rw [applied.frame]
    rw [List.foldl_cons, buffer]
    obtain ⟨next, rest⟩ := h.applyCombo applied left
    exact ih next rest

end Apply

/-! ## The ledger -/

/-- What a record sends decides the press in it. -/
theorem replay_record {record : QueuedRecord} {l : Ledger Keycode Nat} (pending : l.status record.keycode = .pending)
    (silent : ∀ i ∈ record.comboOf, l.sounding i = false) :
    ∃ after, l.replay record.entries = some after ∧
      after.status = Function.update l.status record.keycode record.status ∧
      ∀ i, after.sounding i = true ↔ l.sounding i = true ∨ record.comboOf = some i := by
  obtain ⟨k, kind⟩ := record
  cases kind with
  | key =>
    refine ⟨l.setStatus k .delivered, ?_, rfl, fun i => by simp [Ledger.setStatus, QueuedRecord.comboOf]⟩
    simp only [QueuedRecord.entries, Ledger.replay, Ledger.enter, if_pos pending, Option.bind_some]
  | tick c =>
    refine ⟨l.setStatus k (.absorbed c), ?_, rfl, fun i => by simp [Ledger.setStatus, QueuedRecord.comboOf]⟩
    simp only [QueuedRecord.entries, Ledger.replay, Ledger.enter, if_pos pending, Option.bind_some]
  | combo c =>
    have off : (l.setStatus k (.absorbed c)).sounding c = false := silent c rfl
    refine ⟨(l.setStatus k (.absorbed c)).setSounding c true, ?_, rfl, ?_⟩
    · simp only [QueuedRecord.entries, Ledger.replay, Ledger.enter, if_pos pending, Option.bind_some, if_pos off]
    · intro i
      show Function.update l.sounding c true i = true ↔ _ ∨ some c = some i
      rw [Function.update_apply, Option.some.injEq]
      by_cases same : i = c
      · simp [same]
      · simp [same, Ne.symm same]

/-- Dumping the key buffer decides every press in it. -/
theorem replay_entries {records : List QueuedRecord} {l : Ledger Keycode Nat}
    (pending : ∀ r ∈ records, l.status r.keycode = .pending) (nodup : (records.map QueuedRecord.keycode).Nodup)
    (silent : ∀ i ∈ records.filterMap QueuedRecord.comboOf, l.sounding i = false)
    (once : (records.filterMap QueuedRecord.comboOf).Nodup) :
    ∃ after, l.replay (records.flatMap QueuedRecord.entries) = some after ∧
      (∀ r ∈ records, after.status r.keycode = r.status) ∧
      (∀ k ∉ records.map QueuedRecord.keycode, after.status k = l.status k) ∧
      ∀ i, after.sounding i = true ↔ l.sounding i = true ∨ i ∈ records.filterMap QueuedRecord.comboOf := by
  induction records generalizing l with
  | nil => exact ⟨l, rfl, nofun, fun _ _ => rfl, fun i => by simp⟩
  | cons record records ih =>
    rw [List.map_cons, List.nodup_cons] at nodup
    rw [List.forall_mem_cons] at pending
    have combos (i : Nat) : i ∈ (record :: records).filterMap QueuedRecord.comboOf ↔
        record.comboOf = some i ∨ i ∈ records.filterMap QueuedRecord.comboOf := by
      simp [List.mem_filterMap]
    obtain ⟨middle, first, status, sounding⟩ :=
      replay_record pending.1 fun i own => silent i ((combos i).mpr (.inl own))
    have others {r : QueuedRecord} (member : r ∈ records) : r.keycode ≠ record.keycode := by
      intro same
      exact nodup.1 (same ▸ List.mem_map_of_mem member)
    have laterPending : ∀ r ∈ records, middle.status r.keycode = .pending := by
      intro r member
      rw [status, Function.update_of_ne (others member)]
      exact pending.2 r member
    have laterOnce : (records.filterMap QueuedRecord.comboOf).Nodup ∧
        ∀ i ∈ record.comboOf, i ∉ records.filterMap QueuedRecord.comboOf := by
      cases own : record.comboOf with
      | none =>
        rw [List.filterMap_cons_none own] at once
        exact ⟨once, nofun⟩
      | some c =>
        rw [List.filterMap_cons_some own, List.nodup_cons] at once
        refine ⟨once.2, ?_⟩
        rintro i ⟨⟩
        exact once.1
    have laterSilent : ∀ i ∈ records.filterMap QueuedRecord.comboOf, middle.sounding i = false := by
      intro i member
      by_contra sounds
      rcases (sounding i).mp (by simpa using sounds) with before | own
      · have silent := silent i ((combos i).mpr (.inr member))
        cases silent.symm.trans before
      · exact laterOnce.2 i own member
    obtain ⟨after, rest, decided, untouched, sounds⟩ := ih laterPending nodup.2 laterSilent laterOnce.1
    refine ⟨after, ?_, ?_, ?_, ?_⟩
    · rw [List.flatMap_cons, Ledger.replay_append, first]
      exact rest
    · rw [List.forall_mem_cons]
      refine ⟨?_, decided⟩
      rw [untouched record.keycode nodup.1, status, Function.update_self]
    · intro k foreign
      rw [List.map_cons, List.mem_cons, not_or] at foreign
      rw [untouched k foreign.2, status, Function.update_of_ne foreign.1]
    · intro i
      rw [sounds i, sounding i, combos i, or_assoc]

/-- The ledger after a flush: the ready combos have taken their keys, and the other keys of the buffer
went on as they are. -/
structure Decided (table : Table) (s : State) (l after : Ledger Keycode Nat) : Prop where
  absorbed : ∀ k ∈ s.keyBuffer.map QueuedRecord.keycode, ∀ i ∈ s.ready, k ∈ (table.get i).keys →
    after.status k = .absorbed i
  delivered : ∀ k ∈ s.keyBuffer.map QueuedRecord.keycode, (∀ i ∈ s.ready, k ∉ (table.get i).keys) →
    after.status k = .delivered
  untouched : ∀ k ∉ s.keyBuffer.map QueuedRecord.keycode, after.status k = l.status k
  sounding : ∀ i, after.sounding i = true ↔ l.sounding i = true ∨ i ∈ s.ready

/-- What a flush of `s` leaves in `after`, and how it goes into the ledger. -/
structure Flushed (table : Table) (s after : State) : Prop where
  keyBuffer : after.keyBuffer = []
  idle : after.comboBufferRead = after.comboBufferWrite
  enable : after.enable = s.enable
  flags : ∀ i < table.count, after.flags i =
    if i ∈ s.ready then { s.flags i with disabled := true, active := true }
    else if (s.flags i).active then s.flags i else { disabled := false, active := false, state := 0 }
  sent : ∃ entries, after.sent = s.sent ++ entries ∧ ∀ l : Ledger Keycode Nat,
    (∀ k ∈ s.keyBuffer.map QueuedRecord.keycode, l.status k = .pending) → (∀ i ∈ s.ready, l.sounding i = false) →
    ∃ after, l.replay entries = some after ∧ Decided table s l after

section Flush

variable {table : Table} {s after : State}

/-- Every ready combo is there once, since it would overlap with itself. -/
theorem Flushable.ready_nodup (h : Flushable table s) : s.ready.Nodup := by
  refine h.apart.imp_of_mem ?_
  rintro i j member _ disjoint rfl
  obtain ⟨key, own⟩ := List.exists_mem_of_ne_nil _ (h.keys i member)
  exact disjoint own own

/-- The buffer is dumped and the combos are cleared, in either order, once the combos have been
applied. -/
theorem Flushable.flushed (h : Flushable table s) (applied : State) (all : Applied table s s.ready applied)
    (keyBuffer : after.keyBuffer = []) (idle : after.comboBufferRead = after.comboBufferWrite)
    (enable : after.enable = s.enable) (flags : after.flags = (clearCombos table applied).flags)
    (sent : after.sent = applied.sent ++ applied.keyBuffer.flatMap QueuedRecord.entries) :
    Flushed table s after := by
  refine ⟨keyBuffer, idle, enable, ?_, applied.keyBuffer.flatMap QueuedRecord.entries, ?_, ?_⟩
  · intro i known
    rw [flags]
    show (if i < table.count ∧ (applied.flags i).active = false then _ else applied.flags i) = _
    rw [all.flags i]
    by_cases ready : i ∈ s.ready
    · simp [ready]
    · rw [if_neg ready, if_neg ready]
      cases active : (s.flags i).active with
      | true => simp
      | false => simp [known]
  · rw [sent, all.frame]
  · intro l pending silent
    have nodup : (applied.keyBuffer.map QueuedRecord.keycode).Nodup := by
      rw [all.keys]
      exact h.nodup
    have found {k : Keycode} (member : k ∈ s.keyBuffer.map QueuedRecord.keycode) :
        ∃ r ∈ applied.keyBuffer, r.keycode = k := by
      rw [← all.keys] at member
      exact List.mem_map.mp member
    obtain ⟨book, replayed, decided, untouched, sounding⟩ := replay_entries (l := l)
      (by
        intro r member
        apply pending
        rw [← all.keys]
        exact List.mem_map_of_mem member)
      nodup (fun i member => silent i (all.combos.mem_iff.mp member)) (all.combos.nodup_iff.mpr h.ready_nodup)
    refine ⟨book, replayed, ⟨?_, ?_, ?_, ?_⟩⟩
    · intro k member i ready own
      obtain ⟨r, inside, rfl⟩ := found member
      rw [decided r inside, QueuedRecord.status]
      rcases all.marked r inside i ready own with kind | kind
      · rw [kind]
      · rw [kind]
    · intro k member foreign
      obtain ⟨r, inside, rfl⟩ := found member
      rw [decided r inside, QueuedRecord.status, all.plain r inside foreign]
    · intro k foreign
      rw [← all.keys] at foreign
      exact untouched k foreign
    · intro i
      rw [sounding i, all.combos.mem_iff]

theorem Flushable.applyCombos (h : Flushable table s) : Flushed table s (applyCombos table s) := by
  obtain ⟨all, none⟩ := h.applyAll s.slots h.applied_nil rfl
  unfold Combos.applyCombos
  generalize s.slots.foldl (fun s i => Combos.applyCombo table (s.comboBuffer i) s) s = applied at all none
  refine h.flushed applied all rfl ?_ ?_ rfl rfl
  · by_contra busy
    rw [State.ready_of_busy (s := applied) busy] at none
    cases none
  · show applied.enable = s.enable
    rw [all.frame]

/-- With an empty ring the buffer is dumped. -/
theorem Flushable.dump (h : Flushable table s) (idle : s.comboBufferRead = s.comboBufferWrite) (timer term : BitVec 16) :
    Flushed table s { clearCombos table (dumpKeyBuffer s) with timer := timer, longestTerm := term } := by
  have none := State.ready_of_idle idle
  refine h.flushed s ?_ rfl idle rfl rfl rfl
  rw [none]
  exact h.applied_nil

theorem Flushable.flush (h : Flushable table s) : Flushed table s (flush table s) := by
  unfold Combos.flush
  split
  · exact h.applyCombos
  · next idle => exact h.dump (by simpa using idle) 0 0

end Flush

end QmkFirmware.Combos
