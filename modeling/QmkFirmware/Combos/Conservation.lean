import Mathlib.Data.List.Pairwise
import QmkFirmware.Combos.Flush
import QmkFirmware.Foundations.Runs

/-! # Key conservation

The firmware keeps its book: every press is delivered once or taken by one combo, a release goes
on exactly if its press did, and a combo that sounds is released when its last key goes up.  This
holds in every run in which only combos at the front of the ring are dropped, the ring does not
overflow, no one-key combo is released before it is applied, and no key has the code that ends the
key lists.
-/

namespace QmkFirmware.Combos

open QmkFirmware.Runs

/-! ## Releases -/

/-- The flags of a combo after the release of its key `keyIndex`. -/
def Flags.released (flags : Flags) (keyIndex : Option Nat) : Flags :=
  match keyIndex with
  | none => flags
  | some j =>
    { flags with
      active := flags.active && !(onlyOneKeyIsDown flags.state && flags.state.getLsbD j)
      state := keyStateUp flags.state j }

/-- The release of `k` ends combo `i`. -/
def ends (table : Table) (s : State) (k : Keycode) (i : Nat) : Bool :=
  match (table.get i).keyIndex k with
  | none => false
  | some j => (s.flags i).active && onlyOneKeyIsDown (s.flags i).state && (s.flags i).state.getLsbD j

/-- Combo `i` takes the release of `k`. -/
def takes (table : Table) (s : State) (k : Keycode) (i : Nat) : Bool :=
  match (table.get i).keyIndex k with
  | none => false
  | some j =>
    if (s.flags i).active then (s.flags i).state.getLsbD j
    else allComboKeysAreDown (s.flags i).state (table.get i).keys.length && !(s.flags i).disabled && s.enable

/-- The state after the first `m` combos have seen the release of `k`. -/
def State.released (table : Table) (s : State) (k : Keycode) (m : Nat) : State :=
  { s with
    flags := fun i => if i < m then (s.flags i).released ((table.get i).keyIndex k) else s.flags i
    sent := s.sent ++ ((List.range m).filter (ends table s k)).map .comboUp }

section Release

variable {table : Table} {s : State} {event : KeyEvent} {m : Nat}

theorem dropFromSlots_of_not_mem {slots : List Slot} (absent : m ∉ slots.map s.comboBuffer) :
    dropFromSlots m slots s = s := by
  induction slots with
  | nil => rfl
  | cons slot slots ih =>
    rw [List.map_cons, List.mem_cons, not_or] at absent
    rw [dropFromSlots, if_neg (Ne.symm absent.1)]
    exact ih absent.2

theorem chordRelease_eq {j n : Nat} (queued : (s.flags m).disabled = true → (s.flags m).active = false → m ∉ s.ready) :
    chordRelease m j n (!(s.flags m).disabled && s.enable) s =
      (if (s.flags m).active then (s.flags m).state.getLsbD j
        else allComboKeysAreDown (s.flags m).state n && !(s.flags m).disabled && s.enable,
      { s with
        flags := Function.update s.flags m ((s.flags m).released (some j))
        sent := s.sent ++
          if (s.flags m).active && onlyOneKeyIsDown (s.flags m).state && (s.flags m).state.getLsbD j then
            [.comboUp m] else [] }) := by
  have kept (disabled : (s.flags m).disabled = true) (inactive : (s.flags m).active = false) :
      dropComboFromBuffer m s = s := dropFromSlots_of_not_mem (queued disabled inactive)
  have cleared (flags : Flags) (same : s.flags m = flags) : s.setComboState m (keyStateUp flags.state j) =
      { s with flags := Function.update s.flags m { flags with state := keyStateUp flags.state j } } := by
    rw [← same]
    rfl
  unfold chordRelease
  simp only [keyNotYetReleased_eq]
  generalize own : s.flags m = flags at kept
  obtain ⟨disabled, active, state⟩ := flags
  dsimp only at kept ⊢
  cases active with
  | true =>
    cases bit : state.getLsbD j with
    | true =>
      cases only : onlyOneKeyIsDown state with
      | true =>
        have gone : (releaseCombo m s).flags m = { disabled := disabled, active := false, state := state } := by
          rw [releaseCombo, State.deactivateCombo, State.flags_setFlags, if_pos rfl]
          show { s.flags m with active := false } = _
          rw [own]
        simp only [Bool.not_true, Bool.false_and, Bool.true_and, Bool.false_eq_true, if_false, if_true, gone,
          Flags.released, bit, only, Bool.and_self]
        simp only [State.setComboState, State.setFlags, gone]
        simp only [releaseCombo, State.deactivateCombo, State.setFlags, State.emit, Function.update_idem]
      | false =>
        simp [cleared _ own, Flags.released, bit, only, own]
    | false =>
      simp [cleared _ own, Flags.released, bit, own]
  | false =>
    cases complete : allComboKeysAreDown state n with
    | true =>
      cases disabled with
      | true => simp [kept rfl rfl, cleared _ own, Flags.released, own]
      | false => simp [cleared _ own, Flags.released, own]
    | false => simp [cleared _ own, Flags.released, own]

theorem processSingleCombo_release (released : event.pressed = false)
    (queued : (s.flags m).disabled = true → (s.flags m).active = false → m ∉ s.ready) :
    processSingleCombo table event m s =
      (takes table s event.keycode m,
      { s with
        flags := Function.update s.flags m ((s.flags m).released ((table.get m).keyIndex event.keycode))
        sent := s.sent ++ if ends table s event.keycode m then [.comboUp m] else [] }) := by
  unfold processSingleCombo takes ends
  rw [Combo.find_eq]
  cases index : (table.get m).keyIndex event.keycode with
  | none => simp [Flags.released]
  | some j =>
    dsimp only
    rw [released, Bool.false_and, if_neg (by decide), chordRelease_eq queued]

/-- The loop over all combos for a release. -/
theorem processCombos_release {counted : Nat → List Keycode} (h : Chords table s counted)
    (released : event.pressed = false) (m : Nat) (bound : m ≤ table.count) :
    processCombos table event s m =
      ((List.range m).any (takes table s event.keycode), s.released table event.keycode m) := by
  induction m with
  | zero => simp [processCombos, State.released]
  | succ m ih =>
    have own : (s.released table event.keycode m).flags m = s.flags m := if_neg (Nat.lt_irrefl m)
    have takesSame : takes table (s.released table event.keycode m) event.keycode m = takes table s event.keycode m := by
      simp only [takes, own]
      rfl
    have endsSame : ends table (s.released table event.keycode m) event.keycode m = ends table s event.keycode m := by
      simp only [ends, own]
    have queued : ((s.released table event.keycode m).flags m).disabled = true →
        ((s.released table event.keycode m).flags m).active = false → m ∉ (s.released table event.keycode m).ready := by
      intro disabled _ member
      rw [own] at disabled
      have enabled := ((h.ready m).mp member).enabled
      cases enabled.symm.trans disabled
    rw [processCombos, ih (by omega)]
    dsimp only
    rw [processSingleCombo_release released queued, takesSame, endsSame, own, List.range_succ, List.any_append]
    simp only [List.any_cons, List.any_nil, Bool.or_false, Prod.mk.injEq, true_and]
    unfold State.released
    rw [List.range_succ, List.filter_append, List.map_append]
    congr 1
    · funext i
      rw [Function.update_apply]
      by_cases same : i = m
      · simp [same]
      · rw [if_neg same]
        dsimp only
        by_cases below : i < m
        · rw [if_pos below, if_pos (by omega)]
        · rw [if_neg below, if_neg (by omega)]
    · rw [List.append_assoc]
      congr 2
      by_cases last : ends table s event.keycode m = true
      · simp [last]
      · simp [last]

end Release

/-! ## The book -/

/-- The keys whose presses are still in the buffer. -/
def State.pending (s : State) : List Keycode := s.keyBuffer.map QueuedRecord.keycode

/-- The firmware and its ledger agree: on the keys that are pending, on the combos that sound and
on the keys that these have taken and that are still down. -/
structure Conserved (table : Table) (w : World) (l : Ledger Keycode Nat) : Prop where
  replayed : Ledger.empty.replay w.state.sent = some l
  chords : Chords table w.state fun _ => w.state.pending
  kinds : ∀ r ∈ w.state.keyBuffer, r.kind = .key
  nodup : w.state.pending.Nodup
  off : w.state.enable = false → w.state.pending = [] ∧ w.state.comboBufferRead = w.state.comboBufferWrite
  pending : ∀ k, l.status k = .pending ↔ k ∈ w.state.pending
  sounding : ∀ i, l.sounding i = true ↔ i < table.count ∧ (w.state.flags i).active = true
  owner : ∀ k i, l.status k = .absorbed i → i < table.count ∧ (w.state.flags i).active = true ∧ k ∈ (table.get i).keys
  down : ∀ i < table.count, (w.state.flags i).active = true → ∀ j, (w.state.flags i).state.getLsbD j = true ↔
    ∃ k, l.status k = .absorbed i ∧ (table.get i).keyIndex k = some j
  alive : ∀ i < table.count, (w.state.flags i).active = true → ∃ k, l.status k = .absorbed i
  held : ∀ k, l.status k = .up ↔ k ∉ w.held
  once : w.held.Nodup

section Book

variable {table : Table} {w : World} {l : Ledger Keycode Nat} {k : Keycode}

theorem Conserved.gathered (h : Conserved table w l) {i : Nat} (ready : i ∈ w.state.ready) :
    Gathered table i w.state.pending := by
  have r := (h.chords.ready i).mp ready
  exact h.chords.of_complete r.known r.inactive r.complete

theorem Conserved.mem_pending (h : Conserved table w l) {i : Nat} (ready : i ∈ w.state.ready)
    (member : k ∈ (table.get i).keys) : k ∈ w.state.pending := by
  have r := (h.chords.ready i).mp ready
  exact h.chords.mem_of_complete r.known r.inactive r.complete member

/-- A key that the ledger has in another state is not in the buffer. -/
theorem Conserved.not_mem_pending (h : Conserved table w l) {status : Ledger.Status Nat} (now : l.status k = status)
    (other : status ≠ .pending) : k ∉ w.state.pending := by
  intro waiting
  exact other (now.symm.trans ((h.pending k).mpr waiting))

/-- Bit `j` of a combo that sounds is set exactly if the combo has taken its key `j`. -/
theorem Conserved.down_iff (h : Conserved table w l) (real : k ≠ comboEnd) {i j : Nat} (known : i < table.count)
    (active : (w.state.flags i).active = true) (index : (table.get i).keyIndex k = some j) :
    (w.state.flags i).state.getLsbD j = true ↔ l.status k = .absorbed i := by
  rw [h.down i known active j]
  constructor
  · rintro ⟨other, absorbed, otherIndex⟩
    have member := (h.owner other i absorbed).2.2
    obtain rfl := (table.get i).keyIndex_inj ((table.get i).real_of_mem member) real otherIndex index
    exact absorbed
  · intro absorbed
    exact ⟨k, absorbed, index⟩

/-- The buffer can be flushed, also in a state that differs in other things. -/
theorem Conserved.flushable (h : Conserved table w l) {s : State} (buffer : s.keyBuffer = w.state.keyBuffer)
    (ready : s.ready = w.state.ready) (disabled : ∀ i, (s.flags i).disabled = (w.state.flags i).disabled) :
    Flushable table s := by
  refine ⟨?_, ?_, ?_, ?_, ?_, ?_, ?_⟩
  · rw [buffer]
    exact h.kinds
  · rw [buffer]
    exact h.nodup
  · rw [buffer]
    exact h.chords.real 0
  · intro i member
    rw [disabled]
    exact ((h.chords.ready i).mp (ready ▸ member)).enabled
  · intro i member
    exact ((h.chords.ready i).mp (ready ▸ member)).keys
  · intro i member
    rw [buffer]
    exact h.gathered (ready ▸ member)
  · rw [ready]
    exact h.chords.apart

/-- A combo is active after a flush if it was ready or active before. -/
theorem Flushed.active_iff {s after : State} (flushed : Flushed table s after) {i : Nat} (known : i < table.count) :
    (after.flags i).active = true ↔ i ∈ s.ready ∨ (s.flags i).active = true := by
  rw [flushed.flags i known]
  by_cases ready : i ∈ s.ready
  · simp [ready]
  · cases active : (s.flags i).active with
    | true => simp [ready, active]
    | false => simp [ready]

/-- A combo that is active after a flush has kept its state. -/
theorem Flushed.state_eq {s after : State} (flushed : Flushed table s after) {i : Nat} (known : i < table.count)
    (active : (after.flags i).active = true) : (after.flags i).state = (s.flags i).state := by
  rw [flushed.flags i known]
  by_cases ready : i ∈ s.ready
  · rw [if_pos ready]
  · have already := ((flushed.active_iff known).mp active).resolve_left ready
    rw [if_neg ready, if_pos already]

/-- After a flush no key is counted by a combo that is not active. -/
theorem Flushed.chords {s after : State} (flushed : Flushed table s after)
    (active : ∀ i < table.count, (s.flags i).active = true → (s.flags i).disabled = true) :
    Chords table after fun _ => [] := by
  have inactive {i : Nat} (known : i < table.count) (isInactive : (after.flags i).active = false) :
      after.flags i = { disabled := false, active := false, state := 0 } := by
    have neither : ¬(i ∈ s.ready ∨ (s.flags i).active = true) := by
      rw [← flushed.active_iff known, isInactive]
      exact Bool.false_ne_true
    rw [not_or] at neither
    rw [flushed.flags i known, if_neg neither.1, if_neg neither.2]
  refine ⟨⟨nofun, ?_, ?_, ?_⟩, ?_, ?_⟩
  · intro i known isInactive j
    rw [inactive known isInactive]
    simp
  · intro i known isInactive disabled
    rw [inactive known isInactive] at disabled
    cases disabled
  · intro i known isActive
    rw [flushed.flags i known]
    by_cases ready : i ∈ s.ready
    · rw [if_pos ready]
    · have already := ((flushed.active_iff known).mp isActive).resolve_left ready
      rw [if_neg ready, if_pos already]
      exact active i known already
  · intro i
    rw [State.ready_of_idle flushed.idle]
    refine ⟨nofun, ?_⟩
    intro r
    have complete := r.complete
    rw [State.Complete, inactive r.known r.inactive, allComboKeysAreDown_iff] at complete
    have first := complete.2 0
    rw [decide_eq_true (List.length_pos_of_ne_nil r.keys)] at first
    cases first
  · rw [State.ready_of_idle flushed.idle]
    exact List.Pairwise.nil

/-- What holds right before a flush, when the keys that have `moved` are about to be booked on their
own: the other keys of the ready and of the active combos are down. -/
structure Settling (table : Table) (s : State) (l : Ledger Keycode Nat) (moved : Keycode → Prop) : Prop where
  disabled : ∀ i < table.count, (s.flags i).active = true → (s.flags i).disabled = true
  known : ∀ i ∈ s.ready, i < table.count ∧ (s.flags i).active = false
  keys : ∀ i ∈ s.ready, ∀ k ∈ (table.get i).keys, k ∈ s.pending
  readyDown : ∀ i ∈ s.ready, ∀ j, (s.flags i).state.getLsbD j = true ↔
    ∃ k ∈ (table.get i).keys, ¬moved k ∧ (table.get i).keyIndex k = some j
  readyAlive : ∀ i ∈ s.ready, ∃ k ∈ (table.get i).keys, ¬moved k
  pending : ∀ k, ¬moved k → (l.status k = .pending ↔ k ∈ s.pending)
  owner : ∀ k i, l.status k = .absorbed i → ¬moved k →
    i < table.count ∧ (s.flags i).active = true ∧ k ∈ (table.get i).keys
  down : ∀ i < table.count, (s.flags i).active = true → ∀ j, (s.flags i).state.getLsbD j = true ↔
    ∃ k, ¬moved k ∧ l.status k = .absorbed i ∧ (table.get i).keyIndex k = some j
  alive : ∀ i < table.count, (s.flags i).active = true → ∃ k, ¬moved k ∧ l.status k = .absorbed i

/-- The book after a flush, and after the keys that moved have been booked as delivered or up. -/
structure Settled (table : Table) (s : State) (l : Ledger Keycode Nat) (moved : Keycode → Prop)
    (after : Ledger Keycode Nat) : Prop where
  decided : ∀ k, ¬moved k → k ∈ s.pending → (∃ i ∈ s.ready, k ∈ (table.get i).keys ∧ after.status k = .absorbed i) ∨
    (∀ i ∈ s.ready, k ∉ (table.get i).keys) ∧ after.status k = .delivered
  untouched : ∀ k, ¬moved k → k ∉ s.pending → after.status k = l.status k
  own : ∀ k, moved k → after.status k = .delivered ∨ after.status k = .up
  sounding : ∀ i, after.sounding i = true ↔ i < table.count ∧ (s.flags i).active = true ∨ i ∈ s.ready

section Settle

variable {s after : State} {moved : Keycode → Prop} {book : Ledger Keycode Nat}

/-- A key belongs to one ready combo at most. -/
theorem ready_unique (apart : s.ready.Pairwise (Combo.Disjoint table)) {i other : Nat} (ready : i ∈ s.ready)
    (otherReady : other ∈ s.ready) (member : k ∈ (table.get i).keys) (otherMember : k ∈ (table.get other).keys) :
    i = other := by
  by_contra differ
  have symm : Std.Symm (Combo.Disjoint table) := ⟨fun _ _ disjoint => List.disjoint_symm disjoint⟩
  exact apart.forall ready otherReady differ member otherMember

/-- A key is taken after the flush if it was before or belongs to a ready combo. -/
theorem Settling.absorbed_iff (h : Settling table s l moved) (apart : s.ready.Pairwise (Combo.Disjoint table))
    (settled : Settled table s l moved book) (k : Keycode) (i : Nat) :
    book.status k = .absorbed i ↔ ¬moved k ∧ (i ∈ s.ready ∧ k ∈ (table.get i).keys ∨ l.status k = .absorbed i) := by
  constructor
  · intro absorbed
    have still : ¬moved k := by
      intro own
      rcases settled.own k own with delivered | up
      · cases absorbed.symm.trans delivered
      · cases absorbed.symm.trans up
    refine ⟨still, ?_⟩
    by_cases waiting : k ∈ s.pending
    · rcases settled.decided k still waiting with ⟨other, ready, member, taken⟩ | ⟨_, delivered⟩
      · cases absorbed.symm.trans taken
        exact .inl ⟨ready, member⟩
      · cases absorbed.symm.trans delivered
    · rw [settled.untouched k still waiting] at absorbed
      exact .inr absorbed
  · rintro ⟨still, ⟨ready, member⟩ | before⟩
    · rcases settled.decided k still (h.keys i ready k member) with ⟨other, otherReady, otherMember, taken⟩ | ⟨foreign, _⟩
      · rw [ready_unique apart ready otherReady member otherMember]
        exact taken
      · exact absurd member (foreign i ready)
    · have decided : k ∉ s.pending := by
        intro waiting
        cases before.symm.trans ((h.pending k still).mpr waiting)
      rw [settled.untouched k still decided]
      exact before

/-- A flush leaves the keys that are up as they are. -/
theorem Settling.up_iff (h : Settling table s l moved) (settled : Settled table s l moved book) {k : Keycode}
    (still : ¬moved k) : book.status k = .up ↔ l.status k = .up := by
  by_cases waiting : k ∈ s.pending
  · have before := (h.pending k still).mpr waiting
    rcases settled.decided k still waiting with ⟨i, _, _, taken⟩ | ⟨_, delivered⟩
    · rw [before, taken]
      exact ⟨nofun, nofun⟩
    · rw [before, delivered]
      exact ⟨nofun, nofun⟩
  · rw [settled.untouched k still waiting]

/-- A flush leaves no key pending. -/
theorem Settling.not_pending (h : Settling table s l moved) (settled : Settled table s l moved book) (k : Keycode) :
    book.status k ≠ .pending := by
  intro pending
  by_cases own : moved k
  · rcases settled.own k own with delivered | up
    · cases pending.symm.trans delivered
    · cases pending.symm.trans up
  · by_cases waiting : k ∈ s.pending
    · rcases settled.decided k own waiting with ⟨_, _, _, taken⟩ | ⟨_, delivered⟩
      · cases pending.symm.trans taken
      · cases pending.symm.trans delivered
    · rw [settled.untouched k own waiting, h.pending k own] at pending
      exact waiting pending

/-- The flags, the buffer and the book agree after the flush. -/
theorem Settling.conserved (h : Settling table s l moved) (apart : s.ready.Pairwise (Combo.Disjoint table))
    (flushed : Flushed table s after) (settled : Settled table s l moved book) {held : List Keycode}
    (entries : List (Ledger.Entry Keycode Nat)) {last : State} (ended : last = after.emit entries)
    (replayed : Ledger.empty.replay last.sent = some book) (up : ∀ k, book.status k = .up ↔ k ∉ held)
    (once : held.Nodup) : Conserved table { held := held, state := last } book := by
  subst ended
  have absorbed := h.absorbed_iff apart settled
  have none : (after.emit entries).pending = [] := by
    show after.keyBuffer.map QueuedRecord.keycode = []
    rw [flushed.keyBuffer]
    rfl
  have active {i : Nat} (known : i < table.count) : (after.flags i).active = true ↔
      i ∈ s.ready ∨ (s.flags i).active = true := flushed.active_iff known
  constructor
  case replayed => exact replayed
  case chords =>
    rw [none]
    exact (flushed.chords h.disabled).congr rfl rfl
  case kinds =>
    show ∀ r ∈ after.keyBuffer, r.kind = .key
    rw [flushed.keyBuffer]
    exact nofun
  case nodup =>
    rw [none]
    exact List.nodup_nil
  case off => exact fun _ => ⟨none, flushed.idle⟩
  case pending =>
    intro k
    rw [none]
    exact iff_of_false (h.not_pending settled k) List.not_mem_nil
  case sounding =>
    intro i
    rw [settled.sounding i]
    constructor
    · rintro (⟨known, isActive⟩ | ready)
      · exact ⟨known, (active known).mpr (.inr isActive)⟩
      · have known := (h.known i ready).1
        exact ⟨known, (active known).mpr (.inl ready)⟩
    · rintro ⟨known, isActive⟩
      rcases (active known).mp isActive with ready | already
      · exact .inr ready
      · exact .inl ⟨known, already⟩
  case owner =>
    intro k i taken
    obtain ⟨own, ⟨ready, member⟩ | before⟩ := (absorbed k i).mp taken
    · have known := (h.known i ready).1
      exact ⟨known, (active known).mpr (.inl ready), member⟩
    · obtain ⟨known, isActive, member⟩ := h.owner k i before own
      exact ⟨known, (active known).mpr (.inr isActive), member⟩
  case down =>
    intro i known isActive j
    show (after.flags i).state.getLsbD j = true ↔ _
    rw [flushed.state_eq known isActive]
    rcases (active known).mp isActive with ready | already
    · rw [h.readyDown i ready j]
      constructor
      · rintro ⟨k, member, own, index⟩
        exact ⟨k, (absorbed k i).mpr ⟨own, .inl ⟨ready, member⟩⟩, index⟩
      · rintro ⟨k, taken, index⟩
        obtain ⟨own, ⟨_, member⟩ | before⟩ := (absorbed k i).mp taken
        · exact ⟨k, member, own, index⟩
        · cases (h.known i ready).2.symm.trans (h.owner k i before own).2.1
    · rw [h.down i known already j]
      constructor
      · rintro ⟨k, own, before, index⟩
        exact ⟨k, (absorbed k i).mpr ⟨own, .inr before⟩, index⟩
      · rintro ⟨k, taken, index⟩
        obtain ⟨own, ⟨ready, _⟩ | before⟩ := (absorbed k i).mp taken
        · cases (h.known i ready).2.symm.trans already
        · exact ⟨k, own, before, index⟩
  case alive =>
    intro i known isActive
    rcases (active known).mp isActive with ready | already
    · obtain ⟨k, member, own⟩ := h.readyAlive i ready
      exact ⟨k, (absorbed k i).mpr ⟨own, .inl ⟨ready, member⟩⟩⟩
    · obtain ⟨k, own, before⟩ := h.alive i known already
      exact ⟨k, (absorbed k i).mpr ⟨own, .inr before⟩⟩
  case held => exact up
  case once => exact once

end Settle

/-- Before a flush that no release is part of; the keys that move are up so far. -/
theorem Conserved.settling (h : Conserved table w l) {s : State} {now : Ledger Keycode Nat} {moved : Keycode → Prop}
    (flags : s.flags = w.state.flags) (buffer : s.keyBuffer = w.state.keyBuffer)
    (ready : ∀ i ∈ s.ready, i ∈ w.state.ready) (fresh : ∀ k, moved k → l.status k = .up)
    (same : ∀ k, ¬moved k → now.status k = l.status k) : Settling table s now moved := by
  have pending : s.pending = w.state.pending := congrArg (List.map QueuedRecord.keycode) buffer
  have still {k : Keycode} (waiting : k ∈ w.state.pending) : ¬moved k := by
    intro own
    cases (fresh k own).symm.trans ((h.pending k).mpr waiting)
  have taken {k : Keycode} {i : Nat} (absorbed : l.status k = .absorbed i) : ¬moved k := by
    intro own
    cases (fresh k own).symm.trans absorbed
  refine ⟨?_, ?_, ?_, ?_, ?_, ?_, ?_, ?_, ?_⟩
  · rw [flags]
    exact h.chords.active
  · intro i member
    have r := (h.chords.ready i).mp (ready i member)
    rw [flags]
    exact ⟨r.known, r.inactive⟩
  · intro i member k own
    rw [pending]
    exact h.mem_pending (ready i member) own
  · intro i member j
    have r := (h.chords.ready i).mp (ready i member)
    have short := (h.gathered (ready i member)).1
    rw [flags, h.chords.bits i r.known r.inactive j]
    constructor
    · rintro ⟨_, k, waiting, index⟩
      exact ⟨k, (table.get i).mem_of_keyIndex (h.chords.real i k waiting) index, still waiting, index⟩
    · rintro ⟨k, own, _, index⟩
      have bound := (table.get i).lt_of_keyIndex ((table.get i).real_of_mem own) index
      exact ⟨by omega, k, h.mem_pending (ready i member) own, index⟩
  · intro i member
    obtain ⟨k, own⟩ := List.exists_mem_of_ne_nil _ ((h.chords.ready i).mp (ready i member)).keys
    exact ⟨k, own, still (h.mem_pending (ready i member) own)⟩
  · intro k own
    rw [same k own, h.pending k, pending]
  · intro k i absorbed own
    rw [same k own] at absorbed
    rw [flags]
    exact h.owner k i absorbed
  · intro i known active j
    rw [flags] at active ⊢
    rw [h.down i known active j]
    constructor
    · rintro ⟨k, absorbed, index⟩
      exact ⟨k, taken absorbed, (same k (taken absorbed)).trans absorbed, index⟩
    · rintro ⟨k, own, absorbed, index⟩
      exact ⟨k, (same k own).symm.trans absorbed, index⟩
  · intro i known active
    rw [flags] at active
    obtain ⟨k, absorbed⟩ := h.alive i known active
    exact ⟨k, taken absorbed, (same k (taken absorbed)).trans absorbed⟩

/-- The ledger after a flush, for the keys that do not move. -/
theorem Decided.settled {s : State} {moved : Keycode → Prop} {book final : Ledger Keycode Nat}
    (decided : Decided table s l book) (sounds : ∀ i, l.sounding i = true ↔ i < table.count ∧ (s.flags i).active = true)
    (own : ∀ k, moved k → final.status k = .delivered ∨ final.status k = .up)
    (others : ∀ k, ¬moved k → final.status k = book.status k) (sounding : final.sounding = book.sounding) :
    Settled table s l moved final := by
  refine ⟨?_, ?_, own, ?_⟩
  · intro k still waiting
    rw [others k still]
    by_cases taken : ∃ i ∈ s.ready, k ∈ (table.get i).keys
    · obtain ⟨i, ready, member⟩ := taken
      exact .inl ⟨i, ready, member, decided.absorbed k waiting i ready member⟩
    · push Not at taken
      exact .inr ⟨taken, decided.delivered k waiting taken⟩
  · intro k still decidedBefore
    rw [others k still]
    exact decided.untouched k decidedBefore
  · intro i
    rw [sounding, decided.sounding i, sounds i]

theorem Conserved.silent (h : Conserved table w l) {i : Nat} (ready : i ∈ w.state.ready) : l.sounding i = false := by
  by_contra sounds
  have active := ((h.sounding i).mp (by simpa using sounds)).2
  cases ((h.chords.ready i).mp ready).inactive.symm.trans active

/-- A flush between two key events. -/
theorem Conserved.flush (h : Conserved table w l) {after : State} (flushed : Flushed table w.state after) :
    ∃ book, Conserved table { held := w.held, state := after } book := by
  obtain ⟨entries, sent, booked⟩ := flushed.sent
  obtain ⟨book, replayed, decided⟩ := booked l (fun k waiting => (h.pending k).mpr waiting) fun i ready => h.silent ready
  have settling : Settling table w.state l fun _ => False :=
    h.settling rfl rfl (fun _ ready => ready) (fun _ no => no.elim) (fun _ _ => rfl)
  have settled : Settled table w.state l (fun _ => False) book :=
    decided.settled h.sounding (fun _ no => no.elim) (fun _ _ => rfl) rfl
  refine ⟨book, settling.conserved h.chords.apart flushed settled [] ?_ ?_ ?_ h.once⟩
  · rw [State.emit, List.append_nil]
  · rw [sent, Ledger.replay_append, h.replayed]
    exact replayed
  · intro k
    rw [settling.up_iff settled not_false, h.held k]

/-- A press that goes on at once, after a flush. -/
theorem Conserved.pressThrough (h : Conserved table w l) (fresh : k ∉ w.held) {s after : State}
    (flags : s.flags = w.state.flags) (buffer : s.keyBuffer = w.state.keyBuffer)
    (ready : ∀ i ∈ s.ready, i ∈ w.state.ready) (apart : s.ready.Pairwise (Combo.Disjoint table))
    (pressed : s.sent = w.state.sent ++ [.press k]) (flushed : Flushed table s after) :
    ∃ book, Conserved table { held := k :: w.held, state := after.emit [.deliver k] } book := by
  have up : l.status k = .up := (h.held k).mpr fresh
  have others {other : Keycode} (differs : ¬other = k) : (l.setStatus k .pending).status other = l.status other := by
    rw [Ledger.status_setStatus, if_neg differs]
  have pending : s.keyBuffer.map QueuedRecord.keycode = w.state.pending := congrArg _ buffer
  have foreign : k ∉ w.state.pending := h.not_mem_pending up (by simp)
  obtain ⟨entries, sent, booked⟩ := flushed.sent
  obtain ⟨book, replayed, decided⟩ := booked (l.setStatus k .pending)
    (by
      rw [pending]
      intro other waiting
      rw [others (by rintro rfl; exact foreign waiting)]
      exact (h.pending other).mpr waiting)
    (fun i member => h.silent (ready i member))
  have own : book.status k = .pending := by
    rw [decided.untouched k (by rw [pending]; exact foreign), Ledger.status_setStatus, if_pos rfl]
  have settling : Settling table s (l.setStatus k .pending) (· = k) := by
    refine h.settling flags buffer ready ?_ fun other differs => others differs
    rintro other rfl
    exact up
  have settled : Settled table s (l.setStatus k .pending) (· = k) (book.setStatus k .delivered) := by
    refine decided.settled ?_ ?_ ?_ rfl
    · rw [flags]
      exact h.sounding
    · rintro other rfl
      exact .inl (by rw [Ledger.status_setStatus, if_pos rfl])
    · intro other differs
      rw [Ledger.status_setStatus, if_neg differs]
  refine ⟨book.setStatus k .delivered, settling.conserved apart flushed settled [.deliver k] rfl ?_ ?_ ?_⟩
  · show Ledger.empty.replay (after.sent ++ [.deliver k]) = _
    rw [sent, pressed, List.append_assoc, List.append_assoc, Ledger.replay_append, h.replayed]
    show Ledger.replay l ([.press k] ++ _) = _
    rw [List.singleton_append, Ledger.replay, Ledger.enter, if_pos up, Option.bind_some, Ledger.replay_append, replayed]
    show Ledger.replay book [.deliver k] = _
    rw [Ledger.replay, Ledger.enter, if_pos own]
    rfl
  · intro other
    by_cases same : other = k
    · rw [same, Ledger.status_setStatus, if_pos rfl]
      simp
    · rw [settling.up_iff settled same, others same, h.held other, List.mem_cons, not_or]
      exact ⟨fun gone => ⟨same, gone⟩, And.right⟩
  · exact List.nodup_cons.mpr ⟨fresh, h.once⟩

/-- A key that is up is down for no active combo. -/
theorem Conserved.quiet (h : Conserved table w l) (real : k ≠ comboEnd) (fresh : k ∉ w.held) {i : Nat}
    (known : i < table.count) (active : (w.state.flags i).active = true) {j : Nat}
    (index : (table.get i).keyIndex k = some j) : (w.state.flags i).state.getLsbD j = false := by
  by_contra set
  have absorbed := (h.down_iff real known active index).mp (by simpa using set)
  cases absorbed.symm.trans ((h.held k).mpr fresh)

/-- The keys that are up once `k` has been booked as down. -/
theorem Conserved.held_pressed (h : Conserved table w l) {status : Ledger.Status Nat} (down : status ≠ .up)
    (other : Keycode) : (l.setStatus k status).status other = .up ↔ other ∉ k :: w.held := by
  rw [Ledger.status_setStatus, List.mem_cons, not_or]
  by_cases same : other = k
  · rw [if_pos same]
    exact iff_of_false down fun gone => gone.1 same
  · rw [if_neg same, h.held other]
    exact ⟨fun gone => ⟨same, gone⟩, And.right⟩

/-- A press that is queued. -/
theorem Conserved.pressQueued (h : Conserved table w l) {event : KeyEvent} (fresh : event.keycode ∉ w.held)
    (real : event.keycode ≠ comboEnd) {after : State} (enabled : w.state.enable = true)
    (chords : Chords table after fun i =>
      if i < table.count then event.keycode :: w.state.pending else w.state.pending)
    (framed : Framed table (w.state.emit [.press event.keycode]) after)
    (room : w.state.keyBuffer.length < comboKeyBufferLength) :
    ∃ book, Conserved table { held := event.keycode :: w.held, state := queueKey event after } book := by
  have up : l.status event.keycode = .up := (h.held _).mpr fresh
  have foreign : event.keycode ∉ w.state.pending := h.not_mem_pending up (by simp)
  have buffer : after.keyBuffer = w.state.keyBuffer := framed.keyBuffer
  have queued : queueKey event after = { after with
      timer := event.now
      keyBuffer := w.state.keyBuffer ++ [{ keycode := event.keycode, kind := .key }] } := by
    rw [queueKey]
    dsimp only
    rw [buffer, if_pos room]
  have pending : (queueKey event after).pending = w.state.pending ++ [event.keycode] := by
    rw [queued, State.pending, State.pending, List.map_append]
    rfl
  have flags : (queueKey event after).flags = after.flags := by rw [queued]
  have status (other : Keycode) : (l.setStatus event.keycode .pending).status other =
      if other = event.keycode then .pending else l.status other := l.status_setStatus _ _ _
  have taken {other : Keycode} {i : Nat} :
      (l.setStatus event.keycode .pending).status other = .absorbed i ↔ l.status other = .absorbed i :=
    l.status_setStatus_iff other (by simp [up])
  refine ⟨l.setStatus event.keycode .pending, ?_⟩
  constructor
  case replayed =>
    rw [queued]
    show Ledger.empty.replay after.sent = _
    rw [framed.sent]
    show Ledger.empty.replay (w.state.sent ++ [.press event.keycode]) = _
    rw [Ledger.replay_append, h.replayed]
    show Ledger.replay l [.press event.keycode] = _
    rw [Ledger.replay, Ledger.enter, if_pos up]
    rfl
  case chords =>
    have recounted : Chords table (queueKey event after) _ := chords.congr flags (by rw [queued]; rfl)
    refine recounted.recount ?_ ?_
    · intro i other member
      rw [pending, List.mem_append, List.mem_singleton] at member
      rcases member with member | rfl
      · exact h.chords.real i other member
      · exact real
    · intro i known other
      rw [if_pos known, pending, List.mem_cons, List.mem_append, List.mem_singleton, or_comm]
  case kinds =>
    rw [queued]
    intro r member
    rcases List.mem_append.mp member with member | member
    · exact h.kinds r member
    · rw [List.mem_singleton.mp member]
  case nodup =>
    rw [pending, List.nodup_append]
    refine ⟨h.nodup, by simp, ?_⟩
    rintro other waiting last same rfl
    rw [List.mem_singleton.mp same] at waiting
    exact foreign waiting
  case off =>
    intro off
    rw [queued] at off
    cases (framed.enable.trans enabled).symm.trans off
  case pending =>
    intro other
    rw [status, pending, List.mem_append, List.mem_singleton]
    by_cases same : other = event.keycode
    · simp [same]
    · rw [if_neg same, h.pending other]
      simp [same]
  case sounding =>
    intro i
    show l.sounding i = true ↔ _
    rw [h.sounding i, flags]
    constructor
    · rintro ⟨known, active⟩
      exact ⟨known, (framed.active i known).1.trans active⟩
    · rintro ⟨known, active⟩
      exact ⟨known, (framed.active i known).1.symm.trans active⟩
  case owner =>
    intro other i absorbed
    obtain ⟨known, active, member⟩ := h.owner other i (taken.mp absorbed)
    rw [flags]
    exact ⟨known, (framed.active i known).1.trans active, member⟩
  case down =>
    intro i known active j
    rw [flags] at active ⊢
    have before := (framed.active i known).1.symm.trans active
    rw [(framed.active i known).2 before]
    simp only [taken]
    exact h.down i known before j
  case alive =>
    intro i known active
    rw [flags] at active
    simp only [taken]
    exact h.alive i known ((framed.active i known).1.symm.trans active)
  case held => exact h.held_pressed (by simp)
  case once => exact List.nodup_cons.mpr ⟨fresh, h.once⟩

/-- A press that goes on although no combo is flushed. -/
theorem Conserved.pressPast (h : Conserved table w l) (fresh : k ∉ w.held) :
    ∃ book, Conserved table
      { held := k :: w.held, state := (comboEnable (w.state.emit [.press k])).emit [.deliver k] } book := by
  have up : l.status k = .up := (h.held k).mpr fresh
  have status (other : Keycode) : (l.setStatus k .delivered).status other =
      if other = k then .delivered else l.status other := l.status_setStatus _ _ _
  have taken {other : Keycode} {i : Nat} :
      (l.setStatus k .delivered).status other = .absorbed i ↔ l.status other = .absorbed i :=
    l.status_setStatus_iff other (by simp [up])
  refine ⟨l.setStatus k .delivered, ?_, h.chords.congr rfl rfl, h.kinds, h.nodup,
    fun off => absurd off.symm Bool.false_ne_true, ?_, h.sounding, ?_, ?_, ?_, ?_,
    List.nodup_cons.mpr ⟨fresh, h.once⟩⟩
  · show Ledger.empty.replay ((w.state.sent ++ [.press k]) ++ [.deliver k]) = _
    have own : (l.setStatus k .pending).status k = .pending := by rw [Ledger.status_setStatus, if_pos rfl]
    rw [List.append_assoc, Ledger.replay_append, h.replayed, Option.bind_some, List.singleton_append, Ledger.replay,
      Ledger.enter, if_pos up, Option.bind_some, Ledger.replay, Ledger.enter, if_pos own]
    show some ((l.setStatus k .pending).setStatus k .delivered) = some (l.setStatus k .delivered)
    rw [Ledger.setStatus, Ledger.setStatus, Function.update_idem]
    rfl
  · intro other
    rw [status]
    by_cases same : other = k
    · rw [if_pos same, same]
      exact iff_of_false (by simp) (h.not_mem_pending up (by simp))
    · rw [if_neg same]
      exact h.pending other
  · intro other i absorbed
    exact h.owner other i (taken.mp absorbed)
  · intro i known active j
    simp only [taken]
    exact h.down i known active j
  · intro i known active
    simp only [taken]
    exact h.alive i known active
  · exact h.held_pressed (by simp)

/-! ## Releases in the book -/

theorem Flags.released_state (flags : Flags) (keyIndex : Option Nat) (j : Nat) :
    (flags.released keyIndex).state.getLsbD j = true ↔ flags.state.getLsbD j = true ∧ keyIndex ≠ some j := by
  cases keyIndex with
  | none => simp [Flags.released]
  | some i =>
    rw [Flags.released, getLsbD_keyStateUp, Bool.and_eq_true, Bool.not_eq_true', decide_eq_false_iff_not, Ne,
      Option.some.injEq]
    exact and_congr_right fun _ => not_congr eq_comm

theorem released_flags {i : Nat} (known : i < table.count) : (w.state.released table k table.count).flags i =
    (w.state.flags i).released ((table.get i).keyIndex k) := if_pos known

/-- A combo goes on sounding unless the release ends it. -/
theorem released_active {i : Nat} (known : i < table.count) :
    ((w.state.released table k table.count).flags i).active = true ↔
      (w.state.flags i).active = true ∧ ends table w.state k i = false := by
  rw [released_flags known, ends]
  cases (table.get i).keyIndex k with
  | none => simp [Flags.released]
  | some j =>
    cases active : (w.state.flags i).active with
    | true =>
      cases only : onlyOneKeyIsDown (w.state.flags i).state with
      | true => simp [Flags.released, active, only]
      | false => simp [Flags.released, active, only]
    | false => simp [Flags.released, active]

theorem released_disabled (i : Nat) :
    ((w.state.released table k table.count).flags i).disabled = (w.state.flags i).disabled := by
  show (if i < table.count then _ else w.state.flags i).disabled = _
  split
  · unfold Flags.released
    split <;> rfl
  · rfl

/-- A combo that the release does not end has another key that is down. -/
theorem Conserved.other_down (h : Conserved table w l) (real : k ≠ comboEnd) {i : Nat} (known : i < table.count)
    (active : (w.state.flags i).active = true) (goesOn : ends table w.state k i = false) :
    ∃ other, other ≠ k ∧ l.status other = .absorbed i := by
  obtain ⟨first, absorbed⟩ := h.alive i known active
  by_cases same : first = k
  · subst same
    have member := (h.owner first i absorbed).2.2
    obtain ⟨j, index⟩ := (table.get i).exists_keyIndex member
    have down := (h.down i known active j).mpr ⟨first, absorbed, index⟩
    have more : ¬∀ j', (w.state.flags i).state.getLsbD j' = true → j' = j := by
      rw [← onlyOneKeyIsDown_iff down]
      intro only
      rw [ends, index] at goesOn
      simp [active, only, down] at goesOn
    push Not at more
    obtain ⟨j', set, differs⟩ := more
    obtain ⟨other, otherAbsorbed, otherIndex⟩ := (h.down i known active j').mp set
    refine ⟨other, ?_, otherAbsorbed⟩
    rintro rfl
    exact differs (Option.some.inj (otherIndex.symm.trans index))
  · exact ⟨first, same, absorbed⟩

/-- The release ends a combo only if no other key of it is down. -/
theorem Conserved.ends_only (h : Conserved table w l) {i : Nat} (known : i < table.count)
    (active : (w.state.flags i).active = true) {other : Keycode} (differs : other ≠ k) (real : k ≠ comboEnd)
    (absorbed : l.status other = .absorbed i) : ends table w.state k i = false := by
  rw [ends]
  cases index : (table.get i).keyIndex k with
  | none => rfl
  | some j =>
    by_contra ended
    simp only [Bool.not_eq_false, Bool.and_eq_true] at ended
    have member := (h.owner other i absorbed).2.2
    obtain ⟨j', otherIndex⟩ := (table.get i).exists_keyIndex member
    have set := (h.down i known active j').mpr ⟨other, absorbed, otherIndex⟩
    have same := (onlyOneKeyIsDown_iff ended.2).mp ended.1.2 j' set
    rw [same] at otherIndex
    exact differs ((table.get i).keyIndex_inj ((table.get i).real_of_mem member) real otherIndex index)

/-- A ready combo with another key than `k`. -/
theorem Conserved.other_key (h : Conserved table w l) {i : Nat} (ready : i ∈ w.state.ready)
    (more : (table.get i).keys ≠ [k]) : ∃ other ∈ (table.get i).keys, ¬other = k := by
  by_contra all
  push Not at all
  have r := (h.chords.ready i).mp ready
  obtain ⟨_, indexes⟩ := h.gathered ready
  have owned {j : Nat} (bound : j < (table.get i).keys.length) : (table.get i).keyIndex k = some j := by
    obtain ⟨other, waiting, index⟩ := indexes j bound
    have member := (table.get i).mem_of_keyIndex (h.chords.real i other waiting) index
    rwa [all other member] at index
  obtain ⟨first, rest, shape⟩ := List.exists_cons_of_ne_nil r.keys
  have own := all first (by rw [shape]; exact List.mem_cons_self)
  cases rest with
  | nil => exact more (by rw [shape, own])
  | cons second rest =>
    have zero := owned (j := 0) (by rw [shape]; exact Nat.zero_lt_succ _)
    have one := owned (j := 1) (by rw [shape]; simp)
    cases zero.symm.trans one

/-- What holds between a release and the flush that follows it. -/
theorem Conserved.settling_release (h : Conserved table w l) (real : k ≠ comboEnd)
    (more : ∀ i ∈ w.state.ready, (table.get i).keys ≠ [k]) {now : Ledger Keycode Nat} (same : now.status = l.status) :
    Settling table (w.state.released table k table.count) now (· = k) := by
  -- the same without the release
  have before : Settling table w.state l fun _ => False :=
    h.settling rfl rfl (fun _ ready => ready) (fun _ no => no.elim) (fun _ _ => rfl)
  have ready {i : Nat} (member : i ∈ (w.state.released table k table.count).ready) : i ∈ w.state.ready := member
  refine ⟨?_, ?_, before.keys, ?_, ?_, ?_, ?_, ?_, ?_⟩
  · intro i known active
    rw [released_disabled]
    exact h.chords.active i known ((released_active known).mp active).1
  · intro i member
    obtain ⟨known, inactive⟩ := before.known i member
    refine ⟨known, ?_⟩
    by_contra active
    cases inactive.symm.trans ((released_active known).mp (by simpa using active)).1
  · intro i member j
    have known := (before.known i member).1
    rw [released_flags known, Flags.released_state, before.readyDown i (ready member) j]
    constructor
    · rintro ⟨⟨other, own, _, index⟩, differs⟩
      refine ⟨other, own, ?_, index⟩
      rintro rfl
      exact differs index
    · rintro ⟨other, own, differs, index⟩
      refine ⟨⟨other, own, not_false, index⟩, ?_⟩
      intro gone
      exact differs ((table.get i).keyIndex_inj ((table.get i).real_of_mem own) real index gone)
  · intro i member
    exact h.other_key (ready member) (more i (ready member))
  · intro other _
    rw [same]
    exact h.pending other
  · intro other i absorbed differs
    rw [same] at absorbed
    obtain ⟨known, active, member⟩ := h.owner other i absorbed
    exact ⟨known, (released_active known).mpr ⟨active, h.ends_only known active differs real absorbed⟩, member⟩
  · intro i known active j
    have activeBefore := ((released_active known).mp active).1
    rw [released_flags known, Flags.released_state, h.down i known activeBefore j, same]
    constructor
    · rintro ⟨⟨other, absorbed, index⟩, differs⟩
      refine ⟨other, ?_, absorbed, index⟩
      rintro rfl
      exact differs index
    · rintro ⟨other, differs, absorbed, index⟩
      refine ⟨⟨other, absorbed, index⟩, ?_⟩
      intro gone
      have member := (h.owner other i absorbed).2.2
      exact differs ((table.get i).keyIndex_inj ((table.get i).real_of_mem member) real index gone)
  · intro i known active
    obtain ⟨activeBefore, goesOn⟩ := (released_active known).mp active
    rw [same]
    exact h.other_down real known activeBefore goesOn

/-- Some combo takes the release exactly if the press has been taken. -/
theorem Conserved.takes_iff (h : Conserved table w l) (real : k ≠ comboEnd) (holds : k ∈ w.held)
    {now book : Ledger Keycode Nat} (same : now.status = l.status) (decided : Decided table w.state now book) :
    if (List.range table.count).any (takes table w.state k) then ∃ i, book.status k = .absorbed i
    else book.status k = .delivered := by
  have decidedBefore {i : Nat} (absorbed : l.status k = .absorbed i) : book.status k = .absorbed i := by
    have foreign : k ∉ w.state.pending := h.not_mem_pending absorbed (by simp)
    rw [decided.untouched k foreign, same]
    exact absorbed
  split
  · next any =>
    obtain ⟨i, inRange, taken⟩ := List.any_eq_true.mp any
    have known := List.mem_range.mp inRange
    refine ⟨i, ?_⟩
    unfold takes at taken
    cases index : (table.get i).keyIndex k with
    | none =>
      rw [index] at taken
      cases taken
    | some j =>
      rw [index] at taken
      dsimp only at taken
      split at taken
      · next active => exact decidedBefore ((h.down_iff real known active index).mp taken)
      · next inactive =>
        simp only [Bool.and_eq_true, Bool.not_eq_true'] at taken
        have member := (table.get i).mem_of_keyIndex real index
        have ready : i ∈ w.state.ready := (h.chords.ready i).mpr
          ⟨known, by simpa using inactive, taken.1.2, taken.1.1, List.ne_nil_of_mem member⟩
        exact decided.absorbed k (h.mem_pending ready member) i ready member
  · next none =>
    have nobody {i : Nat} (known : i < table.count) : takes table w.state k i = false := by
      by_contra taken
      exact none (List.any_eq_true.mpr ⟨i, List.mem_range.mpr known, by simpa using taken⟩)
    cases status : l.status k with
    | up => exact absurd holds ((h.held k).mp status)
    | pending =>
      apply decided.delivered k ((h.pending k).mp status)
      intro i ready member
      have r := (h.chords.ready i).mp ready
      obtain ⟨j, index⟩ := (table.get i).exists_keyIndex member
      have enabled : w.state.enable = true := by
        by_contra off
        rw [State.ready_of_idle (h.off (by simpa using off)).2] at ready
        cases ready
      have taken := nobody r.known
      rw [takes, index] at taken
      have complete : allComboKeysAreDown (w.state.flags i).state (table.get i).keys.length = true := r.complete
      simp [r.inactive, complete, r.enabled, enabled] at taken
    | delivered =>
      have foreign : k ∉ w.state.pending := h.not_mem_pending status (by simp)
      rw [decided.untouched k foreign, same]
      exact status
    | absorbed i =>
      obtain ⟨known, active, member⟩ := h.owner k i status
      obtain ⟨j, index⟩ := (table.get i).exists_keyIndex member
      have taken := nobody known
      rw [takes, index, active] at taken
      cases ((h.down_iff real known active index).mpr status).symm.trans taken

/-- A release, after the flush that follows it. -/
theorem Conserved.release (h : Conserved table w l) (real : k ≠ comboEnd) (holds : k ∈ w.held)
    (more : ∀ i ∈ w.state.ready, (table.get i).keys ≠ [k]) {after : State}
    (flushed : Flushed table (w.state.released table k table.count) after) :
    ∃ book, Conserved table
      { held := w.held.erase k
        state := after.emit [.release k !(List.range table.count).any (takes table w.state k)] } book := by
  obtain ⟨entries, sent, booked⟩ := flushed.sent
  have allSound : ∀ i ∈ (List.range table.count).filter (ends table w.state k), l.sounding i = true := by
    intro i member
    obtain ⟨inRange, ended⟩ := List.mem_filter.mp member
    have known := List.mem_range.mp inRange
    refine (h.sounding i).mpr ⟨known, ?_⟩
    by_contra inactive
    rw [ends] at ended
    split at ended
    · cases ended
    · simp [inactive] at ended
  have ended := l.replay_comboUps (List.nodup_range.filter _) allSound
  generalize now : l.silence ((List.range table.count).filter (ends table w.state k)) = middle at ended
  have same : middle.status = l.status := by rw [← now]; rfl
  obtain ⟨book, replayed, decided⟩ := booked middle
    (by
      intro other waiting
      rw [same]
      exact (h.pending other).mpr waiting)
    (by
      intro i ready
      rw [← now]
      show (l.sounding i && _) = false
      rw [h.silent ready, Bool.false_and])
  have settling := h.settling_release real more same
  have sounds (i : Nat) : middle.sounding i = true ↔
      i < table.count ∧ ((w.state.released table k table.count).flags i).active = true := by
    rw [← now]
    show (l.sounding i && !decide (i ∈ (List.range table.count).filter (ends table w.state k))) = true ↔ _
    rw [Bool.and_eq_true, h.sounding i]
    constructor
    · rintro ⟨⟨known, active⟩, goesOn⟩
      refine ⟨known, (released_active known).mpr ⟨active, ?_⟩⟩
      simpa [known] using goesOn
    · rintro ⟨known, active⟩
      obtain ⟨before, goesOn⟩ := (released_active known).mp active
      exact ⟨⟨known, before⟩, by simp [goesOn]⟩
  have settled : Settled table (w.state.released table k table.count) middle (· = k) (book.setStatus k .up) := by
    refine decided.settled sounds ?_ ?_ rfl
    · rintro other rfl
      exact .inr (by rw [Ledger.status_setStatus, if_pos rfl])
    · intro other differs
      rw [Ledger.status_setStatus, if_neg differs]
  refine ⟨book.setStatus k .up, settling.conserved h.chords.apart flushed settled _ rfl ?_ ?_ ?_⟩
  · have decidedBefore : Decided table w.state middle book := ⟨decided.absorbed, decided.delivered, decided.untouched,
      decided.sounding⟩
    have legal := h.takes_iff real holds same decidedBefore
    show Ledger.empty.replay (after.sent ++ [_]) = _
    rw [sent]
    show Ledger.empty.replay ((w.state.sent ++ _) ++ entries ++ _) = _
    rw [Ledger.replay_append, Ledger.replay_append, Ledger.replay_append, h.replayed, Option.bind_some, ended,
      Option.bind_some, replayed, Option.bind_some, Ledger.replay]
    split at legal
    · next any =>
      obtain ⟨i, absorbed⟩ := legal
      rw [any, Bool.not_true, Ledger.enter_absorbed absorbed]
      rfl
    · next none =>
      rw [Bool.eq_false_iff.mpr none, Bool.not_false, Ledger.enter_delivered legal]
      rfl
  · intro other
    by_cases differs : other = k
    · rw [differs, Ledger.status_setStatus, if_pos rfl]
      simp [h.once.not_mem_erase]
    · rw [settling.up_iff settled differs, same, h.held other, List.mem_erase_of_ne differs]
  · exact h.once.erase k

end Book

/-! ## Runs -/

/-- The keys that switch combos on and off. -/
def switchesCombos (keycode : Keycode) : Prop :=
  keycode = qkComboOn ∨ keycode = qkComboOff ∨ keycode = qkComboToggle

instance (keycode : Keycode) : Decidable (switchesCombos keycode) := inferInstanceAs (Decidable (_ ∨ _ ∨ _))

/-- Presses and releases of a key alternate, and a press that is queued finds room in the key buffer. -/
structure Fed (table : Table) (w : World) (event : KeyEvent) : Prop where
  alternates : event.pressed = true ↔ event.keycode ∉ w.held
  fits : event.pressed = true → ¬switchesCombos event.keycode →
    (processCombos table event (w.state.emit [.press event.keycode]) table.count).1 = true →
    w.state.keyBuffer.length < comboKeyBufferLength

/-- The key code is none that ends the key lists; a press drops ready combos from the front of the ring
only and overflows it not; a release is not that of the only key of a ready combo. -/
structure Sound (table : Table) (w : World) (event : KeyEvent) : Prop where
  real : event.keycode ≠ comboEnd
  front : event.pressed = true → ¬switchesCombos event.keycode →
    DropsInFront table event (w.state.emit [.press event.keycode])
  more : event.pressed = false → ∀ i ∈ w.state.ready, (table.get i).keys ≠ [event.keycode]

section Decidable

variable (table : Table) (w : World) (event : KeyEvent)

instance (s : State) : Decidable (DropsInFront table event s) :=
  inferInstanceAs (Decidable (∀ m < table.count, _ → _ = true))

instance : Decidable (Fed table w event) :=
  decidable_of_iff
    ((event.pressed = true ↔ event.keycode ∉ w.held) ∧
      (event.pressed = true → ¬switchesCombos event.keycode →
        (processCombos table event (w.state.emit [.press event.keycode]) table.count).1 = true →
        w.state.keyBuffer.length < comboKeyBufferLength))
    ⟨fun ⟨alternates, fits⟩ => ⟨alternates, fits⟩, fun fed => ⟨fed.alternates, fed.fits⟩⟩

instance : Decidable (Sound table w event) :=
  decidable_of_iff
    (event.keycode ≠ comboEnd ∧
      (event.pressed = true → ¬switchesCombos event.keycode →
        DropsInFront table event (w.state.emit [.press event.keycode])) ∧
      (event.pressed = false → ∀ i ∈ w.state.ready, (table.get i).keys ≠ [event.keycode]))
    ⟨fun ⟨real, front, more⟩ => ⟨real, front, more⟩, fun sound => ⟨sound.real, sound.front, sound.more⟩⟩

end Decidable

def Input.Fed (table : Table) (w : World) : Input → Prop
  | .key event => Combos.Fed table w event
  | .task _ => True

def Input.Sound (table : Table) (w : World) : Input → Prop
  | .key event => Combos.Sound table w event
  | .task _ => True

instance (table : Table) (w : World) (input : Input) : Decidable (input.Fed table w) :=
  match input with
  | .key event => inferInstanceAs (Decidable (Combos.Fed table w event))
  | .task _ => inferInstanceAs (Decidable True)

instance (table : Table) (w : World) (input : Input) : Decidable (input.Sound table w) :=
  match input with
  | .key event => inferInstanceAs (Decidable (Combos.Sound table w event))
  | .task _ => inferInstanceAs (Decidable True)

section Steps

variable {table : Table} {w : World} {l : Ledger Keycode Nat} {event : KeyEvent}

theorem Conserved.chords_emit (h : Conserved table w l) (entries : List (Ledger.Entry Keycode Nat)) :
    Chords table (w.state.emit entries) fun _ => w.state.pending := h.chords.congr rfl rfl

theorem Conserved.flushable_emit (h : Conserved table w l) (entries : List (Ledger.Entry Keycode Nat)) :
    Flushable table (w.state.emit entries) := h.flushable rfl rfl fun _ => rfl

/-- Switching combos off dumps the key buffer and forgets the ready combos. -/
theorem Conserved.flushed_disable (h : Conserved table w l) (entries : List (Ledger.Entry Keycode Nat)) :
    Flushed table
      { w.state.emit entries with timer := 0, enable := false, comboBufferRead := w.state.comboBufferWrite }
      (comboDisable table (w.state.emit entries)) := by
  have none : ({ w.state.emit entries with
      timer := 0
      enable := false
      comboBufferRead := w.state.comboBufferWrite } : State).ready = [] := State.ready_of_idle rfl
  have flushable : Flushable table
      { w.state.emit entries with timer := 0, enable := false, comboBufferRead := w.state.comboBufferWrite } := by
    refine ⟨h.kinds, h.nodup, h.chords.real 0, ?_, ?_, ?_, ?_⟩
    · rw [none]
      exact nofun
    · rw [none]
      exact nofun
    · rw [none]
      exact nofun
    · rw [none]
      exact List.Pairwise.nil
  exact flushable.dump rfl 0 0

/-- A press of a key that does not switch combos. -/
theorem Conserved.press (h : Conserved table w l) (fed : Fed table w event) (sound : Sound table w event)
    (pressed : event.pressed = true) (plain : ¬switchesCombos event.keycode) :
    ∃ book, Conserved table (keyStep table event w) book := by
  have fresh := fed.alternates.mp pressed
  have chords := h.chords_emit [.press event.keycode]
  have quiet : ∀ i < table.count, ((w.state.emit [.press event.keycode]).flags i).active = true →
      ∀ j ∈ (table.get i).keyIndex event.keycode, ((w.state.emit [.press event.keycode]).flags i).state.getLsbD j = false :=
    fun i known active j index => h.quiet sound.real fresh known active index
  have foreign : event.keycode ∉ w.state.pending := by
    intro waiting
    cases ((h.held _).mpr fresh).symm.trans ((h.pending _).mpr waiting)
  -- a press that no combo counts leaves the state as it is and goes on after a flush
  have through : ∃ book, Conserved table { held := event.keycode :: w.held, state :=
      (Combos.flush table (w.state.emit [.press event.keycode])).emit [.deliver event.keycode] } book :=
    h.pressThrough (s := w.state.emit [.press event.keycode]) fresh rfl rfl (fun _ ready => ready) h.chords.apart rfl (h.flushable_emit _).flush
  simp only [switchesCombos, not_or] at plain
  unfold keyStep processCombo
  rw [if_pos pressed, if_neg (fun special => plain.1 special.1), if_neg (fun special => plain.2.1 special.1),
    if_neg (fun special => plain.2.2 special.1)]
  cases enabled : w.state.enable with
  | true =>
    obtain ⟨counted, framed, same⟩ := chords.processCombos sound.real pressed enabled foreign quiet
      (sound.front pressed (by simp [switchesCombos, plain])) table.count (Nat.le_refl _)
    have fits := fed.fits pressed (by simp [switchesCombos, plain])
    generalize processCombos table event (w.state.emit [.press event.keycode]) table.count = result
      at counted framed same fits ⊢
    obtain ⟨isComboKey, after⟩ := result
    dsimp only at counted framed same fits ⊢
    cases isComboKey with
    | true =>
      rw [pressed]
      exact h.pressQueued fresh sound.real enabled counted framed (fits rfl)
    | false =>
      rw [same rfl, Bool.and_false]
      exact through
  | false =>
    have empty : w.state.pending = [] := (h.off enabled).1
    rw [empty] at chords
    rw [processCombos_of_off chords sound.real enabled quiet table.count (Nat.le_refl _)]
    dsimp only
    rw [Bool.and_false]
    exact through

theorem Conserved.disable (h : Conserved table w l) {k : Keycode} (fresh : k ∉ w.held) :
    ∃ book, Conserved table
      { held := k :: w.held, state := (comboDisable table (w.state.emit [.press k])).emit [.deliver k] } book := by
  have flushed := h.flushed_disable [.press k]
  generalize off : ({ w.state.emit [.press k] with
    timer := 0
    enable := false
    comboBufferRead := w.state.comboBufferWrite } : State) = s at flushed
  have none : s.ready = [] := State.ready_of_idle (by rw [← off]; rfl)
  refine h.pressThrough fresh (by rw [← off]; rfl) (by rw [← off]; rfl) ?_ ?_ (by rw [← off]; rfl) flushed
  · rw [none]
    exact nofun
  · rw [none]
    exact List.Pairwise.nil

/-- A press of a key that switches combos on or off goes on at once. -/
theorem Conserved.switch (h : Conserved table w l) (fed : Fed table w event) (pressed : event.pressed = true)
    (special : switchesCombos event.keycode) : ∃ book, Conserved table (keyStep table event w) book := by
  have fresh := fed.alternates.mp pressed
  unfold keyStep processCombo
  rw [if_pos pressed]
  rcases special with on | off | toggle
  · rw [if_pos ⟨on, pressed⟩]
    exact h.pressPast fresh
  · have apart : ¬(event.keycode = qkComboOn ∧ event.pressed = true) := by
      rw [off]
      exact fun both => absurd both.1 (by decide)
    rw [if_neg apart, if_pos ⟨off, pressed⟩]
    exact h.disable fresh
  · have apart : ¬(event.keycode = qkComboOn ∧ event.pressed = true) ∧
        ¬(event.keycode = qkComboOff ∧ event.pressed = true) := by
      rw [toggle]
      exact ⟨fun both => absurd both.1 (by decide), fun both => absurd both.1 (by decide)⟩
    rw [if_neg apart.1, if_neg apart.2, if_pos ⟨toggle, pressed⟩]
    dsimp only
    rw [if_pos rfl, comboToggle]
    split
    · exact h.disable fresh
    · exact h.pressPast fresh

theorem Conserved.keyStep (h : Conserved table w l) (fed : Fed table w event) (sound : Sound table w event) :
    ∃ book, Conserved table (keyStep table event w) book := by
  cases pressed : event.pressed with
  | true =>
    by_cases special : switchesCombos event.keycode
    · exact h.switch fed pressed special
    · exact h.press fed sound pressed special
  | false =>
    have holds : event.keycode ∈ w.held := by
      by_contra gone
      cases pressed.symm.trans (fed.alternates.mpr gone)
    have flushable : Flushable table (w.state.released table event.keycode table.count) :=
      h.flushable rfl rfl released_disabled
    have released := h.release sound.real holds (sound.more pressed) flushable.flush
    have notPressed {keycode : Keycode} : ¬(event.keycode = keycode ∧ event.pressed = true) := by
      rw [pressed]
      exact fun both => absurd both.2 (by decide)
    unfold Combos.keyStep processCombo
    rw [if_neg (by rw [pressed]; decide), if_neg notPressed, if_neg notPressed, if_neg notPressed,
      processCombos_release h.chords pressed table.count (Nat.le_refl _)]
    dsimp only
    rw [pressed, Bool.false_and, if_neg (by decide)]
    exact released

theorem Conserved.task (h : Conserved table w l) (now : BitVec 16) :
    ∃ book, Conserved table { w with state := comboTask table now w.state } book := by
  have flushable : Flushable table w.state := h.flushable rfl rfl fun _ => rfl
  unfold comboTask
  split
  · exact ⟨l, h⟩
  · split
    · split
      · have flushed := flushable.applyCombos
        exact h.flush ⟨flushed.keyBuffer, flushed.idle, flushed.enable, flushed.flags, flushed.sent⟩
      · next idle => exact h.flush (flushable.dump (by simpa using idle) 0 0)
    · exact ⟨l, h⟩

theorem start_conserved (table : Table) : Conserved table start .empty := by
  have inactive (i : Nat) : ¬(start.state.flags i).active = true := nofun
  refine ⟨rfl, ⟨⟨nofun, ?_, nofun, nofun⟩, ?_, List.Pairwise.nil⟩, nofun, List.nodup_nil, nofun, ?_, ?_, nofun, nofun,
    nofun, ?_, List.nodup_nil⟩
  · intro i _ _ j
    show (0 : BitVec 8).getLsbD j = true ↔ _ ∧ ∃ k ∈ ([] : List Keycode), _
    simp
  · intro i
    refine ⟨nofun, ?_⟩
    intro r
    have complete : allComboKeysAreDown 0 (table.get i).keys.length = true := r.complete
    rw [allComboKeysAreDown_iff] at complete
    have first := complete.2 0
    rw [decide_eq_true (List.length_pos_of_ne_nil r.keys)] at first
    cases first
  · exact fun k => ⟨nofun, nofun⟩
  · exact fun i => ⟨nofun, fun both => absurd both.2 (inactive i)⟩
  · exact fun k => ⟨fun _ => List.not_mem_nil, fun _ => rfl⟩

end Steps

/-- Every press is delivered once or taken by one combo, every release goes on exactly if its press
did, and a combo sounds exactly while a key that it took is down. -/
theorem keys_conserved (table : Table) (inputs : List Input)
    (fed : EveryStep (fun earlier input => input.Fed table (run table earlier)) inputs)
    (sound : EveryStep (fun earlier input => input.Sound table (run table earlier)) inputs) :
    ∃ book, Ledger.empty.replay (run table inputs).state.sent = some book ∧ book.Balanced ∧
      ∀ k, book.status k = .up ↔ k ∉ (run table inputs).held := by
  have conserved : ∃ book, Conserved table (run table inputs) book := by
    refine foldl_everyStep
      (fun earlier input => input.Fed table (run table earlier) ∧ input.Sound table (run table earlier))
      (fun _ w => ∃ book, Conserved table w book) ⟨_, start_conserved table⟩ ?_ inputs
      fun index bound => ⟨fed index bound, sound index bound⟩
    rintro earlier input ⟨fed, sound⟩ ⟨book, before⟩
    cases input with
    | key event => exact before.keyStep fed sound
    | task now => exact before.task now
  obtain ⟨book, h⟩ := conserved
  refine ⟨book, h.replayed, ?_, h.held⟩
  intro i
  rw [h.sounding i]
  constructor
  · rintro ⟨known, active⟩
    exact h.alive i known active
  · rintro ⟨k, absorbed⟩
    obtain ⟨known, active, _⟩ := h.owner k i absorbed
    exact ⟨known, active⟩

/-! ## A ready combo that is forgotten -/

/-- Three combos: the first shares no key with the others, and the second has fewer keys than the third. -/
def threeCombos : Table where
  count := 3
  get
    | 0 => { keys := [1, 2], ended := by decide }
    | 1 => { keys := [3, 4], ended := by decide }
    | _ => { keys := [3, 4, 5], ended := by decide }

def pressAt (now : BitVec 16) (keycode : Keycode) : Input := .key { keycode := keycode, pressed := true, now := now }

def releaseAt (now : BitVec 16) (keycode : Keycode) : Input := .key { keycode := keycode, pressed := false, now := now }

/-- One combo is played, and its keys come up. -/
def playedInputs : List Input := [pressAt 1 1, pressAt 2 2, .task 100, releaseAt 200 1, releaseAt 201 2]

theorem playedInputs_conserved :
    ∃ book, Ledger.empty.replay (run threeCombos playedInputs).state.sent = some book ∧ book.Balanced ∧
      ∀ k, book.status k = .up ↔ k ∉ (run threeCombos playedInputs).held :=
  keys_conserved threeCombos playedInputs (by decide) (by decide)

/-- The third combo disables the second in the middle of the ring, so both stay in it when they are
applied.  Later the third one takes the press of a single key. -/
def forgottenInputs : List Input :=
  [pressAt 1 1, pressAt 2 2, pressAt 3 3, pressAt 4 4, pressAt 5 5, .task 100, releaseAt 200 1, releaseAt 201 2,
    releaseAt 202 3, releaseAt 203 4, releaseAt 204 5, pressAt 300 3, releaseAt 310 3]

theorem forgotten_combo_takes_press :
    EveryStep (fun earlier input => input.Fed threeCombos (run threeCombos earlier)) forgottenInputs ∧
      Ledger.empty.replay (run threeCombos forgottenInputs).state.sent = none := by
  refine ⟨by decide, ?_⟩
  rw [← Option.isNone_iff_eq_none]
  decide

end QmkFirmware.Combos
