import Mathlib.Data.List.DropRight
import QmkFirmware.Foundations.Runs
import QmkFirmware.RgbMatrix.Model

/-! # The history of hits

Reactive effects draw the last hits, each at its light and by its age.  The buffer is compared with the list of all
hits so far, from which the recent ones are taken that are not too old.
-/

namespace QmkFirmware.RgbMatrix

open QmkFirmware.Memory QmkFirmware.Runs

/-- One entry of the four arrays. -/
structure Hit where
  x : UInt8
  y : UInt8
  index : Led
  tick : UInt16
deriving DecidableEq

/-- The hit after some more milliseconds. -/
def Hit.older (hit : Hit) (deltaTime : UInt32) : Hit :=
  { hit with tick := (hit.tick.toUInt32 + deltaTime).toUInt16 }

/-- The hit is too old for its tick after that time. -/
def Hit.Expires (hit : Hit) (deltaTime : UInt32) : Prop := 65535 < hit.tick.toNat + deltaTime.toNat

instance (hit : Hit) (deltaTime : UInt32) : Decidable (hit.Expires deltaTime) := inferInstanceAs (Decidable (_ < _))

/-! ## The end of a list -/

theorem rtake_append {α : Type} (first second : List α) (n : Nat) (fits : second.length ≤ n) :
    (first ++ second).rtake n = first.rtake (n - second.length) ++ second := by
  have start : (first ++ second).length - n = first.length - (n - second.length) := by
    rw [List.length_append]
    omega
  rw [List.rtake, start, List.drop_append_of_le_length (Nat.sub_le _ _)]
  rfl

theorem rtake_of_length_le {α : Type} {list : List α} {n : Nat} (few : list.length ≤ n) : list.rtake n = list := by
  rw [List.rtake, Nat.sub_eq_zero_of_le few, List.drop_zero]

/-- When the last elements all have a property, they are the last ones with the property. -/
theorem rtake_filter {α : Type} {property : α → Bool} (list : List α) (n : Nat)
    (last : ∀ element ∈ list.rtake n, property element = true) : (list.filter property).rtake n = list.rtake n := by
  have kept : (list.rtake n).filter property = list.rtake n := List.filter_eq_self.mpr last
  -- the last elements are all of a short list, and else exactly `n`
  by_cases few : list.length ≤ n
  · rw [rtake_of_length_le few] at kept ⊢
    rw [kept, rtake_of_length_le few]
  · have length : (list.rtake n).length = n := by
      rw [List.rtake, List.length_drop]
      omega
    have split : list.filter property = (list.take (list.length - n)).filter property ++ list.rtake n := by
      rw [← kept, ← List.filter_append]
      congr 1
      exact (List.take_append_drop _ _).symm
    have rest : n - (list.rtake n).length = 0 := by omega
    rw [split, rtake_append _ _ _ (Nat.le_of_eq length), rest, List.rtake_zero, List.nil_append]

/-! ## Entries -/

namespace LastHit

def entry (hits : LastHit) (i : Nat) : Hit := ⟨hits.x i, hits.y i, hits.index i, hits.tick i⟩

def entries (hits : LastHit) : List Hit := (List.range hits.count).map hits.entry

variable {config : Config} {hits : LastHit}

@[simp] theorem length_entries : hits.entries.length = hits.count := by
  simp [entries]

theorem entries_eq_nil_iff : hits.entries = [] ↔ hits.count = 0 := by
  rw [← List.length_eq_zero_iff, length_entries]

/-! ## New hits -/

def newHit (config : Config) (led : Led) : Hit := ⟨(config.point led).x, (config.point led).y, led, 0⟩

theorem entries_addHit (led : Led) : (hits.addHit config led).entries = hits.entries ++ [newHit config led] := by
  have count : (hits.addHit config led).count = hits.count + 1 := rfl
  have last : (hits.addHit config led).entry hits.count = newHit config led := by
    simp [entry, addHit, newHit]
  rw [entries, count, List.range_succ, List.map_append, List.map_singleton, last]
  congr 1
  apply List.map_congr_left
  intro i member
  have other : i ≠ hits.count := Nat.ne_of_lt (List.mem_range.mp member)
  simp [entry, addHit, other]

theorem entries_foldl_addHit (leds : List Led) :
    (leds.foldl (addHit config) hits).entries = hits.entries ++ leds.map (newHit config) := by
  induction leds generalizing hits with
  | nil => simp
  | cons led leds ih =>
    rw [List.foldl_cons, ih, entries_addHit, List.append_assoc]
    rfl

/-! ## Room for hits -/

theorem makeRoom_of_le {size ledCount : Nat} (room : hits.count + ledCount ≤ size) : hits.makeRoom size ledCount = hits :=
  if_neg (Nat.not_lt.mpr room)

theorem blit_slice {α : Type} (cells : Nat → α) (start : Nat) {i count : Nat} (inside : i < count) :
    blit cells 0 (slice cells start count) i = cells (start + i) := by
  rw [blit_inside (cells i) (Nat.zero_le i) (by simpa using inside), getD_slice (cells i) (by omega), Nat.sub_zero]

/-- When the arrays are full, the first hits go. -/
theorem entries_makeRoom {size ledCount : Nat} (overflow : size < hits.count + ledCount) (full : hits.count = size) :
    (hits.makeRoom size ledCount).entries = hits.entries.drop ledCount := by
  have room : hits.makeRoom size ledCount = _ := if_pos overflow
  rw [room]
  apply List.ext_getElem
  · simp [full]
  · intro i bound _
    rw [length_entries] at bound
    simp [entries, entry, blit_slice _ _ bound]

/-- All hits go where there are as many new ones as there is room. -/
theorem entries_makeRoom_all {size : Nat} (overflow : size < hits.count + size) : (hits.makeRoom size size).entries = [] := by
  have room : hits.makeRoom size size = _ := if_pos overflow
  rw [room, entries_eq_nil_iff]
  exact Nat.sub_self size

/-! ## Age -/

variable {deltaTime : UInt32}

/-- As long as the elapsed time has 16 bits, the comparison of the loop is that of the age. -/
theorem expires_iff {deltaTime : UInt32} (short : deltaTime.toNat ≤ 65535) (i : Nat) :
    65535 - deltaTime < (hits.tick i).toUInt32 ↔ (hits.entry i).Expires deltaTime := by
  have least : deltaTime ≤ 65535 := UInt32.le_iff_toNat_le.mpr short
  have difference : (65535 - deltaTime : UInt32).toNat = 65535 - deltaTime.toNat := UInt32.toNat_sub_of_le _ _ least
  rw [UInt32.lt_iff_toNat_lt, difference, UInt16.toNat_toUInt32, Hit.Expires]
  simp only [entry]
  omega

theorem ageHit_of_expires (short : deltaTime.toNat ≤ 65535) {i : Nat} (old : (hits.entry i).Expires deltaTime) :
    hits.ageHit deltaTime i = { hits with count := hits.count - 1 } :=
  if_pos ((expires_iff short i).mpr old)

theorem ageHit_of_not_expires (short : deltaTime.toNat ≤ 65535) {i : Nat} (young : ¬(hits.entry i).Expires deltaTime) :
    (hits.ageHit deltaTime i).count = hits.count ∧
    ∀ j, (hits.ageHit deltaTime i).entry j = if j = i then (hits.entry j).older deltaTime else hits.entry j := by
  have turn : hits.ageHit deltaTime i = _ := if_neg (mt (expires_iff short i).mp young)
  rw [turn]
  constructor
  · rfl
  · intro j
    by_cases same : j = i
    · simp [entry, Hit.older, same]
    · simp [entry, same]

theorem entry_mem {i : Nat} (inside : i < hits.count) : hits.entry i ∈ hits.entries :=
  List.mem_map_of_mem (List.mem_range.mpr inside)

/-- When no hit expires, the loop makes all of them older. -/
theorem entries_age_of_none (short : deltaTime.toNat ≤ 65535) (none : ∀ hit ∈ hits.entries, ¬hit.Expires deltaTime) :
    (hits.age deltaTime).entries = hits.entries.map fun hit => hit.older deltaTime := by
  have loop : ∀ turns ≤ hits.count, ((List.range turns).foldl (ageHit deltaTime) hits).count = hits.count ∧
      ∀ j, ((List.range turns).foldl (ageHit deltaTime) hits).entry j =
        if j < turns then (hits.entry j).older deltaTime else hits.entry j := by
    intro turns bound
    induction turns with
    | zero => simp
    | succ turns ih =>
      obtain ⟨count, cells⟩ := ih (by omega)
      rw [List.range_succ, List.foldl_append, List.foldl_cons, List.foldl_nil]
      generalize (List.range turns).foldl (ageHit deltaTime) hits = before at count cells
      -- the turn finds its hit as it was before the loop
      have same : before.entry turns = hits.entry turns := by simp [cells]
      have young : ¬(before.entry turns).Expires deltaTime := same ▸ none _ (entry_mem (by omega))
      have turn := ageHit_of_not_expires short young
      constructor
      · rw [turn.1, count]
      · intro j
        rw [turn.2, cells]
        by_cases this : j = turns
        · simp [this]
        · have beside : j < turns + 1 ↔ j < turns := by omega
          simp [this, beside]
  have all := loop hits.count (Nat.le_refl _)
  rw [entries, age, all.1, entries, List.map_map]
  apply List.map_congr_left
  intro j member
  rw [all.2, if_pos (List.mem_range.mp member)]
  rfl

/-- When all hits expire, none is left. -/
theorem entries_age_of_all (short : deltaTime.toNat ≤ 65535) (all : ∀ hit ∈ hits.entries, hit.Expires deltaTime) :
    (hits.age deltaTime).entries = [] := by
  have loop : ∀ turns ≤ hits.count,
      (List.range turns).foldl (ageHit deltaTime) hits = { hits with count := hits.count - turns } := by
    intro turns bound
    induction turns with
    | zero => rfl
    | succ turns ih =>
      have old : (hits.entry turns).Expires deltaTime := all _ (entry_mem (by omega))
      rw [List.range_succ, List.foldl_append, ih (by omega), List.foldl_cons, List.foldl_nil]
      apply ageHit_of_expires short
      exact old
  rw [entries_eq_nil_iff, age, loop hits.count (Nat.le_refl _)]
  exact Nat.sub_self hits.count

theorem entries_age_of_empty (empty : hits.entries = []) : (hits.age deltaTime).entries = [] := by
  rw [entries_eq_nil_iff] at empty
  rw [age, empty, List.range_zero, List.foldl_nil, entries_eq_nil_iff]
  exact empty

end LastHit

/-! ## All hits -/

/-- All hits so far, the oldest first, with the time that the task has counted since each of them. -/
abbrev History := List (Led × Nat)

namespace History

def Fits (hit : Led × Nat) : Prop := hit.2 ≤ 65535

instance : DecidablePred Fits := fun _ => inferInstanceAs (Decidable (_ ≤ _))

/-- The most recent of the hits whose age has 16 bits. -/
def recent (size : Nat) (history : History) : History := (history.filter Fits).rtake size

def later (elapsed : Nat) (history : History) : History := history.map fun hit => (hit.1, hit.2 + elapsed)

def add (leds : List Led) (history : History) : History := history ++ leds.map fun led => (led, 0)

/-- The entry of the buffer for a hit. -/
def shown (config : Config) (hit : Led × Nat) : Hit :=
  ⟨(config.point hit.1).x, (config.point hit.1).y, hit.1, UInt16.ofNat hit.2⟩

/-- The oldest hit is the first one. -/
def Ordered (history : History) : Prop := history.Pairwise fun first second => second.2 ≤ first.2

variable {history : History} {size elapsed : Nat} {leds : List Led}

theorem recent_add (fits : leds.length ≤ size) :
    (history.add leds).recent size = history.recent (size - leds.length) ++ leds.map fun led => (led, 0) := by
  have new : (leds.map fun led => (led, 0)).filter Fits = leds.map fun led => (led, 0) := by
    rw [List.filter_eq_self]
    intro hit member
    obtain ⟨led, _, rfl⟩ := List.mem_map.mp member
    exact decide_eq_true (Nat.zero_le _)
  rw [recent, add, List.filter_append, new, rtake_append _ _ _ (by simpa using fits), List.length_map]
  rfl

/-- The hits that still fit later. -/
theorem filter_later : (history.later elapsed).filter Fits =
    later elapsed ((history.filter Fits).filter fun hit => hit.2 + elapsed ≤ 65535) := by
  rw [later, later, List.filter_map, List.filter_filter]
  congr 1
  apply List.filter_congr
  intro hit _
  rw [Bool.eq_iff_iff]
  simp only [Function.comp_apply, Bool.and_eq_true, decide_eq_true_eq]
  simp only [Fits]
  omega

theorem recent_later : (history.later elapsed).recent size =
    later elapsed (((history.filter Fits).filter fun hit => hit.2 + elapsed ≤ 65535).rtake size) := by
  rw [recent, filter_later, List.rtake, later, List.length_map, ← List.map_drop]
  rfl

theorem recent_later_of_none (none : ∀ hit ∈ history.recent size, hit.2 + elapsed ≤ 65535) :
    (history.later elapsed).recent size = (history.recent size).later elapsed := by
  rw [recent_later, rtake_filter _ _ fun hit member => decide_eq_true (none hit member)]
  rfl

theorem recent_later_of_all (ordered : history.Ordered) (all : ∀ hit ∈ history.recent size, 65535 < hit.2 + elapsed) :
    (history.later elapsed).recent size = [] := by
  rw [recent_later]
  cases shown : history.recent size with
  | nil =>
    have none : size = 0 ∨ history.filter Fits = [] := by
      have length := congrArg List.length shown
      rw [recent, List.rtake, List.length_drop, List.length_nil] at length
      rw [← List.length_eq_zero_iff]
      omega
    cases none with
    | inl zero => rw [zero, List.rtake_zero, later, List.map_nil]
    | inr none => rw [none, List.filter_nil, List.rtake_nil, later, List.map_nil]
  | cons second rest =>
    -- a hit that is not among the recent ones is older than the first of them
    have split : history.filter Fits = (history.filter Fits).take _ ++ history.recent size :=
      (List.take_append_drop _ _).symm
    have fitting : Ordered (history.filter Fits) := List.Pairwise.filter _ ordered
    rw [split, Ordered, List.pairwise_append] at fitting
    have newer : second ∈ history.recent size := by simp [shown]
    have none : (history.filter Fits).filter (fun hit => hit.2 + elapsed ≤ 65535) = [] := by
      rw [List.filter_eq_nil_iff]
      intro hit member
      rw [decide_eq_true_eq, Nat.not_le]
      rw [split] at member
      cases List.mem_append.mp member with
      | inl former => exact Nat.lt_of_lt_of_le (all second newer) (Nat.add_le_add_right (fitting.2.2 hit former second newer) _)
      | inr recent => exact all hit recent
    rw [none, List.rtake_nil, later, List.map_nil]

theorem length_recent : (history.recent size).length = min size (history.filter Fits).length := by
  rw [recent, List.rtake, List.length_drop]
  omega

theorem recent_of_room {count : Nat} (room : (history.recent size).length + count ≤ size) :
    history.recent (size - count) = history.recent size := by
  rw [length_recent] at room
  by_cases none : count = 0
  · rw [none, Nat.sub_zero]
  · have few : (history.filter Fits).length ≤ size - count := by omega
    rw [recent, rtake_of_length_le few, recent, rtake_of_length_le (Nat.le_trans few (Nat.sub_le _ _))]

theorem recent_of_full {count : Nat} (full : (history.recent size).length = size) (fits : count ≤ size) :
    history.recent (size - count) = (history.recent size).drop count := by
  rw [length_recent] at full
  rw [recent, recent, List.rtake, List.rtake, List.drop_drop]
  congr 1
  omega

theorem ordered_later (ordered : history.Ordered) : (history.later elapsed).Ordered :=
  List.Pairwise.map _ (fun _ _ le => Nat.add_le_add_right le elapsed) ordered

theorem ordered_add (ordered : history.Ordered) : (history.add leds).Ordered := by
  rw [Ordered, add, List.pairwise_append]
  constructor
  · exact ordered
  constructor
  · rw [List.pairwise_map]
    exact List.pairwise_of_forall fun _ _ => Nat.le_refl 0
  · intro hit _ new member
    obtain ⟨led, _, rfl⟩ := List.mem_map.mp member
    exact Nat.zero_le _

end History

/-! ## Runs -/

inductive Op where
  | hit (row col : UInt8) (pressed : Bool)
  | timers (reading : Reading)

/-- The matrix with the list of all hits since its start. -/
structure Tracked where
  state : State
  history : History

namespace Tracked

variable (config : Config)

def step (tracked : Tracked) : Op → Tracked
  | .hit row col pressed =>
    let leds := if config.isKeyboardMaster then config.hitLeds row col pressed else []
    ⟨processRgbMatrix config row col pressed tracked.state, tracked.history.add leds⟩
  | .timers reading =>
    ⟨tracked.state.rgbTaskTimers reading, tracked.history.later (tracked.state.deltaTime reading).toNat⟩

/-- The buffer has the most recent hits whose age has 16 bits, each with its light, its place and its age. -/
def Exact (tracked : Tracked) : Prop :=
  tracked.state.lastHitBuffer.entries =
    (tracked.history.recent config.ledHitsToRemember).map (History.shown config)

instance (tracked : Tracked) : Decidable (tracked.Exact config) := inferInstanceAs (Decidable (_ = _))

end Tracked

/-- What goes wrong is left out: that new hits come which have no room in arrays that are not full, that some hits
expire and others do not, and that there are hits when the elapsed time has more than 16 bits. -/
def State.Regular (config : Config) (s : State) : Op → Prop
  | .hit row col pressed =>
    config.isKeyboardMaster = true →
    s.lastHitBuffer.count + (config.hitLeds row col pressed).length ≤ config.ledHitsToRemember ∨
    s.lastHitBuffer.count = config.ledHitsToRemember ∨
    (config.hitLeds row col pressed).length = config.ledHitsToRemember
  | .timers reading =>
    s.lastHitBuffer.entries = [] ∨
    (s.deltaTime reading).toNat ≤ 65535 ∧
      ((∀ hit ∈ s.lastHitBuffer.entries, ¬hit.Expires (s.deltaTime reading)) ∨
        ∀ hit ∈ s.lastHitBuffer.entries, hit.Expires (s.deltaTime reading))


instance (config : Config) (s : State) (op : Op) : Decidable (s.Regular config op) :=
  match op with
  | .hit _ _ _ => inferInstanceAs (Decidable (_ → _))
  | .timers _ => inferInstanceAs (Decidable (_ ∨ _))

namespace Tracked

variable {config : Config} {tracked : Tracked}

theorem hitLeds_le (config : Config) (row col : UInt8) (pressed : Bool) :
    (config.hitLeds row col pressed).length ≤ config.ledHitsToRemember := by
  have all := config.leds_le row col
  rw [Config.hitLeds]
  split
  · rw [Config.mapRowColumnToLed, List.length_append]
    split at all
    next led => simpa [led] using all
    next none => simpa [none] using all
  · exact Nat.zero_le _

theorem shown_new (leds : List Led) :
    (leds.map fun led => (led, 0)).map (History.shown config) = leds.map (LastHit.newHit config) := by
  rw [List.map_map]
  rfl

theorem expires_shown {hit : Led × Nat} (fits : hit.2 ≤ 65535) (deltaTime : UInt32) :
    (History.shown config hit).Expires deltaTime ↔ 65535 < hit.2 + deltaTime.toNat := by
  have tick : (History.shown config hit).tick.toNat = hit.2 := UInt16.toNat_ofNat_of_lt' (Nat.lt_succ_of_le fits)
  rw [Hit.Expires, tick]

theorem older_shown {hit : Led × Nat} {deltaTime : UInt32} (fits : hit.2 + deltaTime.toNat ≤ 65535) :
    (History.shown config hit).older deltaTime = History.shown config (hit.1, hit.2 + deltaTime.toNat) := by
  have tick : ((UInt16.ofNat hit.2).toUInt32 + deltaTime).toUInt16 = UInt16.ofNat (hit.2 + deltaTime.toNat) := by
    have now : hit.2 < 2 ^ 16 := by omega
    have later : hit.2 + deltaTime.toNat < 2 ^ 16 := by omega
    apply UInt16.toNat_inj.mp
    rw [UInt32.toNat_toUInt16, UInt32.toNat_add, UInt16.toNat_toUInt32, UInt16.toNat_ofNat_of_lt' now,
      UInt16.toNat_ofNat_of_lt' later]
    omega
  simp only [History.shown, Hit.older, tick]

variable (exact : tracked.Exact config)

include exact

theorem count_eq : tracked.state.lastHitBuffer.count = (tracked.history.recent config.ledHitsToRemember).length := by
  rw [← LastHit.length_entries, exact, List.length_map]

/-- What is kept of the hits when there is room for the new ones. -/
theorem entries_room {ledCount : Nat} (fits : ledCount ≤ config.ledHitsToRemember)
    (regular : tracked.state.lastHitBuffer.count + ledCount ≤ config.ledHitsToRemember ∨
      tracked.state.lastHitBuffer.count = config.ledHitsToRemember ∨ ledCount = config.ledHitsToRemember) :
    (tracked.state.lastHitBuffer.makeRoom config.ledHitsToRemember ledCount).entries =
      (tracked.history.recent (config.ledHitsToRemember - ledCount)).map (History.shown config) := by
  have count := count_eq exact
  by_cases room : tracked.state.lastHitBuffer.count + ledCount ≤ config.ledHitsToRemember
  · rw [LastHit.makeRoom_of_le room, exact, History.recent_of_room (count ▸ room)]
  · have overflow := Nat.not_le.mp room
    -- the arrays move down as far as the first hits have to go
    cases regular.resolve_left room with
    | inl full =>
      rw [LastHit.entries_makeRoom overflow full, exact, ← List.map_drop,
        History.recent_of_full (count ▸ full) fits]
    | inr all =>
      rw [all] at overflow ⊢
      rw [LastHit.entries_makeRoom_all overflow, Nat.sub_self, History.recent, List.rtake_zero, List.map_nil]

theorem exact_hit (row col : UInt8) (pressed : Bool)
    (regular : tracked.state.Regular config (.hit row col pressed)) :
    (tracked.step config (.hit row col pressed)).Exact config := by
  rw [Exact, step]
  -- the half that is not the master keeps no history
  by_cases master : config.isKeyboardMaster = true
  · have fits := hitLeds_le config row col pressed
    have room := entries_room exact fits (regular master)
    simp only [processRgbMatrix, if_pos master]
    rw [LastHit.entries_foldl_addHit, room, History.recent_add fits, List.map_append, shown_new]
  · simp only [processRgbMatrix, if_neg master, History.add, List.map_nil, List.append_nil]
    exact exact

theorem exact_timers (ordered : tracked.history.Ordered) (reading : Reading)
    (regular : tracked.state.Regular config (.timers reading)) :
    (tracked.step config (.timers reading)).Exact config := by
  have fits : ∀ hit ∈ tracked.history.recent config.ledHitsToRemember, hit.2 ≤ 65535 := by
    intro hit member
    exact of_decide_eq_true (List.mem_filter.mp (List.mem_of_mem_drop member)).2
  have buffered : ∀ hit ∈ tracked.history.recent config.ledHitsToRemember,
      History.shown config hit ∈ tracked.state.lastHitBuffer.entries := by
    intro hit member
    rw [exact]
    exact List.mem_map_of_mem member
  have buffer : (tracked.step config (.timers reading)).state.lastHitBuffer =
      tracked.state.lastHitBuffer.age (tracked.state.deltaTime reading) := rfl
  have history : (tracked.step config (.timers reading)).history =
      tracked.history.later (tracked.state.deltaTime reading).toNat := rfl
  rw [Exact, buffer, history]
  -- without hits the loop has no turn, and nothing older than 16 bits comes back
  cases regular with
  | inl empty =>
    have none : tracked.history.recent config.ledHitsToRemember = [] := by
      rw [exact, List.map_eq_nil_iff] at empty
      exact empty
    rw [LastHit.entries_age_of_empty empty, History.recent_later_of_all ordered (by simp [none]), List.map_nil]
  | inr regular =>
    obtain ⟨short, same⟩ := regular
    cases same with
    | inl none =>
      have young : ∀ hit ∈ tracked.history.recent config.ledHitsToRemember,
          hit.2 + (tracked.state.deltaTime reading).toNat ≤ 65535 := by
        intro hit member
        have keeps := none _ (buffered hit member)
        rwa [expires_shown (fits hit member), Nat.not_lt] at keeps
      rw [LastHit.entries_age_of_none short none, exact, History.recent_later_of_none young, History.later,
        List.map_map, List.map_map]
      apply List.map_congr_left
      intro hit member
      exact older_shown (young hit member)
    | inr all =>
      have old : ∀ hit ∈ tracked.history.recent config.ledHitsToRemember,
          65535 < hit.2 + (tracked.state.deltaTime reading).toNat := by
        intro hit member
        exact (expires_shown (fits hit member) _).mp (all _ (buffered hit member))
      rw [LastHit.entries_age_of_all short all, History.recent_later_of_all ordered old, List.map_nil]

omit exact

theorem ordered_step (config : Config) (ordered : tracked.history.Ordered) (op : Op) : (tracked.step config op).history.Ordered := by
  cases op with
  | hit row col pressed => exact History.ordered_add ordered
  | timers reading => exact History.ordered_later ordered

/-- The history is empty at the start. -/
def start (config : Config) (s : State) : Tracked := ⟨rgbMatrixInit config s, []⟩

def run (config : Config) (s : State) (ops : List Op) : Tracked := ops.foldl (step config) (start config s)

/-- In a run that is regular in every step, the buffer is exact after every step. -/
theorem exact_of_regular (config : Config) (s : State) (ops : List Op)
    (regular : EveryStep (fun earlier op => (run config s earlier).state.Regular config op) ops) (n : Nat) :
    (run config s (ops.take n)).Exact config := by
  have initial : (start config s).Exact config ∧ (start config s).history.Ordered := by
    constructor
    · rw [Exact, start, History.recent, List.filter_nil, List.rtake_nil, List.map_nil]
      rfl
    · exact List.Pairwise.nil
  have both : (run config s (ops.take n)).Exact config ∧ (run config s (ops.take n)).history.Ordered := by
    apply foldl_everyStep (fun earlier op => (run config s earlier).state.Regular config op)
      (fun _ (tracked : Tracked) => tracked.Exact config ∧ tracked.history.Ordered) initial _ _ (regular.take n)
    intro earlier op regular before
    have ordered := ordered_step config before.2 op
    cases op with
    | hit row col pressed => exact ⟨exact_hit before.1 row col pressed regular, ordered⟩
    | timers reading => exact ⟨exact_timers before.1 before.2 reading regular, ordered⟩
  exact both.1

end Tracked

/-! ## One light for each key -/

/-- A keyboard of one row, with a light under every key. -/
def oneRow : Config where
  ledHitsToRemember := 8
  ledHitsToRemember_lt := by decide
  isKeyboardMaster := true
  keyreleases := false
  mapRowColumnToLedKb _ _ := []
  matrixCo _ col := col
  point led := ⟨led, 0⟩
  leds_le row col := by
    split <;> decide

namespace Tracked

def idle : State where
  suspendState := false
  enable := true
  mode := 1
  anykeyTimer := 0
  timeout := 60000
  timerBuffer := 0
  lastHitBuffer := ⟨0, fun _ => 0, fun _ => 0, fun _ => 0, fun _ => 0⟩

/-- Two hits, none of which expires. -/
theorem typing_exact :
    (run oneRow idle ([.hit 0 3 true, .timers ⟨100, 100⟩, .hit 0 4 true, .timers ⟨200, 200⟩].take 4)).Exact oneRow :=
  exact_of_regular oneRow idle _ (by decide +kernel) 4

/-- The first hit expires, and the second one is taken out in its place. -/
theorem expiry_not_exact :
    ¬(run oneRow idle [.hit 0 3 true, .timers ⟨40000, 40000⟩, .hit 0 4 true, .timers ⟨70000, 70000⟩]).Exact oneRow := by
  decide +kernel

end Tracked

end QmkFirmware.RgbMatrix
