import QmkFirmware.KeyOverrides.Model

/-! # The invariant of the override machinery

`Inv` ties the static variables to the keys that are physically held, `Reported` the codes in
the report to the keys and the override they belong to.  Deactivating and activating an
override keep both.
-/

namespace QmkFirmware.KeyOverrides

/-! ## The report -/

/-- The host has one usage for all system codes and one for all consumer codes. -/
def sharesUsage (code c : BitVec 8) : Bool :=
  isSystemKeycode code.toNat && isSystemKeycode c.toNat || isConsumerKeycode code.toNat && isConsumerKeycode c.toNat

/-- The codes that registering `code` takes out of the report. -/
def displaces (code c : BitVec 8) : Bool := sharesUsage code c || decide (oppositeDirection code = some c)

/-- The codes that unregistering `code` takes out of the report. -/
def releases (code c : BitVec 8) : Bool := isReportable code.toNat && decide (c = code) || sharesUsage code c

section Report

variable (s : State)

theorem isReportable_eq (code : Nat) : isReportable code =
    (isBasicKeycode code || isModifierKeycode code || isSystemKeycode code || isConsumerKeycode code ||
      isMouseKeycode code) := by
  rw [Bool.eq_iff_iff]
  simp only [isReportable, isBasicKeycode, isModifierKeycode, isSystemKeycode, isConsumerKeycode, isMouseKeycode,
    Bool.or_eq_true, decide_eq_true_eq]
  omega

/-- Keys, modifiers and the mouse have no usage. -/
theorem sharesUsage_eq_false {code : BitVec 8}
    (kind : isBasicKeycode code.toNat = true ∨ isModifierKeycode code.toNat = true ∨ isMouseKeycode code.toNat = true)
    (c : BitVec 8) : sharesUsage code c = false := by
  have system : isSystemKeycode code.toNat = false := by
    simp only [isBasicKeycode, isModifierKeycode, isMouseKeycode, isSystemKeycode, decide_eq_true_eq,
      decide_eq_false_iff_not] at *
    omega
  have consumer : isConsumerKeycode code.toNat = false := by
    simp only [isBasicKeycode, isModifierKeycode, isMouseKeycode, isConsumerKeycode, decide_eq_true_eq,
      decide_eq_false_iff_not] at *
    omega
  rw [sharesUsage, system, consumer, Bool.false_and, Bool.false_and, Bool.or_false]

theorem oppositeDirection_eq_none (code : BitVec 8) (range : code.toNat < 0xCD ∨ 0xDF < code.toNat) :
    oppositeDirection code = none := by
  unfold oppositeDirection
  split <;> first | omega | rfl

theorem registered_setRegistered (code c : BitVec 8) (down : Bool) :
    (setRegistered code down s).registered c = if c = code then down else s.registered c := by
  simp [setRegistered, Function.update_apply]

theorem registered_hostSend (ofKind : Nat → Bool) (usage : Option (BitVec 8)) (c : BitVec 8) :
    (hostSend ofKind usage s).registered c = if ofKind c.toNat then decide (usage = some c) else s.registered c := rfl

theorem registered_hostSend_some {ofKind : Nat → Bool} {code : BitVec 8} (own : ofKind code.toNat = true)
    (c : BitVec 8) : (hostSend ofKind (some code) s).registered c = true ↔
      c = code ∨ s.registered c = true ∧ ofKind c.toNat = false := by
  rw [registered_hostSend]
  split
  · next same =>
    rw [decide_eq_true_eq, Option.some_inj, eq_comm]
    simp [same]
  · next other =>
    have apart : c ≠ code := by
      rintro rfl
      exact other own
    simp [other, apart]

theorem registered_registerMouse (code c : BitVec 8) : (registerMouse code true s).registered c = true ↔
    c = code ∨ s.registered c = true ∧ oppositeDirection code ≠ some c := by
  unfold registerMouse
  cases oppositeDirection code with
  | none => simp [addKey, registered_setRegistered]
  | some other =>
    simp only [addKey, delKey, registered_setRegistered]
    grind

/-- `register_code` adds its code and takes out what cannot stay beside it. -/
theorem registered_registerCode_iff (code c : BitVec 8) : (registerCode code s).registered c = true ↔
    c = code ∧ isReportable code.toNat = true ∨ s.registered c = true ∧ displaces code c = false := by
  unfold registerCode displaces
  rw [isReportable_eq]
  -- by the kind of the code, in the order of the source
  split
  · next basic =>
    have range : 0x04 ≤ code.toNat ∧ code.toNat ≤ 0xA4 := by simpa [isBasicKeycode] using basic
    have direction := oppositeDirection_eq_none code (by omega)
    simp [basic, sharesUsage_eq_false (.inl basic), direction, addKey, registered_setRegistered]
  · split
    · next modifier =>
      have range : 0xE0 ≤ code.toNat ∧ code.toNat ≤ 0xE7 := by simpa [isModifierKeycode] using modifier
      have direction := oppositeDirection_eq_none code (by omega)
      simp [modifier, sharesUsage_eq_false (.inr (.inl modifier)), direction, registered_setRegistered]
    · split
      · next system =>
        have range : 0xA5 ≤ code.toNat ∧ code.toNat ≤ 0xA7 := by simpa [isSystemKeycode] using system
        have direction := oppositeDirection_eq_none code (by omega)
        have consumer : isConsumerKeycode code.toNat = false := by
          simp only [isConsumerKeycode, decide_eq_false_iff_not]
          omega
        rw [registered_hostSend_some s system]
        simp [sharesUsage, system, consumer, direction]
      · split
        · next system consumer =>
          have range : 0xA8 ≤ code.toNat ∧ code.toNat ≤ 0xC2 := by simpa [isConsumerKeycode] using consumer
          have direction := oppositeDirection_eq_none code (by omega)
          rw [registered_hostSend_some s consumer]
          simp [sharesUsage, system, consumer, direction]
        · split
          · next system consumer mouse =>
            simp [registered_registerMouse, sharesUsage_eq_false (.inr (.inr mouse)), mouse]
          · next basic modifier system consumer mouse =>
            have range : code.toNat < 0xCD ∨ 0xDF < code.toNat := by
              simp only [isMouseKeycode, decide_eq_true_eq] at mouse
              omega
            simp [sharesUsage, basic, modifier, system, consumer, mouse, oppositeDirection_eq_none code range]

theorem registered_hostSend_none {ofKind : Nat → Bool} {code : BitVec 8} (own : ofKind code.toNat = true)
    (c : BitVec 8) : (hostSend ofKind none s).registered c = true ↔
      s.registered c = true ∧ c ≠ code ∧ ofKind c.toNat = false := by
  rw [registered_hostSend]
  split
  · next same => simp [same]
  · next other =>
    have apart : c ≠ code := by
      rintro rfl
      exact other own
    simp [other, apart]

/-- `unregister_code` takes out its code, and every code that shares its usage. -/
theorem registered_unregisterCode_iff (code c : BitVec 8) : (unregisterCode code s).registered c = true ↔
    s.registered c = true ∧ releases code c = false := by
  unfold unregisterCode releases
  rw [isReportable_eq]
  -- a mouse key takes only itself out, although pressing it takes out its opposite
  split
  · next basic => simp [basic, sharesUsage_eq_false (.inl basic), delKey, registered_setRegistered, and_comm]
  · split
    · next modifier =>
      simp [modifier, sharesUsage_eq_false (.inr (.inl modifier)), registered_setRegistered, and_comm]
    · split
      · next system =>
        have consumer : isConsumerKeycode code.toNat = false := by
          simp only [isSystemKeycode, isConsumerKeycode, decide_eq_true_eq, decide_eq_false_iff_not] at *
          omega
        rw [registered_hostSend_none s system]
        simp [sharesUsage, system, consumer]
      · split
        · next system consumer =>
          rw [registered_hostSend_none s consumer]
          simp [sharesUsage, system, consumer]
        · split
          · next mouse =>
            simp [registerMouse, delKey, registered_setRegistered, sharesUsage_eq_false (.inr (.inr mouse)), mouse,
              and_comm]
          · next basic modifier system consumer mouse =>
            simp [sharesUsage, basic, modifier, system, consumer, mouse]

theorem registerMouse_eq (code : BitVec 8) (pressed : Bool) :
    registerMouse code pressed s = { s with registered := (registerMouse code pressed s).registered } := by
  unfold registerMouse
  split <;> rfl

theorem registerCode_eq (code : BitVec 8) :
    registerCode code s = { s with registered := (registerCode code s).registered } := by
  unfold registerCode
  split_ifs
  · rfl
  · rfl
  · rfl
  · rfl
  · exact registerMouse_eq s code true
  · rfl

theorem unregisterCode_eq (code : BitVec 8) :
    unregisterCode code s = { s with registered := (unregisterCode code s).registered } := by
  unfold unregisterCode
  split_ifs <;> rfl

theorem unregisterReplacement_eq (o : KeyOverride) :
    unregisterReplacement o s = { s with registered := (unregisterReplacement o s).registered } := by
  unfold unregisterReplacement
  dsimp only
  split
  · split
    · rfl
    · exact unregisterCode_eq s _
  · rfl

theorem lowByte_toNat {code : Keycode} (basic : isBasicKeycode code.toNat = true) :
    (lowByte code).toNat = code.toNat := by
  simp only [isBasicKeycode, decide_eq_true_eq] at basic
  rw [lowByte, BitVec.toNat_setWidth]
  omega

/-- Adding a basic key and registering it are the same for the report. -/
theorem addKey_eq_registerCode {code : BitVec 8} (basic : isBasicKeycode code.toNat = true) :
    addKey code s = registerCode code s := by
  rw [registerCode, if_pos basic]

theorem delKey_eq_unregisterCode {code : BitVec 8} (basic : isBasicKeycode code.toNat = true) :
    delKey code s = unregisterCode code s := by
  rw [unregisterCode, if_pos basic]

theorem unregisterTrigger_eq_unregisterCode (o : KeyOverride) :
    unregisterTrigger o s = unregisterCode (lowByte o.trigger) s := by
  unfold unregisterTrigger
  split
  · next basic => exact delKey_eq_unregisterCode s (by rwa [lowByte_toNat basic])
  · rfl

theorem unregisterTrigger_eq (o : KeyOverride) :
    unregisterTrigger o s = { s with registered := (unregisterTrigger o s).registered } := by
  rw [unregisterTrigger_eq_unregisterCode]
  exact unregisterCode_eq s _

theorem processAction_eq (keycode : Keycode) (pressed : Bool) :
    processAction keycode pressed s = { s with registered := (processAction keycode pressed s).registered } := by
  unfold processAction
  generalize actionCodes keycode = codes
  induction codes generalizing s with
  | nil => rfl
  | cons code codes ih =>
    rw [List.foldl_cons]
    cases pressed with
    | true =>
      rw [if_pos rfl, ih, registerCode_eq]
    | false =>
      rw [if_neg (by decide), ih, unregisterCode_eq]

/-- What `register_code` adds is a code of the report. -/
theorem registered_registerCode {code c : BitVec 8} (down : (registerCode code s).registered c = true) :
    s.registered c = true ∨ c = code ∧ isReportable c.toNat = true := by
  rcases (registered_registerCode_iff s code c).mp down with ⟨rfl, reportable⟩ | ⟨before, _⟩
  · exact .inr ⟨rfl, reportable⟩
  · exact .inl before

theorem registered_of_unregisterCode {code c : BitVec 8} (down : (unregisterCode code s).registered c = true) :
    s.registered c = true :=
  ((registered_unregisterCode_iff s code c).mp down).1

theorem registered_unregisterCode {code c : BitVec 8} (reportable : isReportable code.toNat = true)
    (down : (unregisterCode code s).registered c = true) : s.registered c = true ∧ c ≠ code := by
  obtain ⟨before, kept⟩ := (registered_unregisterCode_iff s code c).mp down
  refine ⟨before, ?_⟩
  rintro rfl
  simp [releases, reportable] at kept

theorem registered_of_unregisterTrigger {o : KeyOverride} {c : BitVec 8}
    (down : (unregisterTrigger o s).registered c = true) : s.registered c = true := by
  rw [unregisterTrigger_eq_unregisterCode] at down
  exact registered_of_unregisterCode s down

/-- Its low byte is all of a replacement that deactivation sees, so that it is below `SAFE_RANGE`. -/
theorem registered_unregisterReplacement_iff (o : KeyOverride) (c : BitVec 8) :
    (unregisterReplacement o s).registered c = true ↔ s.registered c = true ∧
      (firesCustomAction o false = true → releases (lowByte (clearModsFrom o.replacement)) c = false) := by
  have small : (lowByte (clearModsFrom o.replacement)).toNat < safeRange :=
    Nat.lt_trans (lowByte (clearModsFrom o.replacement)).isLt (by decide)
  have zero : releases 0 c = false := rfl
  unfold unregisterReplacement
  dsimp only
  generalize lowByte (clearModsFrom o.replacement) = code at small ⊢
  by_cases fires : firesCustomAction o false = true
  · by_cases nothing : code = 0
    · subst nothing
      rw [zero]
      simp
    · rw [if_pos ⟨nothing, small, fires⟩]
      simp only [fires, true_imp_iff]
      split
      · next basic =>
        rw [delKey_eq_unregisterCode s basic]
        exact registered_unregisterCode_iff s code c
      · exact registered_unregisterCode_iff s code c
  · simp [fires]

theorem registered_of_unregisterReplacement {o : KeyOverride} {c : BitVec 8}
    (down : (unregisterReplacement o s).registered c = true) : s.registered c = true :=
  ((registered_unregisterReplacement_iff s o c).mp down).1

/-- The replacement goes unless the custom action keeps it. -/
theorem registered_unregisterReplacement {o : KeyOverride} {c : BitVec 8} (fires : firesCustomAction o false = true)
    (reportable : isReportable c.toNat = true) (down : (unregisterReplacement o s).registered c = true) :
    c ≠ lowByte (clearModsFrom o.replacement) := by
  rintro rfl
  have kept := ((registered_unregisterReplacement_iff s o _).mp down).2 fires
  simp [releases, reportable] at kept

/-- The report is all that unregistering the replacement looks at. -/
theorem unregisterReplacement_congr (o : KeyOverride) {other : State} (same : other.registered = s.registered) :
    (unregisterReplacement o other).registered = (unregisterReplacement o s).registered := by
  funext c
  rw [Bool.eq_iff_iff, registered_unregisterReplacement_iff, registered_unregisterReplacement_iff, same]

end Report

/-! ## The invariant -/

/-- The tables for which the machinery can undo what it does: triggers are not modifiers, a
trigger that is registered again is one that its own key unregisters, a custom action that lets
the replacement be registered lets it be unregistered, and an override without a trigger needs
some modifier. -/
structure Sane (o : KeyOverride) : Prop where
  notModifier : isModifierKeycode o.trigger.toNat = false
  reregistered : o.options &&& koOptionNoReregisterTrigger = 0 → o.trigger.toNat < safeRange →
    o.trigger.toNat ≤ qkModsMax
  custom : firesCustomAction o true = true → firesCustomAction o false = true
  needsMods : o.trigger = kcNo → o.triggerMods ≠ 0

def Table.Sane (table : Table) : Prop := ∀ p ∈ table.pointers, KeyOverrides.Sane (table.override p)

/-- What is deferred belongs to the active override, or is a trigger that is still held. -/
inductive Deferred (table : Table) (held : List Keycode) (s : State) (p : Nat) : Prop where
  | replacement (active : s.activeOverride = some p)
      (code : s.deferredRegister = clearModsFrom (table.override p).replacement)
      (registers : registersReplacement (table.override p) = true)
  | trigger (code : s.deferredRegister = (table.override p).trigger)
      (down : (table.override p).trigger ∈ held) (small : (table.override p).trigger.toNat ≤ qkModsMax)

structure Inv (table : Table) (held : List Keycode) (s : State) : Prop where
  last : s.lastKeyDown ≠ 0 → s.lastKeyDown ∈ held
  lastNotModifier : isModifierKeycode s.lastKeyDown.toNat = false
  active : ∀ p, s.activeOverride = some p →
    p ∈ table.pointers ∧ ((table.override p).trigger ≠ kcNo → (table.override p).trigger ∈ held)
  inactive : s.activeOverride = none → s.suppressedMods = 0 ∧ s.weakOverrideMods = 0
  deferred : s.deferredRegister ≠ 0 → ∃ p ∈ table.pointers, s.deferredBy = some p ∧ Deferred table held s p

/-- Every code of the report belongs to a key that is held or to the active override. -/
structure Reported (table : Table) (held : List Keycode) (s : State) : Prop where
  reportable : ∀ c, s.registered c = true → isReportable c.toNat = true
  owner : ∀ c, s.registered c = true → (∃ k ∈ held, c ∈ actionCodes k) ∨
    ∃ p, s.activeOverride = some p ∧ registersReplacement (table.override p) = true ∧
      c = lowByte (clearModsFrom (table.override p).replacement)

/-- No override is active while overrides are switched off. -/
def Idle (s : State) : Prop := s.enabled = false → s.activeOverride = none

/-- An override without a trigger is active only while some modifier is held. -/
def Anchored (table : Table) (held : List Keycode) (s : State) : Prop :=
  ∀ p, s.activeOverride = some p → (table.override p).trigger = kcNo →
    ∃ m ∈ held, isModifierKeycode m.toNat = true

section Invariant

variable {table : Table} {held more : List Keycode} {s : State}

theorem Inv.congr (inv : Inv table held s) (registered : BitVec 8 → Bool) :
    Inv table held { s with registered := registered } := by
  refine ⟨inv.last, inv.lastNotModifier, inv.active, inv.inactive, ?_⟩
  intro pending
  obtain ⟨p, member, scheduled, deferred⟩ := inv.deferred pending
  refine ⟨p, member, scheduled, ?_⟩
  cases deferred with
  | replacement active code registers => exact .replacement active code registers
  | trigger code down small => exact .trigger code down small

theorem Inv.mono (inv : Inv table held s) (subset : held ⊆ more) : Inv table more s := by
  refine ⟨fun nonzero => subset (inv.last nonzero), inv.lastNotModifier, ?_, inv.inactive, ?_⟩
  · intro p active
    obtain ⟨member, down⟩ := inv.active p active
    exact ⟨member, fun some => subset (down some)⟩
  · intro pending
    obtain ⟨p, member, scheduled, deferred⟩ := inv.deferred pending
    refine ⟨p, member, scheduled, ?_⟩
    cases deferred with
    | replacement active code registers => exact .replacement active code registers
    | trigger code down small => exact .trigger code (subset down) small

theorem Reported.mono (reported : Reported table held s) (subset : held ⊆ more) : Reported table more s := by
  refine ⟨reported.reportable, ?_⟩
  intro c down
  rcases reported.owner c down with ⟨k, member, own⟩ | active
  · exact .inl ⟨k, subset member, own⟩
  · exact .inr active

/-- Unregistering keeps a report whose codes all have an owner. -/
theorem Reported.fewer (reported : Reported table held s) {registered : BitVec 8 → Bool}
    (fewer : ∀ c, registered c = true → s.registered c = true) :
    Reported table held { s with registered := registered } :=
  ⟨fun c down => reported.reportable c (fewer c down), fun c down => reported.owner c (fewer c down)⟩

/-! ## Deactivating -/

theorem scheduleDeferredRegister_spec (p : Nat) (keycode : Keycode) (now : BitVec 32) (s : State) :
    ∃ time delay, scheduleDeferredRegister p keycode now s =
      { s with
        deferReferenceTime := time
        deferDelay := delay
        deferredRegister := keycode
        deferredBy := some p } := by
  unfold scheduleDeferredRegister
  split
  · exact ⟨_, _, rfl⟩
  · exact ⟨_, _, rfl⟩

theorem clearActiveOverride_none (allow : Bool) (now : BitVec 32) (inactive : s.activeOverride = none) :
    clearActiveOverride table allow now s = s := by
  rw [clearActiveOverride, inactive]

/-- The active override goes; its trigger may be scheduled again. -/
theorem clearActiveOverride_some (allow : Bool) (now : BitVec 32) {p : Nat} (active : s.activeOverride = some p) :
    ∃ time delay code by',
      clearActiveOverride table allow now s =
        { s with
          activeOverride := none
          activeOverrideTriggerIsDown := false
          deferReferenceTime := time
          deferDelay := delay
          deferredRegister := code
          deferredBy := by'
          suppressedMods := 0
          weakOverrideMods := 0
          registered := (unregisterReplacement (table.override p) s).registered } ∧
      (code = 0 ∨ code = (table.override p).trigger ∧ by' = some p ∧ allow = true ∧
        (table.override p).options &&& koOptionNoReregisterTrigger = 0 ∧
        (table.override p).trigger ≠ kcNo ∧ (table.override p).trigger.toNat < safeRange) := by
  have report : (unregisterReplacement (table.override p)
      { s with deferredRegister := 0, suppressedMods := 0, weakOverrideMods := 0 }).registered =
      (unregisterReplacement (table.override p) s).registered := unregisterReplacement_congr s _ rfl
  have unregistered := unregisterReplacement_eq
    { s with deferredRegister := 0, suppressedMods := 0, weakOverrideMods := 0 } (table.override p)
  rw [report] at unregistered
  have deactivated : clearActiveOverride table allow now s = deactivate table p allow now s := by
    rw [clearActiveOverride, active]
  rw [deactivated]
  simp only [deactivate, unregistered]
  split
  · next reregister =>
    obtain ⟨time, delay, scheduled⟩ := scheduleDeferredRegister_spec p (table.override p).trigger now
      { s with
        deferredRegister := 0
        suppressedMods := 0
        weakOverrideMods := 0
        registered := (unregisterReplacement (table.override p) s).registered }
    rw [scheduled]
    refine ⟨time, delay, _, _, rfl, .inr ⟨rfl, rfl, ?_⟩⟩
    simp only [reregistersTrigger, Bool.and_eq_true, decide_eq_true_eq] at reregister
    obtain ⟨⟨⟨⟨allowed, option⟩, _⟩, some⟩, small⟩ := reregister
    exact ⟨allowed, option, some, small⟩
  · exact ⟨_, _, _, _, rfl, .inl rfl⟩

theorem Inv.clear (sane : table.Sane) (inv : Inv table held s) (allow : Bool) (now : BitVec 32) :
    Inv table held (clearActiveOverride table allow now s) := by
  cases active : s.activeOverride with
  | none => rwa [clearActiveOverride_none allow now active]
  | some p =>
    obtain ⟨member, down⟩ := inv.active p active
    obtain ⟨time, delay, code, by', cleared, scheduled⟩ := clearActiveOverride_some allow now active
    rw [cleared]
    refine ⟨inv.last, inv.lastNotModifier, nofun, fun _ => ⟨rfl, rfl⟩, ?_⟩
    intro pending
    obtain zero | ⟨trigger, rfl, _, option, some, small⟩ := scheduled
    · exact absurd zero pending
    · exact ⟨p, member, rfl, .trigger trigger (down some) ((sane p member).reregistered option small)⟩

theorem clear_activeOverride (table : Table) (allow : Bool) (now : BitVec 32) (s : State) :
    (clearActiveOverride table allow now s).activeOverride = none := by
  cases active : s.activeOverride with
  | none => rwa [clearActiveOverride_none allow now active]
  | some p =>
    obtain ⟨time, delay, code, by', cleared, _⟩ := clearActiveOverride_some allow now active
    rw [cleared]

theorem Reported.clear (sane : table.Sane) (inv : Inv table more s) (reported : Reported table held s)
    (allow : Bool) (now : BitVec 32) : Reported table held (clearActiveOverride table allow now s) := by
  cases active : s.activeOverride with
  | none => rwa [clearActiveOverride_none allow now active]
  | some p =>
    obtain ⟨member, _⟩ := inv.active p active
    obtain ⟨time, delay, code, by', cleared, _⟩ := clearActiveOverride_some allow now active
    rw [cleared]
    constructor
    · intro c down
      exact reported.reportable c (registered_of_unregisterReplacement s down)
    · intro c down
      have before := registered_of_unregisterReplacement s down
      rcases reported.owner c before with held | ⟨q, activeQ, registers, same⟩
      · exact .inl held
      · obtain rfl : p = q := Option.some.inj (active.symm.trans activeQ)
        have fires : firesCustomAction (table.override p) false = true := by
          apply (sane p member).custom
          simp only [registersReplacement, Bool.and_eq_true] at registers
          exact registers.2
        exact absurd same (registered_unregisterReplacement s fires (reported.reportable c before) down)

/-- Without a trigger to register again, nothing stays scheduled unless no override was active. -/
theorem clear_deferred {table : Table} {now : BitVec 32} {s : State}
    (pending : (clearActiveOverride table false now s).deferredRegister ≠ 0) :
    s.activeOverride = none ∧ clearActiveOverride table false now s = s := by
  by_cases inactive : s.activeOverride = none
  · exact ⟨inactive, clearActiveOverride_none false now inactive⟩
  · obtain ⟨p, active⟩ := Option.ne_none_iff_exists'.mp inactive
    obtain ⟨time, delay, code, by', cleared, scheduled⟩ := clearActiveOverride_some false now active
    rw [cleared] at pending
    rcases scheduled with zero | ⟨_, _, allowed, _⟩
    · exact absurd zero pending
    · cases allowed

theorem clear_enabled (table : Table) (allow : Bool) (now : BitVec 32) (s : State) :
    (clearActiveOverride table allow now s).enabled = s.enabled := by
  cases active : s.activeOverride with
  | none => rw [clearActiveOverride_none allow now active]
  | some p =>
    obtain ⟨time, delay, code, by', cleared, _⟩ := clearActiveOverride_some allow now active
    rw [cleared]

theorem clear_lastKeyDown (table : Table) (allow : Bool) (now : BitVec 32) (s : State) :
    (clearActiveOverride table allow now s).lastKeyDown = s.lastKeyDown := by
  cases active : s.activeOverride with
  | none => rw [clearActiveOverride_none allow now active]
  | some p =>
    obtain ⟨time, delay, code, by', cleared, _⟩ := clearActiveOverride_some allow now active
    rw [cleared]

/-! ## Activating -/

theorem ne_zero_of_matches {o : KeyOverride} {mods : BitVec 8} (fits : keyOverrideMatchesActiveModifiers o mods = true)
    (needs : o.triggerMods ≠ 0) : mods ≠ 0 := by
  rintro rfl
  have oneSided (m : BitVec 8) (nonzero : m ≠ 0) : ¬ (0 : BitVec 8) = m &&& 0x0F ||| m >>> 4 := by
    revert m
    decide
  simp [keyOverrideMatchesActiveModifiers] at fits
  rcases fits with zero | ⟨_, same⟩
  · exact needs zero
  · exact oneSided _ needs same

/-- The active override changes from none to `p`. -/
theorem Inv.setActive (inv : Inv table held s) (inactive : s.activeOverride = none) {p : Nat}
    (member : p ∈ table.pointers)
    (down : (table.override p).trigger ≠ kcNo → (table.override p).trigger ∈ held) (mods : BitVec 8) :
    Inv table held { s with
      activeOverride := some p
      activeOverrideTriggerIsDown := true
      suppressedMods := mods } := by
  refine ⟨inv.last, inv.lastNotModifier, ?_, nofun, ?_⟩
  · intro q active
    obtain rfl : p = q := Option.some.inj active
    exact ⟨member, down⟩
  · intro pending
    obtain ⟨q, member, scheduled, deferred⟩ := inv.deferred pending
    refine ⟨q, member, scheduled, ?_⟩
    cases deferred with
    | replacement active code registers =>
      rw [inactive] at active
      cases active
    | trigger code down small => exact .trigger code down small

theorem Inv.setWeak (inv : Inv table held s) {p : Nat} (active : s.activeOverride = some p) (mods : BitVec 8) :
    Inv table held { s with weakOverrideMods := mods } := by
  refine ⟨inv.last, inv.lastNotModifier, inv.active, ?_, ?_⟩
  · intro inactive
    cases inactive.symm.trans active
  · intro pending
    obtain ⟨q, member, scheduled, deferred⟩ := inv.deferred pending
    refine ⟨q, member, scheduled, ?_⟩
    cases deferred with
    | replacement active code registers => exact .replacement active code registers
    | trigger code down small => exact .trigger code down small

/-- What becomes of the replacement: a modifier event schedules it, another event registers it, a basic key
like any other. -/
inductive Registering (table : Table) (p : Nat) (isMod : Bool) (s : State) : State → Prop where
  | kept (none : registersReplacement (table.override p) = false) : Registering table p isMod s s
  | scheduled (registers : registersReplacement (table.override p) = true) (modifier : isMod = true)
      (time delay : BitVec 32) : Registering table p isMod s
        { s with
          weakOverrideMods := extractModBits (table.override p).replacement
          deferReferenceTime := time
          deferDelay := delay
          deferredRegister := clearModsFrom (table.override p).replacement
          deferredBy := some p }
  | registered (registers : registersReplacement (table.override p) = true) (other : isMod = false) :
      Registering table p isMod s (registerCode (lowByte (clearModsFrom (table.override p).replacement))
        { s with weakOverrideMods := extractModBits (table.override p).replacement })

theorem registerReplacement_registering (p : Nat) (isMod : Bool) (now : BitVec 32) :
    Registering table p isMod s (registerReplacement table p isMod now s) := by
  unfold registerReplacement
  dsimp only
  split
  · next registers =>
    split
    · next modifier =>
      obtain ⟨time, delay, scheduled⟩ := scheduleDeferredRegister_spec p
        (clearModsFrom (table.override p).replacement) now
        { s with weakOverrideMods := extractModBits (table.override p).replacement }
      rw [scheduled]
      exact .scheduled registers modifier time delay
    · next other =>
      split
      · next basic =>
        rw [addKey_eq_registerCode _ (by rwa [lowByte_toNat basic])]
        exact .registered registers (Bool.eq_false_iff.mpr other)
      · exact .registered registers (Bool.eq_false_iff.mpr other)
  · next none => exact .kept (Bool.eq_false_iff.mpr none)

theorem Inv.registerReplacement (inv : Inv table held s) {p : Nat} (active : s.activeOverride = some p)
    (isMod : Bool) (now : BitVec 32) : Inv table held (registerReplacement table p isMod now s) := by
  have weak := inv.setWeak active (extractModBits (table.override p).replacement)
  have step := @registerReplacement_registering table s p isMod now
  generalize KeyOverrides.registerReplacement table p isMod now s = after at step ⊢
  cases step with
  | kept => exact inv
  | scheduled registers _ time delay =>
    refine ⟨weak.last, weak.lastNotModifier, weak.active, weak.inactive, ?_⟩
    intro _
    exact ⟨p, (inv.active p active).1, rfl, .replacement active rfl registers⟩
  | registered =>
    rw [registerCode_eq]
    exact weak.congr _

theorem Reported.registerReplacement (reported : Reported table held s) {p : Nat} (active : s.activeOverride = some p)
    (isMod : Bool) (now : BitVec 32) : Reported table held (registerReplacement table p isMod now s) := by
  have step := @registerReplacement_registering table s p isMod now
  generalize KeyOverrides.registerReplacement table p isMod now s = after at step ⊢
  cases step with
  | kept => exact reported
  | scheduled => exact ⟨reported.reportable, reported.owner⟩
  | registered registers =>
    -- a code of the new report is one of the old report or the replacement
    constructor
    · intro c down
      rcases registered_registerCode _ down with before | ⟨_, reportable⟩
      · exact reported.reportable c before
      · exact reportable
    · intro c down
      rw [registerCode_eq]
      rcases registered_registerCode _ down with before | ⟨code, _⟩
      · exact reported.owner c before
      · exact .inr ⟨p, active, registers, code⟩

theorem Inv.replaceTrigger (sane : table.Sane) (inv : Inv table held s) {p : Nat} (member : p ∈ table.pointers)
    (down : (table.override p).trigger ≠ kcNo → (table.override p).trigger ∈ held) (event : KeyEvent) :
    Inv table held (replaceTrigger table event p s) := by
  have cleared := inv.clear sane false event.now
  have set := cleared.setActive (clear_activeOverride table false event.now s) member down
    (table.override p).suppressedMods
  unfold KeyOverrides.replaceTrigger
  dsimp only
  split
  · rw [unregisterTrigger_eq]
    exact set.congr _
  · exact set

theorem Reported.replaceTrigger (sane : table.Sane) (inv : Inv table more s) (reported : Reported table held s)
    (p : Nat) (event : KeyEvent) : Reported table held (replaceTrigger table event p s) := by
  have cleared := reported.clear sane inv false event.now
  have inactive := clear_activeOverride table false event.now s
  have set : Reported table held { clearActiveOverride table false event.now s with
      activeOverride := some p
      activeOverrideTriggerIsDown := true
      suppressedMods := (table.override p).suppressedMods } := by
    refine ⟨cleared.reportable, ?_⟩
    intro c down
    rcases cleared.owner c down with held | ⟨q, active, _⟩
    · exact .inl held
    · rw [inactive] at active
      cases active
  unfold KeyOverrides.replaceTrigger
  dsimp only
  split
  · rw [unregisterTrigger_eq]
    exact set.fewer fun c down => registered_of_unregisterTrigger _ down
  · exact set

theorem replaceTrigger_fields (table : Table) (event : KeyEvent) (p : Nat) (s : State) :
    (replaceTrigger table event p s).activeOverride = some p ∧
      (replaceTrigger table event p s).enabled = s.enabled := by
  have enabled := clear_enabled table false event.now s
  unfold replaceTrigger
  dsimp only
  split
  · rw [unregisterTrigger_eq]
    exact ⟨rfl, enabled⟩
  · exact ⟨rfl, enabled⟩

theorem Inv.activate (sane : table.Sane) (inv : Inv table held s) {p : Nat} (member : p ∈ table.pointers)
    (down : (table.override p).trigger ≠ kcNo → (table.override p).trigger ∈ held) (event : KeyEvent) (isMod : Bool) :
    Inv table held (activate table event isMod p s) :=
  (inv.replaceTrigger sane member down event).registerReplacement (replaceTrigger_fields table event p s).1
    isMod event.now

theorem Reported.activate (sane : table.Sane) (inv : Inv table more s) (reported : Reported table held s) (p : Nat)
    (event : KeyEvent) (isMod : Bool) : Reported table held (activate table event isMod p s) :=
  (reported.replaceTrigger sane inv p event).registerReplacement (replaceTrigger_fields table event p s).1
    isMod event.now

theorem registerReplacement_fields (table : Table) (p : Nat) (isMod : Bool) (now : BitVec 32) (s : State) :
    (registerReplacement table p isMod now s).activeOverride = s.activeOverride ∧
      (registerReplacement table p isMod now s).enabled = s.enabled := by
  unfold registerReplacement
  dsimp only
  split
  · split
    · obtain ⟨time, delay, scheduled⟩ := scheduleDeferredRegister_spec p
        (clearModsFrom (table.override p).replacement) now
        { s with weakOverrideMods := extractModBits (table.override p).replacement }
      rw [scheduled]
      exact ⟨rfl, rfl⟩
    · split
      · exact ⟨rfl, rfl⟩
      · rw [registerCode_eq]
        exact ⟨rfl, rfl⟩
  · exact ⟨rfl, rfl⟩

theorem activate_fields (table : Table) (event : KeyEvent) (isMod : Bool) (p : Nat) (s : State) :
    (activate table event isMod p s).activeOverride = some p ∧
      (activate table event isMod p s).enabled = s.enabled := by
  obtain ⟨active, enabled⟩ := registerReplacement_fields table p isMod event.now (replaceTrigger table event p s)
  obtain ⟨set, kept⟩ := replaceTrigger_fields table event p s
  exact ⟨active.trans set, enabled.trans kept⟩

end Invariant

end QmkFirmware.KeyOverrides
