import QmkFirmware.KeyOverrides.Invariant

/-! # No stuck keys

What the override machinery registers is unregistered again: when no key is held, the report
is empty and no override modifiers are set, and a deferred key code is registered only while
the trigger of its override is held.  This survives every event except a release that the event
handler does not get to see, or does not take as a reason to cancel what is deferred.
-/

namespace QmkFirmware.KeyOverrides

open QmkFirmware.Runs

section Events

variable {table : Table} {held more : List Keycode} {s : State}

/-! ## Events -/

/-- What an override that activates has passed. -/
theorem shouldActivate_cases {event : KeyEvent} {isMod : Bool} {mods : BitVec 8} {p : Nat}
    (activates : shouldActivate table event isMod mods s p = true) :
    keyOverrideMatchesActiveModifiers (table.override p) mods = true ∧
      ((table.override p).trigger = kcNo ∨ (table.override p).trigger = event.keycode ∧ event.pressed = true ∨
        s.lastKeyDown = (table.override p).trigger) := by
  simp only [shouldActivate, Bool.and_eq_true, Bool.or_eq_true, decide_eq_true_eq] at activates
  obtain ⟨⟨_, fits⟩, (noTrigger | trigger) | last⟩ := activates
  · exact ⟨fits, .inl noTrigger⟩
  · exact ⟨fits, .inr (.inl trigger)⟩
  · exact ⟨fits, .inr (.inr last)⟩

/-- Either nothing happens or some override of the table activates. -/
theorem tryActivatingOverride_cases (table : Table) (event : KeyEvent) (isMod : Bool) (mods : BitVec 8) (s : State) :
    tryActivatingOverride table event isMod mods s = (true, false, s) ∨
      ∃ p ∈ table.pointers, shouldActivate table event isMod mods s p = true ∧
        tryActivatingOverride table event isMod mods s =
          (!(decide ((table.override p).trigger = event.keycode) && event.pressed), true,
            activate table event isMod p s) := by
  unfold tryActivatingOverride
  cases found : table.pointers.find? (shouldActivate table event isMod mods s) with
  | none => exact .inl rfl
  | some p => exact .inr ⟨p, List.mem_of_find?_eq_some found, List.find?_some found, rfl⟩

/-- The active override stays, and then for a reason, or it goes. -/
theorem checkActiveOverride_cases (table : Table) (p : Nat) (event : KeyEvent) (isMod : Bool) (mods : BitVec 8)
    (s : State) :
    (checkActiveOverride table p event isMod mods s = s ∧
      if isMod then keyOverrideMatchesActiveModifiers (table.override p) mods = true
      else event.pressed = false → event.keycode ≠ (table.override p).trigger) ∨
    ∃ down, checkActiveOverride table p event isMod mods s =
      clearActiveOverride table isMod event.now { s with activeOverrideTriggerIsDown := down } := by
  unfold checkActiveOverride
  cases isMod with
  | true =>
    by_cases fits : keyOverrideMatchesActiveModifiers (table.override p) mods = true
    · exact .inl ⟨by simp [fits], fits⟩
    · exact .inr ⟨s.activeOverrideTriggerIsDown, by simp [fits]⟩
  | false =>
    by_cases lifted : event.keycode = (table.override p).trigger ∧ event.pressed = false
    · exact .inr ⟨false, by simp [lifted]⟩
    · have stays : (decide (event.keycode = (table.override p).trigger) && !event.pressed) = false := by
        simpa using lifted
      simp only [stays, Bool.false_or, Bool.false_eq_true, if_false]
      split
      · exact .inr ⟨s.activeOverrideTriggerIsDown, rfl⟩
      · exact .inl ⟨rfl, fun released own => lifted ⟨own, released⟩⟩

theorem deactivateOnEvent_cases (table : Table) (event : KeyEvent) (isMod : Bool) (mods : BitVec 8) (s : State) :
    (deactivateOnEvent table event isMod mods s = s ∧ ∀ p, s.activeOverride = some p →
      if isMod then keyOverrideMatchesActiveModifiers (table.override p) mods = true
      else event.pressed = false → event.keycode ≠ (table.override p).trigger) ∨
    ∃ down, deactivateOnEvent table event isMod mods s =
      clearActiveOverride table isMod event.now { s with activeOverrideTriggerIsDown := down } := by
  by_cases inactive : s.activeOverride = none
  · left
    rw [deactivateOnEvent, inactive]
    exact ⟨rfl, nofun⟩
  · obtain ⟨p, active⟩ := Option.ne_none_iff_exists'.mp inactive
    have checked : deactivateOnEvent table event isMod mods s = checkActiveOverride table p event isMod mods s := by
      rw [deactivateOnEvent, active]
    rw [checked]
    rcases checkActiveOverride_cases table p event isMod mods s with ⟨same, reason⟩ | cleared
    · refine .inl ⟨same, ?_⟩
      intro q activeQ
      obtain rfl : p = q := Option.some.inj (active.symm.trans activeQ)
      exact reason
    · exact .inr cleared

/-- Only the keys that are held and the override that is active matter. -/
theorem Inv.setTriggerIsDown (inv : Inv table held s) (down : Bool) :
    Inv table held { s with activeOverrideTriggerIsDown := down } := by
  refine ⟨inv.last, inv.lastNotModifier, inv.active, inv.inactive, ?_⟩
  intro pending
  obtain ⟨q, member, scheduled, deferred⟩ := inv.deferred pending
  refine ⟨q, member, scheduled, ?_⟩
  cases deferred with
  | replacement active code registers => exact .replacement active code registers
  | trigger code down small => exact .trigger code down small

theorem Inv.deactivateOnEvent (sane : table.Sane) (inv : Inv table held s) (event : KeyEvent) (isMod : Bool)
    (mods : BitVec 8) : Inv table held (deactivateOnEvent table event isMod mods s) := by
  rcases deactivateOnEvent_cases table event isMod mods s with ⟨same, _⟩ | ⟨down, cleared⟩
  · rwa [same]
  · rw [cleared]
    exact (inv.setTriggerIsDown down).clear sane isMod event.now

theorem Reported.deactivateOnEvent (sane : table.Sane) (inv : Inv table more s) (reported : Reported table held s)
    (event : KeyEvent) (isMod : Bool) (mods : BitVec 8) :
    Reported table held (deactivateOnEvent table event isMod mods s) := by
  rcases deactivateOnEvent_cases table event isMod mods s with ⟨same, _⟩ | ⟨down, cleared⟩
  · rwa [same]
  · have unchanged : Reported table held { s with activeOverrideTriggerIsDown := down } :=
      ⟨reported.reportable, reported.owner⟩
    rw [cleared]
    exact unchanged.clear sane (inv.setTriggerIsDown down) isMod event.now

/-- The state after an event that can activate an override. -/
def attempt (table : Table) (event : KeyEvent) (isMod : Bool) (mods : BitVec 8) (s : State) : State :=
  let (_, activated, s) := tryActivatingOverride table event isMod mods s
  if activated then s else deactivateOnEvent table event isMod mods s

section Attempt

variable {event : KeyEvent} {isMod : Bool} {mods : BitVec 8}

theorem Inv.attempt (sane : table.Sane) (inv : Inv table held s)
    (pressedHeld : event.pressed = true → event.keycode ∈ held) : Inv table held (attempt table event isMod mods s) := by
  unfold KeyOverrides.attempt
  rcases tryActivatingOverride_cases table event isMod mods s with none | ⟨p, member, activates, some⟩
  · rw [none]
    exact inv.deactivateOnEvent sane event isMod mods
  · rw [some]
    apply inv.activate sane member
    intro trigger
    obtain ⟨_, noTrigger | ⟨own, pressed⟩ | last⟩ := shouldActivate_cases activates
    · exact absurd noTrigger trigger
    · rw [own]
      exact pressedHeld pressed
    · rw [← last] at trigger ⊢
      exact inv.last trigger

theorem Reported.attempt (sane : table.Sane) (inv : Inv table more s) (reported : Reported table held s) :
    Reported table held (attempt table event isMod mods s) := by
  unfold KeyOverrides.attempt
  rcases tryActivatingOverride_cases table event isMod mods s with none | ⟨p, _, _, some⟩
  · rw [none]
    exact reported.deactivateOnEvent sane inv event isMod mods
  · rw [some]
    exact reported.activate sane inv p event isMod

/-- After a modifier event, or if it was so before, an override without a trigger has a modifier
to hold it. -/
theorem Anchored.attempt (sane : table.Sane) (inv : Inv table more s) (before : isMod = true ∨ Anchored table held s)
    (physical : (∃ p ∈ table.pointers, (table.override p).trigger = kcNo) → mods ≠ 0 →
      ∃ m ∈ held, isModifierKeycode m.toNat = true) :
    Anchored table held (attempt table event isMod mods s) := by
  have anchored {p : Nat} (member : p ∈ table.pointers) (noTrigger : (table.override p).trigger = kcNo)
      (fits : keyOverrideMatchesActiveModifiers (table.override p) mods = true) :
      ∃ m ∈ held, isModifierKeycode m.toNat = true :=
    physical ⟨p, member, noTrigger⟩ (ne_zero_of_matches fits ((sane p member).needsMods noTrigger))
  unfold KeyOverrides.attempt
  rcases tryActivatingOverride_cases table event isMod mods s with none | ⟨p, member, activates, some⟩
  · rw [none]
    dsimp only
    rw [if_neg (by decide)]
    rcases deactivateOnEvent_cases table event isMod mods s with ⟨same, reason⟩ | ⟨down, cleared⟩
    · rw [same]
      intro p active noTrigger
      rcases before with modifier | anchored
      · have fits := reason p active
        rw [if_pos modifier] at fits
        exact anchored (inv.active p active).1 noTrigger fits
      · exact anchored p active noTrigger
    · rw [cleared]
      intro p active
      rw [clear_activeOverride] at active
      cases active
  · rw [some]
    intro q active noTrigger
    change (activate table event isMod p s).activeOverride = _ at active
    rw [(activate_fields table event isMod p s).1] at active
    cases active
    exact anchored member noTrigger (shouldActivate_cases activates).1

end Attempt

/-! ## Presses and releases -/

theorem Inv.trackLastKey (inv : Inv table held s) {event : KeyEvent}
    (notModifier : isModifierKeycode event.keycode.toNat = false)
    (pressedHeld : event.pressed = true → event.keycode ∈ held) : Inv table held (trackLastKey event s) := by
  unfold KeyOverrides.trackLastKey
  split
  · next pressed =>
    exact ⟨fun _ => pressedHeld pressed, notModifier, inv.active, inv.inactive, fun pending => absurd rfl pending⟩
  · split
    · exact ⟨fun nonzero => absurd rfl nonzero, rfl, inv.active, inv.inactive, fun pending => absurd rfl pending⟩
    · exact inv

theorem trackLastKey_registered (event : KeyEvent) (s : State) :
    (trackLastKey event s).registered = s.registered ∧ (trackLastKey event s).activeOverride = s.activeOverride := by
  unfold trackLastKey
  split
  · exact ⟨rfl, rfl⟩
  · split
    · exact ⟨rfl, rfl⟩
    · exact ⟨rfl, rfl⟩

theorem Reported.congr {other : State} (reported : Reported table held s) (registered : other.registered = s.registered)
    (active : other.activeOverride = s.activeOverride) : Reported table held other := by
  constructor
  · rw [registered]
    exact reported.reportable
  · rw [registered, active]
    exact reported.owner

/-- Releasing a key that nothing refers to any more. -/
theorem Inv.erase (inv : Inv table held s) {k : Keycode} (last : s.lastKeyDown ≠ 0 → s.lastKeyDown ≠ k)
    (active : ∀ p, s.activeOverride = some p → (table.override p).trigger ≠ kcNo → (table.override p).trigger ≠ k)
    (deferred : ∀ p ∈ table.pointers, s.deferredRegister ≠ 0 → s.deferredBy = some p →
      (table.override p).trigger ≠ k) : Inv table (held.erase k) s := by
  refine ⟨?_, inv.lastNotModifier, ?_, inv.inactive, ?_⟩
  · intro nonzero
    exact (List.mem_erase_of_ne (last nonzero)).mpr (inv.last nonzero)
  · intro p activeP
    obtain ⟨member, down⟩ := inv.active p activeP
    exact ⟨member, fun some => (List.mem_erase_of_ne (active p activeP some)).mpr (down some)⟩
  · intro pending
    obtain ⟨p, member, scheduled, kind⟩ := inv.deferred pending
    refine ⟨p, member, scheduled, ?_⟩
    cases kind with
    | replacement active code registers => exact .replacement active code registers
    | trigger code down small =>
      exact .trigger code ((List.mem_erase_of_ne (deferred p member pending scheduled)).mpr down) small

theorem registered_foldl_registerCode {codes : List (BitVec 8)} {c : BitVec 8}
    (down : (codes.foldl (fun s code => registerCode code s) s).registered c = true) :
    s.registered c = true ∨ c ∈ codes ∧ isReportable c.toNat = true := by
  induction codes generalizing s with
  | nil => exact .inl down
  | cons code codes ih =>
    rcases ih down with before | ⟨member, reportable⟩
    · rcases registered_registerCode s before with earlier | ⟨same, reportable⟩
      · exact .inl earlier
      · exact .inr ⟨same ▸ List.mem_cons_self, reportable⟩
    · exact .inr ⟨List.mem_cons_of_mem _ member, reportable⟩

theorem registered_foldl_unregisterCode {codes : List (BitVec 8)} {c : BitVec 8}
    (down : (codes.foldl (fun s code => unregisterCode code s) s).registered c = true) :
    s.registered c = true ∧ (isReportable c.toNat = true → c ∉ codes) := by
  induction codes generalizing s with
  | nil => exact ⟨down, fun _ => List.not_mem_nil⟩
  | cons code codes ih =>
    obtain ⟨before, later⟩ := ih down
    refine ⟨registered_of_unregisterCode s before, ?_⟩
    intro reportable member
    rcases List.mem_cons.mp member with rfl | member
    · exact (registered_unregisterCode s reportable before).2 rfl
    · exact later reportable member

theorem Reported.press (reported : Reported table held s) (k : Keycode) :
    Reported table (k :: held) (processAction k true s) := by
  have active : (processAction k true s).activeOverride = s.activeOverride := by rw [processAction_eq]
  constructor
  · intro c down
    rcases registered_foldl_registerCode down with before | ⟨_, reportable⟩
    · exact reported.reportable c before
    · exact reportable
  · intro c down
    rw [active]
    rcases registered_foldl_registerCode down with before | ⟨member, _⟩
    · exact (reported.mono (List.subset_cons_self k held)).owner c before
    · exact .inl ⟨k, List.mem_cons_self, member⟩

theorem Reported.release (reported : Reported table held s) (k : Keycode) :
    Reported table (held.erase k) (processAction k false s) := by
  have active : (processAction k false s).activeOverride = s.activeOverride := by rw [processAction_eq]
  constructor
  · intro c down
    exact reported.reportable c (registered_foldl_unregisterCode down).1
  · intro c down
    obtain ⟨before, gone⟩ := registered_foldl_unregisterCode down
    rw [active]
    rcases reported.owner c before with ⟨other, member, own⟩ | active
    · have apart : other ≠ k := by
        rintro rfl
        exact gone (reported.reportable c before) own
      exact .inl ⟨other, (List.mem_erase_of_ne apart).mpr member, own⟩
    · exact .inr active

theorem attempt_enabled (table : Table) (event : KeyEvent) (isMod : Bool) (mods : BitVec 8) (s : State) :
    (attempt table event isMod mods s).enabled = s.enabled := by
  unfold attempt
  rcases tryActivatingOverride_cases table event isMod mods s with none | ⟨p, _, _, some⟩
  · rw [none]
    dsimp only
    rw [if_neg (by decide)]
    rcases deactivateOnEvent_cases table event isMod mods s with ⟨same, _⟩ | ⟨down, cleared⟩
    · rw [same]
    · rw [cleared, clear_enabled]
  · rw [some]
    exact (activate_fields table event isMod p s).2

theorem processEnabled_attempt {event : KeyEvent}
    (active : (isModifierKeycode event.keycode.toNat || event.pressed) = true) (s : State) :
    (processEnabled table event s).2 =
        attempt table event (isModifierKeycode event.keycode.toNat) (effectiveMods event s)
          (if isModifierKeycode event.keycode.toNat then s else trackLastKey event s) ∧
      (event.pressed = false → (processEnabled table event s).1 = true) := by
  unfold processEnabled
  dsimp only
  rw [if_pos active]
  refine ⟨rfl, ?_⟩
  intro released
  rcases tryActivatingOverride_cases table event (isModifierKeycode event.keycode.toNat) (effectiveMods event s)
    (if isModifierKeycode event.keycode.toNat then s else trackLastKey event s) with none | ⟨p, _, _, some⟩
  · rw [none]
  · rw [some, released]
    simp

theorem processEnabled_release {event : KeyEvent} (notModifier : isModifierKeycode event.keycode.toNat = false)
    (released : event.pressed = false) (s : State) :
    processEnabled table event s =
      (true, deactivateOnEvent table event false (effectiveMods event s) (trackLastKey event s)) := by
  simp [processEnabled, notModifier, released]

end Events

/-! ## Runs -/

/-- The event handler notices what it has to notice: the release of the last key down comes while
overrides are switched on; the release of a trigger whose override has scheduled a key code comes
while they are switched on and is that of the last key down or of the active trigger; and if there
are overrides without a trigger, modifiers are effective only while some modifier is held. -/
structure Noticed (table : Table) (w : World) (event : KeyEvent) : Prop where
  last : event.pressed = false → w.state.enabled = false → event.keycode = w.state.lastKeyDown →
    w.state.lastKeyDown = 0
  cancels : event.pressed = false → w.state.deferredRegister ≠ 0 → ∀ p ∈ w.state.deferredBy,
    (table.override p).trigger = event.keycode → w.state.enabled = true ∧
      (event.keycode = w.state.lastKeyDown ∨ ∃ q ∈ w.state.activeOverride, (table.override q).trigger = event.keycode)
  physical : (∃ p ∈ table.pointers, (table.override p).trigger = kcNo) → w.state.enabled = true →
    (isModifierKeycode event.keycode.toNat || event.pressed) = true → effectiveMods event w.state ≠ 0 →
    ∃ m ∈ heldAfter event w.held, isModifierKeycode m.toNat = true

set_option synthInstance.maxSize 500 in
instance (table : Table) (w : World) (event : KeyEvent) : Decidable (Noticed table w event) :=
  decidable_of_iff
    ((event.pressed = false → w.state.enabled = false → event.keycode = w.state.lastKeyDown →
        w.state.lastKeyDown = 0) ∧
      (event.pressed = false → w.state.deferredRegister ≠ 0 → ∀ p ∈ w.state.deferredBy,
        (table.override p).trigger = event.keycode → w.state.enabled = true ∧
          (event.keycode = w.state.lastKeyDown ∨
            ∃ q ∈ w.state.activeOverride, (table.override q).trigger = event.keycode)) ∧
      ((∃ p ∈ table.pointers, (table.override p).trigger = kcNo) → w.state.enabled = true →
        (isModifierKeycode event.keycode.toNat || event.pressed) = true → effectiveMods event w.state ≠ 0 →
        ∃ m ∈ heldAfter event w.held, isModifierKeycode m.toNat = true))
    ⟨fun ⟨last, cancels, physical⟩ => ⟨last, cancels, physical⟩,
      fun noticed => ⟨noticed.last, noticed.cancels, noticed.physical⟩⟩

structure Held (table : Table) (w : World) : Prop where
  inv : Inv table w.held w.state
  reported : Reported table w.held w.state
  idle : Idle w.state
  anchored : Anchored table w.held w.state

section World

variable {table : Table} {w : World} {event : KeyEvent}

/-- The key's own action at the end of an event. -/
theorem Held.finish {after : State} {send : Bool} (inv : Inv table (heldAfter event w.held) after)
    (reported : Reported table w.held after) (idle : Idle after)
    (anchored : Anchored table (heldAfter event w.held) after) (sent : event.pressed = false → send = true) :
    Held table
      { held := heldAfter event w.held
        state := if send then processAction event.keycode event.pressed after else after } := by
  have fields (pressed : Bool) (k : Keycode) : (processAction k pressed after).activeOverride = after.activeOverride ∧
      (processAction k pressed after).enabled = after.enabled := by
    rw [processAction_eq]
    exact ⟨rfl, rfl⟩
  have acted (report : Reported table (heldAfter event w.held) (processAction event.keycode event.pressed after)) :
      Held table
        { held := heldAfter event w.held, state := processAction event.keycode event.pressed after } := by
    obtain ⟨active, enabled⟩ := fields event.pressed event.keycode
    refine ⟨?_, report, ?_, ?_⟩
    · change Inv table _ (processAction event.keycode event.pressed after)
      rw [processAction_eq]
      exact inv.congr _
    · intro off
      exact active.trans (idle (enabled.symm.trans off))
    · intro p activeP
      exact anchored p (active.symm.trans activeP)
  cases pressed : event.pressed with
  | true =>
    have after' : heldAfter event w.held = event.keycode :: w.held := by rw [heldAfter, if_pos pressed]
    rw [pressed, after'] at acted
    cases send with
    | true =>
      rw [if_pos rfl, after']
      exact acted (reported.press event.keycode)
    | false =>
      rw [if_neg (by decide)]
      refine ⟨inv, ?_, idle, anchored⟩
      rw [after']
      exact reported.mono (List.subset_cons_self _ _)
  | false =>
    have after' : heldAfter event w.held = w.held.erase event.keycode := by
      rw [heldAfter, if_neg (by rw [pressed]; decide)]
    rw [pressed, after'] at acted
    rw [if_pos (sent pressed), after']
    exact acted (reported.release event.keycode)

/-- A modifier that is released is no trigger and not the last key down. -/
theorem Inv.eraseModifier (sane : table.Sane) {held : List Keycode} {s : State} (inv : Inv table held s) {k : Keycode}
    (modifier : isModifierKeycode k.toNat = true) : Inv table (held.erase k) s := by
  have trigger {p : Nat} (member : p ∈ table.pointers) : (table.override p).trigger ≠ k := by
    rintro rfl
    rw [(sane p member).notModifier] at modifier
    cases modifier
  apply inv.erase
  · rintro _ rfl
    rw [inv.lastNotModifier] at modifier
    cases modifier
  · intro p active _
    exact trigger (inv.active p active).1
  · intro p member _ _
    exact trigger member

/-- The keys after a press or a modifier event, as far as the static variables refer to them. -/
theorem Held.tracked (sane : table.Sane) (h : Held table w)
    (active : (isModifierKeycode event.keycode.toNat || event.pressed) = true) :
    Inv table (heldAfter event w.held)
      (if isModifierKeycode event.keycode.toNat then w.state else trackLastKey event w.state) := by
  unfold heldAfter
  cases pressed : event.pressed with
  | true =>
    have grown := h.inv.mono (List.subset_cons_self event.keycode w.held)
    rw [if_pos rfl]
    split
    · exact grown
    · next notModifier =>
      exact grown.trackLastKey (by simpa using notModifier) fun _ => List.mem_cons_self
  | false =>
    have modifier : isModifierKeycode event.keycode.toNat = true := by simpa [pressed] using active
    rw [if_pos modifier]
    exact h.inv.eraseModifier sane modifier

/-- A press while overrides are switched on, or any modifier event. -/
theorem Held.attempt (sane : table.Sane) (h : Held table w) (noticed : Noticed table w event)
    (enabled : w.state.enabled = true) (active : (isModifierKeycode event.keycode.toNat || event.pressed) = true) :
    Held table
      { held := heldAfter event w.held
        state := if (processEnabled table event w.state).1 then
          processAction event.keycode event.pressed (processEnabled table event w.state).2
          else (processEnabled table event w.state).2 } := by
  have inv := h.tracked sane active
  obtain ⟨registered, sameActive⟩ := trackLastKey_registered event w.state
  have reported : Reported table w.held
      (if isModifierKeycode event.keycode.toNat then w.state else trackLastKey event w.state) := by
    split
    · exact h.reported
    · exact h.reported.congr registered sameActive
  have anchored : isModifierKeycode event.keycode.toNat = true ∨ Anchored table (heldAfter event w.held)
      (if isModifierKeycode event.keycode.toNat then w.state else trackLastKey event w.state) := by
    by_cases modifier : isModifierKeycode event.keycode.toNat = true
    · exact .inl modifier
    · have pressed : event.pressed = true := by simpa [modifier] using active
      rw [if_neg modifier, heldAfter, if_pos pressed]
      right
      intro p activeP noTrigger
      obtain ⟨m, member, isModifier⟩ := h.anchored p (sameActive.symm.trans activeP) noTrigger
      exact ⟨m, List.mem_cons_of_mem _ member, isModifier⟩
  obtain ⟨state, sent⟩ := processEnabled_attempt active w.state
  have pressedHeld (pressed : event.pressed = true) : event.keycode ∈ heldAfter event w.held := by
    rw [heldAfter, if_pos pressed]
    exact List.mem_cons_self
  apply Held.finish
  · rw [state]
    exact inv.attempt sane pressedHeld
  · rw [state]
    exact reported.attempt sane inv
  · intro off
    rw [state, attempt_enabled] at off
    have trackedEnabled : (trackLastKey event w.state).enabled = w.state.enabled := by
      unfold trackLastKey
      split
      · rfl
      · split <;> rfl
    split at off
    · rw [enabled] at off
      cases off
    · rw [trackedEnabled, enabled] at off
      cases off
  · rw [state]
    exact Anchored.attempt sane inv anchored fun noTrigger => noticed.physical noTrigger enabled active
  · exact sent

/-- A release that is tracked: `last_key_down` is another key or none. -/
theorem trackLastKey_release (event : KeyEvent) (s : State) (released : event.pressed = false) :
    ((trackLastKey event s).lastKeyDown ≠ 0 → (trackLastKey event s).lastKeyDown ≠ event.keycode) ∧
      ((trackLastKey event s).deferredRegister ≠ 0 → event.keycode ≠ s.lastKeyDown ∧ trackLastKey event s = s) ∧
      (trackLastKey event s).enabled = s.enabled := by
  unfold trackLastKey
  rw [if_neg (by rw [released]; decide)]
  split
  · exact ⟨fun nonzero => absurd rfl nonzero, fun pending => absurd rfl pending, rfl⟩
  · next other => exact ⟨fun _ same => other same.symm, fun _ => ⟨other, rfl⟩, rfl⟩

/-- After a release nothing refers to the released key any more. -/
theorem release_spec (noticed : Noticed table w event) (enabled : w.state.enabled = true)
    (released : event.pressed = false) :
    let s := deactivateOnEvent table event false (effectiveMods event w.state) (trackLastKey event w.state)
    (s.lastKeyDown ≠ 0 → s.lastKeyDown ≠ event.keycode) ∧
      (∀ p, s.activeOverride = some p → (table.override p).trigger ≠ kcNo →
        (table.override p).trigger ≠ event.keycode) ∧
      (∀ p ∈ table.pointers, s.deferredRegister ≠ 0 → s.deferredBy = some p →
        (table.override p).trigger ≠ event.keycode) ∧
      s.enabled = true := by
  obtain ⟨last, pending, on⟩ := trackLastKey_release event w.state released
  -- while the code is pending and the key is not the last one, the active trigger must be the key
  have cancelled (p : Nat) (deferred : (trackLastKey event w.state).deferredRegister ≠ 0)
      (scheduled : (trackLastKey event w.state).deferredBy = some p) (own : (table.override p).trigger = event.keycode) :
      ∃ q, (trackLastKey event w.state).activeOverride = some q ∧ (table.override q).trigger = event.keycode := by
    obtain ⟨other, same⟩ := pending deferred
    rw [same] at deferred scheduled ⊢
    rcases (noticed.cancels released deferred p scheduled own).2 with isLast | ⟨q, active, trigger⟩
    · exact absurd isLast other
    · exact ⟨q, active, trigger⟩
  rcases deactivateOnEvent_cases table event false (effectiveMods event w.state) (trackLastKey event w.state)
    with ⟨same, reason⟩ | ⟨down, cleared⟩
  · simp only [same]
    have apart (q : Nat) (active : (trackLastKey event w.state).activeOverride = some q) :
        (table.override q).trigger ≠ event.keycode := fun own => (reason q active) released own.symm
    refine ⟨last, fun p active _ => apart p active, ?_, on.trans enabled⟩
    intro p _ deferred scheduled own
    obtain ⟨q, active, trigger⟩ := cancelled p deferred scheduled own
    exact apart q active trigger
  · simp only [cleared, clear_activeOverride, clear_enabled, clear_lastKeyDown]
    refine ⟨last, nofun, ?_, on.trans enabled⟩
    intro p _ deferred scheduled own
    obtain ⟨inactive, same⟩ := clear_deferred deferred
    rw [same] at deferred scheduled
    obtain ⟨q, active, _⟩ := cancelled p deferred scheduled own
    cases inactive.symm.trans active

/-- A release of a key that is not a modifier, while overrides are switched on. -/
theorem Held.release (sane : table.Sane) (h : Held table w) (noticed : Noticed table w event)
    (enabled : w.state.enabled = true) (notModifier : isModifierKeycode event.keycode.toNat = false)
    (released : event.pressed = false) :
    Held table
      { held := heldAfter event w.held
        state := if (processEnabled table event w.state).1 then
          processAction event.keycode event.pressed (processEnabled table event w.state).2
          else (processEnabled table event w.state).2 } := by
  have after : heldAfter event w.held = w.held.erase event.keycode := by
    rw [heldAfter, if_neg (by rw [released]; decide)]
  rw [processEnabled_release notModifier released]
  have tracked : Inv table w.held (trackLastKey event w.state) :=
    h.inv.trackLastKey notModifier fun pressed => by rw [released] at pressed; cases pressed
  obtain ⟨registered, sameActive⟩ := trackLastKey_registered event w.state
  have checked := tracked.deactivateOnEvent sane event false (effectiveMods event w.state)
  have report := (h.reported.congr registered sameActive).deactivateOnEvent sane tracked event false
    (effectiveMods event w.state)
  obtain ⟨last, active, deferred, on⟩ := release_spec noticed enabled released
  apply Held.finish
  · rw [after]
    exact checked.erase last active deferred
  · exact report
  · intro off
    rw [on] at off
    cases off
  · rw [after]
    intro p activeP noTrigger
    have before : w.state.activeOverride = some p := by
      rcases deactivateOnEvent_cases table event false (effectiveMods event w.state) (trackLastKey event w.state)
        with ⟨same, _⟩ | ⟨down, cleared⟩
      · rw [same] at activeP
        exact sameActive.symm.trans activeP
      · rw [cleared, clear_activeOverride] at activeP
        cases activeP
    obtain ⟨m, member, modifier⟩ := h.anchored p before noTrigger
    have apart : m ≠ event.keycode := by
      rintro rfl
      rw [notModifier] at modifier
      cases modifier
    exact ⟨m, (List.mem_erase_of_ne apart).mpr member, modifier⟩
  · intro _
    rfl

/-- A key event while overrides are switched off. -/
theorem Held.disabled (h : Held table w) (noticed : Noticed table w event) (off : w.state.enabled = false) :
    Held table
      { held := heldAfter event w.held
        state := if true then processAction event.keycode event.pressed w.state else w.state } := by
  have inactive := h.idle off
  apply Held.finish
  · unfold heldAfter
    cases pressed : event.pressed with
    | true => exact h.inv.mono (List.subset_cons_self _ _)
    | false =>
      apply h.inv.erase
      · intro nonzero same
        exact nonzero (noticed.last pressed off same.symm)
      · intro p active
        cases inactive.symm.trans active
      · intro p _ pending scheduled own
        cases (noticed.cancels pressed pending p scheduled own).1.symm.trans off
  · exact h.reported
  · exact h.idle
  · intro p active
    cases inactive.symm.trans active
  · intro _
    rfl

/-- Switching overrides on or off, with a key whose own action is not sent. -/
theorem Held.switch {after : State} (inv : Inv table w.held after) (reported : Reported table w.held after)
    (idle : Idle after) (anchored : Anchored table w.held after) (pressed : event.pressed = true) :
    Held table { held := heldAfter event w.held, state := after } := by
  have grown : w.held ⊆ heldAfter event w.held := by
    rw [heldAfter, if_pos pressed]
    exact List.subset_cons_self _ _
  refine ⟨inv.mono grown, reported.mono grown, idle, ?_⟩
  intro p active noTrigger
  obtain ⟨m, member, modifier⟩ := anchored p active noTrigger
  exact ⟨m, grown member, modifier⟩

theorem Held.on (h : Held table w) (pressed : event.pressed = true) :
    Held table { held := heldAfter event w.held, state := keyOverrideOn w.state } := by
  refine Held.switch ?_ ⟨h.reported.reportable, h.reported.owner⟩ nofun h.anchored pressed
  refine ⟨h.inv.last, h.inv.lastNotModifier, h.inv.active, h.inv.inactive, ?_⟩
  intro pending
  obtain ⟨p, member, scheduled, deferred⟩ := h.inv.deferred pending
  refine ⟨p, member, scheduled, ?_⟩
  cases deferred with
  | replacement active code registers => exact .replacement active code registers
  | trigger code down small => exact .trigger code down small

theorem Held.off (sane : table.Sane) (h : Held table w) (pressed : event.pressed = true) :
    Held table { held := heldAfter event w.held, state := keyOverrideOff table event.now w.state } := by
  have inactive := clear_activeOverride table false event.now { w.state with enabled := false }
  have off : Inv table w.held { w.state with enabled := false } := by
    refine ⟨h.inv.last, h.inv.lastNotModifier, h.inv.active, h.inv.inactive, ?_⟩
    intro pending
    obtain ⟨p, member, scheduled, deferred⟩ := h.inv.deferred pending
    refine ⟨p, member, scheduled, ?_⟩
    cases deferred with
    | replacement active code registers => exact .replacement active code registers
    | trigger code down small => exact .trigger code down small
  have reported : Reported table w.held { w.state with enabled := false } :=
    ⟨h.reported.reportable, h.reported.owner⟩
  refine Held.switch (off.clear sane false event.now) (reported.clear sane off false event.now) ?_ ?_ pressed
  · intro _
    exact inactive
  · intro p active
    cases inactive.symm.trans active

/-- Every key event that is noticed keeps the invariant. -/
theorem Held.keyStep (sane : table.Sane) (h : Held table w) (noticed : Noticed table w event) :
    Held table (keyStep table event w) := by
  by_cases toggle : event.pressed = true ∧ event.keycode = qkKeyOverrideToggle
  · have processed : processKeyOverride table event w.state =
        (false, if w.state.enabled then keyOverrideOff table event.now w.state else keyOverrideOn w.state) := by
      rw [processKeyOverride, if_pos toggle]
    rw [KeyOverrides.keyStep, processed]
    dsimp only
    rw [if_neg (by decide)]
    split
    · exact h.off sane toggle.1
    · exact h.on toggle.1
  by_cases on : event.pressed = true ∧ event.keycode = qkKeyOverrideOn
  · have processed : processKeyOverride table event w.state = (false, keyOverrideOn w.state) := by
      rw [processKeyOverride, if_neg toggle, if_pos on]
    rw [KeyOverrides.keyStep, processed]
    exact h.on on.1
  by_cases off : event.pressed = true ∧ event.keycode = qkKeyOverrideOff
  · have processed : processKeyOverride table event w.state = (false, keyOverrideOff table event.now w.state) := by
      rw [processKeyOverride, if_neg toggle, if_neg on, if_pos off]
    rw [KeyOverrides.keyStep, processed]
    exact h.off sane off.1
  by_cases enabled : w.state.enabled = true
  · have processed : processKeyOverride table event w.state = processEnabled table event w.state := by
      rw [processKeyOverride, if_neg toggle, if_neg on, if_neg off, if_pos enabled]
    rw [KeyOverrides.keyStep, processed]
    by_cases active : (isModifierKeycode event.keycode.toNat || event.pressed) = true
    · exact h.attempt sane noticed enabled active
    · simp only [Bool.or_eq_true, not_or, Bool.not_eq_true] at active
      exact h.release sane noticed enabled active.1 active.2
  · have processed : processKeyOverride table event w.state = (true, w.state) := by
      rw [processKeyOverride, if_neg toggle, if_neg on, if_neg off, if_neg enabled]
    rw [KeyOverrides.keyStep, processed]
    exact h.disabled noticed (by simpa using enabled)

/-- `key_override_task` is about to register the deferred key code. -/
def Fires (now : BitVec 32) (s : State) : Prop :=
  s.deferredRegister ≠ 0 ∧ now - s.deferReferenceTime ≥ s.deferDelay

theorem lowByte_mem_actionCodes {k : Keycode} (small : k.toNat ≤ qkModsMax) : lowByte k ∈ actionCodes k := by
  unfold actionCodes
  rw [if_pos small]
  dsimp only
  split
  · exact List.mem_cons_self
  · exact List.mem_singleton_self _

theorem Held.task (h : Held table w) (now : BitVec 32) :
    Held table { w with state := keyOverrideTask now w.state } := by
  unfold keyOverrideTask
  split
  · exact h
  · next pending =>
    split
    · obtain ⟨p, _, _, deferred⟩ := h.inv.deferred pending
      unfold registerCode16
      rw [registerCode_eq]
      refine ⟨?_, ⟨?_, ?_⟩, h.idle, h.anchored⟩
      · exact ⟨h.inv.last, h.inv.lastNotModifier, h.inv.active, h.inv.inactive, fun pending => absurd rfl pending⟩
      · intro c down
        rcases registered_registerCode w.state down with before | ⟨_, reportable⟩
        · exact h.reported.reportable c before
        · exact reportable
      · intro c down
        rcases registered_registerCode w.state down with before | ⟨code, _⟩
        · exact h.reported.owner c before
        · cases deferred with
          | replacement active own registers =>
            rw [own] at code
            exact .inr ⟨p, active, registers, code⟩
          | trigger own down small =>
            rw [own] at code
            exact .inl ⟨_, down, code ▸ lowByte_mem_actionCodes small⟩
    · exact h

/-- The condition on a step of a run. -/
def Step.Noticed (table : Table) (w : World) : Step → Prop
  | .key event => KeyOverrides.Noticed table w event
  | .task _ => True

instance (table : Table) (w : World) (st : Step) : Decidable (st.Noticed table w) :=
  match st with
  | .key event => inferInstanceAs (Decidable (KeyOverrides.Noticed table w event))
  | .task _ => inferInstanceAs (Decidable True)

theorem start_held (table : Table) (enabled : Bool) : Held table (start enabled) := by
  refine ⟨⟨fun nonzero => absurd rfl nonzero, rfl, nofun, fun _ => ⟨rfl, rfl⟩, fun pending => absurd rfl pending⟩,
    ⟨nofun, nofun⟩, fun _ => rfl, nofun⟩

end World

/-- A deferred key code is registered only while the trigger of its override is held, and when no
key is held, the report is empty and no override modifiers are set: in every run all of whose
releases are noticed. -/
theorem no_stuck_keys (table : Table) (sane : table.Sane) (enabled : Bool) (steps : List Step)
    (noticed : EveryStep (fun earlier st => st.Noticed table (earlier.foldl (step table) (start enabled))) steps) :
    (∀ now, Fires now (steps.foldl (step table) (start enabled)).state →
      ∃ p, (steps.foldl (step table) (start enabled)).state.deferredBy = some p ∧
        ((table.override p).trigger = kcNo ∨
          (table.override p).trigger ∈ (steps.foldl (step table) (start enabled)).held)) ∧
    ((steps.foldl (step table) (start enabled)).held = [] →
      (∀ c, (steps.foldl (step table) (start enabled)).state.registered c = false) ∧
      (steps.foldl (step table) (start enabled)).state.suppressedMods = 0 ∧
      (steps.foldl (step table) (start enabled)).state.weakOverrideMods = 0) := by
  have h : Held table (steps.foldl (step table) (start enabled)) := by
    refine foldl_everyStep _ (fun _ w => Held table w) (start_held table enabled) ?_ steps noticed
    intro earlier st noticed before
    cases st with
    | key event => exact before.keyStep sane noticed
    | task now => exact before.task now
  generalize steps.foldl (step table) (start enabled) = w at h
  refine ⟨?_, ?_⟩
  · intro now fires
    obtain ⟨p, _, scheduled, deferred⟩ := h.inv.deferred fires.1
    refine ⟨p, scheduled, ?_⟩
    cases deferred with
    | replacement active code registers =>
      by_cases noTrigger : (table.override p).trigger = kcNo
      · exact .inl noTrigger
      · exact .inr ((h.inv.active p active).2 noTrigger)
    | trigger code down small => exact .inr down
  · intro nothing
    have inactive : w.state.activeOverride = none := by
      by_contra active
      obtain ⟨p, active⟩ := Option.ne_none_iff_exists'.mp active
      by_cases noTrigger : (table.override p).trigger = kcNo
      · obtain ⟨m, member, _⟩ := h.anchored p active noTrigger
        rw [nothing] at member
        cases member
      · have down := (h.inv.active p active).2 noTrigger
        rw [nothing] at down
        cases down
    refine ⟨?_, h.inv.inactive inactive⟩
    intro c
    by_contra down
    rcases h.reported.owner c (by simpa using down) with ⟨k, member, _⟩ | ⟨p, active, _⟩
    · rw [nothing] at member
      cases member
    · cases inactive.symm.trans active

/-! ## A key that gets stuck -/

/-- Shift and backspace send delete. -/
def deleteOverride : KeyOverride where
  trigger := 0x2A
  triggerMods := 0x22
  layers := BitVec.allOnes 32
  negativeModMask := 0
  suppressedMods := 0x22
  replacement := 0x4C
  options := koOptionsAllActivations
  customAction := none

def deleteTable : Table where
  pointers := [0]
  override _ := deleteOverride
  short := by decide

def keyAt (now : BitVec 32) (keycode : Keycode) (pressed : Bool) : Step :=
  .key
    { keycode := keycode
      pressed := pressed
      now := now
      layer := 0
      oneshotMods := 0
      flag := fun _ => true }

theorem deleteTable_sane : deleteTable.Sane := by
  intro p _
  show KeyOverrides.Sane deleteOverride
  exact ⟨by decide, fun _ _ => by decide, fun _ => rfl, fun noTrigger => absurd noTrigger (by decide)⟩

/-- Shift is released before backspace, which is registered again half a second after it went down. -/
def noticedSteps : List Step :=
  [keyAt 10 0xE1 true, keyAt 20 0x2A true, keyAt 120 0xE1 false, .task 600, keyAt 700 0x2A false]

theorem noticedSteps_leave_no_key :
    (noticedSteps.foldl (step deleteTable) (start true)).state.registered 0x2A = false :=
  ((no_stuck_keys deleteTable deleteTable_sane true noticedSteps (by decide)).2 (by decide)).1 0x2A

/-- Overrides are switched off while backspace is deferred; its release goes unnoticed, and then
it is registered. -/
def unnoticedSteps : List Step :=
  [keyAt 10 0xE1 true, keyAt 20 0x2A true, keyAt 120 0xE1 false, keyAt 200 qkKeyOverrideOff true,
    keyAt 250 qkKeyOverrideOff false, keyAt 300 0x2A false]

theorem unnoticed_release_sticks :
    (∃ now, Fires now (unnoticedSteps.foldl (step deleteTable) (start true)).state ∧
      (unnoticedSteps.foldl (step deleteTable) (start true)).state.deferredBy = some 0 ∧
      (deleteTable.override 0).trigger ∉ (unnoticedSteps.foldl (step deleteTable) (start true)).held) ∧
    ((unnoticedSteps ++ [Step.task 600]).foldl (step deleteTable) (start true)).held = [] ∧
    ((unnoticedSteps ++ [Step.task 600]).foldl (step deleteTable) (start true)).state.registered 0x2A = true := by
  exact ⟨⟨600, ⟨by decide, by decide⟩, by decide, by decide⟩, by decide, by decide⟩

end QmkFirmware.KeyOverrides
