import QmkFirmware.KeyOverrides.Invariant

/-! # Activating and deactivating

Activation reads the replacement as 16 bits, deactivation as 8.  So a custom key code, which is never
registered, is unregistered as the key of its low byte.  A system or consumer code, or a direction of the
mouse, takes the place of another one that is down.
-/

namespace QmkFirmware.KeyOverrides

/-! ## The codes that both sides touch -/

/-- The code that activation registers, if any; a modifier event only schedules it. -/
def registeredCode (o : KeyOverride) (isMod : Bool) : Option (BitVec 8) :=
  if !isMod && registersReplacement o && isReportable (lowByte (clearModsFrom o.replacement)).toNat then
    some (lowByte (clearModsFrom o.replacement))
  else none

def without (code : Option (BitVec 8)) (registered : BitVec 8 → Bool) : BitVec 8 → Bool :=
  fun c => registered c && decide (code ≠ some c)

section Machine

variable {table : Table} {event : KeyEvent} {isMod : Bool} {p : Nat} {s : State}

theorem displaces_eq_false {code : BitVec 8} (unknown : ¬ isReportable code.toNat = true) (c : BitVec 8) :
    displaces code c = false := by
  rw [isReportable_eq] at unknown
  simp only [Bool.or_eq_true, not_or, Bool.not_eq_true] at unknown
  obtain ⟨⟨⟨⟨_, _⟩, system⟩, consumer⟩, mouse⟩ := unknown
  have range : code.toNat < 0xCD ∨ 0xDF < code.toNat := by
    simp only [isMouseKeycode, decide_eq_false_iff_not] at mouse
    omega
  simp [displaces, sharesUsage, system, consumer, oppositeDirection_eq_none code range]

/-- The replacement takes the place of the codes it cannot stay beside. -/
theorem registerReplacement_registered (table : Table) (p : Nat) (isMod : Bool) (now : BitVec 32) (s : State)
    (c : BitVec 8) : (registerReplacement table p isMod now s).registered c = true ↔
      registeredCode (table.override p) isMod = some c ∨ s.registered c = true ∧
        ∀ code, registeredCode (table.override p) isMod = some code → displaces code c = false := by
  have step := @registerReplacement_registering table s p isMod now
  generalize registerReplacement table p isMod now s = after at step ⊢
  cases step with
  | kept none => simp [registeredCode, none]
  | scheduled _ modifier => simp [registeredCode, modifier]
  | registered registers other =>
    rw [registered_registerCode_iff, registeredCode, registers, other]
    by_cases reportable : isReportable (lowByte (clearModsFrom (table.override p).replacement)).toNat = true
    · simp [reportable, eq_comm (a := c)]
    · simp [reportable, displaces_eq_false reportable]

theorem clear_registered (allow : Bool) (now : BitVec 32) (s : State) (c : BitVec 8) :
    (clearActiveOverride table allow now s).registered c = true ↔ s.registered c = true ∧
      ∀ q, s.activeOverride = some q → firesCustomAction (table.override q) false = true →
        releases (lowByte (clearModsFrom (table.override q).replacement)) c = false := by
  cases active : s.activeOverride with
  | none =>
    rw [clearActiveOverride_none allow now active]
    simp
  | some q =>
    obtain ⟨_, _, _, _, cleared, -⟩ := @clearActiveOverride_some table s allow now q active
    rw [cleared]
    simpa using registered_unregisterReplacement_iff s (table.override q) c

theorem unregisterTrigger_registered (o : KeyOverride) (s : State) (c : BitVec 8) :
    (unregisterTrigger o s).registered c = true ↔ s.registered c = true ∧ releases (lowByte o.trigger) c = false := by
  rw [unregisterTrigger_eq_unregisterCode]
  exact registered_unregisterCode_iff s (lowByte o.trigger) c

/-! ## One activation -/

/-- Whether a code of the report is still there when the earlier override and the trigger are gone. -/
def Stays (table : Table) (event : KeyEvent) (p : Nat) (s : State) (code : BitVec 8) : Prop :=
  s.registered code = true ∧
    (∀ q, s.activeOverride = some q → firesCustomAction (table.override q) false = true →
      releases (lowByte (clearModsFrom (table.override q).replacement)) code = false) ∧
    ((table.override p).trigger = event.keycode ∧ event.pressed = true ∨ (table.override p).trigger = kcNo ∨
      releases (lowByte (table.override p).trigger) code = false)

theorem replaceTrigger_registered (table : Table) (event : KeyEvent) (p : Nat) (s : State) (code : BitVec 8) :
    (replaceTrigger table event p s).registered code = true ↔ Stays table event p s code := by
  unfold replaceTrigger Stays
  dsimp only
  by_cases pressed : (table.override p).trigger = event.keycode ∧ event.pressed = true
  · simp [pressed, clear_registered]
  · by_cases noTrigger : (table.override p).trigger = kcNo
    · simp [noTrigger, clear_registered]
    · have removes : (!(decide ((table.override p).trigger = event.keycode) && event.pressed) &&
          decide ((table.override p).trigger ≠ kcNo)) = true := by
        simpa [noTrigger, Classical.or_iff_not_imp_left] using pressed
      rw [if_pos removes, unregisterTrigger_registered, clear_registered]
      simp only [pressed, noTrigger, false_or, and_assoc]

/-! ## Symmetry -/

/-- Deactivating right after activating unregisters what activating registered and nothing else, and
both leave every other key as it was when the trigger was removed. -/
def Symmetric (table : Table) (event : KeyEvent) (isMod : Bool) (p : Nat) (allow : Bool) (now : BitVec 32)
    (s : State) : Prop :=
  let activated := activate table event isMod p s
  let deactivated := clearActiveOverride table allow now activated
  let code := registeredCode (table.override p) isMod
  deactivated.registered = without code activated.registered ∧
    ∀ other, code ≠ some other → deactivated.registered other = (replaceTrigger table event p s).registered other

/-- Where the low byte of the replacement is a code of the report: if the replacement is registered now,
the handler lets it be unregistered and nothing that it displaces stays down; if not, the handler keeps it
or nothing that it releases stays down. -/
def Matched (table : Table) (event : KeyEvent) (isMod : Bool) (p : Nat) (s : State) : Prop :=
  let o := table.override p
  let code := lowByte (clearModsFrom o.replacement)
  isReportable code.toNat = true →
    if isMod = false ∧ (clearModsFrom o.replacement).toNat < safeRange ∧ firesCustomAction o true = true then
      firesCustomAction o false = true ∧ ∀ other, other ≠ code → displaces code other = true → ¬ Stays table event p s other
    else firesCustomAction o false = true → ∀ other, releases code other = true → ¬ Stays table event p s other

theorem registeredCode_eq {o : KeyOverride} (isMod : Bool)
    (reportable : isReportable (lowByte (clearModsFrom o.replacement)).toNat = true) :
    registeredCode o isMod =
      if isMod = false ∧ (clearModsFrom o.replacement).toNat < safeRange ∧ firesCustomAction o true = true then
        some (lowByte (clearModsFrom o.replacement))
      else none := by
  have some : clearModsFrom o.replacement ≠ kcNo := by
    intro nothing
    rw [nothing] at reportable
    exact absurd reportable (by decide)
  cases isMod <;> simp [registeredCode, registersReplacement, reportable, some]

theorem activate_registered (table : Table) (event : KeyEvent) (isMod : Bool) (p : Nat) (s : State) (c : BitVec 8) :
    (activate table event isMod p s).registered c = true ↔
      registeredCode (table.override p) isMod = some c ∨ Stays table event p s c ∧
        ∀ code, registeredCode (table.override p) isMod = some code → displaces code c = false := by
  rw [activate, registerReplacement_registered, replaceTrigger_registered]

theorem deactivated_registered (table : Table) (event : KeyEvent) (isMod : Bool) (p : Nat) (allow : Bool)
    (now : BitVec 32) (s : State) (c : BitVec 8) :
    (clearActiveOverride table allow now (activate table event isMod p s)).registered c = true ↔
      (activate table event isMod p s).registered c = true ∧ (firesCustomAction (table.override p) false = true →
        releases (lowByte (clearModsFrom (table.override p).replacement)) c = false) := by
  rw [clear_registered, (activate_fields table event isMod p s).1]
  simp

/-- Both parts of symmetry, as conditions on one code each. -/
theorem symmetric_pointwise (table : Table) (event : KeyEvent) (isMod : Bool) (p : Nat) (allow : Bool)
    (now : BitVec 32) (s : State) : Symmetric table event isMod p allow now s ↔
      ∀ c, ((activate table event isMod p s).registered c = true ∧ (firesCustomAction (table.override p) false = true →
          releases (lowByte (clearModsFrom (table.override p).replacement)) c = false) ↔
        (activate table event isMod p s).registered c = true ∧ registeredCode (table.override p) isMod ≠ some c) ∧
      (registeredCode (table.override p) isMod ≠ some c →
        ((activate table event isMod p s).registered c = true ∧ (firesCustomAction (table.override p) false = true →
          releases (lowByte (clearModsFrom (table.override p).replacement)) c = false) ↔ Stays table event p s c)) := by
  unfold Symmetric without
  dsimp only
  rw [funext_iff, ← forall_and]
  refine forall_congr' fun c => and_congr ?_ (imp_congr_right fun _ => ?_)
  · rw [Bool.eq_iff_iff, deactivated_registered, Bool.and_eq_true, decide_eq_true_eq]
  · rw [Bool.eq_iff_iff, deactivated_registered, replaceTrigger_registered]

theorem releases_self {code : BitVec 8} (reportable : isReportable code.toNat = true) : releases code code = true := by
  simp [releases, reportable]

/-- Unregistering takes out less than registering. -/
theorem releases_cases {code c : BitVec 8} (released : releases code c = true) : c = code ∨ displaces code c = true := by
  simp only [releases, Bool.or_eq_true, Bool.and_eq_true, decide_eq_true_eq] at released
  rcases released with ⟨_, same⟩ | shared
  · exact .inl same
  · exact .inr (by rw [displaces, shared, Bool.true_or])

/-- Where `code` is registered, the deactivation has to take it out, and there must be nothing for it to displace. -/
theorem matched_registered {code : BitVec 8} (reportable : isReportable code.toNat = true) (fires : Bool)
    (stays : BitVec 8 → Prop) :
    (∀ c, ((code = c ∨ stays c ∧ displaces code c = false) ∧ (fires = true → releases code c = false) ↔
        (code = c ∨ stays c ∧ displaces code c = false) ∧ code ≠ c) ∧
      (code ≠ c → ((code = c ∨ stays c ∧ displaces code c = false) ∧ (fires = true → releases code c = false) ↔
        stays c))) ↔
      fires = true ∧ ∀ other, other ≠ code → displaces code other = true → ¬ stays other := by
  constructor
  · intro symmetric
    have unregisters : fires = true := by
      by_contra kept
      simpa [kept] using (symmetric code).1
    refine ⟨unregisters, fun other apart displaced stays => ?_⟩
    have same := (symmetric other).2 (Ne.symm apart)
    rcases (same.mpr stays).1 with rfl | ⟨_, beside⟩
    · exact apart rfl
    · rw [displaced] at beside
      cases beside
  · rintro ⟨unregisters, alone⟩ c
    by_cases own : c = code
    · subst own
      simp [unregisters, releases_self reportable]
    · -- what stays is not displaced, so it is not released either
      have kept (beside : displaces code c = false) : releases code c = false := by
        by_contra released
        rcases releases_cases (eq_true_of_ne_false released) with same | displaced
        · exact own same
        · rw [beside] at displaced
          cases displaced
      have beside (left : stays c) : displaces code c = false := by
        by_contra displaced
        exact alone c own (eq_true_of_ne_false displaced) left
      constructor
      · constructor
        · exact fun active => ⟨active.1, Ne.symm own⟩
        · rintro ⟨rfl | left, apart⟩
          · exact absurd rfl apart
          · exact ⟨.inr left, fun _ => kept left.2⟩
      · intro apart
        constructor
        · exact fun active => (active.1.resolve_left apart).1
        · exact fun left => ⟨.inr ⟨left, beside left⟩, fun _ => kept (beside left)⟩

/-- Deactivating after activating is symmetric exactly where both sides match. -/
theorem symmetric_iff (table : Table) (event : KeyEvent) (isMod : Bool) (p : Nat) (allow : Bool) (now : BitVec 32)
    (s : State) : Symmetric table event isMod p allow now s ↔ Matched table event isMod p s := by
  rw [symmetric_pointwise]
  simp only [activate_registered]
  unfold Matched
  dsimp only
  by_cases reportable : isReportable (lowByte (clearModsFrom (table.override p).replacement)).toNat = true
  · rw [registeredCode_eq isMod reportable]
    simp only [reportable, true_imp_iff]
    generalize lowByte (clearModsFrom (table.override p).replacement) = code at reportable ⊢
    generalize firesCustomAction (table.override p) false = fires
    by_cases registers : isMod = false ∧ (clearModsFrom (table.override p).replacement).toNat < safeRange ∧
        firesCustomAction (table.override p) true = true
    · rw [if_pos registers, if_pos registers]
      simp only [Option.some_inj, forall_eq', ne_eq]
      exact matched_registered reportable fires (Stays table event p s)
    · rw [if_neg registers, if_neg registers]
      simp only [reduceCtorEq, false_or, ne_eq, not_false_eq_true, and_true, false_imp_iff, true_imp_iff, implies_true,
        and_self, and_iff_left_iff_imp]
      constructor
      · intro kept fires other released stays
        have := kept other stays fires
        rw [released] at this
        cases this
      · intro gone c stays fires
        by_contra released
        exact gone fires c (eq_true_of_ne_false released) stays
  · -- a code that the report has no place for is neither registered nor released
    have nothing : registeredCode (table.override p) isMod = none := by simp [registeredCode, reportable]
    have kept (c : BitVec 8) : releases (lowByte (clearModsFrom (table.override p).replacement)) c = false := by
      have alone := displaces_eq_false reportable c
      simp only [displaces, Bool.or_eq_false_iff] at alone
      simp [releases, reportable, alone.1]
    simp [nothing, kept, reportable]

/-- One override of `KC_A` without modifiers. -/
def replacing (replacement : Keycode) : Table where
  pointers := [0]
  override := fun _ =>
    { trigger := 0x04
      triggerMods := 0
      layers := 1
      negativeModMask := 0
      suppressedMods := 0
      replacement := replacement
      options := 0
      customAction := none }
  short := Nat.le_add_right 1 254

/-- `KC_A` is pressed while another key is down. -/
def whileDown (other : BitVec 8) : State := { (start true).state with registered := fun code => decide (code = other) }

/-- A custom key code with the low byte of `KC_F11`: nothing is registered, and `KC_F11` goes. -/
theorem custom_replacement_asymmetric :
    ¬ Symmetric (replacing 0x7E44) ⟨0x04, true, 0, 0, 0, fun _ => true⟩ false 0 false 0 (whileDown 0x44) := by
  rintro ⟨symmetric, _⟩
  exact absurd (congrFun symmetric 0x44) (by decide)

/-- `KC_AUDIO_VOL_UP` takes the place of `KC_AUDIO_MUTE` in the one consumer usage. -/
example : ¬ Symmetric (replacing 0xA9) ⟨0x04, true, 0, 0, 0, fun _ => true⟩ false 0 false 0 (whileDown 0xA8) := by
  rintro ⟨_, others⟩
  exact absurd (others 0xA8 (by decide)) (by decide)

end Machine

end QmkFirmware.KeyOverrides
