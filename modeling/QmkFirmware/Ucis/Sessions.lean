import QmkFirmware.Ucis.Matching
import Mathlib.Tactic.Tauto

/-! # Sessions

What has been typed in a session is at the start of `input`, and what the array holds behind it is left from before.  The
result of a session is that of its text exactly if neither this rest nor the mnemonics that only begin with the text come
in between.
-/

namespace QmkFirmware.Ucis

open Unicode (Env)

section Finish

variable {config : Config} {s : State} {text : List UInt8}

/-- The first symbol whose mnemonic is the text. -/
def expected (config : Config) (text : List UInt8) : Option Nat :=
  config.ucisSymbolTable.findIdx? fun symbol => symbol.mnemonic == text

/-- The search ends with the symbol that is expected, and reads no place behind the array. -/
def Finds (config : Config) (s : State) (text : List UInt8) : Prop :=
  ∃ reads, findLoop config s 256 0 = some (expected config text, reads) ∧ ∀ r ∈ reads, r < config.maxInputLength

/-- The mnemonic at an index of the table. -/
def mnemonicAt (config : Config) (i : Nat) : Option (List UInt8) := config.ucisSymbolTable[i]?.map Symbol.mnemonic

/-- The text is not taken for another one.  If it fills the array, no mnemonic begins with it.  If a zero is behind it,
the first mnemonic that begins with it is the text.  If a character is left behind it, no mnemonic is the text, and none
begins with both, unless another character is left behind them.  And the index finds the text or the end of the table. -/
def Clear (config : Config) (input : Nat → UInt8) (text : List UInt8) : Prop :=
  if text.length = config.maxInputLength then
    config.ucisSymbolTable.length < 256 ∧ ∀ i mnemonic, mnemonicAt config i = some mnemonic → ¬ text <+: mnemonic
  else if input text.length = 0 then
    (config.ucisSymbolTable.length < 256 ∨ ∃ j < 256, mnemonicAt config j = some text) ∧
      ∀ i mnemonic, mnemonicAt config i = some mnemonic → text <+: mnemonic → ∃ j ≤ i, mnemonicAt config j = some text
  else
    config.ucisSymbolTable.length < 256 ∧ ∀ i mnemonic, mnemonicAt config i = some mnemonic → mnemonic ≠ text ∧
      (text ++ [input text.length] <+: mnemonic → text.length + 1 < config.maxInputLength ∧ input (text.length + 1) ≠ 0)

theorem mnemonicAt_eq_none {i : Nat} : mnemonicAt config i = none ↔ config.ucisSymbolTable.length ≤ i := by
  simp [mnemonicAt]

theorem expected_eq_some_iff {k : Nat} :
    expected config text = some k ↔
      mnemonicAt config k = some text ∧ ∀ j < k, mnemonicAt config j ≠ some text := by
  have at_iff : ∀ {j} (inside : j < config.ucisSymbolTable.length),
      mnemonicAt config j = some text ↔ config.ucisSymbolTable[j].mnemonic = text := by
    intro j inside
    simp [mnemonicAt, inside]
  rw [expected, List.findIdx?_eq_some_iff_getElem]
  constructor
  · rintro ⟨inside, same, before⟩
    refine ⟨(at_iff inside).mpr (eq_of_beq same), fun j earlier found => before j earlier ?_⟩
    rw [(at_iff (earlier.trans inside)).mp found]
    exact beq_self_eq_true text
  · rintro ⟨found, before⟩
    have inside : k < config.ucisSymbolTable.length := by
      by_contra outside
      rw [mnemonicAt_eq_none.mpr (Nat.not_lt.mp outside)] at found
      cases found
    refine ⟨inside, beq_iff_eq.mpr ((at_iff inside).mp found), fun j earlier same => before j earlier ?_⟩
    exact (at_iff (earlier.trans inside)).mpr (eq_of_beq same)

theorem expected_eq_none_iff : expected config text = none ↔ ∀ j, mnemonicAt config j ≠ some text := by
  rw [Option.eq_none_iff_forall_ne_some]
  constructor
  · intro none j found
    have some : ∃ j, mnemonicAt config j = some text := ⟨j, found⟩
    exact none (Nat.find some) (expected_eq_some_iff.mpr ⟨Nat.find_spec some, fun _ => Nat.find_min some⟩)
  · exact fun none k found => none k (expected_eq_some_iff.mp found).1

theorem outcome_eq (config : Config) (s : State) (i : Nat) :
    outcome config s i =
      (mnemonicAt config i).elim (some none) fun mnemonic => if (matchMnemonic s mnemonic).1 then some (some i) else none := by
  unfold outcome mnemonicAt
  cases config.ucisSymbolTable[i]? <;> rfl

theorem outcome_eq_none {j : Nat} :
    outcome config s j = none ↔
      ∃ mnemonic, mnemonicAt config j = some mnemonic ∧ ¬ (matchMnemonic s mnemonic).1 = true := by
  rw [outcome_eq]
  cases mnemonicAt config j <;> simp

theorem outcome_eq_some {k : Nat} {v : Option Nat} :
    outcome config s k = some v ↔
      (mnemonicAt config k = none ∧ v = none) ∨
        ∃ mnemonic, mnemonicAt config k = some mnemonic ∧ (matchMnemonic s mnemonic).1 = true ∧ v = some k := by
  rw [outcome_eq]
  cases mnemonicAt config k with
  | none =>
    constructor
    · rintro ⟨⟩
      exact .inl ⟨rfl, rfl⟩
    · rintro (⟨-, rfl⟩ | ⟨_, there, -⟩)
      · rfl
      · cases there
  | some mnemonic =>
    show (if _ then _ else _) = some v ↔ _
    constructor
    · intro ends
      split at ends
      next matched =>
        cases ends
        exact .inr ⟨mnemonic, rfl, matched, rfl⟩
      next => cases ends
    · rintro (⟨gone, -⟩ | ⟨_, ⟨⟩, matched, rfl⟩)
      · cases gone
      · exact if_pos matched

theorem mem_readsAt {j r : Nat} :
    r ∈ readsAt config s j ↔ ∃ mnemonic, mnemonicAt config j = some mnemonic ∧ r ∈ (matchMnemonic s mnemonic).2 := by
  unfold readsAt mnemonicAt
  cases config.ucisSymbolTable[j]? <;> simp

/-- The search finds what is expected if it finds the text or the end of the table, after mnemonics that do not match, and
reads the array only. -/
theorem finds_iff : Finds config s text ↔
    ∃ k < 256,
      (mnemonicAt config k = some text ∧ (matchMnemonic s text).1 = true ∨
        mnemonicAt config k = none ∧ ∀ j, mnemonicAt config j ≠ some text) ∧
      (∀ j < k, ∃ mnemonic, mnemonicAt config j = some mnemonic ∧ ¬ (matchMnemonic s mnemonic).1 = true ∧
        mnemonic ≠ text) ∧
      ∀ j ≤ k, ∀ mnemonic, mnemonicAt config j = some mnemonic →
        ∀ r ∈ (matchMnemonic s mnemonic).2, r < config.maxInputLength := by
  constructor
  · rintro ⟨reads, found, inside⟩
    obtain ⟨k, v, reads', small, ends, before, found', places⟩ | ⟨-, never⟩ := findLoop_cases config s
    · rw [found'] at found
      cases found
      have rest : ∀ j ≤ k, ∀ mnemonic, mnemonicAt config j = some mnemonic →
          ∀ r ∈ (matchMnemonic s mnemonic).2, r < config.maxInputLength := by
        intro j below mnemonic there r read
        exact inside r ((places r).mpr ⟨j, below, mem_readsAt.mpr ⟨mnemonic, there, read⟩⟩)
      have earlier : (∀ j < k, mnemonicAt config j ≠ some text) → ∀ j < k, ∃ mnemonic,
          mnemonicAt config j = some mnemonic ∧ ¬ (matchMnemonic s mnemonic).1 = true ∧ mnemonic ≠ text := by
        intro absent j below
        obtain ⟨mnemonic, there, different⟩ := outcome_eq_none.mp (before j below)
        refine ⟨mnemonic, there, different, ?_⟩
        rintro rfl
        exact absent j below there
      obtain ⟨behind, none⟩ | ⟨mnemonic, there, matched, same⟩ := outcome_eq_some.mp ends
      · have absent := expected_eq_none_iff.mp none
        exact ⟨k, small, .inr ⟨behind, absent⟩, earlier fun j _ => absent j, rest⟩
      · obtain ⟨found, first⟩ := expected_eq_some_iff.mp same
        rw [there] at found
        cases found
        exact ⟨k, small, .inl ⟨there, matched⟩, earlier first, rest⟩
    · rw [never] at found
      cases found
  · rintro ⟨k, small, ends, before, rest⟩
    have goes : ∀ j < k, outcome config s j = none := by
      intro j below
      obtain ⟨mnemonic, there, different, -⟩ := before j below
      exact outcome_eq_none.mpr ⟨mnemonic, there, different⟩
    have decides : outcome config s k = some (expected config text) := by
      rw [outcome_eq_some]
      obtain ⟨there, matched⟩ | ⟨behind, absent⟩ := ends
      · refine .inr ⟨text, there, matched, expected_eq_some_iff.mpr ⟨there, fun j below found => ?_⟩⟩
        obtain ⟨mnemonic, there', -, different⟩ := before j below
        rw [there'] at found
        cases found
        exact different rfl
      · exact .inl ⟨behind, expected_eq_none_iff.mpr absent⟩
    obtain ⟨reads, found, places⟩ := findLoop_ends decides goes small (Nat.zero_le k) (by omega : k < 0 + 256)
    refine ⟨reads, found, fun r read => ?_⟩
    obtain ⟨j, -, below, read⟩ := (places r).mp read
    obtain ⟨mnemonic, there, read⟩ := mem_readsAt.mp read
    exact rest j below mnemonic there r read

theorem mnemonicAt_isSome {j k : Nat} {mnemonic : List UInt8} (there : mnemonicAt config k = some mnemonic) (le : j ≤ k) :
    ∃ earlier, mnemonicAt config j = some earlier := by
  rw [← Option.ne_none_iff_exists', Ne, mnemonicAt_eq_none]
  intro outside
  rw [mnemonicAt_eq_none.mpr (outside.trans le)] at there
  cases there

/-- At the end of the table, all mnemonics have been seen. -/
theorem seen_of_end {k : Nat} (behind : mnemonicAt config k = none) {j : Nat} {mnemonic : List UInt8}
    (there : mnemonicAt config j = some mnemonic) : j < k := by
  by_contra outside
  obtain ⟨earlier, found⟩ := mnemonicAt_isSome there (Nat.not_lt.mp outside)
  rw [behind] at found
  cases found

/-- Without mnemonics that are or match the text, the search ends with the table. -/
theorem finds_of_absent (short : config.ucisSymbolTable.length < 256)
    (other : ∀ j mnemonic, mnemonicAt config j = some mnemonic →
      (¬ (matchMnemonic s mnemonic).1 = true ∧ mnemonic ≠ text) ∧
        ∀ r ∈ (matchMnemonic s mnemonic).2, r < config.maxInputLength) : Finds config s text := by
  rw [finds_iff]
  refine ⟨_, short, .inr ⟨mnemonicAt_eq_none.mpr le_rfl, fun j found => (other j text found).1.2 rfl⟩, ?_, ?_⟩
  · intro j below
    cases there : mnemonicAt config j with
    | none => exact absurd (mnemonicAt_eq_none.mp there) (Nat.not_le.mpr below)
    | some mnemonic => exact ⟨mnemonic, rfl, (other j mnemonic there).1⟩
  · exact fun j _ mnemonic there => (other j mnemonic there).2

/-- The text fills the array. -/
theorem finds_full (has : HasText s text) (full : text.length = config.maxInputLength) :
    Finds config s text ↔ config.ucisSymbolTable.length < 256 ∧
      ∀ i mnemonic, mnemonicAt config i = some mnemonic → ¬ text <+: mnemonic := by
  constructor
  · intro finds
    obtain ⟨k, small, ends, before, rest⟩ := finds_iff.mp finds
    -- a mnemonic that begins with the text is compared with the place behind the array
    have outside : ∀ j ≤ k, ∀ mnemonic, mnemonicAt config j = some mnemonic → ¬ text <+: mnemonic := by
      intro j below mnemonic there begins
      have read := (mem_reads_iff has mnemonic text.length).mpr ⟨Nat.le_succ _, (has.agrees mnemonic).mpr begins⟩
      have inside := rest j below mnemonic there _ read
      omega
    obtain ⟨there, -⟩ | ⟨behind, -⟩ := ends
    · exact absurd (List.prefix_refl text) (outside k le_rfl text there)
    · exact ⟨(mnemonicAt_eq_none.mp behind).trans_lt small,
        fun i mnemonic there => outside i (seen_of_end behind there).le mnemonic there⟩
  · rintro ⟨short, none⟩
    refine finds_of_absent short fun j mnemonic there => ⟨⟨fun matched => ?_, ?_⟩, fun r read => ?_⟩
    · obtain ⟨r, below, zero, agrees⟩ := (matchMnemonic_spec has mnemonic).1.mp matched
      exact none j mnemonic there ((has.agrees mnemonic).mp (agrees.le (has.le_of_zero zero)))
    · rintro rfl
      exact none j mnemonic there (List.prefix_refl mnemonic)
    · obtain ⟨-, agrees⟩ := (mem_reads_iff has mnemonic r).mp read
      by_contra outside
      exact none j mnemonic there ((has.agrees mnemonic).mp (agrees.le (by omega)))

/-- A zero is behind the text. -/
theorem finds_zero (has : HasText s text) (inside : text.length < config.maxInputLength)
    (zero : s.input text.length = 0) :
    Finds config s text ↔ (config.ucisSymbolTable.length < 256 ∨ ∃ j < 256, mnemonicAt config j = some text) ∧
      ∀ i mnemonic, mnemonicAt config i = some mnemonic → text <+: mnemonic → ∃ j ≤ i, mnemonicAt config j = some text := by
  have reads : ∀ mnemonic, ∀ r ∈ (matchMnemonic s mnemonic).2, r < config.maxInputLength := by
    intro mnemonic r read
    obtain ⟨below, agrees⟩ := (mem_reads_iff has mnemonic r).mp read
    by_contra outside
    exact (agrees text.length (by omega)).1 zero
  constructor
  · intro finds
    obtain ⟨k, small, ends, before, -⟩ := finds_iff.mp finds
    have later : ∀ i mnemonic, mnemonicAt config i = some mnemonic → text <+: mnemonic → k ≤ i := by
      intro i mnemonic there begins
      by_contra earlier
      obtain ⟨_, found, different, -⟩ := before i (Nat.lt_of_not_le earlier)
      rw [there] at found
      cases found
      exact different ((match_iff has zero mnemonic).mpr begins)
    obtain ⟨there, -⟩ | ⟨behind, -⟩ := ends
    · exact ⟨.inr ⟨k, small, there⟩, fun i mnemonic at_i begins => ⟨k, later i mnemonic at_i begins, there⟩⟩
    · refine ⟨.inl ((mnemonicAt_eq_none.mp behind).trans_lt small), fun i mnemonic there begins => ?_⟩
      exact absurd (later i mnemonic there begins) (Nat.not_le.mpr (seen_of_end behind there))
  · rintro ⟨short, first⟩
    by_cases some : ∃ i mnemonic, mnemonicAt config i = .some mnemonic ∧ text <+: mnemonic
    · obtain ⟨mnemonic, there, begins⟩ := Nat.find_spec some
      have before : ∀ j < Nat.find some, ∀ earlier, mnemonicAt config j = .some earlier → ¬ text <+: earlier :=
        fun j below earlier found begins => Nat.find_min some below ⟨earlier, found, begins⟩
      generalize Nat.find some = k at there before
      have is : mnemonicAt config k = .some text := by
        obtain ⟨j, below, found⟩ := first k mnemonic there begins
        obtain rfl | earlier := Nat.eq_or_lt_of_le below
        · exact found
        · exact absurd (List.prefix_refl text) (before j earlier text found)
      have small : k < 256 := by
        obtain short | ⟨j, small, found⟩ := short
        · have within : ¬ config.ucisSymbolTable.length ≤ k := by
            rw [← mnemonicAt_eq_none, is]
            nofun
          omega
        · by_contra above
          exact before j (by omega) text found (List.prefix_refl text)
      refine finds_iff.mpr ⟨k, small, .inl ⟨is, (match_iff has zero text).mpr (List.prefix_refl text)⟩, ?_,
        fun _ _ mnemonic _ => reads mnemonic⟩
      intro j below
      obtain ⟨earlier, found⟩ := mnemonicAt_isSome is below.le
      refine ⟨earlier, found, fun matched => before j below earlier found ((match_iff has zero earlier).mp matched), ?_⟩
      rintro rfl
      exact before j below earlier found (List.prefix_refl earlier)
    · have absent : ∀ j mnemonic, mnemonicAt config j = .some mnemonic → ¬ text <+: mnemonic :=
        fun j mnemonic there begins => some ⟨j, mnemonic, there, begins⟩
      obtain short | ⟨j, -, found⟩ := short
      · refine finds_of_absent short fun j mnemonic there => ⟨⟨fun matched => ?_, ?_⟩, reads mnemonic⟩
        · exact absent j mnemonic there ((match_iff has zero mnemonic).mp matched)
        · rintro rfl
          exact absent j mnemonic there (List.prefix_refl mnemonic)
      · exact absurd (List.prefix_refl text) (absent j text found)

/-- A character is left behind the text. -/
theorem finds_left (has : HasText s text) (inside : text.length < config.maxInputLength)
    (left : s.input text.length ≠ 0) :
    Finds config s text ↔ config.ucisSymbolTable.length < 256 ∧
      ∀ i mnemonic, mnemonicAt config i = some mnemonic → mnemonic ≠ text ∧
        (text ++ [s.input text.length] <+: mnemonic →
          text.length + 1 < config.maxInputLength ∧ s.input (text.length + 1) ≠ 0) := by
  constructor
  · intro finds
    obtain ⟨k, small, ends, before, rest⟩ := finds_iff.mp finds
    obtain ⟨-, matched⟩ | ⟨behind, -⟩ := ends
    · obtain ⟨-, begins⟩ := (match_iff_left has left text).mp matched
      have longer := begins.length_le
      rw [List.length_append, List.length_singleton] at longer
      omega
    · refine ⟨(mnemonicAt_eq_none.mp behind).trans_lt small, fun i mnemonic there => ?_⟩
      have seen := seen_of_end behind there
      obtain ⟨_, found, different, other⟩ := before i seen
      rw [there] at found
      cases found
      refine ⟨other, fun begins => ⟨?_, fun zero => ?_⟩⟩
      · exact rest i seen.le mnemonic there _
          ((mem_reads_iff has mnemonic _).mpr ⟨le_rfl, (has.agrees_succ left mnemonic).mpr begins⟩)
      · exact different ((match_iff_left has left mnemonic).mpr ⟨zero, begins⟩)
  · rintro ⟨short, other⟩
    refine finds_of_absent short fun j mnemonic there => ⟨⟨fun matched => ?_, (other j mnemonic there).1⟩, ?_⟩
    · obtain ⟨zero, begins⟩ := (match_iff_left has left mnemonic).mp matched
      exact ((other j mnemonic there).2 begins).2 zero
    · intro r read
      obtain ⟨below, agrees⟩ := (mem_reads_iff has mnemonic r).mp read
      by_contra outside
      have begins := (has.agrees_succ left mnemonic).mp (agrees.le (by omega))
      have within := ((other j mnemonic there).2 begins).1
      omega

theorem finds_iff_clear (has : HasText s text) (inside : text.length ≤ config.maxInputLength) :
    Finds config s text ↔ Clear config s.input text := by
  unfold Clear
  split
  next full => exact finds_full has full
  next shorter =>
    split
    next zero => exact finds_zero has (by omega) zero
    next left => exact finds_left has (by omega) left

end Finish

/-! ## Runs -/

/-- What a session has been given: whether it is active, and its text after deletions. -/
structure Session where
  active : Bool
  text : List UInt8

/-- The character of a key is typed if there is room for it. -/
def Session.type (config : Config) (keycode : Keycode) (session : Session) : Session :=
  if keycodeToChar keycode ≠ 0 ∧ session.text.length < config.maxInputLength then
    { session with text := session.text ++ [keycodeToChar keycode] }
  else session

def Session.step (config : Config) (session : Session) : Input → Session
  | .start => ⟨true, []⟩
  | .key keycode pressed =>
    if session.active && pressed then
      if keycode = kcBackspace then { session with text := session.text.dropLast }
      else if keycode = kcEscape then ⟨false, []⟩
      else if keycode = kcSpace ∨ keycode = kcEnter then { session with active := false }
      else session.type config keycode
    else session

def session (config : Config) (inputs : List Input) : Session := inputs.foldl (Session.step config) ⟨false, []⟩

/-- The input finishes the session. -/
def Session.finishes (session : Session) : Input → Bool
  | .start => false
  | .key keycode pressed => session.active && pressed && (keycode == kcSpace || keycode == kcEnter)

/-- A step registers the symbol of the text if it finishes the session, else none, and accesses the array only. -/
def Proper (env : Env) (config : Config) (s : State) (session : Session) (input : Input) : Prop :=
  ∃ t accesses, step env config s input = some t ∧
    t.symbols = s.symbols ++ (if session.finishes input then (expected config session.text).toList else []) ∧
    t.accesses = s.accesses ++ accesses ∧ ∀ place ∈ accesses, place < config.maxInputLength

/-- The state has what the session has been given. -/
structure Related (config : Config) (s : State) (session : Session) : Prop where
  active : s.active = session.active
  text : HasText s session.text
  room : session.text.length ≤ config.maxInputLength

section Runs

variable {env : Env} {config : Config} {s : State} {session : Session}

/-- The special keys type no character. -/
theorem keycodeToChar_special {keycode : Keycode}
    (special : (keycode == kcSpace || keycode == kcEnter || keycode == kcEscape || keycode == kcBackspace) = true) :
    keycodeToChar keycode = 0 := by
  have cases : ((keycode = kcSpace ∨ keycode = kcEnter) ∨ keycode = kcEscape) ∨ keycode = kcBackspace := by
    simpa using special
  obtain ((rfl | rfl) | rfl) | rfl := cases <;> decide

theorem hasText_add {text : List UInt8} (has : HasText s text) {c : UInt8} (some : c ≠ 0) :
    HasText { s with input := Function.update s.input s.count c, count := s.count + 1, accesses := s.accesses ++ [s.count] }
      (text ++ [c]) where
  count := by
    show s.count + 1 = _
    rw [has.count, List.length_append, List.length_singleton]
  input i inside := by
    show Function.update s.input s.count c i = _
    rw [List.length_append, List.length_singleton] at inside
    rw [has.count]
    by_cases within : i < text.length
    · rw [Function.update_of_ne (by omega), List.getElem_append_left within, has.input i within]
    · obtain rfl : i = text.length := by omega
      simp
  nonzero d there := by
    obtain there | there := List.mem_append.mp there
    · exact has.nonzero d there
    · rw [List.mem_singleton.mp there]
      exact some

/-- A shorter text is there as well. -/
theorem hasText_dropLast {text : List UInt8} (has : HasText s text) {count : Nat} (shorter : count = text.length - 1) :
    HasText { s with count := count } text.dropLast where
  count := by
    show count = _
    rw [List.length_dropLast, shorter]
  input i inside := by
    rw [List.length_dropLast] at inside
    rw [List.getElem_dropLast]
    exact has.input i (by omega)
  nonzero d there := has.nonzero d (List.mem_of_mem_dropLast there)

theorem ucisRemoveLast_eq (s : State) : (ucisRemoveLast s).2 = { s with count := s.count - 1 } := by
  unfold ucisRemoveLast
  split
  next => rfl
  next none =>
    rw [not_not.mp none]
    cases s
    simp_all

theorem processUcis_idle {keycode : Keycode} {pressed : Bool} (idle : (s.active && pressed) = false) :
    processUcis env config keycode pressed s = some (true, s) := by
  rw [processUcis, if_neg (by rw [idle]; exact Bool.false_ne_true)]

/-- A key that is not special is added if it has a character and there is room. -/
theorem processUcis_plain {keycode : Keycode} (active : s.active = true)
    (plain : (keycode == kcSpace || keycode == kcEnter || keycode == kcEscape || keycode == kcBackspace) = false) :
    ∃ continues, processUcis env config keycode true s = some (continues,
      if keycodeToChar keycode ≠ 0 ∧ s.count < config.maxInputLength then
        { s with
          input := Function.update s.input s.count (keycodeToChar keycode)
          count := s.count + 1
          accesses := s.accesses ++ [s.count] }
      else s) := by
  have others : keycode ≠ kcBackspace ∧ keycode ≠ kcEscape ∧ ¬(keycode = kcSpace ∨ keycode = kcEnter) := by
    simp at plain
    tauto
  obtain ⟨backspace, escape, finish⟩ := others
  rw [processUcis, if_pos (by rw [active]; rfl)]
  dsimp only
  rw [plain]
  by_cases full : config.maxInputLength ≤ s.count
  · refine ⟨false, ?_⟩
    rw [if_pos ⟨full, rfl⟩, if_neg (fun room => absurd room.2 (Nat.not_lt.mpr full))]
  · refine ⟨true, ?_⟩
    rw [if_neg (fun both => full both.1)]
    by_cases none : keycodeToChar keycode = 0
    · have ignored : ucisAdd keycode s = (false, s) := if_neg (not_not_intro none)
      rw [ignored]
      dsimp only
      rw [if_neg Bool.false_ne_true, if_neg backspace, if_neg escape, if_neg finish,
        if_neg (fun room : keycodeToChar keycode ≠ 0 ∧ _ => room.1 none)]
    · have room : keycodeToChar keycode ≠ 0 ∧ s.count < config.maxInputLength := ⟨none, Nat.lt_of_not_le full⟩
      have added : ucisAdd keycode s = (true, _) := if_pos none
      rw [added, if_pos room]
      rfl

/-- A special key acts on what has been typed. -/
theorem processUcis_special {keycode : Keycode} (active : s.active = true)
    (special : (keycode == kcSpace || keycode == kcEnter || keycode == kcEscape || keycode == kcBackspace) = true) :
    processUcis env config keycode true s =
      if keycode = kcBackspace then some (ucisRemoveLast s)
      else if keycode = kcEscape then some (false, ucisCancel s)
      else (ucisFinish env config s).map fun s => (false, s) := by
  rw [processUcis, if_pos (by rw [active]; rfl)]
  dsimp only
  rw [special, if_neg (fun both => absurd both.2 (by decide)), ucisAdd]
  simp only [keycodeToChar_special special, ne_eq, not_true_eq_false, if_false, Bool.false_eq_true]
  split_ifs with backspace escape finish
  · rfl
  · rfl
  · rfl
  · simp at special
    tauto

/-- The steps that finish no session. -/
theorem step_other (env : Env) (related : Related config s session) {input : Input}
    (other : session.finishes input = false) :
    ∃ t accesses, step env config s input = some t ∧ t.symbols = s.symbols ∧ t.accesses = s.accesses ++ accesses ∧
      (∀ place ∈ accesses, place < config.maxInputLength) ∧ Related config t (session.step config input) := by
  cases input with
  | start => exact ⟨_, [], rfl, rfl, (List.append_nil _).symm, List.forall_mem_nil _, rfl, hasText_nil rfl, Nat.zero_le _⟩
  | key keycode pressed =>
    have same := related.active
    cases active : session.active && pressed with
    | false =>
      refine ⟨s, [], ?_, rfl, (List.append_nil _).symm, List.forall_mem_nil _, ?_⟩
      · rw [step, processUcis_idle (by rw [same]; exact active)]
        rfl
      · rw [Session.step, active]
        exact related
    | true =>
      obtain ⟨on, rfl⟩ := Bool.and_eq_true_iff.mp active
      rw [step]
      cases special : (keycode == kcSpace || keycode == kcEnter || keycode == kcEscape || keycode == kcBackspace) with
      | false =>
        obtain ⟨continues, processed⟩ := @processUcis_plain env config s keycode (same.trans on) special
        have typed : session.step config (.key keycode true) = session.type config keycode := by
          simp at special
          rw [Session.step, active, if_pos rfl, if_neg (by tauto), if_neg (by tauto), if_neg (by tauto)]
        rw [processed, typed, Session.type, related.text.count]
        split
        next room =>
          refine ⟨_, [session.text.length], rfl, rfl, rfl, ?_, ⟨same, ?_, ?_⟩⟩
          · intro place there
            rw [List.mem_singleton.mp there]
            exact room.2
          · have added := hasText_add related.text room.1
            rw [related.text.count] at added
            exact added
          · rw [List.length_append, List.length_singleton]
            exact room.2
        next => exact ⟨s, [], rfl, rfl, (List.append_nil _).symm, List.forall_mem_nil _, related⟩
      | true =>
        rw [processUcis_special (same.trans on) special, Session.step, active, if_pos rfl]
        split
        next =>
          refine ⟨_, [], rfl, ?_⟩
          rw [ucisRemoveLast_eq]
          refine ⟨rfl, (List.append_nil _).symm, List.forall_mem_nil _, same, ?_, ?_⟩
          · exact hasText_dropLast related.text (by rw [related.text.count])
          · rw [List.length_dropLast]
            exact (Nat.sub_le _ _).trans related.room
        next =>
          split
          next => exact ⟨_, [], rfl, rfl, (List.append_nil _).symm, List.forall_mem_nil _, rfl, hasText_nil rfl, Nat.zero_le _⟩
          next =>
            -- the other special keys finish the session
            rw [Session.finishes, active, Bool.true_and] at other
            simp at other special
            tauto

/-- The search decides what is registered and read. -/
theorem ucisFinish_of_found {v : Option Nat} {reads : List Nat} (found : findLoop config s 256 0 = some (v, reads)) :
    ∃ t, ucisFinish env config s = some t ∧ t.symbols = s.symbols ++ v.toList ∧ t.accesses = s.accesses ++ reads ∧
      t.active = false ∧ t.count = s.count ∧ t.input = s.input := by
  rw [ucisFinish, found]
  cases v with
  | none => exact ⟨_, rfl, (List.append_nil _).symm, rfl, rfl, rfl, rfl⟩
  | some index => exact ⟨_, rfl, rfl, rfl, rfl, rfl, rfl⟩

theorem step_finish (env : Env) (config : Config) (on : s.active = true) {input : Input}
    (finishes : session.finishes input = true) : step env config s input = ucisFinish env config s := by
  cases input with
  | start => cases finishes
  | key keycode pressed =>
    obtain ⟨both, key⟩ := Bool.and_eq_true_iff.mp finishes
    obtain ⟨-, rfl⟩ := Bool.and_eq_true_iff.mp both
    have keys : keycode = kcSpace ∨ keycode = kcEnter := by simpa using key
    have special : (keycode == kcSpace || keycode == kcEnter || keycode == kcEscape || keycode == kcBackspace) = true := by
      rw [key, Bool.true_or, Bool.true_or]
    have others : keycode ≠ kcBackspace ∧ keycode ≠ kcEscape := by
      obtain rfl | rfl := keys <;> decide
    rw [step, processUcis_special on special, if_neg others.1, if_neg others.2, Option.map_map]
    exact Option.map_id'

theorem finishes_active {input : Input} (finishes : session.finishes input = true) : session.active = true := by
  cases input with
  | start => cases finishes
  | key keycode pressed =>
    obtain ⟨both, -⟩ := Bool.and_eq_true_iff.mp finishes
    exact (Bool.and_eq_true_iff.mp both).1

theorem toList_injective {v w : Option Nat} (same : v.toList = w.toList) : v = w := by
  cases v <;> cases w <;> simp_all

/-- A step that finishes a session is proper exactly if the text is clear. -/
theorem proper_finish_iff (env : Env) (related : Related config s session) {input : Input}
    (finishes : session.finishes input = true) :
    Proper env config s session input ↔ Clear config s.input session.text := by
  rw [← finds_iff_clear related.text related.room, Proper,
    step_finish env config (related.active.trans (finishes_active finishes)) finishes, if_pos finishes]
  constructor
  · rintro ⟨t, accesses, ended, symbols, places, inside⟩
    obtain ⟨result, found, -⟩ := Option.map_eq_some_iff.mp ended
    obtain ⟨u, ended', registered, read, -⟩ := @ucisFinish_of_found env config s _ _ found
    rw [ended'] at ended
    cases ended
    have same := List.append_cancel_left (registered.symm.trans symbols)
    have there := List.append_cancel_left (read.symm.trans places)
    refine ⟨result.2, ?_, there ▸ inside⟩
    rw [found, ← toList_injective same]
  · rintro ⟨reads, found, inside⟩
    obtain ⟨t, ended, symbols, accesses, -⟩ := @ucisFinish_of_found env config s _ _ found
    exact ⟨t, reads, ended, symbols, accesses, inside⟩

theorem proper_other (env : Env) (related : Related config s session) {input : Input}
    (other : session.finishes input = false) : Proper env config s session input := by
  obtain ⟨t, accesses, stepped, symbols, places, inside, -⟩ := step_other env related other
  refine ⟨t, accesses, stepped, ?_, places, inside⟩
  rw [symbols, other, if_neg Bool.false_ne_true, List.append_nil]

/-- The state goes on to have what the session has been given. -/
theorem step_related {t : State} {input : Input} (related : Related config s session)
    (stepped : step env config s input = some t) : Related config t (session.step config input) := by
  cases finishes : session.finishes input with
  | false =>
    obtain ⟨u, -, other, -, -, -, related⟩ := step_other env related finishes
    rw [other] at stepped
    cases stepped
    exact related
  | true =>
    rw [step_finish env config (related.active.trans (finishes_active finishes)) finishes] at stepped
    obtain ⟨result, found, -⟩ := Option.map_eq_some_iff.mp stepped
    obtain ⟨u, ended, -, -, off, count, same⟩ := @ucisFinish_of_found env config s _ _ found
    rw [ended] at stepped
    cases stepped
    have finished : session.step config input = { session with active := false } := by
      cases input with
      | start => cases finishes
      | key keycode pressed =>
        obtain ⟨both, key⟩ := Bool.and_eq_true_iff.mp finishes
        have keys : keycode = kcSpace ∨ keycode = kcEnter := by simpa using key
        have others : keycode ≠ kcBackspace ∧ keycode ≠ kcEscape := by
          obtain rfl | rfl := keys <;> decide
        rw [Session.step, if_pos both, if_neg others.1, if_neg others.2, if_pos keys]
    rw [finished]
    refine ⟨off, ⟨count.trans related.text.count, fun i inside => ?_, related.text.nonzero⟩, related.room⟩
    rw [same]
    exact related.text.input i inside

theorem run_related (env : Env) {typing : Unicode.State} {behind : Nat → UInt8} {inputs : List Input} {t : State}
    (ran : run env config typing behind inputs = some t) : Related config t (Ucis.session config inputs) := by
  induction inputs using List.reverseRecOn generalizing t with
  | nil =>
    cases ran
    exact ⟨rfl, hasText_nil rfl, Nat.zero_le _⟩
  | append_singleton inputs input ih =>
    rw [run, List.foldlM_append] at ran
    obtain ⟨s, before, stepped⟩ := Option.bind_eq_some_iff.mp ran
    rw [Ucis.session, List.foldl_append]
    rw [List.foldlM_cons] at stepped
    obtain ⟨u, stepped, last⟩ := Option.bind_eq_some_iff.mp stepped
    cases last
    exact step_related (ih before) stepped

end Runs

/-- In every run, each step registers the first symbol whose mnemonic is the text of the session that it finishes, and
accesses the array only, exactly if each text that is finished is clear. -/
theorem sessions_proper_iff (env : Env) (config : Config) (typing : Unicode.State) (behind : Nat → UInt8)
    (inputs : List Input) :
    (∀ before input after s, inputs = before ++ input :: after → run env config typing behind before = some s →
        Proper env config s (session config before) input) ↔
      ∀ before input after s, inputs = before ++ input :: after → run env config typing behind before = some s →
        (session config before).finishes input = true → Clear config s.input (session config before).text := by
  constructor
  · intro proper before input after s split ran finishes
    exact (proper_finish_iff env (run_related env ran) finishes).mp (proper before input after s split ran)
  · intro clear before input after s split ran
    cases finishes : (session config before).finishes input with
    | false => exact proper_other env (run_related env ran) finishes
    | true => exact (proper_finish_iff env (run_related env ran) finishes).mpr (clear before input after s split ran finishes)

/-- The only mnemonic is `ab`. -/
def oneSymbol : Config := ⟨[⟨[0x61, 0x62], [0x03A8], by simp⟩], 32, 3, by decide⟩

def plainEnv : Env := .default fun _ => ⟨false, false⟩

def typedNothing : Unicode.State := ⟨Unicode.unicodeModeLinux, 0, ⟨false, false⟩, 0, 0, [], []⟩

/-- The `a` that is typed is taken for `ab`. -/
theorem prefix_registered :
    ∃ s, run plainEnv oneSymbol typedNothing (fun _ => 0) [.start, .key kcA true] = some s ∧
      ¬ Proper plainEnv oneSymbol s (session oneSymbol [.start, .key kcA true]) (.key kcEnter true) := by
  refine ⟨_, rfl, ?_⟩
  rintro ⟨t, accesses, stepped, symbols, -⟩
  have registered : t.symbols = [0] := Option.some.inj ((congrArg (Option.map State.symbols) stepped).symm.trans rfl)
  rw [registered] at symbols
  revert symbols
  decide +kernel

end QmkFirmware.Ucis
