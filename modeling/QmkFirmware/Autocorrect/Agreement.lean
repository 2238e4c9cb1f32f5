import QmkFirmware.Autocorrect.Corrections

/-! # The generator and the firmware agree

A session types letters, quotes, word breaks and backspaces without modifiers.  The handler fires exactly where a
typo of the dictionary ends its buffer, and the correction then stands in the text, for the dictionaries whose
entries are plain. -/

namespace QmkFirmware.Autocorrect

open QmkFirmware.Runs

/-! ## Keys -/

inductive WordBreak where
  | digit (n : Fin 10)
  | tabToSemicolon (n : Fin 9)
  | graveToSlash (n : Fin 4)
  | enter
  deriving DecidableEq

inductive Key where
  | letter (n : Fin 26)
  | quote
  | wordBreak (key : WordBreak)
  | backspace
  deriving DecidableEq

def WordBreak.keycode : WordBreak → UInt16
  | .digit n => 0x1E + UInt16.ofNat n
  | .tabToSemicolon n => 0x2B + UInt16.ofNat n
  | .graveToSlash n => 0x35 + UInt16.ofNat n
  | .enter => 0x28

def BasicCode (keycode : UInt16) : Prop := 0x04 ≤ keycode.toNat ∧ keycode.toNat ≤ 0x38

instance : DecidablePred BasicCode := fun _ => inferInstanceAs (Decidable (_ ∧ _))

/-- Every word break is a space in the buffer. -/
theorem WordBreak.keycode_spec (key : WordBreak) :
    BasicCode key.keycode ∧ bufferKey key.keycode 0 = .append kcSpc (decide (key = .enter)) := by
  cases key with
  | digit n =>
    have all : ∀ n : Fin 10, BasicCode (digit n).keycode ∧ bufferKey (digit n).keycode 0 = .append kcSpc false := by
      decide
    exact all n
  | tabToSemicolon n =>
    have all : ∀ n : Fin 9, BasicCode (tabToSemicolon n).keycode ∧
        bufferKey (tabToSemicolon n).keycode 0 = .append kcSpc false := by decide
    exact all n
  | graveToSlash n =>
    have all : ∀ n : Fin 4, BasicCode (graveToSlash n).keycode ∧
        bufferKey (graveToSlash n).keycode 0 = .append kcSpc false := by decide
    exact all n
  | enter => decide

namespace Key

def keycode : Key → UInt16
  | .letter n => 0x04 + UInt16.ofNat n
  | .quote => 0x34
  | .wordBreak key => key.keycode
  | .backspace => 0x2A

def letterChar (n : Fin 26) : Char := Char.ofNat (n + 'a'.toNat)

/-- The character of a typo that a key stands for. -/
def symbol : Key → Option Char
  | .letter n => some (letterChar n)
  | .quote => some quoteChar
  | .wordBreak _ => some ':'
  | .backspace => none

/-- What the host makes of a key; the word breaks show what their keys are for. -/
def typeOn (layout : WordBreak → Char) (text : List Char) : Key → List Char
  | .letter n => text ++ [letterChar n]
  | .quote => text ++ [quoteChar]
  | .wordBreak key => text ++ [layout key]
  | .backspace => text.dropLast

/-- The buffer that a key is appended to: enter clears it. -/
def base (buffer : List UInt8) (key : Key) : List UInt8 := if key = .wordBreak .enter then [] else buffer

theorem symbol_typed {key : Key} {c : Char} (symbol : key.symbol = some c) : Typed c := by
  cases key with
  | letter n =>
    cases symbol
    have all : ∀ n : Fin 26, Typed (letterChar n) := by
      unfold Typed
      decide
    exact all n
  | quote =>
    cases symbol
    rfl
  | wordBreak =>
    cases symbol
    rfl
  | backspace => cases symbol

theorem typeOn_symbol (layout : WordBreak → Char) (text : List Char) {key : Key} {c : Char} (symbol : key.symbol = some c) :
    ∃ typed, Match c typed ∧ key.typeOn layout text = text ++ [typed] := by
  cases key with
  | letter n =>
    cases symbol
    exact ⟨_, fun _ => rfl, rfl⟩
  | quote =>
    cases symbol
    exact ⟨_, fun _ => rfl, rfl⟩
  | wordBreak key =>
    cases symbol
    exact ⟨layout key, fun other => absurd rfl other, rfl⟩
  | backspace => cases symbol

theorem keycode_basic (key : Key) : BasicCode key.keycode := by
  cases key with
  | letter n =>
    have all : ∀ n : Fin 26, BasicCode (letter n).keycode := by decide
    exact all n
  | quote => decide
  | wordBreak key => exact key.keycode_spec.1
  | backspace => decide

/-- What the handler appends for a key. -/
theorem bufferKey_symbol {key : Key} {c : Char} (symbol : key.symbol = some c) :
    bufferKey key.keycode 0 = .append (code c) (decide (key = .wordBreak .enter)) := by
  cases key with
  | letter n =>
    cases symbol
    have all : ∀ n : Fin 26, bufferKey (letter n).keycode 0 = .append (code (letterChar n)) false := by decide
    exact all n
  | quote =>
    cases symbol
    rfl
  | wordBreak key =>
    cases symbol
    rw [keycode, key.keycode_spec.2]
    simp only [wordBreak.injEq]
    rfl
  | backspace => cases symbol

theorem symbol_none {key : Key} (symbol : key.symbol = none) : key = .backspace := by
  cases key with
  | letter n => cases symbol
  | quote => cases symbol
  | wordBreak key => cases symbol
  | backspace => rfl

end Key

/-- Basic keys without modifiers pass the handler. -/
theorem handler_basic (f : Features) {keycode : UInt16} (basic : BasicCode keycode) :
    defaultHandler f (keyPress keycode) = .allowed keycode 0 := by
  have high := basic.2
  have below {bound : UInt16} (above : 0x38 < bound.toNat) : ¬bound ≤ keycode := fun reaches => by
    have := UInt16.le_iff_toNat_le.mp reaches
    omega
  have other {bound : UInt16} (above : 0x38 < bound.toNat) : keycode ≠ bound := fun same => by
    rw [same] at high
    omega
  simp [defaultHandler, keyPress, checkMods, below, other]

/-! ## One press -/

variable {h : Header} {f : Features} {buffer : List UInt8}

/-- The key codes that switch the feature are not basic. -/
theorem basic_no_switch {keycode bound : UInt16} (basic : BasicCode keycode) (above : 0x38 < bound.toNat) :
    ¬((keyPress keycode).keycode = bound ∧ (keyPress keycode).pressed = true) := by
  rintro ⟨same, -⟩
  have high := basic.2
  rw [show keycode = bound from same] at high
  omega

theorem process_symbol {key : Key} {c : Char} (symbol : key.symbol = some c) :
    processAutocorrect h f ⟨true, buffer⟩ (keyPress key.keycode) = appendKey h ⟨true, buffer⟩ (key.base buffer) (code c) := by
  have basic := key.keycode_basic
  have pressed : ¬(!(keyPress key.keycode).pressed) = true := Bool.false_ne_true
  rw [processAutocorrect, if_neg (basic_no_switch basic (by decide)), if_neg (basic_no_switch basic (by decide)),
    if_neg (basic_no_switch basic (by decide)), if_neg (show ¬(!true) = true by decide), if_neg pressed,
    handler_basic f basic]
  dsimp only
  rw [Key.bufferKey_symbol symbol]
  simp only [decide_eq_true_eq, Key.base]

theorem process_backspace :
    processAutocorrect h f ⟨true, buffer⟩ (keyPress Key.backspace.keycode) = ⟨⟨true, buffer.dropLast⟩, true, none⟩ := by
  have basic := Key.backspace.keycode_basic
  have pressed : ¬(!(keyPress Key.backspace.keycode).pressed) = true := Bool.false_ne_true
  rw [processAutocorrect, if_neg (basic_no_switch basic (by decide)), if_neg (basic_no_switch basic (by decide)),
    if_neg (basic_no_switch basic (by decide)), if_neg (show ¬(!true) = true by decide), if_neg pressed,
    handler_basic f basic]
  rfl

/-! ## Sessions -/

/-- The keyboard, and the text that the host shows. -/
structure Session where
  state : State
  text : List Char

variable (d : Dictionary) (f : Features) (layout : WordBreak → Char)

def outcome (session : Session) (key : Key) : Outcome :=
  processAutocorrect d.header f session.state (keyPress key.keycode)

/-- The correction is sent first, then the key, unless it is held back. -/
def press (session : Session) (key : Key) : Session :=
  let text :=
    match (outcome d f session key).correction with
    | some correction => applied correction session.text
    | none => session.text
  ⟨(outcome d f session key).state, if (outcome d f session key).passes then key.typeOn layout text else text⟩

def typing (text : List Char) (keys : List Key) : Session := keys.foldl (press d f layout) ⟨.start true, text⟩

/-- The contents of the buffer with the key of the press. -/
def lookedUp (buffer : List UInt8) (key : Key) : List UInt8 :=
  match key.symbol with
  | some c => pushKey d.header.maxLength (key.base buffer) (code c)
  | none => buffer.dropLast

def TypoEnds (session : Session) (key : Key) (entry : Entry) : Prop :=
  entry.typo.map code <:+ lookedUp d session.state.typoBuffer key

/-- A press fires exactly where a typo ends the buffer, and then puts the correction in the place of the typo. -/
structure Agrees (session : Session) (key : Key) : Prop where
  fires : (outcome d f session key).correction.isSome = true ↔ ∃ entry ∈ d.entries, TypoEnds d session key entry
  corrects : ∀ correction, (outcome d f session key).correction = some correction →
    ∀ entry ∈ d.entries, TypoEnds d session key entry →
      (∀ c ∈ typedString correction.changes, IsText c) ∧ Corrected entry session.text (applied correction session.text)

/-! ## What a session keeps -/

/-- No typo is in the buffer, but for a single word break. -/
def Clean (chars : List Char) : Prop :=
  ∀ entry ∈ d.entries, entry.typo ≠ [':'] → ∀ start, start <+: chars → ¬entry.typo <:+ start

theorem clean_nil : Clean d [] := by
  intro entry _ _ start before ends
  rw [List.prefix_nil.mp before] at ends
  exact entry.nonempty (List.suffix_nil.mp ends)

theorem clean_break : Clean d [':'] := by
  intro entry _ other start before ends
  rcases List.prefix_cons_iff.mp before with rfl | ⟨rest, rfl, nil⟩
  · exact entry.nonempty (List.suffix_nil.mp ends)
  · rw [List.prefix_nil.mp nil] at ends
    rcases List.suffix_cons_iff.mp ends with same | nil
    · exact other same
    · exact entry.nonempty (List.suffix_nil.mp nil)

namespace Clean

variable {d} {chars : List Char}

theorem shorten (clean : Clean d chars) {start : List Char} (before : start <+: chars) : Clean d start :=
  fun entry member other earlier within => clean entry member other earlier (within.trans before)

theorem forget (clean : Clean d chars) : Clean d (chars.drop 1) := by
  intro entry member other start before ends
  obtain ⟨rest, split⟩ := before
  have longer : chars.take 1 ++ start <+: chars := by
    refine ⟨rest, ?_⟩
    rw [List.append_assoc, split, List.take_append_drop]
  exact clean entry member other _ longer (ends.trans (List.suffix_append _ _))

theorem push (clean : Clean d chars) {c : Char} (away : ∀ entry ∈ d.entries, ¬entry.typo <:+ chars ++ [c]) :
    Clean d (chars ++ [c]) := by
  intro entry member other start before
  rcases List.prefix_concat_iff.mp before with rfl | earlier
  · exact away entry member
  · exact clean entry member other start earlier

end Clean

/-- The characters in the buffer, and what the text has of them. -/
structure Tracks (session : Session) (chars : List Char) : Prop where
  enabled : session.state.enabled = true
  buffer : session.state.typoBuffer = chars.map code
  typed : ∀ c ∈ chars, Typed c
  short : chars.length ≤ d.header.maxLength
  follows : Follows chars session.text
  clean : Clean d chars

namespace Tracks

variable {d} {session : Session} {chars : List Char}

/-- The state by its parts. -/
theorem state (tracks : Tracks d session chars) : session.state = ⟨true, chars.map code⟩ := by
  rw [← tracks.enabled, ← tracks.buffer]

/-- The characters that the lookup sees: a key behind a part of the buffer that the text follows. -/
theorem lookedUp (tracks : Tracks d session chars) {key : Key} {c : Char} (symbol : key.symbol = some c) :
    ∃ base, Follows base session.text ∧ Clean d base ∧ (∀ other ∈ base ++ [c], Typed other) ∧
      base.length < d.header.maxLength ∧ lookedUp d session.state.typoBuffer key = (base ++ [c]).map code := by
  have cTyped := Key.symbol_typed symbol
  rw [Autocorrect.lookedUp, symbol, tracks.buffer, Key.base]
  dsimp only
  by_cases enter : key = .wordBreak .enter
  · rw [if_pos enter]
    obtain ⟨base, among, bound, pushed⟩ := @pushKey_chars d [] (Nat.zero_le _) c
    have none : base = [] := among.elim id id
    subst none
    exact ⟨[], follows_nil _, clean_nil d, by simpa using cTyped, bound, pushed⟩
  · rw [if_neg enter]
    obtain ⟨base, among, bound, pushed⟩ := pushKey_chars d tracks.short c
    refine ⟨base, ?_, ?_, ?_, bound, pushed⟩
    · rcases among with rfl | rfl
      · exact tracks.follows
      · exact tracks.follows.forget
    · rcases among with rfl | rfl
      · exact tracks.clean
      · exact tracks.clean.forget
    · intro other member
      rcases List.mem_append.mp member with old | new
      · rcases among with rfl | rfl
        · exact tracks.typed other old
        · exact tracks.typed other (List.mem_of_mem_drop old)
      · exact List.mem_singleton.mp new ▸ cTyped

end Tracks

/-- What a session does with a key of a typo: nothing, or the correction of the entry. -/
theorem outcome_symbol {session : Session} {buffer : List UInt8} (state : session.state = ⟨true, buffer⟩) {key : Key}
    {c : Char} (symbol : key.symbol = some c) {chars : List Char} (typed : ∀ other ∈ chars, Typed other)
    (seen : lookedUp d session.state.typoBuffer key = chars.map code) :
    ((∀ entry ∈ d.entries, ¬entry.typo <:+ chars) ∧ outcome d f session key = ⟨⟨true, chars.map code⟩, true, none⟩) ∨
      ∃ entry ∈ d.entries, entry.typo <:+ chars ∧ Serializable entry ∧
        ∃ correction, correction.backspaces = (backspaces entry).toNat ∧ correction.changes = sent entry ∧
          outcome d f session key =
            ⟨⟨true, if c = ':' then [kcSpc] else []⟩, decide (c = ':'), some correction⟩ := by
  rw [state, lookedUp, symbol] at seen
  have space : code c = kcSpc ↔ c = ':' :=
    ⟨fun same => code_injective (Key.symbol_typed symbol) (show Typed ':' from rfl) same, fun same => same ▸ rfl⟩
  rw [outcome, state, process_symbol symbol]
  rcases appendKey_cases d ⟨true, buffer⟩ typed seen with ⟨away, same⟩ | ⟨entry, member, ends, address, leaf, same⟩
  · exact .inl ⟨away, same⟩
  · refine .inr ⟨entry, member, ends, leaf.serializable, applyCorrection d.data (chars.map code) address, ?_, ?_, ?_⟩
    · rw [applyCorrection_entry leaf typed ends]
    · rw [applyCorrection_entry leaf typed ends]
    · rw [same]
      simp only [space]

theorem outcome_backspace {session : Session} {buffer : List UInt8} (state : session.state = ⟨true, buffer⟩) :
    outcome d f session .backspace = ⟨⟨true, buffer.dropLast⟩, true, none⟩ := by
  rw [outcome, state, process_backspace]

theorem tracks_start (text : List Char) : Tracks d ⟨.start true, text⟩ [':'] where
  enabled := rfl
  buffer := rfl
  typed _ member := List.mem_singleton.mp member ▸ rfl
  short := d.maxLength_pos
  follows := follows_break text
  clean := clean_break d

variable {d} in
/-- After every press the buffer still holds the end of the text. -/
theorem press_tracks {session : Session} {chars : List Char} (tracks : Tracks d session chars) (key : Key) :
    ∃ after, Tracks d (press d f layout session key) after := by
  cases symbol : key.symbol with
  | none =>
    obtain rfl := Key.symbol_none symbol
    have same := outcome_backspace d f tracks.state
    refine ⟨chars.dropLast, ?_, ?_, ?_, ?_, ?_, ?_⟩
    · rw [press, same]
    · rw [press, same, List.map_dropLast]
    · exact fun c member => tracks.typed c ((List.dropLast_prefix _).subset member)
    · exact (List.dropLast_prefix _).length_le.trans tracks.short
    · rw [press, same]
      exact tracks.follows.backspace
    · exact tracks.clean.shorten (List.dropLast_prefix _)
  | some c =>
    obtain ⟨base, follows, clean, typed, bound, seen⟩ := tracks.lookedUp symbol
    rcases outcome_symbol d f tracks.state symbol typed seen with ⟨away, same⟩ | ⟨entry, -, -, -, correction, -, -, same⟩
    · obtain ⟨shows, matched, shown⟩ := Key.typeOn_symbol layout session.text symbol
      refine ⟨base ++ [c], ?_, ?_, typed, ?_, ?_, clean.push away⟩
      · rw [press, same]
      · rw [press, same]
      · rw [List.length_append, List.length_singleton]
        exact bound
      · rw [press, same]
        exact shown ▸ follows.push matched
    · by_cases space : c = ':'
      · rw [if_pos space] at same
        refine ⟨[':'], ?_, ?_, ?_, d.maxLength_pos, follows_break _, clean_break d⟩
        · rw [press, same]
        · rw [press, same]
          rfl
        · exact fun other member => List.mem_singleton.mp member ▸ rfl
      · rw [if_neg space] at same
        refine ⟨[], ?_, ?_, ?_, Nat.zero_le _, follows_nil _, clean_nil d⟩
        · rw [press, same]
        · rw [press, same]
          rfl
        · exact fun other member => absurd member List.not_mem_nil

theorem typing_tracks (text : List Char) (keys : List Key) : ∃ chars, Tracks d (typing d f layout text keys) chars :=
  @foldl_invariant _ _ (press d f layout) (fun session => ∃ chars, Tracks d session chars)
    (fun _ key kept => kept.elim fun _ tracks => press_tracks f layout tracks key) ⟨.start true, text⟩
    ⟨[':'], tracks_start d text⟩ keys

/-! ## Plain dictionaries -/

variable {d} in
/-- A press that fires for a plain entry corrects it. -/
theorem press_agrees {session : Session} {chars : List Char} (tracks : Tracks d session chars) {key : Key}
    (plain : ∀ entry ∈ d.entries, TypoEnds d session key entry → Plain entry)
    (alone : key = .backspace → (∃ entry ∈ d.entries, entry.typo = [':']) → d.header.maxLength = 1) :
    Agrees d f session key := by
  cases symbol : key.symbol with
  | none =>
    obtain rfl := Key.symbol_none symbol
    have same := outcome_backspace d f tracks.state
    have seen : lookedUp d session.state.typoBuffer .backspace = chars.dropLast.map code := by
      rw [tracks.buffer, List.map_dropLast]
      rfl
    have away : ∀ entry ∈ d.entries, ¬TypoEnds d session .backspace entry := by
      intro entry member ends
      rw [TypoEnds, seen, ends_iff d member fun c inside => tracks.typed c ((List.dropLast_prefix _).subset inside)] at ends
      by_cases colon : entry.typo = [':']
      · -- the buffer held one character, and is empty now
        have single := alone rfl ⟨entry, member, colon⟩
        have short := tracks.short
        have none : chars.dropLast = [] := List.length_eq_zero_iff.mp (by rw [List.length_dropLast]; omega)
        rw [none] at ends
        exact entry.nonempty (List.suffix_nil.mp ends)
      · exact tracks.clean entry member colon _ (List.dropLast_prefix _) ends
    constructor
    · rw [same]
      refine iff_of_false Bool.false_ne_true ?_
      rintro ⟨entry, member, ends⟩
      exact away entry member ends
    · intro correction found
      rw [same] at found
      cases found
  | some c =>
    obtain ⟨base, follows, -, typed, -, seen⟩ := tracks.lookedUp symbol
    have ends_iff' {entry : Entry} (member : entry ∈ d.entries) : TypoEnds d session key entry ↔ entry.typo <:+ base ++ [c] := by
      rw [TypoEnds, seen, ends_iff d member typed]
    rcases outcome_symbol d f tracks.state symbol typed seen with
      ⟨away, same⟩ | ⟨entry, member, ends, serializable, correction, deletes, sends, same⟩
    · constructor
      · rw [same]
        refine iff_of_false Bool.false_ne_true ?_
        rintro ⟨entry, member, ends⟩
        exact away entry member ((ends_iff' member).mp ends)
      · intro correction found
        rw [same] at found
        cases found
    · have here := (ends_iff' member).mpr ends
      constructor
      · rw [same]
        exact iff_of_true rfl ⟨entry, member, here⟩
      · intro other found entry' member' ends'
        rw [same] at found
        obtain rfl := Option.some.inj found
        obtain rfl := d.accepted.unique member' member ((ends_iff' member').mp ends') ends
        have isPlain := plain entry' member here
        obtain ⟨rest, shows, breaks, split, matched, behind⟩ := follows.typo ends
        constructor
        · rw [sends, typedString_sent serializable isPlain.text]
          exact isPlain.text
        · refine ⟨rest, shows, breaks, split, matched, behind, ?_⟩
          rw [applied, deletes, sends, split]
          exact isPlain.corrected serializable matched behind

end QmkFirmware.Autocorrect
