import QmkFirmware.Autocorrect.Agreement

/-! # Entries that are not plain

Typed from an empty buffer, an entry fires with its last key, and on a keyboard whose word breaks show characters
that no entry has, the correction is only right for a plain entry. -/

namespace QmkFirmware.Autocorrect

open QmkFirmware.Runs

/-! ## A keyboard with accents -/

/-- Two kinds of word breaks that show characters beyond ASCII. -/
def accents : WordBreak → Char
  | .tabToSemicolon _ => 'é'
  | _ => 'è'

def innerBreak : Key := .wordBreak (.tabToSemicolon 1)

def outerBreak : Key := .wordBreak (.graveToSlash (Fin.last 3))

/-- A key for a character of a typo. -/
def keyOf (c : Char) : Key :=
  if c = quoteChar then .quote else if c = ':' then innerBreak else .letter ⟨(c.toNat - 'a'.toNat) % 26, Nat.mod_lt _ (by decide)⟩

/-- What the key shows. -/
def accented (c : Char) : Char := if c = ':' then 'é' else c

/-- A key that shows one character for one of the typo, and keeps the buffer. -/
structure Spells (key : Key) (c shows : Char) : Prop where
  symbol : key.symbol = some c
  keeps : key ≠ .wordBreak .enter
  shows : ∀ text, key.typeOn accents text = text ++ [shows]

theorem keyOf_spells {c : Char} (typed : Typed c) : Spells (keyOf c) c (accented c) := by
  rcases code_cases typed with ⟨rfl, -⟩ | ⟨rfl, -⟩ | ⟨⟨low, high⟩, -⟩
  · exact ⟨rfl, by decide, fun _ => rfl⟩
  · exact ⟨rfl, by decide, fun _ => rfl⟩
  · have lowNat : 97 ≤ c.toNat := low
    have highNat : c.toNat ≤ 122 := high
    have noQuote : c ≠ quoteChar := fun same => by
      rw [same] at lowNat
      exact absurd lowNat (by decide)
    have noColon : c ≠ ':' := fun same => by
      rw [same] at lowNat
      exact absurd lowNat (by decide)
    have letter : Key.letterChar ⟨(c.toNat - 'a'.toNat) % 26, Nat.mod_lt _ (by decide)⟩ = c := by
      have index : (c.toNat - 'a'.toNat) % 26 + 'a'.toNat = c.toNat := by
        rw [show 'a'.toNat = 97 from rfl]
        omega
      rw [Key.letterChar, index, Char.ofNat_toNat]
    rw [keyOf, if_neg noQuote, if_neg noColon, accented, if_neg noColon]
    refine ⟨?_, ?_, fun text => ?_⟩
    · rw [Key.symbol, letter]
    · intro enter
      cases enter
    · rw [Key.typeOn, letter]

theorem outerBreak_spells : Spells outerBreak ':' 'è' := ⟨rfl, by decide, fun _ => rfl⟩

/-- Keys that spell a word, with the text that the host shows for it. -/
inductive Spelled : List Key → List Char → List Char → Prop where
  | nil : Spelled [] [] []
  | snoc {keys : List Key} {word text : List Char} {key : Key} {c shows : Char} (before : Spelled keys word text)
      (spells : Spells key c shows) : Spelled (keys ++ [key]) (word ++ [c]) (text ++ [shows])

theorem spelled_keyOf {word : List Char} (typed : ∀ c ∈ word, Typed c) :
    Spelled (word.map keyOf) word (word.map accented) := by
  induction word using List.reverseRecOn with
  | nil => exact .nil
  | append_singleton word c ih =>
    rw [List.map_append, List.map_append]
    exact .snoc (ih fun other member => typed other (List.mem_append_left _ member))
      (keyOf_spells (typed c (List.mem_append_right _ List.mem_cons_self)))

theorem Spelled.breaks {keys : List Key} {word text : List Char} (spelled : Spelled keys word text) (n : Nat) :
    Spelled (keys ++ List.replicate n outerBreak) (word ++ List.replicate n ':') (text ++ List.replicate n 'è') := by
  induction n with
  | zero => simpa using spelled
  | succ n ih =>
    rw [List.replicate_succ', List.replicate_succ', List.replicate_succ', ← List.append_assoc, ← List.append_assoc,
      ← List.append_assoc]
    exact .snoc ih outerBreak_spells

/-! ## Typing an entry -/

variable (d : Dictionary) (f : Features)

theorem typing_concat (layout : WordBreak → Char) (text : List Char) (keys : List Key) (key : Key) :
    typing d f layout text (keys ++ [key]) = press d f layout (typing d f layout text keys) key := by
  rw [typing, List.foldl_append]
  rfl

variable {d} in
/-- A key extends a buffer that is not full. -/
theorem lookedUp_room {word : List Char} (room : word.length < d.header.maxLength) {key : Key} {c shows : Char}
    (spells : Spells key c shows) : lookedUp d (word.map code) key = (word ++ [c]).map code := by
  rw [lookedUp, spells.symbol]
  dsimp only
  rw [Key.base, if_neg spells.keeps, pushKey, List.length_map, if_neg (Nat.not_le.mpr room), List.map_append]
  rfl

variable {d} in
/-- There is room for all of a typo. -/
theorem part_room {entry : Entry} (member : entry ∈ d.entries) {word rest : List Char} {c : Char}
    (whole : word ++ c :: rest = entry.typo) : word.length < d.header.maxLength := by
  have length := congrArg List.length whole
  rw [List.length_append, List.length_cons] at length
  have most := (d.length_bounds member).2
  omega

variable {d} in
/-- The part of a typo that is typed from an empty buffer is in the buffer: no typo ends on the way. -/
theorem typing_part {entry : Entry} (member : entry ∈ d.entries) {keys : List Key} {word text : List Char}
    (spelled : Spelled keys word text) :
    ∀ rest, rest ≠ [] → word ++ rest = entry.typo →
      typing d f accents [] (.backspace :: keys) = ⟨⟨true, word.map code⟩, text⟩ := by
  induction spelled with
  | nil =>
    intro rest _ _
    have same := @outcome_backspace d f ⟨.start true, []⟩ _ rfl
    show press d f accents ⟨.start true, []⟩ .backspace = _
    rw [press, same]
    rfl
  | @snoc keys word text key c shows before spells ih =>
    intro rest more whole
    rw [List.append_assoc, List.singleton_append] at whole
    have typed : ∀ other ∈ word ++ [c], Typed other := by
      intro other inside
      refine d.accepted.typed entry member other ?_
      rw [← whole]
      simp only [List.mem_append, List.mem_cons] at inside ⊢
      tauto
    have seen := lookedUp_room (part_room member whole) spells
    rw [← List.cons_append, typing_concat, ih _ (List.cons_ne_nil _ _) whole]
    rcases @outcome_symbol d f ⟨⟨true, word.map code⟩, text⟩ _ rfl key c spells.symbol _ typed seen with
      ⟨-, same⟩ | ⟨other, otherMember, ends, -⟩
    · rw [press, same]
      dsimp only
      rw [spells.shows, if_pos rfl]
    · -- a typo that ends here lies inside this one
      have within : other.typo <:+: entry.typo := by
        obtain ⟨front, split⟩ := ends
        refine ⟨front, rest, ?_⟩
        rw [split, ← whole, List.append_assoc]
        rfl
      obtain rfl := d.accepted.apart other otherMember entry member within
      have length := congrArg List.length whole
      have shorter := ends.length_le
      have positive := List.length_pos_of_ne_nil more
      simp only [List.length_append, List.length_cons, List.length_nil] at length shorter
      omega

variable {d f} in
/-- The last key of an entry fires it. -/
theorem Agrees.whole {entry : Entry} (member : entry ∈ d.entries) {word text : List Char} {key : Key} {c shows : Char}
    (spells : Spells key c shows) (whole : word ++ [c] = entry.typo)
    (agrees : Agrees d f ⟨⟨true, word.map code⟩, text⟩ key) :
    Serializable entry ∧ (∀ c ∈ typedString (sent entry), IsText c) ∧
      Corrected entry text (text.rdrop (backspaces entry).toNat ++ typedString (sent entry)) := by
  have seen := lookedUp_room (part_room member whole) spells
  rw [whole] at seen
  rcases @outcome_symbol d f ⟨⟨true, word.map code⟩, text⟩ _ rfl key c spells.symbol _ (d.accepted.typed entry member) seen with
    ⟨away, -⟩ | ⟨other, otherMember, ends, serializable, correction, deletes, sends, same⟩
  · exact absurd List.suffix_rfl (away entry member)
  · obtain rfl := d.accepted.unique otherMember member ends List.suffix_rfl
    have found : (outcome d f ⟨⟨true, word.map code⟩, text⟩ key).correction = some correction := by rw [same]
    have here : TypoEnds d ⟨⟨true, word.map code⟩, text⟩ key other := by
      unfold TypoEnds
      exact seen ▸ List.suffix_rfl
    have right := agrees.corrects correction found other member here
    rw [applied, deletes, sends] at right
    exact ⟨serializable, right⟩

/-- An entry can be typed with a different word break behind it. -/
theorem spelled_entry {entry : Entry} (typed : ∀ c ∈ entry.typo, Typed c) :
    ∃ keys word text key c shows, Spelled keys word text ∧ Spells key c shows ∧ word ++ [c] = entry.typo ∧
      (shown entry).map accented ++ List.replicate (trailingBreaks entry - 1) 'è' <:+ text := by
  have split := trimmed_eq entry
  cases breaks : trailingBreaks entry with
  | zero =>
    obtain ⟨word, c, whole⟩ := (List.eq_nil_or_concat' entry.typo).resolve_left entry.nonempty
    have shownEnds : shown entry <:+ word := by
      have ends := dropLast_suffix (whole ▸ trimmed_suffix entry)
      rwa [dropLast_trimmed, breaks, List.replicate_zero, List.append_nil] at ends
    refine ⟨word.map keyOf, word, word.map accented, keyOf c, c, accented c, ?_, ?_, whole.symm, ?_⟩
    · exact spelled_keyOf fun other member => typed other (whole ▸ List.mem_append_left _ member)
    · exact keyOf_spells (typed c (whole ▸ List.mem_append_right _ List.mem_cons_self))
    · rw [List.replicate_zero, List.append_nil]
      exact shownEnds.map accented
  | succ n =>
    obtain ⟨front, whole⟩ := trimmed_suffix entry
    have some_ : trimmed entry ≠ [] := by
      rw [split, breaks]
      simp
    have ending := (ending_iff entry some_).mpr (breaks ▸ n.succ_ne_zero)
    rw [split, breaks, List.replicate_succ', ← List.append_assoc, ← List.append_assoc] at whole
    have inside : ∀ c ∈ front ++ stripped entry, Typed c := by
      intro c member
      refine typed c ?_
      rw [← whole]
      exact List.mem_append_left _ (by simpa [or_assoc] using Or.inl (List.mem_append.mp member))
    refine ⟨_, _, _, outerBreak, ':', 'è', (spelled_keyOf inside).breaks n, outerBreak_spells, ?_, ?_⟩
    · rw [← whole, List.append_assoc front]
    · rw [shown, if_pos ending, Nat.add_sub_cancel, List.map_append, List.append_assoc]
      exact List.suffix_append _ _

/-! ## What a right correction says about its entry -/

theorem accented_eq {word : List Char} (same : word.map accented = word) : ':' ∉ word := by
  intro colon
  have fixed := List.map_inj_left.mp (same.trans (List.map_id word).symm) ':' colon
  exact absurd fixed (by decide)

theorem common_le_right (typo correction : List Char) : common typo correction ≤ correction.length := by
  have same := congrArg List.length (take_common typo correction)
  have within := common_le typo correction
  rw [List.length_take, List.length_take, Nat.min_eq_left within] at same
  omega

/-- A string without its characters from a zero on is shorter. -/
theorem sent_whole {entry : Entry} (length : (sent entry).length = (changed entry).length) :
    sent entry = asciiBytes (changed entry) := by
  refine (List.takeWhile_prefix _).eq_of_length ?_
  rw [← sent, length, asciiBytes, List.length_map]

/-- What the text must be, when the correction of an entry is right. -/
theorem Corrected.parts {entry : Entry} (serializable : Serializable entry) {front shows breaks : List Char}
    (length : shows.length = (shown entry).length) (behind : breaks.length = trailingBreaks entry - 1)
    (corrected : Corrected entry (front ++ shows ++ breaks)
      ((front ++ shows ++ breaks).rdrop (backspaces entry).toNat ++ typedString (sent entry))) :
    typedString (sent entry) = changed entry ∧ shows.take (kept entry) = entry.correction.take (kept entry) ∧
      (shows.drop (kept entry) ++ breaks).take breaks.length ++ changed entry = changed entry ++ breaks := by
  obtain ⟨rest, typed, others, same, matched, count, after⟩ := corrected
  rw [List.append_assoc, List.append_assoc] at same
  have tails := List.append_inj' same (by
    rw [List.length_append, List.length_append, length, matched.length_eq, behind, count])
  have ends := List.append_inj' tails.2 (by rw [behind, count])
  rw [← tails.1, ← ends.2] at after
  have shownLength := shown_length serializable
  have total : (shows ++ breaks).length = kept entry + breaks.length + (backspaces entry).toNat := by
    rw [List.length_append, length, shownLength]
    omega
  rw [List.append_assoc, rdrop_append total, List.append_assoc, List.append_assoc, List.append_cancel_left_eq] at after
  have less : kept entry ≤ entry.correction.length := common_le_right _ _
  have keptLength : (shows.take (kept entry)).length = kept entry := by
    rw [List.length_take]
    omega
  -- both sides begin with the part that stays
  have start : (shows ++ breaks).take (kept entry + breaks.length) =
      shows.take (kept entry) ++ (shows.drop (kept entry) ++ breaks).take breaks.length := by
    have within : kept entry ≤ shows.length := by omega
    rw [List.take_add, List.take_append_of_le_length within, List.drop_append_of_le_length within]
  rw [start, ← List.take_append_drop (kept entry) entry.correction, ← changed, List.append_assoc, List.append_assoc] at after
  have parts := List.append_inj after (by rw [keptLength, List.length_take, Nat.min_eq_left less])
  have whole : sent entry = asciiBytes (changed entry) := by
    have lengths := congrArg List.length parts.2
    rw [List.length_append, List.length_append, List.length_take, List.length_append, typedString, List.length_map] at lengths
    apply sent_whole
    omega
  rw [whole, typedString_ascii serializable] at parts ⊢
  exact ⟨rfl, parts⟩

theorem accented_ne {c : Char} (typed : Typed c) : accented c ≠ 'è' := by
  unfold accented
  split
  · decide
  · rcases code_cases typed with ⟨rfl, -⟩ | ⟨rfl, -⟩ | ⟨⟨-, high⟩, -⟩
    · decide
    · decide
    · intro same
      rw [same] at high
      exact absurd high (by decide)

/-- With accents for the word breaks, only plain entries are corrected. -/
theorem Corrected.plain {entry : Entry} (serializable : Serializable entry) (typed : ∀ c ∈ entry.typo, Typed c)
    {text : List Char} (ends : (shown entry).map accented ++ List.replicate (trailingBreaks entry - 1) 'è' <:+ text)
    (isText : ∀ c ∈ typedString (sent entry), IsText c)
    (corrected : Corrected entry text (text.rdrop (backspaces entry).toNat ++ typedString (sent entry))) : Plain entry := by
  obtain ⟨front, rfl⟩ := ends
  rw [← List.append_assoc] at corrected
  obtain ⟨whole, begins, behind⟩ := corrected.parts serializable (List.length_map _) List.length_replicate
  -- the part that stays shows accents for its word breaks
  rw [← List.map_take, shown_take serializable] at begins
  have stays := accented_eq begins
  rw [kept, ← take_common, ← kept] at stays
  refine ⟨?_, stays, whole ▸ isText⟩
  by_contra many
  rw [not_or, Nat.not_le] at many
  obtain ⟨n, count⟩ : ∃ n, trailingBreaks entry - 1 = n + 1 := ⟨trailingBreaks entry - 2, by omega⟩
  rw [count, List.length_replicate] at behind
  have none : changed entry = [] := by
    -- else both sides end differently
    by_contra some_
    have last := congrArg List.getLast? behind
    rw [List.getLast?_append_of_ne_nil _ some_, List.replicate_succ', ← List.append_assoc, List.getLast?_concat] at last
    have small := serializable.2.2 'è' (List.mem_of_getLast? last)
    exact absurd small (by decide)
  rw [none, List.append_nil, List.nil_append] at behind
  have some_ : trimmed entry ≠ [] := by
    intro empty
    have split := (trimmed_eq entry).symm
    rw [empty, List.append_eq_nil_iff, List.replicate_eq_nil_iff] at split
    omega
  have ending := (ending_iff entry some_).mpr (by omega)
  rw [shown, if_pos ending, ← List.map_drop] at behind
  cases rest : (stripped entry).drop (kept entry) with
  | nil =>
    -- the whole typo stays
    have whole : (stripped entry).take (kept entry) = stripped entry := List.take_of_length_le (List.drop_eq_nil_iff.mp rest)
    have same := List.take_append_drop (kept entry) entry.correction
    rw [← changed, none, List.append_nil, kept, ← take_common, ← kept, whole] at same
    exact many.2 same
  | cons c others =>
    -- a character of the typo would have to show the other accent
    rw [rest, List.map_cons, List.cons_append, List.take_succ_cons, List.replicate_succ, List.cons.injEq] at behind
    have inside : c ∈ stripped entry := List.mem_of_mem_drop (rest ▸ List.mem_cons_self)
    exact accented_ne (typed c ((trimmed_suffix entry).subset ((stripped_start entry).subset inside))) behind.1

/-! ## The dictionaries that agree -/

/-- What all sessions must do for the dictionary. -/
def AlwaysAgrees : Prop :=
  ∀ (f : Features) (layout : WordBreak → Char) (text : List Char) (keys : List Key),
    EveryStep (fun before key => Agrees d f (typing d f layout text before) key) keys

variable {d}

theorem AlwaysAgrees.last (agrees : AlwaysAgrees d) (keys : List Key) (key : Key) :
    Agrees d plainFeatures (typing d plainFeatures accents [] keys) key :=
  (everyStep_concat.mp (agrees plainFeatures accents [] (keys ++ [key]))).2

theorem AlwaysAgrees.plain (agrees : AlwaysAgrees d) {entry : Entry} (member : entry ∈ d.entries) : Plain entry := by
  have typed := d.accepted.typed entry member
  obtain ⟨keys, word, text, key, c, shows, spelled, spells, whole, ends⟩ := spelled_entry typed
  have here := agrees.last (.backspace :: keys) key
  rw [typing_part plainFeatures member spelled [c] (List.cons_ne_nil _ _) whole] at here
  obtain ⟨serializable, isText, corrected⟩ := here.whole member spells whole
  exact corrected.plain serializable typed ends isText

/-- A backspace can bring back a lonely word break, if the buffer has room for another key. -/
theorem AlwaysAgrees.alone (agrees : AlwaysAgrees d) {entry : Entry} (member : entry ∈ d.entries)
    (colon : entry.typo = [':']) {other : Entry} (otherMember : other ∈ d.entries) : other.typo.length = 1 := by
  by_contra long
  -- an entry that lies inside the other one is the other one
  have outside {third : Entry} (thirdMember : third ∈ d.entries) (single : third.typo.length = 1) :
      ¬third.typo <:+: other.typo := fun within =>
    long ((congrArg (fun entry : Entry => entry.typo.length) (d.accepted.apart third thirdMember other otherMember within)).symm.trans single)
  obtain ⟨c, rest, spelling⟩ := List.exists_cons_of_ne_nil other.nonempty
  have typed : Typed c := d.accepted.typed other otherMember c (spelling ▸ List.mem_cons_self)
  have spells := keyOf_spells typed
  have most := (d.length_bounds otherMember).2
  have positive := List.length_pos_of_ne_nil other.nonempty
  have both : ∀ letter ∈ [':', c], Typed letter := by
    intro letter inside
    rcases List.mem_cons.mp inside with rfl | inside
    · rfl
    · exact List.mem_singleton.mp inside ▸ typed
  have seen := @lookedUp_room d [':'] (show 1 < d.header.maxLength by omega) _ _ _ spells
  rcases @outcome_symbol d plainFeatures ⟨.start true, []⟩ _ rfl (keyOf c) c spells.symbol _ both seen with
    ⟨-, same⟩ | ⟨third, thirdMember, ends, -⟩
  · have state : (typing d plainFeatures accents [] [keyOf c]).state = ⟨true, [kcSpc, code c]⟩ := by
      show (press d plainFeatures accents ⟨.start true, []⟩ (keyOf c)).state = _
      rw [press, same]
      rfl
    have here := (agrees.last [keyOf c] .backspace).fires.mpr ⟨entry, member, by
      rw [TypoEnds, state, colon]
      exact List.suffix_rfl⟩
    rw [outcome_backspace d plainFeatures state] at here
    exact absurd here Bool.false_ne_true
  · rcases List.suffix_cons_iff.mp ends with whole | ends
    · have within : entry.typo <:+: third.typo := by
        rw [colon, whole]
        exact ⟨[], [c], rfl⟩
      have same := d.accepted.apart entry member third thirdMember within
      rw [← same, colon] at whole
      cases whole
    · rcases List.suffix_cons_iff.mp ends with single | none
      · refine outside thirdMember (by rw [single]; rfl) ?_
        rw [single, spelling]
        exact ⟨[], rest, rfl⟩
      · exact third.nonempty (List.suffix_nil.mp none)

variable (d)

/-- The corrections of a dictionary are right in all sessions exactly when its entries are plain, and a lonely word
break does not stand beside longer typos. -/
theorem corrections_agree_iff :
    AlwaysAgrees d ↔ (∀ entry ∈ d.entries, Plain entry) ∧
      ((∃ entry ∈ d.entries, entry.typo = [':']) → ∀ entry ∈ d.entries, entry.typo.length = 1) := by
  constructor
  · intro agrees
    refine ⟨fun entry member => agrees.plain member, ?_⟩
    rintro ⟨entry, member, colon⟩ other otherMember
    exact agrees.alone member colon otherMember
  · rintro ⟨plain, alone⟩ f layout text keys
    rw [everyStep_iff_split]
    intro before key after split
    obtain ⟨chars, tracks⟩ := typing_tracks d f layout text before
    refine press_agrees f tracks (fun entry member _ => plain entry member) fun _ colon => ?_
    obtain ⟨entry, member, longest⟩ := d.maxLength_attained
    rw [← longest]
    exact alone colon entry member

/-! ## A typo with two word breaks behind it -/

def thier : Entry := ⟨['t', 'h', 'i', 'e', 'r', ':', ':'], ['t', 'h', 'e', 'i', 'r'], List.cons_ne_nil _ _⟩

theorem thier_parsed : parseFile [thier] = some [thier] := by decide +kernel

def thierHeader : Header := ⟨[44, 44, 21, 8, 12, 11, 23, 0, 131, 101, 105, 114, 0], 7, 7⟩

theorem thier_generated : generateAutocorrectData [thier] = some thierHeader := by decide +kernel

def thierDictionary : Dictionary := ⟨[thier], [thier], thierHeader, thier_parsed, thier_generated⟩

/-- "thier " before the second space. -/
def thierKeys : List Key := ['t', 'h', 'i', 'e', 'r', ':'].map keyOf

def spaces : WordBreak → Char := fun _ => ' '

theorem thier_typed : typing thierDictionary plainFeatures spaces [] thierKeys =
    ⟨⟨true, (':' :: thier.typo.dropLast).map code⟩, ['t', 'h', 'i', 'e', 'r', ' ']⟩ := by rfl

/-- The three backspaces take a letter too few: the text becomes "thieir". -/
theorem thier_disagrees :
    ¬Agrees thierDictionary plainFeatures (typing thierDictionary plainFeatures spaces [] thierKeys) innerBreak := by
  rw [thier_typed]
  intro agrees
  obtain ⟨correction, found, result⟩ : ∃ correction, (outcome thierDictionary plainFeatures
      ⟨⟨true, (':' :: thier.typo.dropLast).map code⟩, ['t', 'h', 'i', 'e', 'r', ' ']⟩ innerBreak).correction = some correction ∧
      applied correction ['t', 'h', 'i', 'e', 'r', ' '] = ['t', 'h', 'i', 'e', 'i', 'r'] := ⟨_, rfl, rfl⟩
  have right := (agrees.corrects correction found thier List.mem_cons_self ⟨[], rfl⟩).2
  obtain ⟨rest, typed, breaks, -, -, count, after⟩ := right
  have one : breaks.length = 1 := count
  rw [result] at after
  have lengths : 6 = (rest ++ thier.correction ++ breaks).length := congrArg List.length after
  rw [List.length_append, List.length_append, one, show thier.correction.length = 5 from rfl] at lengths
  rw [List.length_eq_zero_iff.mp (show rest.length = 0 by omega)] at after
  cases after

end QmkFirmware.Autocorrect
