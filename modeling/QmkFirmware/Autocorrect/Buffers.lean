import QmkFirmware.Autocorrect.Firing
import QmkFirmware.Foundations.Runs

/-! # The local arrays of a correction

`process_autocorrect` copies the last word to `typo`, and to `correct` with the changed end of the correction over
it.  Where that end starts depends on the length of the last word and on the backspaces of the entry. -/

namespace QmkFirmware.Autocorrect

open QmkFirmware.Runs

/-! ## The last word -/

/-- The number of keys since the last word break. -/
def lastRun (buffer : List UInt8) : Nat := (buffer.reverse.takeWhile (· ≠ kcSpc)).length

/-- The length of the last word; a word break behind it does not count. -/
def lastWord (buffer : List UInt8) : Nat :=
  lastRun (if buffer.getLast? = some kcSpc then buffer.dropLast else buffer)

theorem lastRun_concat (buffer : List UInt8) (key : UInt8) :
    lastRun (buffer ++ [key]) = if key = kcSpc then 0 else lastRun buffer + 1 := by
  rw [lastRun, List.reverse_append, List.reverse_singleton, List.singleton_append, List.takeWhile_cons]
  by_cases space : key = kcSpc
  · rw [if_neg (by simp [space]), if_pos space]
    rfl
  · rw [if_pos (by simp [space]), if_neg space]
    rfl

theorem lastRun_le (buffer : List UInt8) : lastRun buffer ≤ buffer.length :=
  (List.takeWhile_prefix _).length_le.trans (by rw [List.length_reverse])

theorem measure_fst (buffer : List UInt8) {i : Nat} (inside : i < buffer.length) (typoLen : Nat) :
    (measure buffer i typoLen).1 = typoLen + lastRun (buffer.take i) := by
  induction i generalizing typoLen with
  | zero => rfl
  | succ i ih =>
    have earlier : i < buffer.length := Nat.lt_of_succ_lt inside
    have last : buffer.take (i + 1) = buffer.take i ++ [buffer.getD i 0] := by
      rw [List.take_add_one, List.getD_eq_getElem?_getD, List.getElem?_eq_getElem earlier]
      rfl
    rw [measure, last, lastRun_concat]
    by_cases space : buffer.getD i 0 = kcSpc
    · rw [if_pos ⟨space, by omega⟩, if_pos space]
      rfl
    · rw [if_neg fun stop => space stop.1, if_neg space, ih earlier]
      omega

/-- The measured length, without the word break, is that of the last word. -/
theorem measure_lastWord {buffer : List UInt8} (some_ : buffer ≠ []) :
    (measure buffer buffer.length 0).1 - (if buffer.getLast? = some kcSpc then 1 else 0) = lastWord buffer := by
  obtain ⟨front, last, rfl⟩ := (List.eq_nil_or_concat' buffer).resolve_left some_
  have first : measure (front ++ [last]) (front ++ [last]).length 0 = measure (front ++ [last]) front.length 1 := by
    rw [List.length_append, List.length_singleton, measure, if_neg fun stop => stop.2 (by simp)]
  have inside : front.length < (front ++ [last]).length := by simp
  rw [first, measure_fst _ inside, List.take_left' rfl, lastWord, List.getLast?_concat]
  by_cases space : last = kcSpc
  · rw [if_pos (congrArg some space), if_pos (congrArg some space), List.dropLast_concat]
    omega
  · have away : some last ≠ some kcSpc := fun same => space (Option.some.inj same)
    rw [if_neg away, if_neg away, lastRun_concat, if_neg space]
    omega

theorem lastWord_le (buffer : List UInt8) : lastWord buffer ≤ buffer.length := by
  unfold lastWord
  split
  · exact (lastRun_le _).trans (by rw [List.length_dropLast]; omega)
  · exact lastRun_le buffer

/-! ## One correction -/

theorem common_le (typo correction : List Char) : common typo correction ≤ typo.length := by
  induction typo generalizing correction with
  | nil => exact Nat.le_refl 0
  | cons c typo ih =>
    cases correction with
    | nil => exact Nat.zero_le _
    | cons d correction =>
      rw [common]
      split
      · exact Nat.succ_le_succ (ih correction)
      · exact Nat.zero_le _

/-- The offset that the code takes from the end of the last word is the changed part of the typo. -/
theorem offset_eq {entry : Entry} (serializable : Serializable entry) :
    (if wordBoundaryEnding entry then (backspaces entry).toNat else (backspaces entry).toNat + 1) + kept entry =
      (stripped entry).length := by
  have short : kept entry ≤ (stripped entry).length := common_le _ _
  have positive := serializable.1
  unfold backspaces at positive ⊢
  cases ending : wordBoundaryEnding entry with
  | true =>
    simp only [ending, if_true] at positive ⊢
    omega
  | false =>
    simp only [ending, Bool.false_eq_true, if_false] at positive ⊢
    omega

theorem getLast_map_code {chars : List Char} (typed : ∀ c ∈ chars, Typed c) :
    (chars.map code).getLast? = some kcSpc ↔ chars.getLast? = some ':' := by
  rw [List.getLast?_map, Option.map_eq_some_iff]
  constructor
  · rintro ⟨c, last, same⟩
    have colon : c = ':' := code_injective (typed c (List.mem_of_getLast? last)) (show Typed ':' from rfl) (same.trans rfl)
    rw [last, colon]
  · intro last
    exact ⟨':', last, rfl⟩

theorem getLast_of_ends {entry : Entry} {chars : List Char} (ends : entry.typo <:+ chars) :
    chars.getLast? = entry.typo.getLast? := by
  obtain ⟨front, rfl⟩ := ends
  rw [List.getLast?_append_of_ne_nil _ entry.nonempty]

/-! ## The writes of a correction -/

theorem writesAt_inside (start : Int) (n : Nat) (bound : Nat) :
    (∀ w ∈ writesAt start (n + 1), 0 ≤ w ∧ w < bound) ↔ 0 ≤ start ∧ start + n < bound := by
  simp only [writesAt, List.mem_map, List.mem_range]
  constructor
  · intro inside
    have first := inside (start + (0 : Nat)) ⟨0, by omega, rfl⟩
    have last := inside (start + n) ⟨n, by omega, rfl⟩
    omega
  · rintro ⟨low, high⟩ w ⟨k, below, rfl⟩
    omega

/-- The characters of the last word are not zero. -/
theorem letter_ne_zero {key : UInt8} (small : key.toNat < 64) : key - kcA + 0x61 ≠ 0 := by
  have all : ∀ n : Fin 64, UInt8.ofNat n.val - kcA + 0x61 ≠ 0 := by decide
  have here := all ⟨key.toNat, small⟩
  rwa [UInt8.ofNat_toNat] at here

theorem getD_small {chars : List Char} (typed : ∀ c ∈ chars, Typed c) (i : Nat) :
    ((chars.map code).getD i 0).toNat < 64 := by
  rw [List.getD_eq_getElem?_getD, List.getElem?_map]
  cases there : chars[i]? with
  | none => decide
  | some c => exact (code_range (typed c (List.mem_of_getElem? there))).2

theorem word_terminated {chars : List Char} (typed : ∀ c ∈ chars, Typed c) (start n : Nat) :
    (((List.range n).map fun i => (chars.map code).getD (start + i) 0 - kcA + 0x61).takeWhile (· ≠ 0)).length = n := by
  rw [List.takeWhile_eq_self_iff.mpr, List.length_map, List.length_range]
  intro byte member
  obtain ⟨i, -, rfl⟩ := List.mem_map.mp member
  exact decide_eq_true (letter_ne_zero (getD_small typed (start + i)))

/-- What a correction sends and writes, by the entry whose typo ends the buffer. -/
theorem applyCorrection_entry {data : List UInt8} {state : Nat} {entry : Entry} (leaf : LeafAt data state entry)
    {chars : List Char} (typed : ∀ c ∈ chars, Typed c) (ends : entry.typo <:+ chars) :
    applyCorrection data (chars.map code) state =
      { backspaces := (backspaces entry).toNat
        changes := sent entry
        typoWrites := writesAt 0 (lastWord (chars.map code))
        correctWrites := writesAt 0 (lastWord (chars.map code) + 1) ++
          writesAt ((lastWord (chars.map code) : Int) - ((stripped entry).length - kept entry)) ((sent entry).length + 1) } := by
  have some_ : chars.map code ≠ [] := by
    intro none
    rw [List.map_eq_nil_iff.mp none] at ends
    exact entry.nonempty (List.suffix_nil.mp ends)
  have word := measure_lastWord some_
  have ending : decide ((chars.map code).getLast? = some kcSpc) = wordBoundaryEnding entry := by
    rw [wordBoundaryEnding, decide_eq_decide, getLast_map_code typed, getLast_of_ends ends]
  have cast : (measure (chars.map code) (chars.map code).length 0).1 - (if wordBoundaryEnding entry = true then 1 else 0) =
      lastWord (chars.map code) := by
    rw [← word, ← ending]
    simp only [decide_eq_true_eq]
  have offset := offset_eq leaf.serializable
  rw [applyCorrection, ending, cast, leaf.flags.2, leaf.changes, word_terminated typed]
  congr 3
  omega

/-! ## Steps -/

/-- The key that a press appends, and the buffer before it. -/
def appendedKey (f : Features) (s : State) (r : KeyRecord) : Option (List UInt8 × UInt8) :=
  if !s.enabled ∨ !r.pressed then none
  else
    match defaultHandler f r with
    | .excluded _ => none
    | .allowed keycode mods =>
      match bufferKey keycode mods with
      | .append key clears => some (if clears then [] else s.typoBuffer, key)
      | .backspace => none
      | .clear => none

/-- What a key event can do: shorten the buffer, or append a key to the start of it. -/
inductive ProcessStep (h : Header) (f : Features) (s : State) (r : KeyRecord) : Outcome → Prop where
  | quiet (none : appendedKey f s r = none) (enabled : Bool) (buffer : List UInt8) (shorter : buffer <+: s.typoBuffer)
      (passes : Bool) : ProcessStep h f s r ⟨⟨enabled, buffer⟩, passes, .none⟩
  | append (base : List UInt8) (key : UInt8) (appended : appendedKey f s r = some (base, key))
      (shorter : base <+: s.typoBuffer) : ProcessStep h f s r (appendKey h s base key)

/-- The key codes that switch the feature are not typed. -/
theorem switch_not_appended (f : Features) (s : State) (r : KeyRecord)
    (switch : r.keycode = 0x7C74 ∨ r.keycode = 0x7C75 ∨ r.keycode = 0x7C76) : appendedKey f s r = none := by
  have handled : defaultHandler f r = checkMods r.keycode r.mods := by
    rcases switch with same | same | same <;> simp [defaultHandler, same]
  have cleared (mods : UInt8) : bufferKey r.keycode mods = .clear := by
    rcases switch with same | same | same <;> simp [bufferKey, same]
  rw [appendedKey, handled, checkMods]
  split
  · rfl
  · split
    · rfl
    · next allowed =>
      split at allowed
      · cases allowed
      · cases allowed
        rw [cleared]

theorem process_step (h : Header) (f : Features) (s : State) (r : KeyRecord) :
    ProcessStep h f s r (processAutocorrect h f s r) := by
  rw [processAutocorrect]
  split
  · next on => exact .quiet (switch_not_appended f s r (.inl on.1)) _ _ List.prefix_rfl _
  · split
    · next off => exact .quiet (switch_not_appended f s r (.inr (.inl off.1))) _ _ List.nil_prefix _
    · split
      · next toggle => exact .quiet (switch_not_appended f s r (.inr (.inr toggle.1))) _ _ List.nil_prefix _
      · split
        · next disabled => exact .quiet (by rw [appendedKey, if_pos (.inl disabled)]) _ _ List.nil_prefix _
        · next enabled =>
          split
          · next released => exact .quiet (by rw [appendedKey, if_pos (.inr released)]) _ _ List.prefix_rfl _
          · next pressed =>
            have live : ¬((!s.enabled) = true ∨ (!r.pressed) = true) := fun either => either.elim enabled pressed
            cases verdict : defaultHandler f r with
            | excluded clears =>
              refine .quiet (by rw [appendedKey, if_neg live, verdict]) _ _ ?_ _
              cases clears
              · exact List.prefix_rfl
              · exact List.nil_prefix
            | allowed keycode mods =>
              dsimp only
              cases key : bufferKey keycode mods with
              | append key' clears =>
                refine .append _ _ (by rw [appendedKey, if_neg live, verdict]; dsimp only; rw [key]) ?_
                cases clears
                · exact List.prefix_rfl
                · exact List.nil_prefix
              | backspace =>
                exact .quiet (by rw [appendedKey, if_neg live, verdict]; dsimp only; rw [key]) _ _ (List.dropLast_prefix _) _
              | clear => exact .quiet (by rw [appendedKey, if_neg live, verdict]; dsimp only; rw [key]) _ _ List.nil_prefix _

/-- Every key that is appended is the code of a character. -/
theorem bufferKey_typed {keycode : UInt16} {mods key : UInt8} {clears : Bool}
    (appended : bufferKey keycode mods = .append key clears) : ∃ c, Typed c ∧ code c = key := by
  rw [bufferKey] at appended
  split_ifs at appended with letter break_ enter backspace quote shifted
  · cases appended
    have all : ∀ n : Fin 30, 4 ≤ n.val → Typed (Char.ofNat (n.val + 93)) ∧ code (Char.ofNat (n.val + 93)) = UInt8.ofNat n.val := by
      unfold Typed
      decide
    have low : 4 ≤ keycode.toNat := letter.1
    have high : keycode.toNat ≤ 29 := letter.2
    have here := all ⟨keycode.toNat, by omega⟩ low
    exact ⟨_, here.1, here.2⟩
  · cases appended
    exact ⟨':', rfl, rfl⟩
  · cases appended
    exact ⟨':', rfl, rfl⟩
  · cases appended
    exact ⟨':', rfl, rfl⟩
  · cases appended
    exact ⟨quoteChar, rfl, rfl⟩

theorem appendedKey_typed {f : Features} {s : State} {r : KeyRecord} {base : List UInt8} {key : UInt8}
    (appended : appendedKey f s r = some (base, key)) : ∃ c, Typed c ∧ code c = key := by
  rw [appendedKey] at appended
  split at appended
  · cases appended
  · cases verdict : defaultHandler f r with
    | excluded clears =>
      rw [verdict] at appended
      cases appended
    | allowed keycode mods =>
      rw [verdict] at appended
      dsimp only at appended
      cases found : bufferKey keycode mods with
      | append key' clears =>
        rw [found] at appended
        cases appended
        exact bufferKey_typed found
      | backspace =>
        rw [found] at appended
        cases appended
      | clear =>
        rw [found] at appended
        cases appended

/-! ## The state -/

variable (d : Dictionary)

/-- The buffer holds codes of characters, as many as fit. -/
def Sane (s : State) : Prop :=
  ∃ chars : List Char, (∀ c ∈ chars, Typed c) ∧ s.typoBuffer = chars.map code ∧ chars.length ≤ d.header.maxLength

theorem Sane.shorten {s : State} (sane : Sane d s) {buffer : List UInt8} (shorter : buffer <+: s.typoBuffer)
    (enabled : Bool) : Sane d ⟨enabled, buffer⟩ := by
  obtain ⟨chars, typed, same, short⟩ := sane
  rw [same] at shorter
  have start : buffer = (chars.take buffer.length).map code := by
    rw [List.map_take]
    exact List.prefix_iff_eq_take.mp shorter
  refine ⟨chars.take buffer.length, fun c member => typed c (List.mem_of_mem_take member), start, ?_⟩
  exact (List.length_take_le' _ _).trans short

/-- A further key keeps the buffer within its length; a full buffer forgets its oldest key. -/
theorem pushKey_chars {chars : List Char} (short : chars.length ≤ d.header.maxLength) (c : Char) :
    ∃ base, (base = chars ∨ base = chars.drop 1) ∧ base.length < d.header.maxLength ∧
      pushKey d.header.maxLength (chars.map code) (code c) = (base ++ [c]).map code := by
  have positive := d.maxLength_pos
  rw [pushKey, List.length_map]
  by_cases full : d.header.maxLength ≤ chars.length
  · have rest : (chars.drop 1).length = d.header.maxLength - 1 := by
      rw [List.length_drop]
      omega
    refine ⟨chars.drop 1, .inr rfl, by omega, ?_⟩
    rw [if_pos full, ← List.map_drop, List.take_of_length_le (by rw [List.length_map, rest]), List.map_append]
    rfl
  · refine ⟨chars, .inl rfl, by omega, ?_⟩
    rw [if_neg full, List.map_append]
    rfl

/-- What a press makes of the buffer: no correction where no typo ends it, else the one of the entry. -/
theorem appendKey_cases (s : State) {base : List UInt8} {key : UInt8} {chars : List Char} (typed : ∀ c ∈ chars, Typed c)
    (pushed : pushKey d.header.maxLength base key = chars.map code) :
    ((∀ entry ∈ d.entries, ¬entry.typo <:+ chars) ∧
        appendKey d.header s base key = ⟨{ s with typoBuffer := chars.map code }, true, none⟩) ∨
      ∃ entry ∈ d.entries, entry.typo <:+ chars ∧ ∃ state, LeafAt d.data state entry ∧
        appendKey d.header s base key =
          ⟨{ s with typoBuffer := if key = kcSpc then [kcSpc] else [] }, decide (key = kcSpc),
            some (applyCorrection d.data (chars.map code) state)⟩ := by
  rw [appendKey, pushed]
  dsimp only
  by_cases small : (chars.map code).length < d.header.minLength
  · rw [if_pos small]
    refine .inl ⟨fun entry member ends => ?_, rfl⟩
    have least := (d.length_bounds member).1
    have within := ends.length_le
    rw [List.length_map] at small
    omega
  · rw [if_neg small]
    cases found : lookup d.header.autocorrectData 0 (chars.map code).reverse with
    | none => exact .inl ⟨fun entry member => d.lookup_none typed found member, rfl⟩
    | some state =>
      obtain ⟨entry, member, ends, leaf⟩ := d.lookup_some typed found
      refine .inr ⟨entry, member, ends, state, leaf, ?_⟩
      dsimp only
      by_cases space : key = kcSpc
      · rw [if_pos space, if_pos space, decide_eq_true space]
        rfl
      · rw [if_neg space, if_neg space, decide_eq_false space]
        rfl

/-- The buffer with the key that a press appends. -/
theorem appended_chars {f : Features} {s : State} {r : KeyRecord} (sane : Sane d s) {base : List UInt8} {key : UInt8}
    (appended : appendedKey f s r = some (base, key)) (shorter : base <+: s.typoBuffer) :
    ∃ chars : List Char, (∀ c ∈ chars, Typed c) ∧ pushKey d.header.maxLength base key = chars.map code ∧
      chars.length ≤ d.header.maxLength := by
  obtain ⟨chars, typed, same, short⟩ := sane.shorten d shorter s.enabled
  obtain ⟨c, cTyped, rfl⟩ := appendedKey_typed appended
  obtain ⟨kept, among, bound, pushed⟩ := pushKey_chars d short c
  have start : base = chars.map code := same
  refine ⟨kept ++ [c], ?_, start ▸ pushed, ?_⟩
  · intro other member
    rcases List.mem_append.mp member with old | new
    · rcases among with rfl | rfl
      · exact typed other old
      · exact typed other (List.mem_of_mem_drop old)
    · exact List.mem_singleton.mp new ▸ cTyped
  · rw [List.length_append, List.length_singleton]
    exact bound

theorem process_sane (f : Features) {s : State} (sane : Sane d s) (r : KeyRecord) :
    Sane d (processAutocorrect d.header f s r).state := by
  have step := process_step d.header f s r
  generalize processAutocorrect d.header f s r = outcome at step
  cases step with
  | quiet none enabled buffer shorter passes => exact sane.shorten d shorter enabled
  | append base key appended shorter =>
    obtain ⟨chars, typed, pushed, bound⟩ := appended_chars d sane appended shorter
    rcases appendKey_cases d s typed pushed with ⟨-, same⟩ | ⟨entry, -, -, state, -, same⟩
    · rw [same]
      exact ⟨chars, typed, rfl, bound⟩
    · rw [same]
      by_cases space : key = kcSpc
      · rw [if_pos space]
        exact ⟨[':'], fun _ member => List.mem_singleton.mp member ▸ rfl, rfl, d.maxLength_pos⟩
      · rw [if_neg space]
        exact ⟨[], fun c member => absurd member List.not_mem_nil, rfl, Nat.zero_le _⟩

/-! ## Runs -/

def run (f : Features) (enabled : Bool) (records : List KeyRecord) : State :=
  records.foldl (fun s r => (processAutocorrect d.header f s r).state) (.start enabled)

theorem run_sane (f : Features) (enabled : Bool) (records : List KeyRecord) : Sane d (run d f enabled records) :=
  @foldl_invariant _ _ (fun s r => (processAutocorrect d.header f s r).state) (Sane d)
    (fun _ r sane => process_sane d f sane r) (.start enabled)
    ⟨[':'], fun _ member => List.mem_singleton.mp member ▸ rfl, rfl, d.maxLength_pos⟩ records

/-- The writes of the correction, if any, stay inside `typo` and `correct`. -/
def WritesInside (outcome : Outcome) : Prop :=
  ∀ correction, outcome.correction = some correction →
    (∀ w ∈ correction.typoWrites, 0 ≤ w ∧ w < ((d.header.maxLength + 1 : Nat) : Int)) ∧
      ∀ w ∈ correction.correctWrites, 0 ≤ w ∧ w < ((d.header.maxLength + 10 : Nat) : Int)

/-- The changed part of the typo lies in the last word, and the corrected word fits. -/
def Fits (entry : Entry) (buffer : List UInt8) : Prop :=
  (stripped entry).length - kept entry ≤ lastWord buffer ∧
    lastWord buffer + kept entry + (sent entry).length < (stripped entry).length + d.header.maxLength + 10

/-- A press that lets the buffer end with a typo finds room for its entry. -/
def Roomy (f : Features) (s : State) (r : KeyRecord) : Prop :=
  ∀ base key, appendedKey f s r = some (base, key) → ∀ entry ∈ d.entries,
    entry.typo.map code <:+ pushKey d.header.maxLength base key →
      Fits d entry (pushKey d.header.maxLength base key)

theorem map_code_injective {first second : List Char} (firstTyped : ∀ c ∈ first, Typed c)
    (secondTyped : ∀ c ∈ second, Typed c) (same : first.map code = second.map code) : first = second := by
  induction first generalizing second with
  | nil => exact (List.map_eq_nil_iff.mp same.symm).symm
  | cons c first ih =>
    cases second with
    | nil => cases same
    | cons d second =>
      rw [List.map_cons, List.map_cons, List.cons.injEq] at same
      have head := code_injective (firstTyped c List.mem_cons_self) (secondTyped d List.mem_cons_self) same.1
      have tail := ih (fun other member => firstTyped other (List.mem_cons_of_mem c member))
        (fun other member => secondTyped other (List.mem_cons_of_mem d member)) same.2
      rw [head, tail]

/-- A typo ends the buffer exactly when its codes do. -/
theorem ends_iff {entry : Entry} (member : entry ∈ d.entries) {chars : List Char} (typed : ∀ c ∈ chars, Typed c) :
    entry.typo.map code <:+ chars.map code ↔ entry.typo <:+ chars := by
  constructor
  · intro ends
    have cut := List.suffix_iff_eq_drop.mp ends
    rw [List.length_map, List.length_map, ← List.map_drop] at cut
    have same := map_code_injective (d.accepted.typed entry member)
      (fun c inside => typed c (List.mem_of_mem_drop inside)) cut
    rw [same]
    exact List.drop_suffix _ _
  · rintro ⟨front, rfl⟩
    rw [List.map_append]
    exact List.suffix_append _ _

/-- The writes of an entry's correction. -/
theorem applyCorrection_inside {state : Nat} {entry : Entry} (leaf : LeafAt d.data state entry) {chars : List Char}
    (typed : ∀ c ∈ chars, Typed c) (short : chars.length ≤ d.header.maxLength) (ends : entry.typo <:+ chars)
    (s : State) (passes : Bool) :
    WritesInside d ⟨s, passes, some (applyCorrection d.data (chars.map code) state)⟩ ↔ Fits d entry (chars.map code) := by
  have word := lastWord_le (chars.map code)
  have less : kept entry ≤ (stripped entry).length := common_le _ _
  rw [List.length_map] at word
  rw [applyCorrection_entry leaf typed ends]
  simp only [WritesInside, Option.some.injEq, forall_eq', List.forall_mem_append, writesAt_inside, Fits]
  have typo : ∀ w ∈ writesAt 0 (lastWord (chars.map code)), 0 ≤ w ∧ w < ((d.header.maxLength + 1 : Nat) : Int) := by
    intro w member
    simp only [writesAt, List.mem_map, List.mem_range] at member
    obtain ⟨k, below, rfl⟩ := member
    omega
  rw [and_iff_right typo]
  omega

/-- One key event writes inside the arrays exactly when it finds room. -/
theorem writesInside_iff (f : Features) {s : State} (sane : Sane d s) (r : KeyRecord) :
    WritesInside d (processAutocorrect d.header f s r) ↔ Roomy d f s r := by
  have step := process_step d.header f s r
  generalize processAutocorrect d.header f s r = outcome at step
  unfold Roomy
  cases step with
  | quiet none enabled buffer shorter passes =>
    refine iff_of_true (fun correction found => by cases found) fun base key appended => ?_
    rw [none] at appended
    cases appended
  | append base key appended shorter =>
    obtain ⟨chars, typed, pushed, bound⟩ := appended_chars d sane appended shorter
    have only : (∀ base' key', appendedKey f s r = some (base', key') → ∀ entry ∈ d.entries,
        entry.typo.map code <:+ pushKey d.header.maxLength base' key' →
          Fits d entry (pushKey d.header.maxLength base' key')) ↔
        ∀ entry ∈ d.entries, entry.typo <:+ chars → Fits d entry (chars.map code) := by
      constructor
      · intro all entry member ends
        have fits := all base key appended entry member
        rw [pushed, ends_iff d member typed] at fits
        exact fits ends
      · rintro all base' key' same entry member
        rw [appended] at same
        cases same
        rw [pushed, ends_iff d member typed]
        exact all entry member
    rw [only]
    rcases appendKey_cases d s typed pushed with ⟨away, same⟩ | ⟨entry, member, ends, state, leaf, same⟩
    · rw [same]
      exact iff_of_true (fun correction found => by cases found) fun entry member ends => absurd ends (away entry member)
    · rw [same, applyCorrection_inside d leaf typed bound ends]
      constructor
      · intro fits other otherMember otherEnds
        rwa [d.accepted.unique otherMember member otherEnds ends]
      · exact fun all => all entry member ends

/-- In a run all corrections write inside the arrays exactly when every key event finds room. -/
theorem correction_writes_inside_iff (f : Features) (enabled : Bool) (records : List KeyRecord) :
    (∀ before r after, records = before ++ r :: after →
      WritesInside d (processAutocorrect d.header f (run d f enabled before) r)) ↔
      EveryStep (fun before r => Roomy d f (run d f enabled before) r) records := by
  rw [everyStep_iff_split]
  refine forall_congr' fun before => forall_congr' fun r => forall_congr' fun after => forall_congr' fun split => ?_
  exact writesInside_iff d f (run_sane d f enabled before) r

/-! ## A typo of two words -/

def theThe : Entry := ⟨[':', 't', 'h', 'e', ':', 't', 'h', 'e', ':'], ['t', 'h', 'e'], List.cons_ne_nil _ _⟩

theorem theThe_parsed : parseFile [theThe] = some [theThe] := by decide +kernel

def theTheHeader : Header := ⟨[44, 8, 11, 23, 44, 8, 11, 23, 44, 0, 132, 0], 9, 9⟩

theorem theThe_generated : generateAutocorrectData [theThe] = some theTheHeader := by decide +kernel

/-- An entry of the default dictionary. -/
def theTheDictionary : Dictionary := ⟨[theThe], [theThe], theTheHeader, theThe_parsed, theThe_generated⟩

def plainFeatures : Features := ⟨false, false, false⟩

def keyPress (keycode : UInt16) : KeyRecord := ⟨keycode, true, 0, 0⟩

/-- "the the", with the space behind it still to come. -/
def theThePresses : List KeyRecord := [0x17, 0x0B, 0x08, 0x2C, 0x17, 0x0B, 0x08].map keyPress

theorem theThe_writes : ((processAutocorrect theTheHeader plainFeatures
    (run theTheDictionary plainFeatures true theThePresses) (keyPress 0x2C)).correction.map fun correction =>
      correction.correctWrites) = some [0, 1, 2, 3, -1] := by rfl

/-- The copy of the correction starts one byte before `correct`. -/
theorem theThe_overruns : ¬WritesInside theTheDictionary (processAutocorrect theTheDictionary.header plainFeatures
    (run theTheDictionary plainFeatures true theThePresses) (keyPress 0x2C)) := by
  intro inside
  obtain ⟨correction, found, writes⟩ := Option.map_eq_some_iff.mp theThe_writes
  have low := ((inside correction found).2 (-1) (by rw [writes]; decide)).1
  exact absurd low (by decide)

end QmkFirmware.Autocorrect
