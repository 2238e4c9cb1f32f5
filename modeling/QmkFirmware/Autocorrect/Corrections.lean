import Mathlib.Data.List.Forall2
import QmkFirmware.Autocorrect.Buffers

/-! # What a correction does to the text

The host shows the characters of the keys that reach it.  The buffer follows the end of that text, so a typo at the
end of the buffer stands at the end of the text, apart from the last key, which the host gets after the correction or
never.  The backspaces and the string of an entry then leave its correction there. -/

namespace QmkFirmware.Autocorrect

open QmkFirmware.Runs

/-! ## The parts of a typo -/

/-- The typo without the word breaks in front. -/
def trimmed (entry : Entry) : List Char := entry.typo.dropWhile (· = ':')

/-- The number of word breaks behind the typo. -/
def trailingBreaks (entry : Entry) : Nat := (trimmed entry).length - (stripped entry).length

/-- The part of the typo that the host shows when the last key is pressed: all of it if the key is a word break. -/
def shown (entry : Entry) : List Char := if wordBoundaryEnding entry then stripped entry else (stripped entry).dropLast

theorem trimmed_suffix (entry : Entry) : trimmed entry <:+ entry.typo := List.dropWhile_suffix _

theorem stripped_start (entry : Entry) : stripped entry <+: trimmed entry := List.rdropWhile_prefix _ _

theorem trimmed_split (entry : Entry) :
    trimmed entry = stripped entry ++ (trimmed entry).rtakeWhile (· = ':') := List.rdropWhile_append_rtakeWhile.symm

/-- The word breaks behind the typo are colons. -/
theorem trimmed_eq (entry : Entry) :
    trimmed entry = stripped entry ++ List.replicate (trailingBreaks entry) ':' := by
  have split := trimmed_split entry
  have total := congrArg List.length split
  rw [List.length_append] at total
  have count : trailingBreaks entry = ((trimmed entry).rtakeWhile (· = ':')).length := by
    unfold trailingBreaks
    omega
  have colons : (trimmed entry).rtakeWhile (· = ':') = List.replicate (trailingBreaks entry) ':' := by
    rw [List.eq_replicate_iff]
    refine ⟨count.symm, fun c member => ?_⟩
    have colon := List.mem_rtakeWhile_imp member
    exact of_decide_eq_true colon
  rwa [colons] at split

theorem getLast_trimmed {entry : Entry} (some_ : trimmed entry ≠ []) :
    (trimmed entry).getLast? = entry.typo.getLast? := by
  obtain ⟨front, split⟩ := trimmed_suffix entry
  rw [← split, List.getLast?_append_of_ne_nil _ some_]

theorem head_trimmed (entry : Entry) : (trimmed entry).head? ≠ some ':' := by
  intro head
  have stops := List.head?_dropWhile_not (fun c => decide (c = ':')) entry.typo
  rw [trimmed] at head
  rw [head] at stops
  exact absurd stops (by decide)

/-- A character of a typo as the host shows it: letters and quotes as they are, a word break as any character. -/
def Match (c typed : Char) : Prop := c ≠ ':' → typed = c

theorem match_take {word text : List Char} (matched : List.Forall₂ Match word text) (plain : ':' ∉ word) : text = word := by
  induction matched with
  | nil => rfl
  | cons head tail ih =>
    rw [List.mem_cons, not_or] at plain
    rw [head fun colon => plain.1 colon.symm, ih plain.2]

theorem take_common (typo correction : List Char) :
    typo.take (common typo correction) = correction.take (common typo correction) := by
  induction typo generalizing correction with
  | nil =>
    rw [common]
    · simp
    · simp
  | cons c typo ih =>
    cases correction with
    | nil =>
      rw [common]
      · simp
      · simp
    | cons d correction =>
      rw [common]
      split
      · next same => rw [List.take_succ_cons, List.take_succ_cons, same, ih]
      · rfl

theorem common_self (word : List Char) : common word word = word.length := by
  induction word with
  | nil => rfl
  | cons c word ih => rw [common, if_pos rfl, ih, List.length_cons]

/-- The backspaces leave the part that the typo and the correction have in common. -/
theorem shown_length {entry : Entry} (serializable : Serializable entry) :
    (shown entry).length = kept entry + (backspaces entry).toNat := by
  have offset := offset_eq serializable
  unfold shown
  cases ending : wordBoundaryEnding entry with
  | true =>
    rw [ending, if_pos rfl] at offset
    rw [if_pos rfl]
    omega
  | false =>
    rw [ending, if_neg Bool.false_ne_true] at offset
    rw [if_neg Bool.false_ne_true, List.length_dropLast]
    omega

theorem shown_take {entry : Entry} (serializable : Serializable entry) :
    (shown entry).take (kept entry) = entry.correction.take (kept entry) := by
  have length := shown_length serializable
  have start : shown entry <+: stripped entry := by
    unfold shown
    split
    · exact List.prefix_rfl
    · exact List.dropLast_prefix _
  obtain ⟨rest, split⟩ := start
  have same := take_common (stripped entry) entry.correction
  rw [← kept, ← split, List.take_append_of_le_length (by omega)] at same
  exact same

/-- A typo ends with a word break exactly when colons are stripped behind it, or when it has nothing else. -/
theorem ending_iff (entry : Entry) (some_ : trimmed entry ≠ []) :
    wordBoundaryEnding entry = true ↔ trailingBreaks entry ≠ 0 := by
  rw [wordBoundaryEnding, decide_eq_true_iff, ← getLast_trimmed some_]
  have split := trimmed_eq entry
  cases few : trailingBreaks entry with
  | zero =>
    rw [few, List.replicate_zero, List.append_nil] at split
    refine iff_of_false (fun last => ?_) (fun none => none rfl)
    have whole : (trimmed entry).rdropWhile (· = ':') = trimmed entry := split.symm
    rw [List.rdropWhile_eq_self_iff] at whole
    refine whole some_ (decide_eq_true ?_)
    rw [List.getLast?_eq_some_getLast some_] at last
    exact Option.some.inj last
  | succ n =>
    rw [few, List.replicate_succ', ← List.append_assoc] at split
    rw [split, List.getLast?_concat]
    exact iff_of_true rfl n.succ_ne_zero

/-- Before its last key the host shows the typo with all but one of the word breaks behind it. -/
theorem dropLast_trimmed (entry : Entry) :
    (trimmed entry).dropLast = shown entry ++ List.replicate (trailingBreaks entry - 1) ':' := by
  have split := trimmed_eq entry
  by_cases none : trimmed entry = []
  · -- the typo is made of word breaks only
    rw [none] at split
    obtain ⟨empty, few⟩ := List.append_eq_nil_iff.mp split.symm
    rw [List.replicate_eq_nil_iff] at few
    rw [none, shown, empty, List.dropLast_nil, ite_self, few]
    rfl
  · have ending := ending_iff entry none
    unfold shown
    cases few : trailingBreaks entry with
    | zero =>
      rw [few, List.replicate_zero, List.append_nil] at split
      rw [few] at ending
      rw [if_neg fun breaks => ending.mp breaks rfl, split, Nat.zero_sub, List.replicate_zero, List.append_nil]
    | succ n =>
      rw [few, List.replicate_succ', ← List.append_assoc] at split
      rw [if_pos (ending.mpr (few ▸ n.succ_ne_zero)), split, List.dropLast_concat, Nat.add_sub_cancel]

theorem dropLast_suffix {word chars : List Char} {c : Char} (ends : word <:+ chars ++ [c]) : word.dropLast <:+ chars := by
  obtain ⟨rest, whole⟩ := ends
  rcases List.eq_nil_or_concat' word with rfl | ⟨front, last, rfl⟩
  · exact List.nil_suffix
  · rw [← List.append_assoc] at whole
    rw [List.dropLast_concat]
    exact ⟨rest, List.append_inj_left' whole rfl⟩

theorem head_dropLast {word : List Char} {c : Char} (head : word.head? ≠ some c) : word.dropLast.head? ≠ some c := by
  intro first
  obtain ⟨rest, split⟩ := List.dropLast_prefix word
  refine head ?_
  rw [← split, List.head?_append, first]
  rfl

/-! ## The text behind the buffer -/

/-- The text ends as the buffer says; only a word break at the start of the buffer may not have been typed. -/
def Follows (chars text : List Char) : Prop :=
  ∃ visible front tail, (chars = visible ∨ chars = ':' :: visible) ∧ text = front ++ tail ∧ List.Forall₂ Match visible tail

theorem follows_nil (text : List Char) : Follows [] text :=
  ⟨[], text, [], .inl rfl, text.append_nil.symm, .nil⟩

theorem follows_break (text : List Char) : Follows [':'] text :=
  ⟨[], text, [], .inr rfl, text.append_nil.symm, .nil⟩

namespace Follows

variable {chars text : List Char}

theorem push (follows : Follows chars text) {c typed : Char} (matched : Match c typed) :
    Follows (chars ++ [c]) (text ++ [typed]) := by
  obtain ⟨visible, front, tail, same, rfl, all⟩ := follows
  refine ⟨visible ++ [c], front, tail ++ [typed], ?_, List.append_assoc _ _ _, ?_⟩
  · rcases same with rfl | rfl
    · exact .inl rfl
    · exact .inr rfl
  · exact List.rel_append all (.cons matched .nil)

/-- The buffer may forget its oldest character. -/
theorem forget (follows : Follows chars text) : Follows (chars.drop 1) text := by
  obtain ⟨visible, front, tail, same, rfl, all⟩ := follows
  rcases same with rfl | rfl
  · refine ⟨chars.drop 1, front ++ tail.take 1, tail.drop 1, .inl rfl, ?_, List.forall₂_drop 1 all⟩
    rw [List.append_assoc, List.take_append_drop]
  · exact ⟨visible, front, tail, .inl rfl, rfl, all⟩

/-- Backspace takes the last character of both. -/
theorem backspace (follows : Follows chars text) : Follows chars.dropLast text.dropLast := by
  obtain ⟨visible, front, tail, same, rfl, all⟩ := follows
  cases all with
  | nil =>
    rcases same with rfl | rfl
    · exact follows_nil _
    · exact follows_nil _
  | @cons c typed visible tail matched all =>
    have length := all.length_eq
    refine ⟨(c :: visible).dropLast, front, (typed :: tail).dropLast, ?_, ?_, ?_⟩
    · rcases same with rfl | rfl
      · exact .inl rfl
      · exact .inr rfl
    · exact List.dropLast_append_of_ne_nil (List.cons_ne_nil _ _)
    · rw [List.dropLast_eq_take, List.dropLast_eq_take, List.length_cons, List.length_cons, length]
      exact List.forall₂_take _ (.cons matched all)

/-- A word at the end of the buffer stands at the end of the text. -/
theorem word (follows : Follows chars text) {word : List Char} (ends : word <:+ chars) (head : word.head? ≠ some ':') :
    ∃ rest typed, text = rest ++ typed ∧ List.Forall₂ Match word typed := by
  obtain ⟨visible, front, tail, same, rfl, all⟩ := follows
  have within : word <:+ visible := by
    rcases same with rfl | rfl
    · exact ends
    · rcases List.suffix_cons_iff.mp ends with rfl | within
      · exact absurd rfl head
      · exact within
  obtain ⟨before, rfl⟩ := within
  have dropped := List.forall₂_drop before.length all
  rw [List.drop_left] at dropped
  refine ⟨front ++ tail.take before.length, tail.drop before.length, ?_, dropped⟩
  rw [List.append_assoc, List.take_append_drop]

/-- When the last key of a typo is pressed, the text ends with the shown part and the word breaks behind it. -/
theorem typo (follows : Follows chars text) {entry : Entry} {c : Char} (ends : entry.typo <:+ chars ++ [c]) :
    ∃ rest typed breaks, text = rest ++ typed ++ breaks ∧ List.Forall₂ Match (shown entry) typed ∧
      breaks.length = trailingBreaks entry - 1 := by
  have shownEnds := dropLast_suffix ((trimmed_suffix entry).trans ends)
  obtain ⟨rest, tail, rfl, all⟩ := follows.word shownEnds (head_dropLast (head_trimmed entry))
  rw [dropLast_trimmed] at all
  have length := all.length_eq
  have start := List.forall₂_take (shown entry).length all
  rw [List.take_left] at start
  rw [List.length_append, List.length_replicate] at length
  refine ⟨rest, tail.take (shown entry).length, tail.drop (shown entry).length, ?_, start, ?_⟩
  · rw [List.append_assoc, List.take_append_drop]
  · rw [List.length_drop, ← length]
    omega

end Follows

/-! ## Corrections of the text -/

/-- The characters that `send_string` types as they are. -/
def IsText (c : Char) : Prop := (0x20 ≤ c.toNat ∧ c.toNat ≤ 0x7e) ∨ c = '\t' ∨ c = '\n'

/-- The host's text for a string that is sent. -/
def typedString (bytes : List UInt8) : List Char := bytes.map fun byte => Char.ofNat byte.toNat

/-- The backspaces and the string of a correction. -/
def applied (correction : Correction) (text : List Char) : List Char :=
  text.rdrop correction.backspaces ++ typedString correction.changes

/-- The typo in the text became its correction; further word breaks behind it stay. -/
def Corrected (entry : Entry) (text after : List Char) : Prop :=
  ∃ rest typed breaks, text = rest ++ typed ++ breaks ∧ List.Forall₂ Match (shown entry) typed ∧
    breaks.length = trailingBreaks entry - 1 ∧ after = rest ++ entry.correction ++ breaks

/-- The entries that the leaf data can express: at most one word break behind the typo unless nothing changes, none in
the part that stays, and only text in the part that is sent. -/
structure Plain (entry : Entry) : Prop where
  breaks : trailingBreaks entry ≤ 1 ∨ stripped entry = entry.correction
  stays : ':' ∉ (stripped entry).take (kept entry)
  text : ∀ c ∈ changed entry, IsText c

theorem ascii_toNat {entry : Entry} (serializable : Serializable entry) {c : Char} (member : c ∈ changed entry) :
    (UInt8.ofNat c.toNat).toNat = c.toNat := by
  have small := serializable.2.2 c member
  rw [UInt8.toNat_ofNat']
  omega

theorem typedString_ascii {entry : Entry} (serializable : Serializable entry) :
    typedString (asciiBytes (changed entry)) = changed entry := by
  rw [typedString, asciiBytes, List.map_map]
  calc
    _ = (changed entry).map id := List.map_congr_left fun c member => by
        rw [Function.comp_apply, ascii_toNat serializable member, Char.ofNat_toNat, id]
    _ = changed entry := List.map_id _

/-- Text of a dictionary entry is sent as it is. -/
theorem typedString_sent {entry : Entry} (serializable : Serializable entry) (text : ∀ c ∈ changed entry, IsText c) :
    typedString (sent entry) = changed entry := by
  have whole : sent entry = asciiBytes (changed entry) := by
    rw [sent, List.takeWhile_eq_self_iff]
    intro byte member
    obtain ⟨c, inside, rfl⟩ := List.mem_map.mp member
    refine decide_eq_true fun zero => ?_
    have same := ascii_toNat serializable inside
    rw [zero] at same
    rcases text c inside with ⟨low, -⟩ | rfl | rfl
    · rw [← same] at low
      exact absurd low (by decide)
    · cases same
    · cases same
  rw [whole, typedString_ascii serializable]

/-- The first characters of the shown part are those of the correction. -/
theorem typed_take {entry : Entry} (serializable : Serializable entry) (stays : ':' ∉ (stripped entry).take (kept entry))
    {typed : List Char} (matched : List.Forall₂ Match (shown entry) typed) :
    typed.take (kept entry) = entry.correction.take (kept entry) := by
  have same := shown_take serializable
  have plain : ':' ∉ (shown entry).take (kept entry) := by
    rwa [same, kept, ← take_common]
  rw [match_take (List.forall₂_take (kept entry) matched) plain, same]

theorem rdrop_append {rest typed : List Char} {keep drop : Nat} (length : typed.length = keep + drop) :
    (rest ++ typed).rdrop drop = rest ++ typed.take keep := by
  rw [List.rdrop, List.length_append, length, ← Nat.add_assoc, Nat.add_sub_cancel, List.take_length_add_append]

/-- A plain entry leaves its correction in the text. -/
theorem Plain.corrected {entry : Entry} (plain : Plain entry) (serializable : Serializable entry)
    {rest typed breaks : List Char} (matched : List.Forall₂ Match (shown entry) typed)
    (behind : breaks.length = trailingBreaks entry - 1) :
    (rest ++ typed ++ breaks).rdrop (backspaces entry).toNat ++ typedString (sent entry) =
      rest ++ entry.correction ++ breaks := by
  have length := shown_length serializable
  rw [matched.length_eq] at length
  have begins := typed_take serializable plain.stays matched
  rw [typedString_sent serializable plain.text, changed]
  rcases plain.breaks with few | same
  · have none : breaks = [] := List.length_eq_zero_iff.mp (by omega)
    rw [none, List.append_nil, List.append_nil, rdrop_append length, begins, List.append_assoc, List.take_append_drop]
  · -- nothing is deleted and nothing is sent
    have offset := offset_eq serializable
    have all : kept entry = entry.correction.length := by
      rw [kept, same, common_self]
    rw [same, all] at offset
    have nothing : (backspaces entry).toNat = 0 := by
      split at offset <;> omega
    rw [nothing, Nat.add_zero] at length
    rw [nothing, List.rdrop_zero, all, List.drop_length, List.append_nil]
    rw [← length, List.take_length, length, all, List.take_length] at begins
    rw [begins]

end QmkFirmware.Autocorrect
