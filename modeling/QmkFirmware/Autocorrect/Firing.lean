import QmkFirmware.Autocorrect.Layout

/-! # When a correction fires

The checks of `parse_file` keep the typos apart, so the lookup in the serialized trie finds the entry whose typo
ends the buffer, and no other. -/

namespace QmkFirmware.Autocorrect

open QmkFirmware.Foundations

/-! ## Accepted entries -/

structure Accepted (entries : List Entry) : Prop where
  typed : ∀ entry ∈ entries, ∀ c ∈ entry.typo, Typed c
  apart : ∀ entry ∈ entries, ∀ other ∈ entries, entry.typo <:+: other.typo → entry = other
  short : ∀ entry ∈ entries, entry.typo.length ≤ 127

theorem acceptLine_accepted {entries after : List Entry} {line : Entry} (accepted : Accepted entries)
    (accepts : acceptLine entries line = some after) : Accepted after := by
  rw [acceptLine] at accepts
  split_ifs at accepts with known wrong clash long
  · exact Option.some.inj accepts ▸ accepted
  · obtain rfl := Option.some.inj accepts
    have typed : ∀ c ∈ line.typo, Typed c := by
      simpa [Typed, Option.isSome_iff_ne_none] using wrong
    have free : ∀ entry ∈ entries, ¬line.typo <:+: entry.typo ∧ ¬entry.typo <:+: line.typo := by simpa using clash
    refine ⟨?_, ?_, ?_⟩
    · intro entry member
      rcases List.mem_append.mp member with old | new
      · exact accepted.typed entry old
      · exact List.mem_singleton.mp new ▸ typed
    · intro entry member other otherMember within
      rcases List.mem_append.mp member with old | new
      · rcases List.mem_append.mp otherMember with otherOld | otherNew
        · exact accepted.apart entry old other otherOld within
        · rw [List.mem_singleton.mp otherNew] at within
          exact absurd within (free entry old).2
      · rcases List.mem_append.mp otherMember with otherOld | otherNew
        · rw [List.mem_singleton.mp new] at within
          exact absurd within (free other otherOld).1
        · rw [List.mem_singleton.mp new, List.mem_singleton.mp otherNew]
    · intro entry member
      rcases List.mem_append.mp member with old | new
      · exact accepted.short entry old
      · rw [List.mem_singleton.mp new]
        omega

theorem parseFile_accepted {lines entries : List Entry} (parsed : parseFile lines = some entries) :
    Accepted entries := by
  have fold : ∀ (lines : List Entry) (before : List Entry), Accepted before →
      lines.foldlM acceptLine before = some entries → Accepted entries := by
    intro lines
    induction lines with
    | nil =>
      intro before accepted folded
      exact Option.some.inj folded ▸ accepted
    | cons line lines ih =>
      intro before accepted folded
      rw [List.foldlM_cons, Option.bind_eq_bind, Option.bind_eq_some_iff] at folded
      obtain ⟨after, accepts, rest⟩ := folded
      exact ih after (acceptLine_accepted accepted accepts) rest
  refine fold lines [] ⟨?_, ?_, ?_⟩ parsed
  · exact fun entry member => absurd member List.not_mem_nil
  · exact fun entry member => absurd member List.not_mem_nil
  · exact fun entry member => absurd member List.not_mem_nil

variable {entries : List Entry}

/-- Two typos at the end of one text are the same. -/
theorem Accepted.unique (accepted : Accepted entries) {entry other : Entry} (member : entry ∈ entries)
    (otherMember : other ∈ entries) {chars : List Char} (ends : entry.typo <:+ chars) (otherEnds : other.typo <:+ chars) :
    entry = other := by
  rcases List.suffix_or_suffix_of_suffix ends otherEnds with shorter | longer
  · exact accepted.apart entry member other otherMember shorter.isInfix
  · exact (accepted.apart other otherMember entry member longer.isInfix).symm

/-! ## The trie of the entries -/

theorem makeTrie_concat (entries : List Entry) (entry : Entry) :
    makeTrie (entries ++ [entry]) = (makeTrie entries).insert entry.typo.reverse entry := by
  rw [makeTrie, List.foldl_append]
  rfl

theorem Accepted.init {entry : Entry} (accepted : Accepted (entries ++ [entry])) : Accepted entries where
  typed other member := accepted.typed other (List.mem_append_left _ member)
  apart first member second other := accepted.apart first (List.mem_append_left _ member) second (List.mem_append_left _ other)
  short other member := accepted.short other (List.mem_append_left _ member)

theorem makeTrie_grown (accepted : Accepted entries) : (makeTrie entries).Grown Typed := by
  induction entries using List.reverseRecOn with
  | nil => exact Trie.grown_empty
  | append_singleton entries entry ih =>
    rw [makeTrie_concat]
    apply Trie.Live.grown
    apply Trie.insert_live _ _ (ih accepted.init)
    intro c member
    exact accepted.typed entry (List.mem_append_right _ List.mem_cons_self) c (List.mem_reverse.mp member)

theorem makeTrie_live (accepted : Accepted entries) (some_ : entries ≠ []) : (makeTrie entries).Live Typed := by
  induction entries using List.reverseRecOn with
  | nil => exact absurd rfl some_
  | append_singleton entries entry =>
    rw [makeTrie_concat]
    apply Trie.insert_live _ _ (makeTrie_grown accepted.init)
    intro c member
    exact accepted.typed entry (List.mem_append_right _ List.mem_cons_self) c (List.mem_reverse.mp member)

theorem get_makeTrie (accepted : Accepted entries) (word : List Char) (found : Entry) :
    (makeTrie entries).get word = some found ↔ found ∈ entries ∧ found.typo.reverse = word := by
  induction entries using List.reverseRecOn with
  | nil => simp [makeTrie]
  | append_singleton entries entry ih =>
    rw [makeTrie_concat, Trie.get_insert]
    by_cases same : word = entry.typo.reverse
    · rw [if_pos same, Option.some_inj]
      constructor
      · rintro rfl
        exact ⟨List.mem_append_right _ List.mem_cons_self, same.symm⟩
      · rintro ⟨member, spelled⟩
        have equal : entry.typo = found.typo := List.reverse_injective (same.symm.trans spelled.symm)
        exact accepted.apart entry (List.mem_append_right _ List.mem_cons_self) found member (equal ▸ List.infix_rfl)
    · rw [if_neg same, ih accepted.init]
      constructor
      · rintro ⟨member, spelled⟩
        exact ⟨List.mem_append_left _ member, spelled⟩
      · rintro ⟨member, spelled⟩
        rcases List.mem_append.mp member with old | new
        · exact ⟨old, spelled⟩
        · rw [List.mem_singleton.mp new] at spelled
          exact absurd spelled.symm same

/-- Walking back from the end of a text finds the entry whose typo ends it. -/
theorem walk_makeTrie (accepted : Accepted entries) (chars : List Char) (found : Entry) :
    (makeTrie entries).walk chars.reverse = some found ↔ found ∈ entries ∧ found.typo <:+ chars := by
  rw [Trie.walk_eq_some_iff]
  · constructor
    · rintro ⟨start, onTheWay, value⟩
      obtain ⟨member, rfl⟩ := (get_makeTrie accepted start found).mp value
      exact ⟨member, List.reverse_prefix.mp onTheWay⟩
    · rintro ⟨member, ends⟩
      exact ⟨found.typo.reverse, List.reverse_prefix.mpr ends, (get_makeTrie accepted _ found).mpr ⟨member, rfl⟩⟩
  · intro first second firstValue secondValue before
    obtain ⟨entry, entryValue⟩ := Option.ne_none_iff_exists'.mp firstValue
    obtain ⟨other, otherValue⟩ := Option.ne_none_iff_exists'.mp secondValue
    obtain ⟨member, rfl⟩ := (get_makeTrie accepted first entry).mp entryValue
    obtain ⟨otherMember, rfl⟩ := (get_makeTrie accepted second other).mp otherValue
    have within := (List.reverse_prefix.mp before).isInfix
    rw [accepted.apart entry member other otherMember within]

/-! ## A dictionary -/

namespace Dictionary

variable (d : Dictionary)

theorem accepted : Accepted d.entries := parseFile_accepted d.parsed

def data : List UInt8 := d.header.autocorrectData

/-- The parts of the generated header. -/
theorem header_parts : ∃ minLength maxLength,
    serializeTrie (makeTrie d.entries) = some d.data ∧
      (d.entries.map fun entry => entry.typo.length).min? = some minLength ∧
      (d.entries.map fun entry => entry.typo.length).max? = some maxLength ∧
      d.header.minLength = minLength ∧ d.header.maxLength = maxLength := by
  have generated := d.generated
  rw [generateAutocorrectData, Option.bind_eq_bind, Option.bind_eq_some_iff] at generated
  obtain ⟨data, serialized, generated⟩ := generated
  rw [Option.bind_eq_bind, Option.bind_eq_some_iff] at generated
  obtain ⟨minLength, least, generated⟩ := generated
  rw [Option.bind_eq_some_iff] at generated
  obtain ⟨maxLength, greatest, generated⟩ := generated
  obtain header := Option.some.inj generated
  refine ⟨minLength, maxLength, ?_, least, greatest, ?_, ?_⟩
  · rw [Dictionary.data, ← header]
    exact serialized
  · rw [← header]
  · rw [← header]

theorem nonempty : d.entries ≠ [] := by
  obtain ⟨minLength, maxLength, -, least, -⟩ := d.header_parts
  intro none
  rw [none] at least
  cases least

theorem length_bounds {entry : Entry} (member : entry ∈ d.entries) :
    d.header.minLength ≤ entry.typo.length ∧ entry.typo.length ≤ d.header.maxLength := by
  obtain ⟨minLength, maxLength, -, least, greatest, minSame, maxSame⟩ := d.header_parts
  have listed : entry.typo.length ∈ d.entries.map fun entry => entry.typo.length :=
    List.mem_map.mpr ⟨entry, member, rfl⟩
  rw [minSame, maxSame]
  exact ⟨(List.min?_eq_some_iff.mp least).2 _ listed, (List.max?_eq_some_iff.mp greatest).2 _ listed⟩

theorem maxLength_attained : ∃ entry ∈ d.entries, entry.typo.length = d.header.maxLength := by
  obtain ⟨minLength, maxLength, -, -, greatest, -, maxSame⟩ := d.header_parts
  rw [maxSame]
  exact List.mem_map.mp (List.max?_eq_some_iff.mp greatest).1

theorem maxLength_pos : 0 < d.header.maxLength := by
  obtain ⟨entry, member⟩ := List.exists_mem_of_ne_nil d.entries d.nonempty
  have within := (d.length_bounds member).2
  have some_ := List.length_pos_of_ne_nil entry.nonempty
  omega

theorem table_parts : ∃ table, d.data = bytes table ∧ table = traverse (makeTrie d.entries) [] 0 ∧
    (∀ entry ∈ table, ValidEntry entry) ∧ byteOffset table table.length ≤ 0xffff := by
  obtain ⟨-, -, serialized, -⟩ := d.header_parts
  rw [serializeTrie] at serialized
  split_ifs at serialized with valid
  exact ⟨_, (Option.some.inj serialized).symm, rfl, valid⟩

theorem root_value : (makeTrie d.entries).value = none := by
  rw [← Trie.get_nil, Option.eq_none_iff_forall_ne_some]
  intro entry value
  have word := ((get_makeTrie d.accepted [] entry).mp value).2
  exact entry.nonempty (List.reverse_eq_nil_iff.mp word)

/-- The lookup in the serialized trie does what the trie says. -/
theorem lookup_finds {keys : List Char} (typed : ∀ key ∈ keys, Typed key) :
    Finds d.data (lookup d.data 0 (keys.map code)) ((makeTrie d.entries).walk keys) := by
  obtain ⟨table, data, split, valid, short⟩ := d.table_parts
  have here : Reads table 0 (traverse (makeTrie d.entries) [] 0) := by
    rw [split]
    exact List.prefix_rfl
  have walks := traverse_walks valid short (makeTrie_live d.accepted d.nonempty)
    (fun c none => absurd none List.not_mem_nil) here
  rw [data]
  have start : byteOffset table 0 = 0 := rfl
  have found := walks keys typed
  rw [start, follow] at found
  have root := walks [] (fun c none => absurd none List.not_mem_nil)
  rw [start, follow, Trie.walk_nil d.root_value, List.map_nil] at root
  by_cases empty : (bytes table).length ≤ 0
  · -- there is always a byte, but the lookup finds nothing without one either
    rw [enter, if_pos empty] at found
    cases keys with
    | nil => exact found
    | cons key keys =>
      have byte : pgmReadByte (bytes table) 0 = 0 := by
        rw [pgmReadByte, List.length_eq_zero_iff.mp (Nat.le_zero.mp empty)]
        rfl
      have different : (0 : UInt8) ≠ code key := (code_ne_zero (typed key List.mem_cons_self)).symm
      rw [List.map_cons, lookup_cons, advance, byte, if_neg (by decide), if_pos different]
      exact found
  · by_cases leaf : pgmReadByte (bytes table) 0 &&& 128 ≠ 0
    · rw [enter, if_neg empty, if_pos leaf] at root
      cases root
    · rwa [enter, if_neg empty, if_neg leaf] at found

/-- What the lookup finds is the entry whose typo ends the buffer. -/
theorem lookup_some {chars : List Char} (typed : ∀ c ∈ chars, Typed c) {state : Nat}
    (found : lookup d.data 0 (chars.map code).reverse = some state) :
    ∃ entry ∈ d.entries, entry.typo <:+ chars ∧ LeafAt d.data state entry := by
  have finds := @lookup_finds d chars.reverse fun key member => typed key (List.mem_reverse.mp member)
  rw [List.map_reverse, found] at finds
  cases walked : (makeTrie d.entries).walk chars.reverse with
  | none =>
    rw [walked] at finds
    cases finds
  | some entry =>
    obtain ⟨member, ends⟩ := (walk_makeTrie d.accepted chars entry).mp walked
    rw [walked] at finds
    cases finds with
    | some leaf => exact ⟨entry, member, ends, leaf⟩

theorem lookup_none {chars : List Char} (typed : ∀ c ∈ chars, Typed c)
    (lost : lookup d.data 0 (chars.map code).reverse = none) {entry : Entry} (member : entry ∈ d.entries) :
    ¬entry.typo <:+ chars := by
  intro ends
  have finds := @lookup_finds d chars.reverse fun key member => typed key (List.mem_reverse.mp member)
  rw [List.map_reverse, lost, (walk_makeTrie d.accepted chars entry).mpr ⟨member, ends⟩] at finds
  cases finds

end Dictionary

/-! ## The data of an entry -/

/-- The string that is sent for an entry: it ends at a zero character. -/
def sent (entry : Entry) : List UInt8 := (asciiBytes (changed entry)).takeWhile (· ≠ 0)

theorem takeWhile_terminated (string rest : List UInt8) :
    (string ++ 0 :: rest).takeWhile (· ≠ 0) = string.takeWhile (· ≠ 0) := by
  induction string with
  | nil => rfl
  | cons byte string ih => rw [List.cons_append, List.takeWhile_cons, List.takeWhile_cons, ih]

theorem LeafAt.changes {data : List UInt8} {state : Nat} {entry : Entry} (leaf : LeafAt data state entry) :
    stringAt data (state + 1) = sent entry := by
  obtain ⟨rest, split⟩ := leaf.reads.next
  have string : asciiBytes (changed entry) ++ 0 :: rest = data.drop (state + 1) := by
    rw [← split]
    exact (List.append_assoc _ [0] rest).symm
  rw [stringAt, ← string, takeWhile_terminated, sent]

end QmkFirmware.Autocorrect
