import QmkFirmware.Autocorrect.Model

/-! # The layout of the serialized trie

The lookup walks over the bytes of `serialize_trie` as it would over the trie itself: it stops where the trie has
no way on, and finds the data of an entry where the trie has one. -/

namespace QmkFirmware.Autocorrect

open QmkFirmware.Foundations

/-! ## Codes -/

/-- The character may stand in a typo. -/
def Typed (c : Char) : Prop := (typoChars c).isSome = true

theorem code_cases {c : Char} (typed : Typed c) :
    (c = quoteChar ∧ code c = kcQuot) ∨ (c = ':' ∧ code c = kcSpc) ∨
      (('a' ≤ c ∧ c ≤ 'z') ∧ (code c).toNat + 93 = c.toNat) := by
  unfold Typed at typed
  unfold code
  unfold typoChars at typed ⊢
  split_ifs at typed ⊢ with quote colon letter
  · exact .inl ⟨quote, rfl⟩
  · exact .inr (.inl ⟨colon, rfl⟩)
  · refine .inr (.inr ⟨letter, ?_⟩)
    have low : 97 ≤ c.toNat := letter.1
    have high : c.toNat ≤ 122 := letter.2
    rw [Option.getD_some, UInt8.toNat_add, UInt8.toNat_ofNat']
    simp only [show 'a'.toNat = 97 from rfl, show kcA.toNat = 4 from rfl]
    omega
  · cases typed

theorem code_range {c : Char} (typed : Typed c) : 0 < (code c).toNat ∧ (code c).toNat < 64 := by
  rcases code_cases typed with ⟨-, same⟩ | ⟨-, same⟩ | ⟨letter, same⟩
  · rw [same]
    decide
  · rw [same]
    decide
  · have low : 97 ≤ c.toNat := letter.1
    have high : c.toNat ≤ 122 := letter.2
    omega

theorem code_injective {c d : Char} (cTyped : Typed c) (dTyped : Typed d) (same : code c = code d) : c = d := by
  have equal := congrArg UInt8.toNat same
  rcases code_cases cTyped with ⟨rfl, cCode⟩ | ⟨rfl, cCode⟩ | ⟨⟨cLow, cHigh⟩, cCode⟩
  · rcases code_cases dTyped with ⟨rfl, dCode⟩ | ⟨rfl, dCode⟩ | ⟨⟨dLow, dHigh⟩, dCode⟩
    · rfl
    · rw [cCode, dCode] at equal
      exact absurd equal (by decide)
    · have high : d.toNat ≤ 122 := dHigh
      rw [cCode, show kcQuot.toNat = 52 from rfl] at equal
      omega
  · rcases code_cases dTyped with ⟨rfl, dCode⟩ | ⟨rfl, dCode⟩ | ⟨⟨dLow, dHigh⟩, dCode⟩
    · rw [cCode, dCode] at equal
      exact absurd equal (by decide)
    · rfl
    · have high : d.toNat ≤ 122 := dHigh
      rw [cCode, show kcSpc.toNat = 44 from rfl] at equal
      omega
  · have high : c.toNat ≤ 122 := cHigh
    rcases code_cases dTyped with ⟨rfl, dCode⟩ | ⟨rfl, dCode⟩ | ⟨⟨dLow, dHigh⟩, dCode⟩
    · rw [dCode, show kcQuot.toNat = 52 from rfl] at equal
      omega
    · rw [dCode, show kcSpc.toNat = 44 from rfl] at equal
      omega
    · exact Char.toNat_inj.mp (by omega)

/-- The flags of a byte below 64. -/
theorem flags_small {byte : UInt8} (small : byte.toNat < 64) :
    byte &&& 64 = 0 ∧ byte &&& 128 = 0 ∧ byte &&& 63 = byte ∧ (byte ||| 64) &&& 64 ≠ 0 ∧ (byte ||| 64) &&& 128 = 0 ∧
      (byte ||| 64) &&& 63 = byte := by
  have all : ∀ n : Fin 64, UInt8.ofNat n.val &&& 64 = 0 ∧ UInt8.ofNat n.val &&& 128 = 0 ∧
      UInt8.ofNat n.val &&& 63 = UInt8.ofNat n.val ∧ (UInt8.ofNat n.val ||| 64) &&& 64 ≠ 0 ∧
      (UInt8.ofNat n.val ||| 64) &&& 128 = 0 ∧ (UInt8.ofNat n.val ||| 64) &&& 63 = UInt8.ofNat n.val := by
    decide
  have here := all ⟨byte.toNat, small⟩
  rwa [UInt8.ofNat_toNat] at here

/-- The flags of the first byte of a leaf. -/
theorem flags_leaf {count : Nat} (small : count < 64) :
    UInt8.ofNat (count + 128) &&& 128 ≠ 0 ∧ (UInt8.ofNat (count + 128) &&& 63).toNat = count := by
  have all : ∀ n : Fin 64, UInt8.ofNat (n.val + 128) &&& 128 ≠ 0 ∧
      (UInt8.ofNat (n.val + 128) &&& 63).toNat = n.val := by
    decide
  exact all ⟨count, small⟩

/-! ## Bytes at a place -/

/-- The part stands at an address. -/
def Reads {α : Type} (data : List α) (address : Nat) (part : List α) : Prop := part <+: data.drop address

section

variable {α : Type} {data : List α} {address : Nat} {part more : List α}

theorem Reads.front (reads : Reads data address (part ++ more)) : Reads data address part :=
  (List.prefix_append part more).trans reads

theorem Reads.back (reads : Reads data address (part ++ more)) : Reads data (address + part.length) more := by
  obtain ⟨rest, split⟩ := reads
  refine ⟨rest, ?_⟩
  rw [← List.drop_drop, ← split, List.append_assoc, List.drop_left]

theorem Reads.next {first : α} (reads : Reads data address (first :: more)) : Reads data (address + 1) more :=
  @Reads.back α data address [first] more reads

theorem Reads.length (reads : Reads data address part) : part.length ≤ data.length - address := by
  have short := reads.length_le
  rwa [List.length_drop] at short

end

variable {data : List UInt8} {address : Nat}

theorem Reads.byte {byte : UInt8} {more : List UInt8} (reads : Reads data address (byte :: more)) :
    address < data.length ∧ pgmReadByte data address = byte := by
  obtain ⟨rest, split⟩ := reads
  have here : data[address]? = some byte := by
    rw [← Nat.add_zero address, ← List.getElem?_drop, ← split]
    rfl
  obtain ⟨inside, value⟩ := List.getElem?_eq_some_iff.mp here
  exact ⟨inside, by rw [pgmReadByte, List.getD_eq_getElem?_getD, here, Option.getD_some]⟩

/-! ## The lookup -/

/-- What the lookup does when it comes to a node. -/
def enter (data : List UInt8) (state : Nat) (keys : List UInt8) : Option Nat :=
  if data.length ≤ state then none
  else if pgmReadByte data state &&& 128 ≠ 0 then some state
  else lookup data state keys

theorem lookup_cons (data : List UInt8) (state : Nat) (key : UInt8) (keys : List UInt8) :
    lookup data state (key :: keys) = (advance data key state).bind fun next => enter data next keys := by
  rw [lookup]
  cases advance data key state <;> rfl

/-- A byte that is a character does not end the lookup. -/
theorem enter_eq_lookup (inside : address < data.length) (small : pgmReadByte data address &&& 128 = 0)
    (keys : List UInt8) : enter data address keys = lookup data address keys := by
  rw [enter, if_neg (Nat.not_le.mpr inside), if_neg (not_not_intro small)]

/-- The data of an entry stand at the address. -/
structure LeafAt (data : List UInt8) (address : Nat) (entry : Entry) : Prop where
  serializable : Serializable entry
  reads : Reads data address (leafData entry)

/-- The lookup finds the data of the entry that it should find. -/
def Finds (data : List UInt8) : Option Nat → Option Entry → Prop := Option.Rel (LeafAt data)

theorem LeafAt.flags {entry : Entry} (leaf : LeafAt data address entry) :
    pgmReadByte data address &&& 128 ≠ 0 ∧ (pgmReadByte data address &&& 63).toNat = (backspaces entry).toNat := by
  have small : (backspaces entry).toNat < 64 := by
    have bound := leaf.serializable.2.1
    omega
  rw [leaf.reads.byte.2]
  exact flags_leaf small

theorem enter_leaf {entry : Entry} (leaf : LeafAt data address entry) (keys : List UInt8) :
    enter data address keys = some address := by
  rw [enter, if_neg (Nat.not_le.mpr leaf.reads.byte.1), if_pos leaf.flags.1]

/-! ## Chains -/

/-- The way through a chain into a trie. -/
def follow : List Char → Trie Char Entry → List Char → Option Entry
  | [], t, keys => t.walk keys
  | _ :: _, _, [] => none
  | c :: chars, t, key :: keys => if key = c then follow chars t keys else none

theorem follow_concat (chars : List Char) (c : Char) (child : Trie Char Entry) (keys : List Char) :
    follow (chars ++ [c]) child keys = follow chars (.node none [(c, child)]) keys := by
  induction chars generalizing keys with
  | nil =>
    cases keys with
    | nil => rfl
    | cons key keys =>
      rw [List.nil_append, follow, follow, follow, Trie.walk_cons rfl, Trie.children, Trie.lookup_cons]
      by_cases same : key = c <;> simp [same]
  | cons first chars ih =>
    cases keys with
    | nil => rfl
    | cons key keys => rw [List.cons_append, follow, follow, ih]

/-- The step at a character of a chain. -/
theorem advance_chain {c key : Char} (typed : Typed c) (keyTyped : Typed key)
    (byte : pgmReadByte data address = code c) :
    advance data (code key) address =
      if key = c then some (if pgmReadByte data (address + 1) = 0 then address + 2 else address + 1) else none := by
  have small := flags_small (code_range typed).2
  rw [advance, byte, if_neg (not_not_intro small.1)]
  by_cases same : key = c
  · rw [same, if_neg (by simp), if_pos rfl]
    split <;> rfl
  · rw [if_pos fun equal => same (code_injective typed keyTyped equal).symm, if_neg same]

/-- A chain leads to what stands behind it. -/
theorem lookup_chain {t : Trie Char Entry} {c : Char} {chars : List Char} (typed : ∀ other ∈ c :: chars, Typed other)
    (reads : Reads data address ((c :: chars).map code ++ [0]))
    (behind : ∀ keys : List Char, (∀ key ∈ keys, Typed key) →
      Finds data (enter data (address + chars.length + 2) (keys.map code)) (t.walk keys))
    {keys : List Char} (keysTyped : ∀ key ∈ keys, Typed key) :
    Finds data (lookup data address (keys.map code)) (follow (c :: chars) t keys) := by
  induction chars generalizing c address keys with
  | nil =>
    cases keys with
    | nil => exact .none
    | cons key keys =>
      have byte := reads.byte.2
      have terminator := reads.next.byte.2
      rw [List.map_cons, lookup_cons, advance_chain (typed c List.mem_cons_self) (keysTyped key List.mem_cons_self) byte,
        follow]
      by_cases same : key = c
      · rw [if_pos same, if_pos same, if_pos terminator, Option.bind_some, follow]
        exact behind keys fun other member => keysTyped other (List.mem_cons_of_mem key member)
      · rw [if_neg same, if_neg same]
        exact .none
  | cons d chars ih =>
    cases keys with
    | nil => exact .none
    | cons key keys =>
      have byte := reads.byte.2
      obtain ⟨inside, next⟩ := reads.next.byte
      have dTyped := typed d (List.mem_cons_of_mem c List.mem_cons_self)
      have nonzero : code d ≠ 0 := by
        intro zero
        have positive := (code_range dTyped).1
        rw [zero] at positive
        exact absurd positive (by decide)
      rw [List.map_cons, lookup_cons, advance_chain (typed c List.mem_cons_self) (keysTyped key List.mem_cons_self) byte,
        follow]
      by_cases same : key = c
      · rw [if_pos same, if_pos same, next, if_neg nonzero, Option.bind_some,
          enter_eq_lookup inside (by rw [next]; exact (flags_small (code_range dTyped).2).2.1)]
        apply ih (fun other member => typed other (List.mem_cons_of_mem c member)) reads.next
        · intro later laterTyped
          have found := behind later laterTyped
          rwa [List.length_cons, show address + (chars.length + 1) + 2 = address + 1 + chars.length + 2 by omega] at found
        · exact fun other member => keysTyped other (List.mem_cons_of_mem key member)
      · rw [if_neg same, if_neg same]
        exact .none

/-! ## Branches -/

theorem encodeLink_decode {byteOffset : Nat} (small : byteOffset < 65536)
    (reads : Reads data address (encodeLink byteOffset)) :
    (pgmReadByte data address).toNat ||| (pgmReadByte data (address + 1)).toNat <<< 8 = byteOffset := by
  have low := reads.byte.2
  have high := reads.next.byte.2
  rw [low, high, UInt8.toNat_ofNat', UInt8.toNat_ofNat', Nat.or_comm,
    ← Nat.shiftLeft_add_eq_or_of_lt (show byteOffset % 256 % 2 ^ 8 < 2 ^ 8 by omega), Nat.shiftLeft_eq]
  omega

theorem branchData_length (byteOffset : Nat → Nat) (flag : UInt8) (links : List (Char × Nat)) :
    (branchData byteOffset flag links).length = 3 * links.length := by
  induction links generalizing flag with
  | nil => rfl
  | cons link links ih =>
    simp only [branchData, encodeLink, List.length_append, List.length_cons, List.length_nil, ih]
    omega

theorem lookup_link (key : Char) (link : Char × Nat) (links : List (Char × Nat)) :
    (link :: links).lookup key = if key = link.1 then some link.2 else links.lookup key := by
  rw [List.lookup_cons]
  by_cases same : key = link.1
  · simp [same]
  · rw [if_neg same, beq_false_of_ne same]

theorem code_ne_zero {c : Char} (typed : Typed c) : code c ≠ 0 := by
  intro zero
  have positive := (code_range typed).1
  rw [zero] at positive
  exact absurd positive (by decide)

/-- The loop over the children ends at the link of the key, or fails without one. -/
theorem matchBranch_links {byteOffset : Nat → Nat} {link : Char × Nat} {links : List (Char × Nat)} {key : Char}
    {fuel : Nat} (typed : ∀ other ∈ link :: links, Typed other.1) (keyTyped : Typed key)
    (enough : links.length + 1 < fuel)
    (reads : Reads data (address + 1) (encodeLink (byteOffset link.2) ++ (branchData byteOffset 0 links ++ [0]))) :
    (∀ index, (link :: links).lookup key = some index → ∃ place,
      matchBranch data (code key) fuel address (code link.1) = some place ∧
        Reads data (place + 1) (encodeLink (byteOffset index))) ∧
      ((link :: links).lookup key = none → matchBranch data (code key) fuel address (code link.1) = none) := by
  induction links generalizing link address fuel with
  | nil =>
    obtain ⟨fuel, rfl⟩ : ∃ n, fuel = n + 2 := ⟨fuel - 2, by simp at enough; omega⟩
    have linkTyped := typed link List.mem_cons_self
    have terminator : pgmReadByte data (address + 3) = 0 := reads.back.byte.2
    rw [lookup_link, matchBranch]
    by_cases same : key = link.1
    · rw [if_pos same, if_pos (congrArg code same.symm)]
      refine ⟨?_, fun none => by cases none⟩
      rintro index found
      obtain rfl := Option.some.inj found
      exact ⟨address, rfl, reads.front⟩
    · have different : code link.1 ≠ code key := fun equal => same (code_injective linkTyped keyTyped equal).symm
      rw [if_neg same, if_neg different, if_neg (code_ne_zero linkTyped), terminator, matchBranch,
        if_neg (code_ne_zero keyTyped).symm, if_pos rfl]
      exact ⟨fun index found => absurd found (Option.some_ne_none index).symm, fun _ => rfl⟩
  | cons next links ih =>
    obtain ⟨fuel, rfl⟩ : ∃ n, fuel = n + 1 := ⟨fuel - 1, by omega⟩
    have linkTyped := typed link List.mem_cons_self
    have later : Reads data (address + 3) (branchData byteOffset 0 (next :: links) ++ [0]) := reads.back
    have byte : pgmReadByte data (address + 3) = code next.1 := by
      rw [later.byte.2]
      exact UInt8.or_zero
    have rest := ih (fun other member => typed other (List.mem_cons_of_mem link member))
      (show links.length + 1 < fuel by simp only [List.length_cons] at enough; omega)
      (show Reads data (address + 3 + 1) _ by simpa using later.next)
    rw [lookup_link, matchBranch]
    by_cases same : key = link.1
    · rw [if_pos same, if_pos (congrArg code same.symm)]
      refine ⟨?_, fun none => by cases none⟩
      rintro index found
      obtain rfl := Option.some.inj found
      exact ⟨address, rfl, reads.front⟩
    · have different : code link.1 ≠ code key := fun equal => same (code_injective linkTyped keyTyped equal).symm
      rw [if_neg same, if_neg different, if_neg (code_ne_zero linkTyped), byte]
      exact rest

/-- The step at a branch. -/
theorem advance_branch {byteOffset : Nat → Nat} (small : ∀ index, byteOffset index < 65536)
    {links : List (Char × Nat)} (some_ : links ≠ []) {key : Char} (typed : ∀ link ∈ links, Typed link.1)
    (keyTyped : Typed key) (reads : Reads data address (branchData byteOffset 64 links ++ [0])) :
    advance data (code key) address = (links.lookup key).map byteOffset := by
  cases links with
  | nil => exact absurd rfl some_
  | cons link links =>
    have enough : links.length + 1 < data.length + 1 := by
      have long := reads.length
      rw [List.length_append, branchData_length, List.length_cons] at long
      omega
    have flags := flags_small (code_range (typed link List.mem_cons_self)).2
    have byte := reads.byte.2
    have loop := matchBranch_links typed keyTyped enough (by simpa using reads.next)
    rw [advance, byte, if_pos flags.2.2.2.1, flags.2.2.2.2.2]
    cases found : (link :: links).lookup key with
    | none =>
      rw [loop.2 found]
      rfl
    | some index =>
      obtain ⟨place, matched, stored⟩ := loop.1 index found
      rw [matched, Option.map_some, Option.map_some, encodeLink_decode (small index) stored]

/-! ## The table -/

def bytes (table : List TableEntry) : List UInt8 := table.flatMap (serialize (byteOffset table))

theorem serialize_length (byteOffset : Nat → Nat) (entry : TableEntry) :
    (serialize byteOffset entry).length = entryLen entry := by
  cases entry with
  | leaf entry => rfl
  | chain chars => rfl
  | branch links => simp [entryLen, serialize, branchData_length]

theorem flatMap_serialize_length (byteOffset : Nat → Nat) (part : List TableEntry) :
    (part.flatMap (serialize byteOffset)).length = (part.map entryLen).sum := by
  induction part with
  | nil => rfl
  | cons entry part ih =>
    rw [List.flatMap_cons, List.length_append, serialize_length, ih, List.map_cons, List.sum_cons]

variable {table : List TableEntry} {index base : Nat}

theorem byteOffset_succ {entry : TableEntry} {more : List TableEntry} (here : Reads table index (entry :: more)) :
    byteOffset table (index + 1) = byteOffset table index + entryLen entry := by
  obtain ⟨rest, split⟩ := here
  rw [byteOffset, List.take_add, List.map_append, List.sum_append, ← split]
  simp [byteOffset]

theorem byteOffset_le (table : List TableEntry) (index : Nat) : byteOffset table index ≤ byteOffset table table.length := by
  have whole : table = table.take index ++ table.drop index := (List.take_append_drop index table).symm
  rw [byteOffset, byteOffset, List.take_length]
  conv_rhs => rw [whole, List.map_append, List.sum_append]
  exact Nat.le_add_right _ _

/-- An entry of the table stands at its offset. -/
theorem reads_entry {entry : TableEntry} {more : List TableEntry} (here : Reads table index (entry :: more)) :
    Reads (bytes table) (byteOffset table index) (serialize (byteOffset table) entry) := by
  obtain ⟨rest, split⟩ := here
  have whole : bytes table = (table.take index).flatMap (serialize (byteOffset table)) ++
      (serialize (byteOffset table) entry ++ (more ++ rest).flatMap (serialize (byteOffset table))) := by
    rw [bytes, ← List.flatMap_cons, ← List.cons_append, split, ← List.flatMap_append, List.take_append_drop]
  have place : ((table.take index).flatMap (serialize (byteOffset table))).length = byteOffset table index :=
    flatMap_serialize_length _ _
  rw [Reads, whole, ← place, List.drop_left]
  exact List.prefix_append _ _

/-! ## The trie -/

/-- The lookup from an entry of the table is the way through the trie behind a chain. -/
def Walks (table : List TableEntry) (base : Nat) (chars : List Char) (t : Trie Char Entry) : Prop :=
  ∀ keys : List Char, (∀ key ∈ keys, Typed key) →
    Finds (bytes table) (enter (bytes table) (byteOffset table base) (keys.map code)) (follow chars t keys)

/-- The entries of a chain lead to the entries behind them. -/
theorem walks_chain {t : Trie Char Entry} {chars : List Char} {part : List TableEntry}
    (typed : ∀ c ∈ chars, Typed c) (here : Reads table base (chainOf chars ++ part))
    (behind : Walks table (base + (chainOf chars).length) [] t) : Walks table base chars t := by
  intro keys keysTyped
  cases chars with
  | nil => exact behind keys keysTyped
  | cons c chars =>
    have start : Reads table base (.chain (c :: chars) :: part) := by simpa [chainOf] using here
    have reads := reads_entry start
    have place : byteOffset table (base + 1) = byteOffset table base + chars.length + 2 := by
      rw [byteOffset_succ start]
      simp [entryLen, serialize]
      omega
    have small := (flags_small (code_range (typed c List.mem_cons_self)).2).2.1
    obtain ⟨inside, byte⟩ := reads.byte
    rw [enter_eq_lookup inside (by rw [byte]; exact small)]
    refine lookup_chain typed reads (fun later laterTyped => ?_) keysTyped
    rw [← place]
    exact behind later laterTyped

/-- The links of a branch lead to the children. -/
theorem joinTables_walks {children : List (Char × Trie Char Entry)}
    (all : ∀ child ∈ children, ∀ base, Reads table base (traverse child.2 [] base) → Walks table base [] child.2)
    (here : Reads table base (joinTables (traverseAll children) base).2) (key : Char) :
    (children.lookup key = none → (joinTables (traverseAll children) base).1.lookup key = none) ∧
      ∀ child, children.lookup key = some child →
        ∃ index, (joinTables (traverseAll children) base).1.lookup key = some index ∧ Walks table index [] child := by
  induction children generalizing base with
  | nil => exact ⟨fun _ => rfl, fun child found => absurd found (Option.some_ne_none child).symm⟩
  | cons first children ih =>
    have split : traverseAll (first :: children) = (first.1, traverse first.2 []) :: traverseAll children := by
      rw [traverseAll]
    rw [split, joinTables] at here ⊢
    have rest := ih (fun child member => all child (List.mem_cons_of_mem first member)) here.back
    rw [lookup_link, Trie.lookup_cons]
    by_cases same : key = first.1
    · rw [if_pos same, if_pos same]
      refine ⟨fun none => absurd none (Option.some_ne_none _), ?_⟩
      intro child found
      obtain rfl := Option.some.inj found
      exact ⟨base, rfl, all first List.mem_cons_self base here.front⟩
    · rw [if_neg same, if_neg same]
      exact rest

theorem joinTables_typed {children : List (Char × Trie Char Entry)} (typed : ∀ child ∈ children, Typed child.1)
    (base : Nat) : ∀ link ∈ (joinTables (traverseAll children) base).1, Typed link.1 := by
  induction children generalizing base with
  | nil =>
    intro link member
    cases member
  | cons first children ih =>
    have split : traverseAll (first :: children) = (first.1, traverse first.2 []) :: traverseAll children := by
      rw [traverseAll]
    rw [split, joinTables]
    intro link member
    cases List.mem_cons.mp member with
    | inl same =>
      rw [same]
      exact typed first List.mem_cons_self
    | inr later => exact ih (fun child member => typed child (List.mem_cons_of_mem first member)) _ link later

/-- A branch with its children. -/
theorem walks_branch {children : List (Char × Trie Char Entry)} (typed : ∀ child ∈ children, Typed child.1)
    (some_ : children ≠ []) (short : byteOffset table table.length ≤ 0xffff)
    (all : ∀ child ∈ children, ∀ base, Reads table base (traverse child.2 [] base) → Walks table base [] child.2)
    (here : Reads table base (.branch (joinTables (traverseAll children) (base + 1)).1 ::
      (joinTables (traverseAll children) (base + 1)).2)) : Walks table base [] (.node none children) := by
  have links := joinTables_walks all here.next
  have linksTyped := joinTables_typed typed (base + 1)
  have reads := reads_entry here
  have some_links : (joinTables (traverseAll children) (base + 1)).1 ≠ [] := by
    cases children with
    | nil => exact absurd rfl some_
    | cons first children =>
      rw [traverseAll, joinTables]
      exact List.cons_ne_nil _ _
  generalize (joinTables (traverseAll children) (base + 1)).1 = branch at links linksTyped reads some_links
  intro keys keysTyped
  have start : byteOffset table base < (bytes table).length ∧
      pgmReadByte (bytes table) (byteOffset table base) &&& 128 = 0 := by
    cases branch with
    | nil => exact absurd rfl some_links
    | cons link branch =>
      obtain ⟨inside, byte⟩ := reads.byte
      rw [byte]
      exact ⟨inside, (flags_small (code_range (linksTyped link List.mem_cons_self)).2).2.2.2.2.1⟩
  rw [enter_eq_lookup start.1 start.2, follow]
  cases keys with
  | nil => exact .none
  | cons key keys =>
    have small : ∀ index, byteOffset table index < 65536 := by
      intro index
      have bound := byteOffset_le table index
      omega
    rw [List.map_cons, lookup_cons, advance_branch small some_links linksTyped (keysTyped key List.mem_cons_self) reads,
      Trie.walk_cons rfl, Trie.children]
    cases found : children.lookup key with
    | none =>
      rw [(links key).1 found]
      exact .none
    | some child =>
      obtain ⟨index, link, walks⟩ := (links key).2 child found
      rw [link, Option.map_some, Option.bind_some, Option.bind_some]
      exact walks keys fun other member => keysTyped other (List.mem_cons_of_mem key member)

/-- The lookup from the place of a node in the table is the walk through its trie. -/
theorem traverse_walks (valid : ∀ entry ∈ table, ValidEntry entry) (short : byteOffset table table.length ≤ 0xffff)
    {t : Trie Char Entry} (live : t.Live Typed) {chars : List Char} (typed : ∀ c ∈ chars, Typed c)
    (here : Reads table base (traverse t chars base)) : Walks table base chars t := by
  induction live generalizing chars base with
  | node value children used keys all ih =>
    have branches : ∀ child ∈ children, ∀ base, Reads table base (traverse child.2 [] base) → Walks table base [] child.2 :=
      fun child member base there => ih child member (fun c none => by cases none) there
    cases value with
    | some entry =>
      have split : traverse (.node (some entry) children) chars base = chainOf chars ++ [.leaf entry] := by
        rw [traverse]
      rw [split] at here
      refine walks_chain typed here ?_
      intro keys keysTyped
      have leaf := here.back
      have serializable : Serializable entry := by
        obtain ⟨rest, tail⟩ := leaf
        exact valid (.leaf entry) (List.mem_of_mem_drop (by rw [← tail]; simp))
      have found : LeafAt (bytes table) (byteOffset table (base + (chainOf chars).length)) entry :=
        ⟨serializable, reads_entry leaf⟩
      rw [enter_leaf found, follow, Trie.walk_value rfl]
      exact .some found
    | none =>
      have some_ := used.resolve_left (not_not_intro rfl)
      cases children with
      | nil => exact absurd rfl some_
      | cons first rest =>
        cases rest with
        | nil =>
          -- a single child continues the chain
          have split : traverse (.node none [first]) chars base = traverse first.2 (chars ++ [first.1]) base := by
            rw [traverse]
          rw [split] at here
          have longer : ∀ c ∈ chars ++ [first.1], Typed c := by
            intro c member
            cases List.mem_append.mp member with
            | inl earlier => exact typed c earlier
            | inr last => exact List.mem_singleton.mp last ▸ keys first List.mem_cons_self
          intro word wordTyped
          rw [← follow_concat]
          exact ih first List.mem_cons_self longer here word wordTyped
        | cons second rest =>
          have split : traverse (.node none (first :: second :: rest)) chars base = chainOf chars ++
              .branch (joinTables (traverseAll (first :: second :: rest)) (base + (chainOf chars).length + 1)).1 ::
                (joinTables (traverseAll (first :: second :: rest)) (base + (chainOf chars).length + 1)).2 := by
            rw [traverse]
            intro c child single
            cases single
          rw [split] at here
          exact walks_chain typed here (walks_branch keys some_ short branches here.back)

end QmkFirmware.Autocorrect
