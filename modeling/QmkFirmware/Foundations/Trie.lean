import Mathlib.Data.List.Sort

/-! # Tries

Trees whose edges are labelled with keys: the labels on the way to a value spell the word that the value belongs
to.  A node keeps its children in the order of their keys.  `get` looks a word up, `walk` looks for the first value
on the way along a word. -/

namespace QmkFirmware.Foundations

inductive Trie (κ ν : Type) where
  | node (value : Option ν) (children : List (κ × Trie κ ν))

namespace Trie

variable {κ ν : Type}

def value : Trie κ ν → Option ν
  | node value _ => value

def children : Trie κ ν → List (κ × Trie κ ν)
  | node _ children => children

def empty : Trie κ ν := node none []

/-- Every node has a value or a child, and the keys have a property. -/
inductive Live (good : κ → Prop) : Trie κ ν → Prop where
  | node (value : Option ν) (children : List (κ × Trie κ ν)) (used : value ≠ none ∨ children ≠ [])
      (keys : ∀ child ∈ children, good child.1) (all : ∀ child ∈ children, Live good child.2) :
      Live good (node value children)

variable [LinearOrder κ]

/-- The value of a word. -/
def get : Trie κ ν → List κ → Option ν
  | node value _, [] => value
  | node _ children, key :: word =>
    match children.lookup key with
    | some child => child.get word
    | none => none

/-- The first value on the way. -/
def walk : Trie κ ν → List κ → Option ν
  | node (some value) _, _ => some value
  | node none _, [] => none
  | node none children, key :: word =>
    match children.lookup key with
    | some child => child.walk word
    | none => none

/-- Changes the child of a key, or a new one. -/
def alter (key : κ) (change : Trie κ ν → Trie κ ν) (children : List (κ × Trie κ ν)) : List (κ × Trie κ ν) :=
  if (children.lookup key).isSome then
    children.map fun child => if child.1 = key then (child.1, change child.2) else child
  else children.orderedInsert (fun first second => first.1 ≤ second.1) (key, change empty)

def insert : List κ → ν → Trie κ ν → Trie κ ν
  | [], new, node _ children => node (some new) children
  | key :: word, new, node value children => node value (alter key (insert word new) children)

/-! ## Looking up -/

@[simp] theorem get_nil (t : Trie κ ν) : t.get [] = t.value := by
  cases t
  rfl

theorem get_cons (t : Trie κ ν) (key : κ) (word : List κ) :
    t.get (key :: word) = (t.children.lookup key).bind fun child => child.get word := by
  cases t with
  | node value children =>
    rw [get, Trie.children]
    cases children.lookup key <;> rfl

theorem walk_value {t : Trie κ ν} {found : ν} (here : t.value = some found) (word : List κ) :
    t.walk word = some found := by
  cases t with
  | node value children =>
    rw [Trie.value] at here
    subst here
    cases word <;> rfl

theorem walk_cons {t : Trie κ ν} (none : t.value = none) (key : κ) (word : List κ) :
    t.walk (key :: word) = (t.children.lookup key).bind fun child => child.walk word := by
  cases t with
  | node value children =>
    rw [Trie.value] at none
    subst none
    rw [walk, Trie.children]
    cases children.lookup key <;> rfl

theorem walk_nil {t : Trie κ ν} (none : t.value = none) : t.walk [] = Option.none := by
  cases t with
  | node value children =>
    rw [Trie.value] at none
    subst none
    rfl

/-- What a walk finds is the value of a word on the way. -/
theorem get_of_walk {t : Trie κ ν} {word : List κ} {found : ν} (walked : t.walk word = some found) :
    ∃ start, start <+: word ∧ t.get start = some found := by
  induction word generalizing t with
  | nil =>
    cases here : t.value with
    | none =>
      rw [walk_nil here] at walked
      cases walked
    | some value =>
      rw [walk_value here] at walked
      exact ⟨[], List.nil_prefix, by rw [get_nil, here, ← walked]⟩
  | cons key word ih =>
    cases here : t.value with
    | none =>
      rw [walk_cons here, Option.bind_eq_some_iff] at walked
      obtain ⟨child, there, walked⟩ := walked
      obtain ⟨start, onTheWay, value⟩ := ih walked
      refine ⟨key :: start, (List.prefix_cons_inj key).mpr onTheWay, ?_⟩
      rw [get_cons, there, Option.bind_some, value]
    | some value =>
      rw [walk_value here] at walked
      exact ⟨[], List.nil_prefix, by rw [get_nil, here, ← walked]⟩

/-- A walk that passes a word with a value finds a value, there or before. -/
theorem walk_of_get {t : Trie κ ν} {word start : List κ} {value : ν} (onTheWay : start <+: word)
    (there : t.get start = some value) :
    ∃ first found, first <+: start ∧ t.get first = some found ∧ t.walk word = some found := by
  induction start generalizing t word with
  | nil =>
    rw [get_nil] at there
    exact ⟨[], value, List.nil_prefix, by rw [get_nil, there], walk_value there word⟩
  | cons key start ih =>
    cases here : t.value with
    | none =>
      obtain ⟨rest, rfl⟩ := onTheWay
      rw [get_cons, Option.bind_eq_some_iff] at there
      obtain ⟨child, below, there⟩ := there
      obtain ⟨first, found, before, value, walked⟩ := ih (List.prefix_append start rest) there
      refine ⟨key :: first, found, (List.prefix_cons_inj key).mpr before, ?_, ?_⟩
      · rw [get_cons, below, Option.bind_some, value]
      · rw [List.cons_append, walk_cons here, below, Option.bind_some, walked]
    | some earlier => exact ⟨[], earlier, List.nil_prefix, by rw [get_nil, here], walk_value here word⟩

/-- In a trie where no word with a value is the beginning of another, a walk finds the one it passes. -/
theorem walk_eq_some_iff {t : Trie κ ν}
    (apart : ∀ first second, t.get first ≠ none → t.get second ≠ none → first <+: second → first = second)
    (word : List κ) (found : ν) : t.walk word = some found ↔ ∃ start, start <+: word ∧ t.get start = some found := by
  refine ⟨get_of_walk, ?_⟩
  rintro ⟨start, onTheWay, there⟩
  obtain ⟨first, other, before, value, walked⟩ := walk_of_get onTheWay there
  have same : first = start := apart first start (by simp [value]) (by simp [there]) before
  rw [same, there] at value
  rw [walked, value]

/-! ## Insertion -/

theorem lookup_cons (key : κ) (child : κ × Trie κ ν) (children : List (κ × Trie κ ν)) :
    (child :: children).lookup key = if key = child.1 then some child.2 else children.lookup key := by
  rw [List.lookup_cons]
  by_cases same : key = child.1
  · simp [same]
  · rw [if_neg same, beq_false_of_ne same]

theorem lookup_map (key other : κ) (change : Trie κ ν → Trie κ ν) (children : List (κ × Trie κ ν)) :
    (children.map fun child => if child.1 = key then (child.1, change child.2) else child).lookup other =
      if other = key then (children.lookup other).map change else children.lookup other := by
  induction children with
  | nil => simp
  | cons child children ih =>
    rw [List.map_cons]
    by_cases here : child.1 = key
    · rw [if_pos here, lookup_cons, lookup_cons, ih]
      by_cases first : other = child.1
      · simp [first, here]
      · simp [first]
    · rw [if_neg here, lookup_cons, lookup_cons, ih]
      by_cases first : other = child.1
      · simp [first, here]
      · simp [first]

theorem lookup_orderedInsert (key other : κ) (new : Trie κ ν) (children : List (κ × Trie κ ν))
    (absent : children.lookup key = none) :
    (children.orderedInsert (fun first second => first.1 ≤ second.1) (key, new)).lookup other =
      if other = key then some new else children.lookup other := by
  induction children with
  | nil =>
    by_cases same : other = key <;> simp [same]
  | cons child children ih =>
    rw [List.orderedInsert_cons]
    rw [lookup_cons] at absent
    split_ifs at absent with here
    split
    · rw [lookup_cons]
    · rw [lookup_cons, lookup_cons, ih absent]
      by_cases same : other = child.1
      · simp [same, Ne.symm here]
      · simp [same]

theorem lookup_alter (key other : κ) (change : Trie κ ν → Trie κ ν) (children : List (κ × Trie κ ν)) :
    (alter key change children).lookup other =
      if other = key then some (change ((children.lookup key).getD empty)) else children.lookup other := by
  rw [alter]
  cases found : children.lookup key with
  | none =>
    rw [if_neg (by simp), lookup_orderedInsert key other _ children found]
    rfl
  | some child =>
    rw [if_pos (by simp), lookup_map]
    by_cases same : other = key
    · rw [if_pos same, if_pos same, same, found]
      rfl
    · rw [if_neg same, if_neg same]

@[simp] theorem get_empty (word : List κ) : (empty : Trie κ ν).get word = none := by
  cases word <;> rfl

theorem get_insert (t : Trie κ ν) (word other : List κ) (new : ν) :
    (insert word new t).get other = if other = word then some new else t.get other := by
  induction word generalizing t other with
  | nil =>
    cases t with
    | node value children => cases other <;> simp [insert, get_cons, Trie.value, Trie.children]
  | cons key word ih =>
    cases t with
    | node value children =>
      cases other with
      | nil => simp [insert, Trie.value]
      | cons key' other =>
        rw [insert, get_cons, get_cons, Trie.children, Trie.children, lookup_alter]
        by_cases same : key' = key
        · subst same
          rw [if_pos rfl, Option.bind_some, ih]
          by_cases rest : other = word
          · simp [rest]
          · rw [if_neg rest, if_neg (by simpa using rest)]
            cases children.lookup key' <;> simp
        · simp [same]

/-! ## Live tries -/

/-- What lies below the root of a live trie. -/
structure Grown (good : κ → Prop) (t : Trie κ ν) : Prop where
  keys : ∀ child ∈ t.children, good child.1
  all : ∀ child ∈ t.children, child.2.Live good

variable {good : κ → Prop}

omit [LinearOrder κ] in
theorem Live.grown {t : Trie κ ν} (live : t.Live good) : t.Grown good := by
  cases live with
  | node value children used keys all => exact ⟨keys, all⟩

omit [LinearOrder κ] in
theorem grown_empty : (empty : Trie κ ν).Grown good where
  keys child member := by cases member
  all child member := by cases member

theorem insert_live {word : List κ} (spelled : ∀ key ∈ word, good key) (new : ν) {t : Trie κ ν}
    (grown : t.Grown good) : (insert word new t).Live good := by
  induction word generalizing t with
  | nil =>
    cases t with
    | node value children => exact .node _ _ (.inl (Option.some_ne_none new)) grown.keys grown.all
  | cons key word ih =>
    have first := spelled key List.mem_cons_self
    have later : ∀ key ∈ word, good key := fun other member => spelled other (List.mem_cons_of_mem key member)
    cases t with
    | node value children =>
      rw [insert, alter]
      split
      · next present =>
        refine .node _ _ (.inr ?_) ?_ ?_
        · intro none
          rw [List.map_eq_nil_iff.mp none] at present
          cases present
        · intro child member
          obtain ⟨old, there, rfl⟩ := List.mem_map.mp member
          have good := grown.keys old there
          split <;> exact good
        · intro child member
          obtain ⟨old, there, rfl⟩ := List.mem_map.mp member
          have live := grown.all old there
          split
          · exact ih later live.grown
          · exact live
      · refine .node _ _ (.inr (List.ne_nil_of_mem ((List.mem_orderedInsert _).mpr (.inl rfl)))) ?_ ?_
        · intro child member
          cases (List.mem_orderedInsert _).mp member with
          | inl same => exact same ▸ first
          | inr old => exact grown.keys child old
        · intro child member
          cases (List.mem_orderedInsert _).mp member with
          | inl same => exact same ▸ ih later grown_empty
          | inr old => exact grown.all child old

end Trie

end QmkFirmware.Foundations
