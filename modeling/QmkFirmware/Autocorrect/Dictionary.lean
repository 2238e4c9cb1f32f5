import Mathlib.Algebra.GroupWithZero.Nat
import Mathlib.Data.Char
import Mathlib.Data.List.DropRight
import Mathlib.Data.List.Infix
import QmkFirmware.Foundations.Trie

/-! # The autocorrect dictionary

A shallow embedding of `autocorrect_data.py`: the checks of `parse_file`, the trie of the reversed typos, and the
bytes that `serialize_trie` writes for it.  A typo is made of letters, quotes and colons, which stand for word
breaks.  The table of `serialize_trie` refers to its entries by their index.
-/

namespace QmkFirmware.Autocorrect

open QmkFirmware.Foundations

def kcA : UInt8 := 4
def kcSpc : UInt8 := 0x2c
def kcQuot : UInt8 := 0x34

def quoteChar : Char := Char.ofNat 0x27

/-- The key codes of the characters of a typo. -/
def typoChars (c : Char) : Option UInt8 :=
  if c = quoteChar then some kcQuot
  else if c = ':' then some kcSpc
  else if 'a' ≤ c ∧ c ≤ 'z' then some (UInt8.ofNat (c.toNat - 'a'.toNat) + kcA)
  else none

def code (c : Char) : UInt8 := (typoChars c).getD 0

/-- A typo and its correction; `parse_file_lines` lets no empty typo pass. -/
structure Entry where
  typo : List Char
  correction : List Char
  nonempty : typo ≠ []
  deriving DecidableEq

/-! ## Parsing -/

/-- One line of the dictionary: a repeated typo is ignored, an unsuitable one ends the program. -/
def acceptLine (autocorrections : List Entry) (line : Entry) : Option (List Entry) :=
  if autocorrections.any fun entry => entry.typo = line.typo then some autocorrections
  else if !line.typo.all fun c => (typoChars c).isSome then none
  else if autocorrections.any fun entry => line.typo <:+: entry.typo ∨ entry.typo <:+: line.typo then none
  else if 127 < line.typo.length then none
  else some (autocorrections ++ [line])

def parseFile (lines : List Entry) : Option (List Entry) := lines.foldlM acceptLine []

def makeTrie (autocorrections : List Entry) : Trie Char Entry :=
  autocorrections.foldl (fun trie entry => trie.insert entry.typo.reverse entry) .empty

/-! ## The leaves -/

def wordBoundaryEnding (entry : Entry) : Bool := entry.typo.getLast? = some ':'

/-- The typo without the colons around it. -/
def stripped (entry : Entry) : List Char := (entry.typo.dropWhile (· = ':')).rdropWhile (· = ':')

/-- The length of the common beginning. -/
def common : List Char → List Char → Nat
  | a :: as, b :: bs => if a = b then common as bs + 1 else 0
  | _, _ => 0

def kept (entry : Entry) : Nat := common (stripped entry) entry.correction

def backspaces (entry : Entry) : Int :=
  (stripped entry).length - kept entry - 1 + if wordBoundaryEnding entry then 1 else 0

/-- What is sent for the entry. -/
def changed (entry : Entry) : List Char := entry.correction.drop (kept entry)

/-- The assertion on the backspaces and the conversion to ASCII do not fail. -/
def Serializable (entry : Entry) : Prop :=
  0 ≤ backspaces entry ∧ backspaces entry ≤ 63 ∧ ∀ c ∈ changed entry, c.toNat < 128

instance (entry : Entry) : Decidable (Serializable entry) :=
  haveI : Decidable (∀ c ∈ changed entry, c.toNat < 128) := List.decidableBAll _ _
  inferInstanceAs (Decidable (_ ∧ _ ∧ _))

def asciiBytes (chars : List Char) : List UInt8 := chars.map fun c => UInt8.ofNat c.toNat

def leafData (entry : Entry) : List UInt8 :=
  UInt8.ofNat ((backspaces entry).toNat + 128) :: asciiBytes (changed entry) ++ [0]

/-! ## The table -/

inductive TableEntry where
  | leaf (entry : Entry)
  | chain (chars : List Char)
  | branch (links : List (Char × Nat))

/-- The chain entry for the characters of single children so far. -/
def chainOf (chars : List Char) : List TableEntry := if chars = [] then [] else [.chain chars]

/-- The tables of the children one behind the other, the first at index `base`, with their indices. -/
def joinTables : List (Char × (Nat → List TableEntry)) → Nat → List (Char × Nat) × List TableEntry
  | [], _ => ([], [])
  | child :: rest, base =>
    let table := child.2 base
    let others := joinTables rest (base + table.length)
    ((child.1, base) :: others.1, table ++ others.2)

mutual

/-- The entries for a node at index `base`, behind a chain of single children with the characters `chars`. -/
def traverse : Trie Char Entry → List Char → Nat → List TableEntry
  | .node (some entry) _, chars, _ => chainOf chars ++ [.leaf entry]
  | .node none [(c, child)], chars, base => traverse child (chars ++ [c]) base
  | .node none children, chars, base =>
    let joined := joinTables (traverseAll children) (base + (chainOf chars).length + 1)
    chainOf chars ++ .branch joined.1 :: joined.2

def traverseAll : List (Char × Trie Char Entry) → List (Char × (Nat → List TableEntry))
  | [] => []
  | (c, child) :: rest => (c, traverse child []) :: traverseAll rest

end

/-! ## The bytes -/

def encodeLink (byteOffset : Nat) : List UInt8 := [UInt8.ofNat (byteOffset % 256), UInt8.ofNat (byteOffset / 256)]

/-- The first character of a branch has a flag. -/
def branchData (byteOffset : Nat → Nat) : UInt8 → List (Char × Nat) → List UInt8
  | _, [] => []
  | flag, link :: rest =>
    (code link.1 ||| flag) :: encodeLink (byteOffset link.2) ++ branchData byteOffset 0 rest

def serialize (byteOffset : Nat → Nat) : TableEntry → List UInt8
  | .leaf entry => leafData entry
  | .chain chars => chars.map code ++ [0]
  | .branch links => branchData byteOffset 64 links ++ [0]

/-- The length of an entry, which does not depend on the links. -/
def entryLen (entry : TableEntry) : Nat := (serialize (fun _ => 0) entry).length

def byteOffset (table : List TableEntry) (index : Nat) : Nat := ((table.take index).map entryLen).sum

/-- Nothing fails while the entry is serialized. -/
def ValidEntry : TableEntry → Prop
  | .leaf entry => Serializable entry
  | .chain _ => True
  | .branch links => links ≠ []

instance : DecidablePred ValidEntry
  | .leaf entry => inferInstanceAs (Decidable (Serializable entry))
  | .chain _ => inferInstanceAs (Decidable True)
  | .branch links => inferInstanceAs (Decidable (links ≠ []))

/-- The dictionary as bytes, up to 64 kB. -/
def serializeTrie (trie : Trie Char Entry) : Option (List UInt8) :=
  let table := traverse trie [] 0
  if (∀ entry ∈ table, ValidEntry entry) ∧ byteOffset table table.length ≤ 0xffff then
    some (table.flatMap (serialize (byteOffset table)))
  else none

end QmkFirmware.Autocorrect
