import QmkFirmware.ExternalFlash.Driver
import QmkFirmware.WearLeveling.LogEntry

/-! # The backing store on an external flash

A shallow embedding of `drivers/wear_leveling/wear_leveling_flash_spi.c`.  The main result is
`backingStore_works_iff`: the store works unless its region reaches the end of the chip, or a read
takes 64 KiB or more at once.
-/

namespace QmkFirmware.ExternalFlash

open QmkFirmware.Memory QmkFirmware.Endian
open QmkFirmware.WearLeveling (WriteSize)

/-! ## Words in memory -/

section Words

variable {bytes : Nat}

/-- The bytes of a word in memory order. -/
def wordBytes (word : BitVec (8 * bytes)) : List UInt8 := littleEndian bytes word.toNat

def wordOf (bytes : Nat) (data : List UInt8) : BitVec (8 * bytes) := BitVec.ofNat _ (ofLittleEndian data)

def arrayBytes (values : List (BitVec (8 * bytes))) : List UInt8 := values.flatMap wordBytes

def arrayOf (bytes count : Nat) (data : List UInt8) : List (BitVec (8 * bytes)) :=
  (chunk bytes count data).map (wordOf bytes)

@[simp] theorem length_wordBytes (word : BitVec (8 * bytes)) : (wordBytes word).length = bytes :=
  length_littleEndian _ _

theorem wordOf_wordBytes (word : BitVec (8 * bytes)) : wordOf bytes (wordBytes word) = word := by
  have width : 256 ^ bytes = 2 ^ (8 * bytes) := by rw [Nat.pow_mul]
  rw [wordOf, wordBytes, ofLittleEndian_littleEndian, width, Nat.mod_eq_of_lt word.isLt, BitVec.ofNat_toNat,
    BitVec.setWidth_eq]

theorem length_arrayBytes (values : List (BitVec (8 * bytes))) :
    (arrayBytes values).length = bytes * values.length := by
  induction values with
  | nil => rfl
  | cons word values ih =>
    rw [arrayBytes, List.flatMap_cons, List.length_append, length_wordBytes, List.length_cons, Nat.mul_succ,
      Nat.add_comm]
    exact congrArg (· + bytes) ih

theorem arrayBytes_append (first second : List (BitVec (8 * bytes))) :
    arrayBytes (first ++ second) = arrayBytes first ++ arrayBytes second := List.flatMap_append

theorem arrayOf_arrayBytes (values : List (BitVec (8 * bytes))) (rest : List UInt8) :
    arrayOf bytes values.length (arrayBytes values ++ rest) = values := by
  induction values with
  | nil => rfl
  | cons word values ih =>
    rw [arrayBytes, List.flatMap_cons, List.append_assoc, List.length_cons, arrayOf, chunk, List.map_cons,
      List.take_left' (length_wordBytes word), List.drop_left' (length_wordBytes word), wordOf_wordBytes]
    exact congrArg (word :: ·) ih

/-- The last word of an array comes from its last bytes. -/
theorem arrayOf_concat (bytes count : Nat) {first : List UInt8} (size : first.length = bytes * count)
    (last : List UInt8) :
    arrayOf bytes (count + 1) (first ++ last) = arrayOf bytes count first ++ [wordOf bytes (last.take bytes)] := by
  induction count generalizing first with
  | zero =>
    rw [List.length_eq_zero_iff.mp (size.trans (Nat.mul_zero _))]
    rfl
  | succ count ih =>
    rw [Nat.mul_succ] at size
    have rest := @ih (first.drop bytes) (by rw [List.length_drop]; omega)
    rw [arrayOf, chunk, List.map_cons, List.take_append_of_le_length (by omega),
      List.drop_append_of_le_length (by omega)]
    exact congrArg (wordOf bytes (first.take bytes) :: ·) rest

end Words

/-! ## The backing store -/

/-- The compile-time configuration: the region of the chip, the size of a word, and how many words
are written at once. -/
structure Placement where
  geometry : Geometry
  writeSize : WriteSize
  bulkCount : Nat
  blockOffset : Nat
  blockCount : Nat
  bulk_pos : 0 < bulkCount
  inside : (blockOffset + blockCount) * geometry.blockSize ≤ geometry.size

namespace Placement

variable (p : Placement)

/-- `backing_store_int_t`. -/
abbrev Word : Type := BitVec (8 * p.writeSize.bytes)

/-- The first byte of the region. -/
def start : Nat := p.blockOffset * p.geometry.blockSize

def regionSize : Nat := p.blockCount * p.geometry.blockSize

theorem region_inside : p.start + p.regionSize ≤ p.geometry.size := by
  have inside := p.inside
  rwa [Nat.add_mul] at inside

end Placement

section Store

variable (p : Placement) (line : Line)

/-- The loop of `backing_store_erase`. -/
def eraseLoop : (count i : Nat) → Bus → Bool × Bus
  | 0, _, bus => (true, bus)
  | count + 1, i, bus =>
    match flashEraseBlock p.geometry line (((p.blockOffset + i) * p.geometry.blockSize) % 2 ^ 32) bus with
    | (.success, bus) => eraseLoop count (i + 1) bus
    | (_, bus) => (false, bus)

def backingStoreErase (bus : Bus) : Bool × Bus := eraseLoop p line p.blockCount 0 bus

/-- The array after the read comes with the outcome. -/
def backingStoreReadBulk (address : Nat) (values : List p.Word) (bus : Bus) : Bool × List p.Word × Bus :=
  let offset := (p.start + address) % 2 ^ 32
  match flashReadBlock p.geometry line offset (arrayBytes values) bus with
  | (.success, buf, bus) => (true, (arrayOf p.writeSize.bytes values.length buf).map (~~~ ·), bus)
  | (_, buf, bus) => (false, arrayOf p.writeSize.bytes values.length buf, bus)

/-- The loop of `backing_store_write_bulk`.  Every round but the last one writes at least one word,
so `fuel = values.length + 1` is enough. -/
def writeBulkLoop : (fuel offset : Nat) → (values : List p.Word) → Bus → Bool × Bus
  | 0, _, _, bus => (true, bus)
  | fuel + 1, offset, values, bus =>
    let thisLoop := min values.length p.bulkCount
    let temp := (values.take thisLoop).map (~~~ ·)
    match flashWriteBlock p.geometry line offset (arrayBytes temp) bus with
    | (.success, bus) =>
      let rest := values.drop thisLoop
      if rest.length > 0 then writeBulkLoop fuel ((offset + thisLoop * p.writeSize.bytes) % 2 ^ 32) rest bus
      else (true, bus)
    | (_, bus) => (false, bus)

def backingStoreWriteBulk (address : Nat) (values : List p.Word) (bus : Bus) : Bool × Bus :=
  writeBulkLoop p line (values.length + 1) ((p.start + address) % 2 ^ 32) values bus

end Store

/-! ## Erasing -/

section Erasing

variable (p : Placement) {line : Line}

theorem blockAddress_eq {i : Nat} (within : i < p.blockCount) :
    ((p.blockOffset + i) * p.geometry.blockSize) % 2 ^ 32 = p.start + i * p.geometry.blockSize ∧
      p.start + i * p.geometry.blockSize + p.geometry.blockSize ≤ p.start + p.regionSize := by
  have small := p.geometry.size_lt
  have region := p.region_inside
  have last : i * p.geometry.blockSize + p.geometry.blockSize ≤ p.regionSize := by
    rw [← Nat.succ_mul]
    exact Nat.mul_le_mul_right _ within
  have blockPos := p.geometry.block_pos
  rw [Nat.add_mul]
  refine ⟨Nat.mod_eq_of_lt ?_, ?_⟩
  · rw [← Placement.start]
    omega
  · omega

theorem block_aligned (i : Nat) : (p.start + i * p.geometry.blockSize) % p.geometry.blockSize = 0 := by
  rw [Placement.start, ← Nat.add_mul, Nat.mul_mod_left]

/-- An erase of one block, by its bounds. -/
theorem eraseUnit_block (memory : Nat → UInt8) (i k : Nat) :
    eraseUnit p.geometry.blockSize memory (p.start + i * p.geometry.blockSize) k =
      if p.start + i * p.geometry.blockSize ≤ k ∧ k < p.start + (i + 1) * p.geometry.blockSize then 0xFF
      else memory k := by
  have blockPos := p.geometry.block_pos
  rw [eraseUnit, Placement.start, ← Nat.add_mul, ← Nat.add_mul, Nat.mul_div_cancel _ blockPos]
  refine if_congr ?_ rfl rfl
  rw [Nat.div_eq_iff blockPos, ← Nat.add_assoc, Nat.succ_mul]
  omega

theorem eraseLoop_ok (quiet : line.Quiet) (below : p.start + p.regionSize < p.geometry.size) (count i : Nat)
    (last : i + count = p.blockCount) {bus : Bus} {memory : Nat → UInt8} (holds : bus.Holds memory) :
    ∃ next, eraseLoop p line count i bus = (true, next) ∧ next.Holds fun k =>
      if p.start + i * p.geometry.blockSize ≤ k ∧ k < p.start + p.regionSize then 0xFF else memory k := by
  induction count generalizing i bus memory with
  | zero =>
    have finished : p.start + i * p.geometry.blockSize = p.start + p.regionSize := by
      rw [Placement.regionSize, ← last, Nat.add_zero]
    refine ⟨bus, rfl, holds.1, holds.2.trans (funext fun k => (if_neg ?_).symm)⟩
    omega
  | succ count ih =>
    obtain ⟨address, within⟩ := blockAddress_eq p (by omega : i < p.blockCount)
    obtain ⟨mid, erased, held⟩ := flashEraseBlock_ok quiet holds (block_aligned p i) (by omega)
    obtain ⟨next, rest, final⟩ := ih (i + 1) (by omega) held
    rw [eraseLoop, address, erased]
    refine ⟨next, rest, final.1, final.2.trans (funext fun k => ?_)⟩
    rw [eraseUnit_block]
    rw [Nat.succ_mul] at *
    split_ifs <;> first | rfl | omega

/-- Where the region ends with the chip, the last block is refused. -/
theorem eraseLoop_last (line : Line) (full : p.start + p.regionSize = p.geometry.size) (count i : Nat)
    (last : i + (count + 1) = p.blockCount) (bus : Bus) : (eraseLoop p line (count + 1) i bus).1 = false := by
  induction count generalizing i bus with
  | zero =>
    obtain ⟨address, -⟩ := blockAddress_eq p (by omega : i < p.blockCount)
    have ends : p.start + i * p.geometry.blockSize + p.geometry.blockSize = p.geometry.size := by
      rw [← full, Placement.regionSize, ← last, Nat.zero_add, Nat.succ_mul, Nat.add_assoc]
    rw [eraseLoop, address, flashEraseBlock_last bus ends]
  | succ count ih =>
    rw [eraseLoop]
    split
    · exact ih (i + 1) (by omega) _
    · rfl

/-- An erase succeeds, sets the region to `0xFF` and leaves the rest of the chip alone. -/
def EraseWorks : Prop :=
  ∀ line : Line, line.Quiet → ∀ bus : Bus, bus.sent = none →
    (backingStoreErase p line bus).1 = true ∧
      ∀ k, (backingStoreErase p line bus).2.chip.memory k =
        if p.start ≤ k ∧ k < p.start + p.regionSize then 0xFF else bus.chip.memory k

theorem eraseWorks_iff : EraseWorks p ↔ p.blockCount = 0 ∨ p.start + p.regionSize < p.geometry.size := by
  have region := p.region_inside
  constructor
  · intro works
    by_contra fails
    obtain ⟨some, full⟩ := not_or.mp fails
    obtain ⟨count, size⟩ := Nat.exists_eq_succ_of_ne_zero some
    have refused := eraseLoop_last p ⟨fun _ => true, fun _ => false, fun _ => 0⟩ (by omega) count 0 (by omega)
      ⟨⟨fun _ => 0, false, 0, 0⟩, none, 0⟩
    have erased := (works ⟨fun _ => true, fun _ => false, fun _ => 0⟩ ⟨fun _ => rfl, fun _ => rfl⟩
      ⟨⟨fun _ => 0, false, 0, 0⟩, none, 0⟩ rfl).1
    rw [backingStoreErase, size, refused] at erased
    exact Bool.false_ne_true erased
  · intro room line quiet bus free
    rcases room with none | below
    · rw [backingStoreErase, Placement.regionSize, none, Nat.zero_mul]
      refine ⟨rfl, fun k => (if_neg ?_).symm⟩
      omega
    · obtain ⟨next, erased, held⟩ := eraseLoop_ok p quiet below p.blockCount 0 (Nat.zero_add _) ⟨free, rfl⟩
      rw [backingStoreErase, erased]
      refine ⟨rfl, fun k => ?_⟩
      have final := congrFun held.2 k
      rwa [Nat.zero_mul, Nat.add_zero] at final

end Erasing

/-! ## Writing and reading back -/

section Transfer

variable (p : Placement) {line : Line}

/-- The pieces of a bulk write follow one another. -/
theorem writeBulkLoop_ok (quiet : line.Quiet) (fuel offset : Nat) (values : List p.Word)
    (enough : values.length < fuel) (inside : offset + p.writeSize.bytes * values.length ≤ p.geometry.size)
    {bus : Bus} {memory : Nat → UInt8} (holds : bus.Holds memory) :
    ∃ next, writeBulkLoop p line fuel offset values bus = (true, next) ∧
      next.Holds (clearBits memory offset (arrayBytes (values.map (~~~ ·)))) := by
  have small := p.geometry.size_lt
  have bulkPos := p.bulk_pos
  induction fuel generalizing offset values bus memory with
  | zero => exact absurd enough (Nat.not_lt_zero _)
  | succ fuel ih =>
    rw [writeBulkLoop]
    dsimp only
    generalize piece : min values.length p.bulkCount = n
    have short : n ≤ values.length := by omega
    have size : (arrayBytes ((values.take n).map (~~~ ·))).length = p.writeSize.bytes * n := by
      rw [length_arrayBytes, List.length_map, List.length_take, Nat.min_eq_left short]
    have whole : p.writeSize.bytes * values.length =
        p.writeSize.bytes * n + p.writeSize.bytes * (values.length - n) := by
      rw [← Nat.mul_add, Nat.add_sub_cancel' short]
    obtain ⟨mid, written, held⟩ := flashWriteBlock_ok quiet holds
      (by rw [size]; omega : offset + (arrayBytes ((values.take n).map (~~~ ·))).length ≤ p.geometry.size)
    rw [written]
    dsimp only
    split
    · rename_i more
      rw [List.length_drop] at more
      have joined := clearBits_append memory offset (arrayBytes ((values.take n).map (~~~ ·)))
        (arrayBytes ((values.drop n).map (~~~ ·)))
      rw [size, ← arrayBytes_append, ← List.map_append, List.take_append_drop] at joined
      rw [Nat.mul_comm n, Nat.mod_eq_of_lt (by omega), ← joined]
      exact ih _ _ (by rw [List.length_drop]; omega) (by rw [List.length_drop]; omega) held
    · rename_i finished
      rw [List.length_drop] at finished
      rw [List.take_of_length_le (by omega : values.length ≤ n)] at held
      exact ⟨mid, rfl, held⟩

theorem backingStoreWriteBulk_ok (quiet : line.Quiet) {address : Nat} (values : List p.Word)
    (inside : address + p.writeSize.bytes * values.length ≤ p.regionSize) {bus : Bus} {memory : Nat → UInt8}
    (holds : bus.Holds memory) :
    ∃ next, backingStoreWriteBulk p line address values bus = (true, next) ∧
      next.Holds (clearBits memory (p.start + address) (arrayBytes (values.map (~~~ ·)))) := by
  have small := p.geometry.size_lt
  have region := p.region_inside
  rw [backingStoreWriteBulk, Nat.mod_eq_of_lt (by omega)]
  exact writeBulkLoop_ok p quiet _ _ values (Nat.lt_succ_self _) (by omega) holds

/-- A bulk read keeps the words of the array that the transfer does not reach. -/
theorem backingStoreReadBulk_ok (quiet : line.Quiet) {address : Nat} (values : List p.Word)
    (inside : address + p.writeSize.bytes * values.length ≤ p.regionSize) {bus : Bus} {memory : Nat → UInt8}
    (holds : bus.Holds memory) :
    ∃ next, backingStoreReadBulk p line address values bus =
        (true, (arrayOf p.writeSize.bytes values.length
          (slice memory (p.start + address) (p.writeSize.bytes * values.length % 2 ^ 16) ++
            (arrayBytes values).drop (p.writeSize.bytes * values.length % 2 ^ 16))).map (~~~ ·), next) ∧
      next.Holds memory := by
  have small := p.geometry.size_lt
  have region := p.region_inside
  have size := length_arrayBytes values
  obtain ⟨next, read, held⟩ := flashReadBlock_ok quiet holds (arrayBytes values)
    (by rw [size]; omega : p.start + address + (arrayBytes values).length ≤ p.geometry.size)
  rw [backingStoreReadBulk, Nat.mod_eq_of_lt (by omega), read, size]
  exact ⟨next, rfl, held⟩

/-- What is written to erased bytes is read back, whatever the array holds before, and the rest of
the chip stays as it is. -/
def RoundTrips (address count : Nat) : Prop :=
  ∀ line : Line, line.Quiet → ∀ bus : Bus, bus.sent = none →
    (∀ k, p.start + address ≤ k → k < p.start + address + p.writeSize.bytes * count → bus.chip.memory k = 0xFF) →
    ∀ values array : List p.Word, values.length = count → array.length = count →
      let written := backingStoreWriteBulk p line address values bus
      let read := backingStoreReadBulk p line address array written.2
      written.1 = true ∧ read.1 = true ∧ read.2.1 = values ∧
        ∀ k, ¬ (p.start + address ≤ k ∧ k < p.start + address + p.writeSize.bytes * count) →
          read.2.2.chip.memory k = bus.chip.memory k

theorem map_complement (values : List p.Word) : (values.map (~~~ ·)).map (~~~ ·) = values := by
  rw [List.map_map]
  refine List.map_id'' (fun word => ?_) values
  exact BitVec.not_not

theorem roundTrips_of_short {address count : Nat} (inside : address + p.writeSize.bytes * count ≤ p.regionSize)
    (short : p.writeSize.bytes * count < 2 ^ 16) : RoundTrips p address count := by
  intro line quiet bus free erased values array rfl sameLength
  have size : (arrayBytes (values.map (~~~ ·))).length = p.writeSize.bytes * values.length := by
    rw [length_arrayBytes, List.length_map]
  obtain ⟨mid, written, held⟩ := backingStoreWriteBulk_ok p quiet values inside ⟨free, rfl⟩
  rw [clearBits_erased (by rw [size]; exact erased)] at held
  obtain ⟨next, read, final⟩ := backingStoreReadBulk_ok p quiet array (by rw [sameLength]; exact inside) held
  have sliced := slice_blit bus.chip.memory (p.start + address) (arrayBytes (values.map (~~~ ·)))
  have whole := arrayOf_arrayBytes (values.map (~~~ ·)) ((arrayBytes array).drop (p.writeSize.bytes * values.length))
  rw [size] at sliced
  rw [List.length_map] at whole
  rw [sameLength, Nat.mod_eq_of_lt short, sliced, whole, map_complement] at read
  rw [written]
  dsimp only
  rw [read]
  refine ⟨rfl, rfl, rfl, fun k outside => ?_⟩
  rw [final.2]
  exact blit_outside (by rw [size]; exact outside)

theorem complement_ne (value : p.Word) : ~~~ value ≠ value := by
  have wide : 0 < 8 * p.writeSize.bytes := by cases p.writeSize <;> decide
  intro same
  have lowest := congrArg (fun word => word.getLsbD 0) same
  simp [wide] at lowest

/-- A longer read does not reach the last word of the array. -/
theorem short_of_roundTrips {address count : Nat} (inside : address + p.writeSize.bytes * count ≤ p.regionSize)
    (works : RoundTrips p address count) : p.writeSize.bytes * count < 2 ^ 16 := by
  by_contra long
  obtain ⟨rest, rfl⟩ : ∃ rest, count = rest + 1 := Nat.exists_eq_succ_of_ne_zero (by rintro rfl; simp at long)
  have narrow : p.writeSize.bytes ≤ 8 := by cases p.writeSize <;> decide
  let line : Line := ⟨fun _ => true, fun _ => false, fun _ => 0⟩
  have quiet : line.Quiet := ⟨fun _ => rfl, fun _ => rfl⟩
  let bus : Bus := ⟨⟨fun _ => 0xFF, false, 0, 0⟩, none, 0⟩
  let values : List p.Word := List.replicate rest 0 ++ [0]
  have count : values.length = rest + 1 := by
    rw [List.length_append, List.length_replicate, List.length_singleton]
  obtain ⟨-, -, same, -⟩ := works line quiet bus rfl (fun _ _ _ => rfl) values values count count
  obtain ⟨mid, written, held⟩ := backingStoreWriteBulk_ok p quiet values (by rw [count]; exact inside)
    (⟨rfl, rfl⟩ : bus.Holds _)
  obtain ⟨next, read, -⟩ := backingStoreReadBulk_ok p quiet values (by rw [count]; exact inside) held
  rw [written] at same
  dsimp only at same
  rw [read, count, Nat.mul_succ] at same
  dsimp only at same
  rw [Nat.mul_succ] at long
  have reach : (p.writeSize.bytes * rest + p.writeSize.bytes) % 2 ^ 16 ≤ p.writeSize.bytes * rest := by omega
  generalize (p.writeSize.bytes * rest + p.writeSize.bytes) % 2 ^ 16 = n at same reach
  have size : (arrayBytes (List.replicate rest (0 : p.Word))).length = p.writeSize.bytes * rest := by
    rw [length_arrayBytes, List.length_replicate]
  have ends : arrayBytes [(0 : p.Word)] = wordBytes (0 : p.Word) := List.append_nil _
  rw [arrayBytes_append, List.drop_append_of_le_length (by rw [size]; exact reach), ← List.append_assoc,
    arrayOf_concat _ _ (by rw [List.length_append, length_slice, List.length_drop, size]; omega), ends,
    List.take_of_length_le (length_wordBytes _).le, wordOf_wordBytes, List.map_append] at same
  have last := congrArg List.getLast? same
  rw [List.map_singleton, List.getLast?_concat, List.getLast?_concat] at last
  exact complement_ne p 0 (Option.some.inj last)

end Transfer

/-- The backing store works, where the region lies inside the chip, unless the region reaches the
end of the chip, or 64 KiB or more are read at once. -/
theorem backingStore_works_iff (p : Placement) {address count : Nat}
    (inside : address + p.writeSize.bytes * count ≤ p.regionSize) :
    (EraseWorks p ∧ RoundTrips p address count) ↔
      (p.blockCount = 0 ∨ p.start + p.regionSize < p.geometry.size) ∧ p.writeSize.bytes * count < 2 ^ 16 :=
  and_congr (eraseWorks_iff p) ⟨short_of_roundTrips p inside, roundTrips_of_short p inside⟩

/-- The chip of the default configuration. -/
def defaultGeometry : Geometry where
  addressSize := 3
  pageSize := 256
  sectorSize := 4096
  blockSize := 65536
  size := 524288
  page_pos := by decide
  page_lt := by decide
  block_pos := by decide
  size_lt := by decide
  address_le := by decide
  addressable := by decide

def firstBlock : Placement where
  geometry := defaultGeometry
  writeSize := .eight
  bulkCount := 32
  blockOffset := 0
  blockCount := 1
  bulk_pos := by decide
  inside := by decide

def lastBlock : Placement := { firstBlock with blockOffset := 7, inside := by decide }

/-- Forty words from an address in the middle of a page. -/
theorem firstBlock_works : EraseWorks firstBlock ∧ RoundTrips firstBlock 200 40 :=
  (backingStore_works_iff firstBlock (by decide)).mpr ⟨.inr (by decide), by decide⟩

/-- The last block of the chip cannot be erased, and the first one cannot be read in one piece. -/
theorem wholeBlocks_fail : ¬ EraseWorks lastBlock ∧ ¬ RoundTrips firstBlock 0 8192 := by
  constructor
  · intro works
    exact absurd ((eraseWorks_iff lastBlock).mp works) (by decide)
  · intro works
    exact absurd (short_of_roundTrips firstBlock (by decide) works) (by decide)

end QmkFirmware.ExternalFlash
