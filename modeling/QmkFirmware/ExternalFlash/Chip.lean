import QmkFirmware.Foundations.Endian
import QmkFirmware.Foundations.Memory

/-! # A NOR flash on an SPI bus

The chip gets the bytes that are sent while it is selected, and carries the command out when it is
deselected.  An erase sets the bytes of its unit to `0xFF`; a page program goes through the latches
of one page, so that it clears bits and wraps inside the page.  While either is in progress only the
status register answers.
-/

namespace QmkFirmware.ExternalFlash

open QmkFirmware.Memory QmkFirmware.Endian

/-! ## Geometry -/

/-- `flash_spi.h`: the sizes in the datasheet of the chip.  Addresses are `uint32_t`, and a transfer
of a page has a `uint16_t` length. -/
structure Geometry where
  addressSize : Nat
  pageSize : Nat
  sectorSize : Nat
  blockSize : Nat
  size : Nat
  page_pos : 0 < pageSize
  page_lt : pageSize < 2 ^ 16
  block_pos : 0 < blockSize
  size_lt : size < 2 ^ 32
  address_le : addressSize ≤ 4
  addressable : size ≤ 256 ^ addressSize

/-! ## Commands -/

def flashCmdWren : UInt8 := 0x06

def flashCmdWrdi : UInt8 := 0x04

def flashCmdRdsr : UInt8 := 0x05

def flashCmdRead : UInt8 := 0x03

def flashCmdPp : UInt8 := 0x02

def flashCmdSe : UInt8 := 0x20

def flashCmdBe : UInt8 := 0xD8

def flashCmdCe : UInt8 := 0x60

def flashFlagWip : UInt8 := 0x01

def flashFlagWel : UInt8 := 0x02

/-! ## The chip -/

/-- `busy` counts the status reads for which an operation is still in progress, and `operations` the
operations so far. -/
structure Chip where
  memory : Nat → UInt8
  writeEnabled : Bool
  busy : Nat
  operations : Nat

/-- What the environment decides: whether the bus can be started for the n-th time, whether the
deadline has passed at the n-th start, and how long the n-th operation takes. -/
structure Line where
  starts : Nat → Bool
  late : Nat → Bool
  delay : Nat → Nat

/-- No failure and no timeout. -/
def Line.Quiet (line : Line) : Prop := (∀ n, line.starts n = true) ∧ ∀ n, line.late n = false

/-- The latches of a page, filled from an offset on. -/
def fillLatches (pageSize : Nat) : (offset : Nat) → List UInt8 → (Nat → UInt8) → Nat → UInt8
  | _, [], latches => latches
  | offset, byte :: bytes, latches =>
    fillLatches pageSize ((offset + 1) % pageSize) bytes (blit latches offset [byte])

/-- A page program: where a latch holds a zero bit, the bit of the memory is cleared. -/
def programPage (pageSize : Nat) (memory : Nat → UInt8) (address : Nat) (bytes : List UInt8) : Nat → UInt8 := fun i =>
  if i / pageSize = address / pageSize then
    memory i &&& fillLatches pageSize (address % pageSize) bytes (fun _ => 0xFF) (i % pageSize)
  else memory i

/-- An erase of the unit around the address. -/
def eraseUnit (unit : Nat) (memory : Nat → UInt8) (address : Nat) : Nat → UInt8 := fun i =>
  if i / unit = address / unit then 0xFF else memory i

section Execution

variable (geometry : Geometry) (line : Line)

/-- The address behind a command. -/
def receivedAddress (arguments : List UInt8) : Nat :=
  ofLittleEndian (arguments.take geometry.addressSize).reverse

/-- An operation that changes the memory; it needs the write-enable latch, and clears it. -/
def Chip.operate (chip : Chip) (change : (Nat → UInt8) → Nat → UInt8) : Chip :=
  if chip.writeEnabled then
    { memory := change chip.memory
      writeEnabled := false
      busy := line.delay chip.operations
      operations := chip.operations + 1 }
  else chip

/-- What the chip does with the bytes it has been sent, when it is deselected. -/
def Chip.execute (chip : Chip) : List UInt8 → Chip
  | [] => chip
  | command :: arguments =>
    if chip.busy ≠ 0 then chip
    else if command = flashCmdWren then { chip with writeEnabled := true }
    else if command = flashCmdWrdi then { chip with writeEnabled := false }
    else if command = flashCmdPp then
      chip.operate line fun memory =>
        programPage geometry.pageSize memory (receivedAddress geometry arguments) (arguments.drop geometry.addressSize)
    else if command = flashCmdSe then
      chip.operate line fun memory => eraseUnit geometry.sectorSize memory (receivedAddress geometry arguments)
    else if command = flashCmdBe then
      chip.operate line fun memory => eraseUnit geometry.blockSize memory (receivedAddress geometry arguments)
    else if command = flashCmdCe then chip.operate line fun _ _ => 0xFF
    else chip

def Chip.status (chip : Chip) : UInt8 :=
  (if chip.busy ≠ 0 then flashFlagWip else 0) ||| (if chip.writeEnabled then flashFlagWel else 0)

/-- What the chip answers with after the bytes it has been sent. -/
def Chip.answer (chip : Chip) (count : Nat) : List UInt8 → List UInt8
  | [] => List.replicate count 0xFF
  | command :: arguments =>
    if command = flashCmdRdsr then List.replicate count chip.status
    else if command = flashCmdRead ∧ chip.busy = 0 then
      slice chip.memory (receivedAddress geometry arguments) count
    else List.replicate count 0xFF

end Execution

/-! ## Clearing bits -/

/-- What programming does to a memory, wherever the pages lie. -/
def clearBits (memory : Nat → UInt8) (address : Nat) (bytes : List UInt8) : Nat → UInt8 := fun i =>
  memory i &&& blit (fun _ => 0xFF) address bytes i

theorem and_erased (value : UInt8) : value &&& 0xFF = value := UInt8.and_neg_one

theorem erased_and (value : UInt8) : 0xFF &&& value = value := UInt8.neg_one_and

theorem clearBits_outside {memory : Nat → UInt8} {address i : Nat} {bytes : List UInt8}
    (outside : ¬ (address ≤ i ∧ i < address + bytes.length)) : clearBits memory address bytes i = memory i := by
  rw [clearBits, blit_outside outside, and_erased]

/-- Erased bytes take every value. -/
theorem clearBits_erased {memory : Nat → UInt8} {address : Nat} {bytes : List UInt8}
    (erased : ∀ i, address ≤ i → i < address + bytes.length → memory i = 0xFF) :
    clearBits memory address bytes = blit memory address bytes := by
  funext i
  by_cases inside : address ≤ i ∧ i < address + bytes.length
  · rw [clearBits, erased i inside.1 inside.2, erased_and, blit_inside 0 inside.1 inside.2,
      blit_inside 0 inside.1 inside.2]
  · rw [clearBits_outside inside, blit_outside inside]

theorem clearBits_nil (memory : Nat → UInt8) (address : Nat) : clearBits memory address [] = memory :=
  funext fun _ => clearBits_outside (by rw [List.length_nil]; omega)

theorem clearBits_append (memory : Nat → UInt8) (address : Nat) (first second : List UInt8) :
    clearBits (clearBits memory address first) (address + first.length) second =
      clearBits memory address (first ++ second) := by
  funext i
  by_cases behind : address + first.length ≤ i
  · have same : blit (blit (fun _ => 0xFF) address first) (address + first.length) second i =
        blit (fun _ => 0xFF) (address + first.length) second i :=
      blit_congr (blit_outside (by omega)) _ _
    rw [clearBits, clearBits_outside (by omega), clearBits, blit_append, same]
  · have same : blit (blit (fun _ => 0xFF) address first) (address + first.length) second i =
        blit (fun _ => 0xFF) address first i :=
      blit_of_lt (by omega)
    rw [clearBits_outside (by omega), clearBits, clearBits, blit_append, same]

/-- Within a page the latches are the bytes in their places. -/
theorem fillLatches_eq {pageSize offset : Nat} {bytes : List UInt8} (latches : Nat → UInt8)
    (fits : offset + bytes.length ≤ pageSize) :
    fillLatches pageSize offset bytes latches = blit latches offset bytes := by
  induction bytes generalizing offset latches with
  | nil => exact (blit_nil _ _).symm
  | cons byte bytes ih =>
    rw [List.length_cons] at fits
    have whole : blit latches offset (byte :: bytes) = blit (blit latches offset [byte]) (offset + 1) bytes :=
      blit_append latches offset [byte] bytes
    rw [fillLatches, whole]
    by_cases last : bytes = []
    · rw [last, fillLatches, blit_nil]
    · have behind := List.length_pos_iff.mpr last
      rw [Nat.mod_eq_of_lt (by omega : offset + 1 < pageSize), ih _ (by omega)]

theorem programPage_eq {pageSize address : Nat} {bytes : List UInt8} (memory : Nat → UInt8)
    (fits : address % pageSize + bytes.length ≤ pageSize) :
    programPage pageSize memory address bytes = clearBits memory address bytes := by
  funext i
  have here := Nat.div_add_mod address pageSize
  have there := Nat.div_add_mod i pageSize
  rw [programPage, fillLatches_eq _ fits]
  split
  · rename_i page
    rw [page] at there
    rw [clearBits]
    by_cases inside : address ≤ i ∧ i < address + bytes.length
    · rw [blit_inside 0 inside.1 inside.2, blit_inside 0 (by omega) (by omega)]
      congr 2
      omega
    · rw [blit_outside inside, blit_outside (by omega)]
  · rename_i page
    refine (clearBits_outside fun inside => page ?_).symm
    -- the bytes do not reach the next page
    have above : i < pageSize * (address / pageSize + 1) := by
      rw [Nat.mul_succ]
      omega
    have below : pageSize * (address / pageSize) ≤ i := by omega
    exact Nat.div_eq_of_lt_le (by rw [Nat.mul_comm]; exact below) (by rw [Nat.mul_comm]; exact above)

end QmkFirmware.ExternalFlash
