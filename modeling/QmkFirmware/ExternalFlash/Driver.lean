import QmkFirmware.ExternalFlash.Chip

/-! # The flash driver

A shallow embedding of `drivers/flash/flash_spi.c` on the SPI driver of
`platforms/chibios/drivers/spi_master.c`.
-/

namespace QmkFirmware.ExternalFlash

open QmkFirmware.Memory QmkFirmware.Endian

inductive FlashStatus where
  | success
  | error
  | timeout
deriving DecidableEq, Repr

/-- `sent` are the bytes since the chip was selected; it is `none` while the bus is not started. -/
structure Bus where
  chip : Chip
  sent : Option (List UInt8)
  starts : Nat

section Driver

variable (geometry : Geometry) (line : Line)

/-! ## SPI -/

def spiStart (bus : Bus) : Bool × Bus :=
  if bus.sent.isSome then (false, bus)
  else if line.starts bus.starts then (true, { bus with sent := some [], starts := bus.starts + 1 })
  else (false, { bus with starts := bus.starts + 1 })

/-- `length` is a `uint16_t`. -/
def spiTransmit (data : List UInt8) (length : Nat) (bus : Bus) : FlashStatus × Bus :=
  (.success, { bus with sent := bus.sent.map (· ++ data.take (length % 2 ^ 16)) })

def spiWrite (data : UInt8) (bus : Bus) : Bus := { bus with sent := bus.sent.map (· ++ [data]) }

/-- The bytes that arrive; `length` is a `uint16_t`. -/
def spiReceive (length : Nat) (bus : Bus) : FlashStatus × List UInt8 :=
  (.success, bus.chip.answer geometry (length % 2 ^ 16) (bus.sent.getD []))

/-- Time passes while the status is read. -/
def spiRead (bus : Bus) : UInt8 × Bus :=
  ((bus.chip.answer geometry 1 (bus.sent.getD [])).getD 0 0, { bus with chip.busy := bus.chip.busy - 1 })

def spiStop (bus : Bus) : Bus :=
  match bus.sent with
  | some sent => { bus with chip := bus.chip.execute geometry line sent, sent := none }
  | none => bus

/-! ## Transactions -/

/-- `if (response != FLASH_STATUS_SUCCESS) return response;` between two steps. -/
def onSuccess (result : FlashStatus × Bus) (next : Bus → FlashStatus × Bus) : FlashStatus × Bus :=
  match result with
  | (.success, bus) => next bus
  | (status, bus) => (status, bus)

/-- The loop of `spi_flash_wait_while_busy`.  Every round reads the status once, so
`fuel = busy + 1` is enough. -/
def waitLoop : (fuel : Nat) → Bus → FlashStatus × Bus
  | 0, bus => (.timeout, bus)
  | fuel + 1, bus =>
    match spiStart line bus with
    | (false, bus) => (.error, bus)
    | (true, bus) =>
      match spiRead geometry (spiWrite flashCmdRdsr bus) with
      | (retval, bus) =>
        let bus := spiStop geometry line bus
        if line.late bus.starts then (.timeout, bus)
        else if retval &&& flashFlagWip ≠ 0 then waitLoop fuel bus
        else (.success, bus)

def spiFlashWaitWhileBusy (bus : Bus) : FlashStatus × Bus := waitLoop geometry line (bus.chip.busy + 1) bus

/-- `spi_flash_write_enable` and `spi_flash_write_disable`, by their command. -/
def sendCommand (command : UInt8) (bus : Bus) : FlashStatus × Bus :=
  match spiStart line bus with
  | (false, bus) => (.error, bus)
  | (true, bus) => (.success, spiStop geometry line (spiWrite command bus))

def spiFlashWriteEnable : Bus → FlashStatus × Bus := sendCommand geometry line flashCmdWren

def spiFlashWriteDisable : Bus → FlashStatus × Bus := sendCommand geometry line flashCmdWrdi

/-- The data of `spi_flash_transaction`: none, `len` bytes that are sent, or `len` bytes of the
array that is filled. -/
inductive Payload where
  | none
  | send (data : List UInt8) (len : Nat)
  | receive (data : List UInt8) (len : Nat)

/-- The array after the transaction comes with the status. -/
def spiFlashTransaction (cmd : UInt8) (addr : Nat) (payload : Payload) (bus : Bus) :
    FlashStatus × List UInt8 × Bus :=
  let buffer := cmd :: (littleEndian geometry.addressSize addr).reverse
  match spiStart line bus with
  | (false, bus) => (.error, [], bus)
  | (true, bus) =>
    match spiTransmit buffer buffer.length bus with
    | (response, bus) =>
      match payload with
      | .none => (response, [], spiStop geometry line bus)
      | .send data len =>
        match spiTransmit data len bus with
        | (response, bus) => (response, data, spiStop geometry line bus)
      | .receive data len =>
        match spiReceive geometry len bus with
        | (response, received) => (response, received ++ data.drop received.length, spiStop geometry line bus)

/-! ## Blocks -/

/-- `flash_erase_sector` and `flash_erase_block`, by the size of the unit and the command. -/
def flashErase (unit : Nat) (cmd : UInt8) (addr : Nat) (bus : Bus) : FlashStatus × Bus :=
  -- The last unit of the chip is over the limit too.
  if (addr + unit) % 2 ^ 32 ≥ geometry.size ∨ addr % unit ≠ 0 then (.error, bus)
  else
    onSuccess (spiFlashWaitWhileBusy geometry line bus) fun bus =>
      onSuccess (spiFlashWriteEnable geometry line bus) fun bus =>
        match spiFlashTransaction geometry line cmd addr .none bus with
        | (response, _, bus) => onSuccess (response, bus) (spiFlashWaitWhileBusy geometry line)

def flashEraseSector : (addr : Nat) → Bus → FlashStatus × Bus :=
  flashErase geometry line geometry.sectorSize flashCmdSe

def flashEraseBlock : (addr : Nat) → Bus → FlashStatus × Bus :=
  flashErase geometry line geometry.blockSize flashCmdBe

/-- The array `buf` after the read comes with the status. -/
def flashReadBlock (addr : Nat) (buf : List UInt8) (bus : Bus) : FlashStatus × List UInt8 × Bus :=
  match spiFlashWaitWhileBusy geometry line bus with
  | (.success, bus) =>
    match spiFlashTransaction geometry line flashCmdRead addr (.receive buf buf.length) bus with
    | (.success, buf, bus) => (.success, buf, bus)
    | (response, _, bus) => (response, List.replicate buf.length 0, bus)
  | (response, bus) => (response, List.replicate buf.length 0, bus)

/-- The loop of `flash_write_block`.  Every round sends at least one byte, so `fuel = buf.length`
is enough. -/
def writeLoop : (fuel addr : Nat) → (buf : List UInt8) → Bus → FlashStatus × Bus
  | 0, _, _, bus => (.success, bus)
  | fuel + 1, addr, buf, bus =>
    if 0 < buf.length then
      let pageOffset := addr % geometry.pageSize
      let writeLength := min (geometry.pageSize - pageOffset) buf.length
      onSuccess (spiFlashWaitWhileBusy geometry line bus) fun bus =>
        onSuccess (spiFlashWriteEnable geometry line bus) fun bus =>
          match spiFlashTransaction geometry line flashCmdPp addr (.send buf writeLength) bus with
          | (response, _, bus) =>
            onSuccess (response, bus)
              (writeLoop fuel ((addr + writeLength) % 2 ^ 32) (buf.drop writeLength))
    else (.success, bus)

def flashWriteBlock (addr : Nat) (buf : List UInt8) (bus : Bus) : FlashStatus × Bus :=
  onSuccess (writeLoop geometry line buf.length addr buf bus) fun bus =>
    onSuccess (spiFlashWaitWhileBusy geometry line bus) (spiFlashWriteDisable geometry line)

end Driver

/-! ## What a transaction does -/

section Transactions

variable {geometry : Geometry} {line : Line}

theorem execute_rdsr (chip : Chip) : chip.execute geometry line [flashCmdRdsr] = chip := by
  rw [Chip.execute]
  split
  · rfl
  · simp only [flashCmdRdsr, flashCmdWren, flashCmdWrdi, flashCmdPp, flashCmdSe, flashCmdBe, flashCmdCe]
    rfl

theorem execute_read (chip : Chip) (arguments : List UInt8) :
    chip.execute geometry line (flashCmdRead :: arguments) = chip := by
  rw [Chip.execute]
  split
  · rfl
  · simp only [flashCmdRead, flashCmdWren, flashCmdWrdi, flashCmdPp, flashCmdSe, flashCmdBe, flashCmdCe]
    rfl

theorem execute_wren (chip : Chip) (idle : chip.busy = 0) :
    chip.execute geometry line [flashCmdWren] = { chip with writeEnabled := true } := by
  rw [Chip.execute, if_neg (not_not.mpr idle), if_pos rfl]

theorem execute_wrdi (chip : Chip) (idle : chip.busy = 0) :
    chip.execute geometry line [flashCmdWrdi] = { chip with writeEnabled := false } := by
  rw [Chip.execute, if_neg (not_not.mpr idle), if_neg (by decide), if_pos rfl]

theorem execute_pp (chip : Chip) (idle : chip.busy = 0) (arguments : List UInt8) :
    chip.execute geometry line (flashCmdPp :: arguments) =
      chip.operate line fun memory => programPage geometry.pageSize memory (receivedAddress geometry arguments)
        (arguments.drop geometry.addressSize) := by
  rw [Chip.execute, if_neg (not_not.mpr idle), if_neg (by decide), if_neg (by decide), if_pos rfl]

theorem execute_be (chip : Chip) (idle : chip.busy = 0) (arguments : List UInt8) :
    chip.execute geometry line (flashCmdBe :: arguments) =
      chip.operate line fun memory => eraseUnit geometry.blockSize memory (receivedAddress geometry arguments) := by
  rw [Chip.execute, if_neg (not_not.mpr idle), if_neg (by decide), if_neg (by decide), if_neg (by decide),
    if_neg (by decide), if_pos rfl]

theorem status_wip (chip : Chip) : chip.status &&& flashFlagWip ≠ 0 ↔ chip.busy ≠ 0 := by
  rw [Chip.status]
  by_cases busy : chip.busy ≠ 0 <;> cases chip.writeEnabled <;> simp [busy] <;> decide

variable (quiet : line.Quiet)

include quiet

theorem spiStart_ok (chip : Chip) (starts : Nat) :
    spiStart line ⟨chip, none, starts⟩ = (true, ⟨chip, some [], starts + 1⟩) := by
  dsimp only [spiStart, Option.isSome]
  rw [if_neg Bool.false_ne_true, if_pos (quiet.1 starts)]

theorem waitLoop_ok (fuel : Nat) (chip : Chip) (starts : Nat) :
    waitLoop geometry line (fuel + 1) ⟨chip, none, starts⟩ =
      if chip.busy ≠ 0 then waitLoop geometry line fuel ⟨{ chip with busy := chip.busy - 1 }, none, starts + 1⟩
      else (.success, ⟨{ chip with busy := chip.busy - 1 }, none, starts + 1⟩) := by
  have stopped : spiStop geometry line
      ⟨{ chip with busy := chip.busy - 1 }, some [flashCmdRdsr], starts + 1⟩ =
        ⟨{ chip with busy := chip.busy - 1 }, none, starts + 1⟩ := by
    rw [spiStop]
    dsimp only
    rw [execute_rdsr]
  have answered : spiRead geometry (spiWrite flashCmdRdsr ⟨chip, some [], starts + 1⟩) =
      (chip.status, ⟨{ chip with busy := chip.busy - 1 }, some [flashCmdRdsr], starts + 1⟩) := rfl
  rw [waitLoop, spiStart_ok quiet]
  dsimp only
  rw [answered]
  dsimp only
  rw [stopped, if_neg (by rw [quiet.2]; exact Bool.false_ne_true)]
  exact if_congr (status_wip chip) rfl rfl

/-- After the wait no operation is in progress. -/
theorem spiFlashWaitWhileBusy_ok (geometry : Geometry) (chip : Chip) (starts : Nat) :
    ∃ starts', spiFlashWaitWhileBusy geometry line ⟨chip, none, starts⟩ =
      (.success, ⟨{ chip with busy := 0 }, none, starts'⟩) := by
  rw [spiFlashWaitWhileBusy]
  obtain ⟨memory, enabled, busy, operations⟩ := chip
  dsimp only
  induction busy generalizing starts with
  | zero =>
    rw [waitLoop_ok quiet, if_neg (not_not.mpr rfl)]
    exact ⟨_, rfl⟩
  | succ busy ih =>
    rw [waitLoop_ok quiet, if_pos (Nat.succ_ne_zero busy)]
    exact ih (starts + 1)

theorem sendCommand_ok (command : UInt8) (chip : Chip) (starts : Nat) :
    sendCommand geometry line command ⟨chip, none, starts⟩ =
      (.success, ⟨chip.execute geometry line [command], none, starts + 1⟩) := by
  rw [sendCommand, spiStart_ok quiet]
  rfl

omit quiet in
/-- The address reaches the chip. -/
theorem receivedAddress_sent (addr : Nat) (inside : addr < geometry.size) (data : List UInt8) :
    receivedAddress geometry ((littleEndian geometry.addressSize addr).reverse ++ data) = addr := by
  have length : (littleEndian geometry.addressSize addr).reverse.length = geometry.addressSize := by
    rw [List.length_reverse, length_littleEndian]
  rw [receivedAddress, List.take_left' length, List.reverse_reverse, ofLittleEndian_littleEndian]
  exact Nat.mod_eq_of_lt (Nat.lt_of_lt_of_le inside geometry.addressable)

omit quiet in
theorem spiTransmit_all (data : List UInt8) (short : data.length < 2 ^ 16) (bus : Bus) :
    spiTransmit data data.length bus = (.success, { bus with sent := bus.sent.map (· ++ data) }) := by
  rw [spiTransmit, Nat.mod_eq_of_lt short, List.take_length]

/-! ## Read, program and erase -/

section

variable {addr : Nat} (chip : Chip) (idle : chip.busy = 0) (starts : Nat)

omit quiet in
theorem command_short (cmd : UInt8) (geometry : Geometry) (addr : Nat) :
    (cmd :: (littleEndian geometry.addressSize addr).reverse).length < 2 ^ 16 := by
  have narrow := geometry.address_le
  rw [List.length_cons, List.length_reverse, length_littleEndian]
  omega

include idle

/-- The bytes that a read does not fill keep what the array held. -/
theorem readTransaction_ok (buf : List UInt8) (within : addr + buf.length ≤ geometry.size) :
    spiFlashTransaction geometry line flashCmdRead addr (.receive buf buf.length) ⟨chip, none, starts⟩ =
      (.success, slice chip.memory addr (buf.length % 2 ^ 16) ++ buf.drop (buf.length % 2 ^ 16),
        ⟨chip, none, starts + 1⟩) := by
  have answer : chip.answer geometry (buf.length % 2 ^ 16)
      (flashCmdRead :: (littleEndian geometry.addressSize addr).reverse) =
        slice chip.memory addr (buf.length % 2 ^ 16) := by
    rw [Chip.answer, if_neg (by decide), if_pos ⟨rfl, idle⟩]
    -- a read of no bytes may begin at the end of the chip
    cases buf with
    | nil => rfl
    | cons byte bytes =>
      rw [List.length_cons] at within
      have below : addr < geometry.size := by omega
      have address := receivedAddress_sent addr below []
      rw [List.append_nil] at address
      rw [address]
  rw [spiFlashTransaction, spiStart_ok quiet]
  dsimp only
  rw [spiTransmit_all _ (command_short _ _ _)]
  dsimp only [spiReceive, Option.map_some, Option.getD_some, List.nil_append, spiStop]
  rw [answer, length_slice, execute_read]

variable (inside : addr < geometry.size)

include inside

theorem programTransaction_ok (enabled : chip.writeEnabled = true) (buf : List UInt8) (len : Nat)
    (short : len < 2 ^ 16) :
    spiFlashTransaction geometry line flashCmdPp addr (.send buf len) ⟨chip, none, starts⟩ =
      (.success, buf,
        ⟨{ memory := programPage geometry.pageSize chip.memory addr (buf.take len)
           writeEnabled := false
           busy := line.delay chip.operations
           operations := chip.operations + 1 }, none, starts + 1⟩) := by
  have length : (littleEndian geometry.addressSize addr).reverse.length = geometry.addressSize := by
    rw [List.length_reverse, length_littleEndian]
  rw [spiFlashTransaction, spiStart_ok quiet]
  dsimp only
  rw [spiTransmit_all _ (command_short _ _ _)]
  dsimp only [spiTransmit, Option.map_some, List.nil_append, spiStop]
  rw [Nat.mod_eq_of_lt short, List.cons_append, execute_pp chip idle, receivedAddress_sent addr inside,
    List.drop_left' length, Chip.operate, if_pos enabled]

theorem eraseTransaction_ok (enabled : chip.writeEnabled = true) :
    spiFlashTransaction geometry line flashCmdBe addr .none ⟨chip, none, starts⟩ =
      (.success, [],
        ⟨{ memory := eraseUnit geometry.blockSize chip.memory addr
           writeEnabled := false
           busy := line.delay chip.operations
           operations := chip.operations + 1 }, none, starts + 1⟩) := by
  have address := receivedAddress_sent addr inside []
  rw [List.append_nil] at address
  rw [spiFlashTransaction, spiStart_ok quiet]
  dsimp only
  rw [spiTransmit_all _ (command_short _ _ _)]
  dsimp only [Option.map_some, List.nil_append, spiStop]
  rw [execute_be chip idle, address, Chip.operate, if_pos enabled]

end

/-! ## What a block function does -/

/-- The bus is free, and the chip holds the memory. -/
def Bus.Holds (bus : Bus) (memory : Nat → UInt8) : Prop := bus.sent = none ∧ bus.chip.memory = memory

omit quiet in
theorem onSuccess_ok (bus : Bus) (next : Bus → FlashStatus × Bus) : onSuccess (.success, bus) next = next bus := rfl

/-- An operation on the memory begins with a wait, and sets the write-enable latch. -/
theorem prepare_ok (geometry : Geometry) {bus : Bus} {memory : Nat → UInt8} (holds : bus.Holds memory)
    (next : Bus → FlashStatus × Bus) :
    ∃ chip starts, chip.memory = memory ∧ chip.busy = 0 ∧ chip.writeEnabled = true ∧
      (onSuccess (spiFlashWaitWhileBusy geometry line bus) fun bus =>
        onSuccess (spiFlashWriteEnable geometry line bus) next) = next ⟨chip, none, starts⟩ := by
  obtain ⟨chip, sent, starts⟩ := bus
  obtain ⟨rfl, rfl⟩ := holds
  obtain ⟨starts', waited⟩ := spiFlashWaitWhileBusy_ok quiet geometry chip starts
  rw [waited, onSuccess_ok, spiFlashWriteEnable, sendCommand_ok quiet, onSuccess_ok, execute_wren _ rfl]
  exact ⟨{ chip with busy := 0, writeEnabled := true }, starts' + 1, rfl, rfl, rfl, rfl⟩

theorem wait_holds (geometry : Geometry) {bus : Bus} {memory : Nat → UInt8} (holds : bus.Holds memory) :
    ∃ next, spiFlashWaitWhileBusy geometry line bus = (.success, next) ∧ next.Holds memory ∧ next.chip.busy = 0 := by
  obtain ⟨chip, sent, starts⟩ := bus
  obtain ⟨rfl, rfl⟩ := holds
  obtain ⟨starts', waited⟩ := spiFlashWaitWhileBusy_ok quiet geometry chip starts
  exact ⟨_, waited, ⟨rfl, rfl⟩, rfl⟩

theorem flashEraseBlock_ok {bus : Bus} {memory : Nat → UInt8} (holds : bus.Holds memory) {addr : Nat}
    (aligned : addr % geometry.blockSize = 0) (below : addr + geometry.blockSize < geometry.size) :
    ∃ next, flashEraseBlock geometry line addr bus = (.success, next) ∧
      next.Holds (eraseUnit geometry.blockSize memory addr) := by
  have small := geometry.size_lt
  have limit : ¬ ((addr + geometry.blockSize) % 2 ^ 32 ≥ geometry.size ∨ addr % geometry.blockSize ≠ 0) := by
    rw [Nat.mod_eq_of_lt (by omega), aligned]
    omega
  rw [flashEraseBlock, flashErase, if_neg limit]
  obtain ⟨chip, starts, rfl, idle, enabled, prepared⟩ := prepare_ok quiet geometry holds fun bus =>
    match spiFlashTransaction geometry line flashCmdBe addr .none bus with
    | (response, _, bus) => onSuccess (response, bus) (spiFlashWaitWhileBusy geometry line)
  rw [prepared, eraseTransaction_ok quiet chip idle starts (by omega) enabled]
  obtain ⟨next, waited, held, -⟩ := wait_holds quiet geometry
    (⟨rfl, rfl⟩ : Bus.Holds ⟨{ memory := eraseUnit geometry.blockSize chip.memory addr
                               writeEnabled := false
                               busy := line.delay chip.operations
                               operations := chip.operations + 1 }, none, starts + 1⟩ _)
  exact ⟨next, waited, held⟩

omit quiet in
/-- The check of the address refuses the last block of the chip. -/
theorem flashEraseBlock_last (bus : Bus) {addr : Nat} (last : addr + geometry.blockSize = geometry.size) :
    flashEraseBlock geometry line addr bus = (.error, bus) := by
  have small := geometry.size_lt
  refine if_pos (.inl ?_)
  rw [last, Nat.mod_eq_of_lt small]

theorem flashReadBlock_ok {bus : Bus} {memory : Nat → UInt8} (holds : bus.Holds memory) {addr : Nat}
    (buf : List UInt8) (inside : addr + buf.length ≤ geometry.size) :
    ∃ next, flashReadBlock geometry line addr buf bus =
        (.success, slice memory addr (buf.length % 2 ^ 16) ++ buf.drop (buf.length % 2 ^ 16), next) ∧
      next.Holds memory := by
  obtain ⟨⟨chip, sent, starts⟩, waited, ⟨rfl, rfl⟩, idle⟩ := wait_holds quiet geometry holds
  rw [flashReadBlock, waited]
  dsimp only at idle ⊢
  rw [readTransaction_ok quiet chip idle starts buf inside]
  exact ⟨_, rfl, rfl, rfl⟩

/-- The loop sends the data page by page. -/
theorem writeLoop_ok (geometry : Geometry) (fuel : Nat) {addr : Nat} {buf : List UInt8} {bus : Bus} {memory : Nat → UInt8}
    (holds : bus.Holds memory) (enough : buf.length ≤ fuel) (inside : addr + buf.length ≤ geometry.size) :
    ∃ next, writeLoop geometry line fuel addr buf bus = (.success, next) ∧
      next.Holds (clearBits memory addr buf) := by
  have small := geometry.size_lt
  have pagePos := geometry.page_pos
  have pageLt := geometry.page_lt
  induction fuel generalizing addr buf bus memory with
  | zero =>
    have empty : buf = [] := List.length_eq_zero_iff.mp (by omega)
    rw [empty, clearBits_nil]
    exact ⟨bus, rfl, holds⟩
  | succ fuel ih =>
    rw [writeLoop]
    split
    · rename_i nonempty
      have offset := Nat.mod_lt addr pagePos
      obtain ⟨chip, starts, rfl, idle, enabled, prepared⟩ := prepare_ok quiet geometry holds fun bus =>
        match spiFlashTransaction geometry line flashCmdPp addr
            (.send buf (min (geometry.pageSize - addr % geometry.pageSize) buf.length)) bus with
        | (response, _, bus) =>
          onSuccess (response, bus)
            (writeLoop geometry line fuel
              ((addr + min (geometry.pageSize - addr % geometry.pageSize) buf.length) % 2 ^ 32)
              (buf.drop (min (geometry.pageSize - addr % geometry.pageSize) buf.length)))
      dsimp only
      rw [prepared, programTransaction_ok quiet chip idle starts (by omega) enabled _ _ (by omega)]
      dsimp only
      generalize written : min (geometry.pageSize - addr % geometry.pageSize) buf.length = n
      have taken : (buf.take n).length = n := by
        rw [List.length_take]
        omega
      rw [onSuccess_ok, Nat.mod_eq_of_lt (by omega : addr + n < 2 ^ 32),
        programPage_eq _ (by rw [taken]; omega)]
      have whole : clearBits chip.memory addr buf =
          clearBits (clearBits chip.memory addr (buf.take n)) (addr + n) (buf.drop n) := by
        have joined := clearBits_append chip.memory addr (buf.take n) (buf.drop n)
        rw [taken, List.take_append_drop] at joined
        exact joined.symm
      rw [whole]
      exact ih ⟨rfl, rfl⟩ (by rw [List.length_drop]; omega) (by rw [List.length_drop]; omega)
    · rename_i empty
      rw [List.length_eq_zero_iff.mp (by omega : buf.length = 0), clearBits_nil]
      exact ⟨bus, rfl, holds⟩

theorem flashWriteBlock_ok {addr : Nat} {buf : List UInt8} {bus : Bus} {memory : Nat → UInt8}
    (holds : bus.Holds memory) (inside : addr + buf.length ≤ geometry.size) :
    ∃ next, flashWriteBlock geometry line addr buf bus = (.success, next) ∧
      next.Holds (clearBits memory addr buf) := by
  obtain ⟨bus', written, held⟩ := writeLoop_ok quiet geometry buf.length holds (Nat.le_refl _) inside
  obtain ⟨⟨chip, sent, starts⟩, waited, ⟨rfl, memory'⟩, idle⟩ := wait_holds quiet geometry held
  rw [flashWriteBlock, written, onSuccess_ok, waited, onSuccess_ok, spiFlashWriteDisable, sendCommand_ok quiet,
    execute_wrdi _ idle]
  exact ⟨_, rfl, rfl, memory'⟩

end Transactions

end QmkFirmware.ExternalFlash
