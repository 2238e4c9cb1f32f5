import QmkFirmware.Foundations.Memory

/-! # The legacy emulated EEPROM

A shallow embedding of `platforms/chibios/drivers/eeprom/eeprom_legacy_emulated_flash.c`.
The flash is the sequence of half-words from `FEE_PAGE_BASE_ADDRESS` on, so that the
half-word with index `n` lies at byte offset `2 * n`; `uint16_t *` pointers are such
indices.  The flash operations behave as the mock of the repository's own tests does:
programming works on an erased half-word, or when it clears every bit.
-/

namespace QmkFirmware.LegacyEeprom

open QmkFirmware.Memory

/-- The defines of `eeprom_legacy_emulated_flash_defs.h` with what its `#error`s demand. -/
structure Config where
  pageSize : Nat
  pageCount : Nat
  densityBytes : Nat
  writeLogBytes : Nat
  densityEven : densityBytes % 2 = 0
  densityMax : densityBytes ≤ 0x4000
  writeLogEven : writeLogBytes % 2 = 0
  fits : densityBytes + writeLogBytes ≤ pageCount * pageSize

/-- `FEE_WRITE_LOG_BASE_ADDRESS`, which is also `FEE_COMPACTED_LAST_ADDRESS`. -/
def Config.writeLogBase (cfg : Config) : Nat := cfg.densityBytes / 2

/-- `FEE_WRITE_LOG_LAST_ADDRESS` -/
def Config.writeLogLast (cfg : Config) : Nat := (cfg.densityBytes + cfg.writeLogBytes) / 2

def wordEncoding : BitVec 16 := 0x8000
def valueNext : BitVec 16 := 0x6000
def valueReserved : BitVec 16 := 0x4000
def valueEncoded : BitVec 16 := 0x2000
def byteRange : Nat := 0x80

/-- Flash half-word value after erase. -/
def emptyWord : BitVec 16 := 0xFFFF

/-! ## Flash operations -/

/-- The statuses that the operations below can return. -/
inductive FlashStatus where
  | errorPG
  | errorWRP
  | complete
  | badAddress
  deriving DecidableEq, Repr

/-- One flash operation; a program also notes what it found in its half-word. -/
inductive FlashOp where
  | erasePage (address : Nat)
  | program (slot : Nat) (data found : BitVec 16)
  deriving DecidableEq, Repr

/-- The static variables of the driver together with the flash.  Only the first
`densityBytes` bytes of `dataBuf` belong to the C array. -/
structure State where
  flash : Nat → BitVec 16
  flashLocked : Bool
  dataBuf : Nat → BitVec 8
  emptySlot : Nat
  trace : List FlashOp

def flashUnlock (s : State) : State := { s with flashLocked := false }

def flashLock (s : State) : State := { s with flashLocked := true }

/-- The half-words of the page at byte offset `address` become erased. -/
def erased (cfg : Config) (address : Nat) (flash : Nat → BitVec 16) : Nat → BitVec 16 := fun slot =>
  if address ≤ 2 * slot ∧ 2 * slot < address + cfg.pageSize then emptyWord else flash slot

def programmed (slot : Nat) (data : BitVec 16) (flash : Nat → BitVec 16) : Nat → BitVec 16 :=
  blit flash slot [data]

def flashErasePage (cfg : Config) (address : Nat) (s : State) : FlashStatus × State :=
  let s := { s with trace := s.trace ++ [.erasePage address] }
  if s.flashLocked then (.errorWRP, s)
  else (.complete, { s with flash := erased cfg address s.flash })

def flashProgramHalfWord (slot : Nat) (data : BitVec 16) (s : State) : FlashStatus × State :=
  let found := s.flash slot
  let s := { s with trace := s.trace ++ [.program slot data found] }
  if s.flashLocked then (.errorWRP, s)
  else if found = emptyWord ∨ data = 0 then (.complete, { s with flash := programmed slot data s.flash })
  else (.errorPG, s)

/-! ## The buffer as words -/

def lowByte (word : BitVec 16) : BitVec 8 := word.setWidth 8

def highByte (word : BitVec 16) : BitVec 8 := (word >>> 8).setWidth 8

/-- `*(uint16_t *)(&DataBuf[address])` on a little-endian machine. -/
def wordAt (buf : Nat → BitVec 8) (address : Nat) : BitVec 16 := buf (address + 1) ++ buf address

def setByte (buf : Nat → BitVec 8) (address : Nat) (value : BitVec 8) : Nat → BitVec 8 :=
  blit buf address [value]

def setWord (buf : Nat → BitVec 8) (address : Nat) (value : BitVec 16) : Nat → BitVec 8 :=
  blit buf address [lowByte value, highByte value]

/-- `Address & 0xFFFE` -/
def wordAddress (address : Nat) : Nat := address / 2 * 2

section Driver

variable (cfg : Config)

/-! ## Initialisation -/

/-- The first loop of `EEPROM_Init`, for the first `count` half-words. -/
def loadCompacted (flash : Nat → BitVec 16) : Nat → (Nat → BitVec 8) → Nat → BitVec 8
  | 0, buf => buf
  | count + 1, buf => setWord (loadCompacted flash count buf) (2 * count) (~~~flash count)

/-- A replayed word is dropped when its address lies outside the buffer. -/
def replayWord (buf : Nat → BitVec 8) (address wvalue : BitVec 16) : Nat → BitVec 8 :=
  if address.toNat < cfg.densityBytes then setWord buf address.toNat wvalue else buf

/-- The second loop of `EEPROM_Init`: replay the write log from `logAddr` on, with
`remaining` half-words left.  Returns the buffer and the address where the loop stops. -/
def replayWriteLog (flash : Nat → BitVec 16) : Nat → Nat → (Nat → BitVec 8) → (Nat → BitVec 8) × Nat
  | 0, logAddr, buf => (buf, logAddr)
  | remaining + 1, logAddr, buf =>
    let address := flash logAddr
    if address = emptyWord then (buf, logAddr)
    else if address &&& wordEncoding = 0 then
      -- byte entry: the address is not checked against the density
      replayWriteLog flash remaining (logAddr + 1) (setByte buf (address >>> 8).toNat (lowByte address))
    else if address &&& valueNext = valueNext then
      -- the value is in the next half-word
      match remaining with
      | 0 => (buf, logAddr + 1)
      | remaining + 1 =>
        let wvalue := ~~~flash (logAddr + 1)
        if wvalue = 0 then replayWriteLog flash remaining (logAddr + 2) buf
        else
          replayWriteLog flash remaining (logAddr + 2)
            (replayWord cfg buf ((address &&& 0x1FFF) <<< 1 + BitVec.ofNat 16 byteRange) wvalue)
    else if address &&& valueReserved ≠ 0 then replayWriteLog flash remaining (logAddr + 1) buf
    else
      replayWriteLog flash remaining (logAddr + 1)
        (replayWord cfg buf ((address &&& 0x1FFF) <<< 1) ((address &&& valueEncoded) >>> 13))

def eepromInit (s : State) : State :=
  let replayed := replayWriteLog cfg s.flash (cfg.writeLogLast - cfg.writeLogBase) cfg.writeLogBase
    (loadCompacted s.flash cfg.writeLogBase s.dataBuf)
  { s with dataBuf := replayed.1, emptySlot := replayed.2 }

/-! ## Erasing and compacting -/

def erasePages : Nat → State → State
  | 0, s => s
  | count + 1, s => (flashErasePage cfg (count * cfg.pageSize) (erasePages count s)).2

def eepromClear (s : State) : State :=
  { flashLock (erasePages cfg cfg.pageCount (flashUnlock s)) with emptySlot := cfg.writeLogBase }

def eepromErase (s : State) : State := eepromInit cfg (eepromClear cfg s)

/-- The loop of `eeprom_compact`, for the first `count` words. -/
def compactWords : Nat → FlashStatus × State → FlashStatus × State
  | 0, result => result
  | count + 1, result =>
    let (finalStatus, s) := compactWords count result
    let value := wordAt s.dataBuf (2 * count)
    if value ≠ 0 then
      let (status, s) := flashProgramHalfWord count (~~~value) s
      (if status ≠ .complete then status else finalStatus, s)
    else (finalStatus, s)

def eepromCompact (s : State) : FlashStatus × State :=
  let (finalStatus, s) := compactWords cfg.writeLogBase (.complete, flashUnlock (eepromClear cfg s))
  (finalStatus, flashLock s)

/-! ## Writing -/

/-- `none` is the `0` of the source: the write was not done here. -/
def eepromWriteDirectEntry (address : Nat) (s : State) : Option FlashStatus × State :=
  let directAddress := wordAddress address / 2
  if s.flash directAddress = emptyWord then
    let value := ~~~wordAt s.dataBuf (wordAddress address)
    if value = emptyWord then (some .complete, s)
    else
      let (status, s) := flashProgramHalfWord directAddress value (flashUnlock s)
      (some status, flashLock s)
  else (none, s)

def eepromWriteLogWordEntry (address : Nat) (s : State) : FlashStatus × State :=
  let value := wordAt s.dataBuf address
  let encoding := wordEncoding ||| (if value.toNat ≤ 1 then value <<< 13 else valueNext)
  let entrySize := if value.toNat ≤ 1 then 2 else 4
  let address := if value.toNat ≤ 1 then address else address - byteRange
  if 2 * s.emptySlot + entrySize > 2 * cfg.writeLogLast then eepromCompact cfg s
  else
    let (finalStatus, s) :=
      flashProgramHalfWord s.emptySlot (BitVec.ofNat 16 address >>> 1 ||| encoding) (flashUnlock s)
    let s := { s with emptySlot := s.emptySlot + 1 }
    if encoding = wordEncoding ||| valueNext then
      let (status, s) := flashProgramHalfWord s.emptySlot (~~~value) s
      let s := { s with emptySlot := s.emptySlot + 1 }
      (if status ≠ .complete then status else finalStatus, flashLock s)
    else (finalStatus, flashLock s)

def eepromWriteLogByteEntry (address : Nat) (s : State) : FlashStatus × State :=
  if s.emptySlot ≥ cfg.writeLogLast then eepromCompact cfg s
  else
    let value := BitVec.ofNat 16 address <<< 8 ||| (s.dataBuf address).setWidth 16
    let (status, s) := flashProgramHalfWord s.emptySlot value (flashUnlock s)
    (status, flashLock { s with emptySlot := s.emptySlot + 1 })

def eepromWriteDataByte (address : Nat) (dataByte : BitVec 8) (s : State) : Option FlashStatus × State :=
  if address ≥ cfg.densityBytes then (some .badAddress, s)
  else if s.dataBuf address = dataByte then (none, s)
  else
    let s := { s with dataBuf := setByte s.dataBuf address dataByte }
    match eepromWriteDirectEntry address s with
    | (some status, s) => (some status, s)
    | (none, s) =>
      let (status, s) :=
        if address < byteRange then eepromWriteLogByteEntry cfg address s
        else eepromWriteLogWordEntry cfg (wordAddress address) s
      (some status, s)

/-- The two byte entries of a word below `byteRange`: only the bytes that changed. -/
def eepromWriteLogByteEntries (address : Nat) (oldValue dataWord : BitVec 16) (s : State) :
    FlashStatus × State :=
  let (finalStatus, s) :=
    if lowByte oldValue ≠ lowByte dataWord then eepromWriteLogByteEntry cfg address s else (.complete, s)
  let (status, s) :=
    if highByte oldValue ≠ highByte dataWord then eepromWriteLogByteEntry cfg (address + 1) s
    else (.complete, s)
  (if status ≠ .complete then status else finalStatus, s)

def eepromWriteDataWord (address : Nat) (dataWord : BitVec 16) (s : State) : Option FlashStatus × State :=
  if address ≥ cfg.densityBytes then (some .badAddress, s)
  else if address % 2 ≠ 0 then
    let (finalStatus, s) := eepromWriteDataByte cfg address (lowByte dataWord) s
    let (status, s) := eepromWriteDataByte cfg (address + 1) (highByte dataWord) s
    (if status ≠ some .complete then status else finalStatus, s)
  else
    let oldValue := wordAt s.dataBuf address
    if oldValue = dataWord then (none, s)
    else
      let s := { s with dataBuf := setWord s.dataBuf address dataWord }
      match eepromWriteDirectEntry address s with
      | (some status, s) => (some status, s)
      | (none, s) =>
        let (status, s) :=
          if address < byteRange then eepromWriteLogByteEntries cfg address oldValue dataWord s
          else eepromWriteLogWordEntry cfg address s
        (some status, s)

/-- The word loop of `eeprom_write_block` and the last byte behind it.  The address is
converted to `uint16_t` at each call. -/
def writeBlockWords (dest : Nat) : List (BitVec 8) → State → State
  | low :: high :: src, s =>
    writeBlockWords (dest + 2) src (eepromWriteDataWord cfg (dest % 2 ^ 16) (high ++ low) s).2
  | [last], s => (eepromWriteDataByte cfg (dest % 2 ^ 16) last s).2
  | [], s => s

def eepromWriteBlock (buf : List (BitVec 8)) (dest : Nat) (s : State) : State :=
  match buf with
  | first :: src =>
    if dest % 2 ≠ 0 then
      writeBlockWords cfg (dest + 1) src (eepromWriteDataByte cfg (dest % 2 ^ 16) first s).2
    else writeBlockWords cfg dest (first :: src) s
  | [] => s

end Driver

end QmkFirmware.LegacyEeprom
