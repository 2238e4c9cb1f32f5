import QmkFirmware.WearLeveling.Model

/-! # What playback decodes

`decodeEntry` is the playback switch as a function of the eight bytes at a log
address, and `Replays` the chain of entries between two log addresses.  The
main result is `playbackLoop_of_replays`: while reads succeed, the loop of
`wear_leveling_playback_log` follows such a chain to its end.
-/

namespace QmkFirmware.WearLeveling

open QmkFirmware.Memory

/-! ## Decoding one entry -/

inductive Decoded where
  | empty
  | corrupt
  | patch (target : Nat) (payload : List UInt8) (size : Nat)
  deriving DecidableEq, Repr

/-- The number of bytes the words of a multi-byte entry with `length` payload bytes occupy. -/
def multibyteSize (size : WriteSize) (length : Nat) : Nat :=
  match size with
  | .two => 4 + (if length > 1 then 2 else 0) + (if length > 3 then 2 else 0)
  | .four => 4 + (if length > 1 then 4 else 0)
  | .eight => 8

/-- The number of bytes that decide whether an entry is rejected. -/
def headerSize (size : WriteSize) : Nat := max 4 size.bytes

/-- The number of bytes that a decoding depends on. -/
def Decoded.reach (size : WriteSize) : Decoded → Nat
  | .empty => size.bytes
  | .corrupt => headerSize size
  | .patch _ _ entrySize => entrySize

def decodeEntry (cfg : Config) (log : List UInt8) : Decoded :=
  if (log.take cfg.writeSize.bytes).all (· = 0) then .empty
  else
    match logEntryGetType log with
    | .multibyte =>
      let a := logEntryMultibyteGetAddress log
      let l := logEntryMultibyteGetLength log
      if a + l > cfg.logicalSize then .corrupt
      else .patch a ((List.range l).map fun k => log.getD (3 + k) 0) (multibyteSize cfg.writeSize l)
    | .optimized64 =>
      let a := logEntryOptimized64GetAddress log
      if cfg.writeSize ≠ .two ∨ a ≥ cfg.logicalSize then .corrupt
      else .patch a [logEntryOptimized64GetValue log] 2
    | .word01 =>
      let a := logEntryWord01GetAddress log
      if cfg.writeSize ≠ .two ∨ a + 1 ≥ cfg.logicalSize then .corrupt
      else .patch a [logEntryWord01GetValue log, 0] 2
    | .unknown => .corrupt

/-- The entry at a log address. -/
def entryAt (cfg : Config) (memory : Nat → UInt8) (address : Nat) : Decoded :=
  decodeEntry cfg (slice memory address 8)

theorem writeSize_bytes_pos (size : WriteSize) : 0 < size.bytes := by cases size <;> decide

theorem writeSize_bytes_le (size : WriteSize) : size.bytes ≤ 8 := by cases size <;> decide

theorem multibyteSize_bounds (size : WriteSize) (length : Nat) :
    4 ≤ multibyteSize size length ∧ multibyteSize size length ≤ 8 := by
  cases size <;> simp only [multibyteSize] <;> (repeat' split) <;> omega

theorem le_headerSize (size : WriteSize) : 4 ≤ headerSize size ∧ size.bytes ≤ headerSize size := by
  cases size <;> decide

theorem headerSize_le_multibyteSize (size : WriteSize) (length : Nat) :
    headerSize size ≤ multibyteSize size length := by
  cases size <;> simp only [multibyteSize, headerSize, WriteSize.bytes] <;> omega

/-- The payload bytes of an entry lie in its own words, or these are all eight bytes. -/
theorem payload_inside (size : WriteSize) (length : Nat) :
    3 + length ≤ multibyteSize size length ∨ multibyteSize size length = 8 := by
  by_cases first : length > 1 <;> by_cases third : length > 3 <;> cases size <;>
    simp [multibyteSize, first, third] <;> omega

theorem decodeEntry_size {cfg : Config} {log payload : List UInt8} {target size : Nat}
    (h : decodeEntry cfg log = .patch target payload size) : 2 ≤ size ∧ size ≤ 8 := by
  unfold decodeEntry at h
  split at h
  · cases h
  · split at h
    · simp only at h
      split at h
      · cases h
      · cases h
        have := multibyteSize_bounds cfg.writeSize (logEntryMultibyteGetLength log)
        omega
    · simp only at h
      split at h <;> cases h
      omega
    · simp only at h
      split at h <;> cases h
      omega
    · cases h

/-! ## Reading without faults -/

section Reading

variable (cfg : Config) {faults : Faults} (reads : ∀ n, faults .read n = false)

/-- `next` is `s` after some reads: only the trace grew, and only by reads. -/
structure OnlyRead (s next : State) : Prop where
  cache : next.cache = s.cache
  writeAddress : next.writeAddress = s.writeAddress
  unlocked : next.unlocked = s.unlocked
  store : next.store = s.store
  trace : ∃ events, next.trace = s.trace ++ events ∧ ∀ event ∈ events, event.operation.kind = .read

theorem OnlyRead.refl (s : State) : OnlyRead s s :=
  ⟨rfl, rfl, rfl, rfl, [], by simp, by simp⟩

theorem OnlyRead.trans {s mid next : State} (first : OnlyRead s mid) (second : OnlyRead mid next) :
    OnlyRead s next := by
  obtain ⟨events, firstTrace, firstRead⟩ := first.trace
  obtain ⟨events', secondTrace, secondRead⟩ := second.trace
  refine ⟨second.cache.trans first.cache, second.writeAddress.trans first.writeAddress,
    second.unlocked.trans first.unlocked, second.store.trans first.store, events ++ events', ?_, ?_⟩
  · rw [secondTrace, firstTrace, List.append_assoc]
  · intro event member
    cases List.mem_append.mp member with
    | inl member => exact firstRead event member
    | inr member => exact secondRead event member

include reads

theorem backingStoreRead_ok (address : Nat) (s : State) :
    ∃ next, backingStoreRead cfg faults address s =
        (some (slice s.store address cfg.writeSize.bytes), next) ∧ OnlyRead s next := by
  refine ⟨{ s with trace := s.trace ++ [⟨.read address, true⟩] }, ?_, ?_⟩
  · simp [backingStoreRead, perform, Operation.kind, reads, Operation.apply]
  · exact ⟨rfl, rfl, rfl, rfl, [⟨.read address, true⟩], rfl, by simp [Operation.kind]⟩

theorem backingStoreReadBulk_ok (address count : Nat) (s : State) :
    ∃ next, backingStoreReadBulk cfg faults address count s =
        (true, slice s.store address (count * cfg.writeSize.bytes), next) ∧ OnlyRead s next := by
  induction count generalizing address s with
  | zero => exact ⟨s, by simp [backingStoreReadBulk, slice], OnlyRead.refl s⟩
  | succ count ih =>
    obtain ⟨mid, first, firstOnly⟩ := backingStoreRead_ok cfg reads address s
    obtain ⟨next, rest, restOnly⟩ := ih (address + cfg.writeSize.bytes) mid
    refine ⟨next, ?_, firstOnly.trans restOnly⟩
    rw [backingStoreReadBulk, first]
    simp only [rest, firstOnly.store]
    rw [← slice_add, Nat.succ_mul, Nat.add_comm]

omit reads in
theorem raw8_slice {memory : Nat → UInt8} {address count k : Nat} (h : k < count) :
    raw8 (slice memory address count) k = (memory (address + k)).toNat := by
  rw [raw8, getD_slice 0 h]

omit reads in
theorem logEntryGetType_slice {memory : Nat → UInt8} {address count : Nat} (h : 0 < count) :
    logEntryGetType (slice memory address count) = logEntryGetType (slice memory address 8) := by
  simp only [logEntryGetType, raw8_slice h, raw8_slice (by decide : 0 < 8)]

omit reads in
/-- The address and the length of a multi-byte entry are in its first three bytes. -/
theorem multibyteHeader_slice (memory : Nat → UInt8) (address : Nat) {count : Nat} (h : 3 ≤ count) :
    logEntryMultibyteGetAddress (slice memory address count) =
        logEntryMultibyteGetAddress (slice memory address 8) ∧
      logEntryMultibyteGetLength (slice memory address count) =
        logEntryMultibyteGetLength (slice memory address 8) := by
  simp only [logEntryMultibyteGetAddress, logEntryMultibyteGetLength, raw8_slice (by omega : 0 < count),
    raw8_slice (by omega : 1 < count), raw8_slice (by omega : 2 < count), raw8_slice (by decide : 0 < 8),
    raw8_slice (by decide : 1 < 8), raw8_slice (by decide : 2 < 8), and_self]

omit reads in
private theorem payload_slice (memory : Nat → UInt8) (address : Nat) (size : WriteSize) (length : Nat) :
    ((List.range length).map fun k =>
        (slice memory address (multibyteSize size length)).getD (3 + k) 0) =
      (List.range length).map fun k => (slice memory address 8).getD (3 + k) 0 := by
  have bounds := multibyteSize_bounds size length
  apply List.map_congr_left
  intro k member
  have bound : k < length := List.mem_range.mp member
  cases payload_inside size length with
  | inl inside => rw [getD_slice 0 (by omega), getD_slice 0 (by omega)]
  | inr all => rw [all]

theorem playbackMultibyte_ok (address : Nat) (s : State) :
    let log := slice s.store address 8
    let a := logEntryMultibyteGetAddress log
    let l := logEntryMultibyteGetLength log
    ∃ next, OnlyRead s next ∧
      if a + l > cfg.logicalSize then
        ∃ stop, playbackMultibyte cfg faults (slice s.store address cfg.writeSize.bytes)
          (address + cfg.writeSize.bytes) s = (false, stop, next)
      else
        playbackMultibyte cfg faults (slice s.store address cfg.writeSize.bytes)
          (address + cfg.writeSize.bytes) s =
            (true, address + multibyteSize cfg.writeSize l,
              { next with cache := blit s.cache a ((List.range l).map fun k => log.getD (3 + k) 0) }) := by
  intro log a l
  have addressOf : ∀ count, 3 ≤ count →
      logEntryMultibyteGetAddress (slice s.store address count) = a :=
    fun count h => (multibyteHeader_slice s.store address h).1
  have lengthOf : ∀ count, 3 ≤ count →
      logEntryMultibyteGetLength (slice s.store address count) = l :=
    fun count h => (multibyteHeader_slice s.store address h).2
  -- how many further words are read depends on the word size and on the length in the header
  have payload := payload_slice s.store address cfg.writeSize l
  by_cases fits : a + l > cfg.logicalSize
  · simp only [fits, if_true]
    cases size : cfg.writeSize with
    | two =>
      obtain ⟨s₁, read₁, only₁⟩ := backingStoreRead_ok cfg reads (address + 2) s
      simp only [size, WriteSize.bytes] at read₁
      refine ⟨s₁, only₁, address + 2 + 2, ?_⟩
      simp only [playbackMultibyte, size, WriteSize.bytes, if_true, read₁, ← slice_add, length_slice,
        addressOf 4 (by decide), lengthOf 4 (by decide), fits]
    | four | eight =>
      refine ⟨s, OnlyRead.refl s, ?_⟩
      simp [playbackMultibyte, size, WriteSize.bytes, addressOf, lengthOf, fits]
  · simp only [fits, if_false]
    cases size : cfg.writeSize with
    | two =>
      obtain ⟨s₁, read₁, only₁⟩ := backingStoreRead_ok cfg reads (address + 2) s
      obtain ⟨s₂, read₂, only₂⟩ := backingStoreRead_ok cfg reads (address + 4) s₁
      obtain ⟨s₃, read₃, only₃⟩ := backingStoreRead_ok cfg reads (address + 6) s₂
      simp only [size, WriteSize.bytes, only₁.store, only₂.store] at read₁ read₂ read₃
      simp only [size, multibyteSize] at payload ⊢
      simp only [playbackMultibyte, size, WriteSize.bytes, if_true, read₁, ← slice_add, length_slice,
        addressOf 4 (by decide), lengthOf 4 (by decide), fits, if_false]
      by_cases first : l > 1
      · by_cases third : l > 3
        · refine ⟨s₃, (only₁.trans only₂).trans only₃, ?_⟩
          simp [first, third, read₂, read₃, ← slice_add, only₁.cache, only₂.cache, only₃.cache, log,
            Nat.add_assoc]
        · refine ⟨s₂, only₁.trans only₂, ?_⟩
          simp only [first, third, if_true, if_false, Nat.add_zero, Nat.reduceAdd,
            List.getD_eq_getElem?_getD] at payload
          simp [first, third, read₂, ← slice_add, only₁.cache, only₂.cache, log, payload, Nat.add_assoc]
      · have third : ¬ l > 3 := by omega
        refine ⟨s₁, only₁, ?_⟩
        simp only [first, third, if_false, Nat.add_zero, List.getD_eq_getElem?_getD] at payload
        simp [first, third, only₁.cache, log, payload, Nat.add_assoc]
    | four =>
      obtain ⟨s₁, read₁, only₁⟩ := backingStoreRead_ok cfg reads (address + 4) s
      simp only [size, WriteSize.bytes] at read₁
      simp only [size, multibyteSize] at payload ⊢
      by_cases first : l > 1
      · refine ⟨s₁, only₁, ?_⟩
        simp [playbackMultibyte, size, WriteSize.bytes, addressOf, lengthOf, fits, first, read₁,
          ← slice_add, only₁.cache, log, Nat.add_assoc]
      · refine ⟨s, OnlyRead.refl s, ?_⟩
        simp only [first, if_false, Nat.add_zero, List.getD_eq_getElem?_getD] at payload
        simp [playbackMultibyte, size, WriteSize.bytes, addressOf, lengthOf, fits, first, log, payload]
    | eight =>
      refine ⟨s, OnlyRead.refl s, ?_⟩
      simp [playbackMultibyte, size, WriteSize.bytes, addressOf, lengthOf, fits, multibyteSize, log]

omit reads in
theorem take_slice (memory : Nat → UInt8) (address : Nat) {count : Nat} (h : count ≤ 8) :
    (slice memory address 8).take count = slice memory address count := by
  have split : slice memory address 8 = slice memory address count ++ slice memory (address + count) (8 - count) := by
    rw [← slice_add, Nat.add_sub_cancel' h]
  rw [split, List.take_left' (length_slice _ _ _)]

/-- One round of the playback loop, by what the entry at the address decodes to. -/
theorem playbackLoop_step (fuel address : Nat) (s : State) (inside : address < cfg.backingSize) :
    ∃ next, OnlyRead s next ∧
      match entryAt cfg s.store address with
      | .empty => playbackLoop cfg faults (fuel + 1) address s = (.success, address, next)
      | .corrupt => ∃ stop, playbackLoop cfg faults (fuel + 1) address s = (.failed, stop, next)
      | .patch target payload size =>
        playbackLoop cfg faults (fuel + 1) address s =
          playbackLoop cfg faults fuel (address + size)
            { next with cache := blit s.cache target payload } := by
  obtain ⟨s₁, read₁, only₁⟩ := backingStoreRead_ok cfg reads address s
  have wordPos := writeSize_bytes_pos cfg.writeSize
  have wordLe := writeSize_bytes_le cfg.writeSize
  have typeOf : logEntryGetType (slice s.store address cfg.writeSize.bytes) =
      logEntryGetType (slice s.store address 8) := logEntryGetType_slice wordPos
  rw [playbackLoop, if_pos inside, read₁]
  simp only [entryAt, decodeEntry, take_slice _ _ wordLe]
  -- an empty slot ends the log, whatever stands behind it
  by_cases zero : (slice s.store address cfg.writeSize.bytes).all (· = 0)
  · simp only [zero, if_true]
    exact ⟨s₁, only₁, rfl⟩
  simp only [zero, if_false, Bool.false_eq_true, typeOf]
  -- the type is in the first byte, and so in the one word that has been read
  cases kind : logEntryGetType (slice s.store address 8) with
  | multibyte =>
    obtain ⟨s₂, only₂, outcome⟩ := playbackMultibyte_ok cfg reads address s₁
    simp only [only₁.store, only₁.cache] at outcome
    refine ⟨s₂, only₁.trans only₂, ?_⟩
    split at outcome
    next overrun =>
      obtain ⟨stop, outcome⟩ := outcome
      simp only [overrun, if_true, outcome]
      exact ⟨stop, rfl⟩
    next fits => simp only [fits, if_false, outcome]
  | optimized64 =>
    refine ⟨s₁, only₁, ?_⟩
    by_cases two : cfg.writeSize = .two
    · have sameAddress : logEntryOptimized64GetAddress (slice s.store address 2) =
          logEntryOptimized64GetAddress (slice s.store address 8) := rfl
      have sameValue : logEntryOptimized64GetValue (slice s.store address 2) =
          logEntryOptimized64GetValue (slice s.store address 8) := rfl
      simp only [two, WriteSize.bytes, sameAddress, sameValue, ne_eq, not_true_eq_false, false_or,
        only₁.cache]
      by_cases overrun : logEntryOptimized64GetAddress (slice s.store address 8) ≥ cfg.logicalSize
      · simp only [overrun, if_true]
        exact ⟨_, rfl⟩
      · simp only [overrun, if_false]
    · simp only [two, ne_eq, not_false_eq_true, true_or, if_true]
      exact ⟨_, rfl⟩
  | word01 =>
    refine ⟨s₁, only₁, ?_⟩
    by_cases two : cfg.writeSize = .two
    · have sameAddress : logEntryWord01GetAddress (slice s.store address 2) =
          logEntryWord01GetAddress (slice s.store address 8) := rfl
      have sameValue : logEntryWord01GetValue (slice s.store address 2) =
          logEntryWord01GetValue (slice s.store address 8) := rfl
      simp only [two, WriteSize.bytes, sameAddress, sameValue, ne_eq, not_true_eq_false, false_or,
        only₁.cache]
      by_cases overrun : logEntryWord01GetAddress (slice s.store address 8) + 1 ≥ cfg.logicalSize
      · simp only [overrun, if_true]
        exact ⟨_, rfl⟩
      · simp only [overrun, if_false]
    · simp only [two, ne_eq, not_false_eq_true, true_or, if_true]
      exact ⟨_, rfl⟩
  | unknown => exact ⟨s₁, only₁, _, rfl⟩

end Reading

/-! ## Chains of entries -/

/-- The log of `memory` from `address` to `stop`, replayed onto `cache`.  The
outcome is the patched cache, or `none` when an entry on the way is rejected
(what follows a rejected entry is then irrelevant). -/
inductive Replays (cfg : Config) (memory : Nat → UInt8) :
    Nat → (Nat → UInt8) → Nat → Option (Nat → UInt8) → Prop where
  | done (address : Nat) (cache : Nat → UInt8) : Replays cfg memory address cache address (some cache)
  | patch {address stop target size : Nat} {payload : List UInt8} {cache : Nat → UInt8}
      {outcome : Option (Nat → UInt8)} (inside : address < cfg.backingSize)
      (decoded : entryAt cfg memory address = .patch target payload size)
      (rest : Replays cfg memory (address + size) (blit cache target payload) stop outcome) :
      Replays cfg memory address cache stop outcome
  | corrupt {address stop : Nat} {cache : Nat → UInt8} (inside : address < cfg.backingSize)
      (before : address + headerSize cfg.writeSize ≤ stop)
      (decoded : entryAt cfg memory address = .corrupt) :
      Replays cfg memory address cache stop none

variable {cfg : Config} {memory : Nat → UInt8}

theorem Replays.le {address stop : Nat} {cache : Nat → UInt8} {outcome : Option (Nat → UInt8)}
    (replays : Replays cfg memory address cache stop outcome) : address ≤ stop := by
  induction replays with
  | done => exact Nat.le_refl _
  | patch _ _ _ ih => omega
  | corrupt _ before _ => omega

theorem Replays.trans {address mid stop : Nat} {cache cache' : Nat → UInt8}
    {outcome : Option (Nat → UInt8)} (first : Replays cfg memory address cache mid (some cache'))
    (second : Replays cfg memory mid cache' stop outcome) :
    Replays cfg memory address cache stop outcome := by
  -- the outcome is generalised, since the induction needs it as an index
  generalize eq : some cache' = middle at first
  induction first with
  | done => cases eq; exact second
  | patch inside decoded _ ih => exact .patch inside decoded (ih second eq)
  | corrupt => cases eq

/-- A rejected entry stays rejected however the log goes on. -/
theorem Replays.extend {address mid stop : Nat} {cache : Nat → UInt8}
    (first : Replays cfg memory address cache mid none) (further : mid ≤ stop) :
    Replays cfg memory address cache stop none := by
  generalize eq : none = middle at first
  induction first with
  | done => cases eq
  | patch inside decoded _ ih => exact .patch inside decoded (ih further eq)
  | corrupt inside before decoded => exact .corrupt inside (by omega) decoded

private theorem take_congr {log other : List UInt8} (length : log.length = 8) (length' : other.length = 8)
    {n : Nat} (same : ∀ k < n, other.getD k 0 = log.getD k 0) : other.take n = log.take n := by
  apply List.ext_getElem?
  intro k
  rw [List.getElem?_take, List.getElem?_take]
  split
  next inside =>
    by_cases bound : k < 8
    · have bytes := same k inside
      simp only [List.getD_eq_getElem?_getD, List.getElem?_eq_getElem (by omega : k < other.length),
        List.getElem?_eq_getElem (by omega : k < log.length), Option.getD_some] at bytes
      rw [List.getElem?_eq_getElem (by omega), List.getElem?_eq_getElem (by omega), bytes]
    · rw [List.getElem?_eq_none (by omega), List.getElem?_eq_none (by omega)]
  next => rfl

/-- Only the bytes of an entry's own words decide what it decodes to. -/
theorem decodeEntry_congr {log other : List UInt8} (length : log.length = 8)
    (length' : other.length = 8) {n : Nat} (same : ∀ k < n, other.getD k 0 = log.getD k 0)
    (enough : (decodeEntry cfg log).reach cfg.writeSize ≤ n) :
    decodeEntry cfg other = decodeEntry cfg log := by
  have raw : ∀ k < n, raw8 other k = raw8 log k := fun k h => by rw [raw8, raw8, same k h]
  have headerLe := headerSize_le_multibyteSize cfg.writeSize (logEntryMultibyteGetLength log)
  have wordLe := le_headerSize cfg.writeSize
  unfold decodeEntry at enough ⊢
  by_cases zero : (log.take cfg.writeSize.bytes).all (· = 0)
  · simp only [zero, if_true, Decoded.reach] at enough ⊢
    rw [take_congr length length' fun k h => same k (by omega), if_pos zero]
  simp only [zero, if_false, Bool.false_eq_true] at enough ⊢
  have nonzero (inside : cfg.writeSize.bytes ≤ n) :
      ¬ (other.take cfg.writeSize.bytes).all (· = 0) := by
    rwa [take_congr length length' fun k h => same k (by omega)]
  have typeOf (inside : 0 < n) : logEntryGetType other = logEntryGetType log := by
    simp only [logEntryGetType, raw 0 inside]
  have two_bytes (two : ¬ cfg.writeSize ≠ .two) (enough : 2 ≤ n) :
      cfg.writeSize.bytes ≤ n ∧ 2 ≤ n := by
    rw [not_not.mp two]
    exact ⟨enough, enough⟩
  cases kind : logEntryGetType log with
  | multibyte =>
    simp only [kind] at enough
    -- rejected or not, the header lies in the bytes that agree
    have inside : headerSize cfg.writeSize ≤ n := by
      split at enough <;> simp only [Decoded.reach] at enough <;> omega
    have sameAddress : logEntryMultibyteGetAddress other = logEntryMultibyteGetAddress log := by
      simp only [logEntryMultibyteGetAddress, raw 0 (by omega), raw 1 (by omega), raw 2 (by omega)]
    have sameLength : logEntryMultibyteGetLength other = logEntryMultibyteGetLength log := by
      simp only [logEntryMultibyteGetLength, raw 0 (by omega)]
    rw [if_neg (nonzero (by omega)), typeOf (by omega), kind]
    simp only [sameAddress, sameLength]
    split
    next => rfl
    next fits =>
      simp only [if_neg fits, Decoded.reach] at enough
      congr 1
      apply List.map_congr_left
      intro k member
      have bound : k < logEntryMultibyteGetLength log := List.mem_range.mp member
      cases payload_inside cfg.writeSize (logEntryMultibyteGetLength log) with
      | inl inside => rw [same (3 + k) (by omega)]
      | inr all =>
        -- a length above 5 claims bytes behind the union; these read as zero in both
        by_cases small : 3 + k < n
        · rw [same (3 + k) small]
        · simp [List.getD_eq_getElem?_getD, List.getElem?_eq_none (by omega : log.length ≤ 3 + k),
            List.getElem?_eq_none (by omega : other.length ≤ 3 + k)]
  | optimized64 =>
    simp only [kind] at enough
    have inside : cfg.writeSize.bytes ≤ n ∧ 2 ≤ n := by
      split at enough <;> simp only [Decoded.reach] at enough
      next => omega
      next accepted => exact two_bytes (not_or.mp accepted).1 enough
    have sameAddress : logEntryOptimized64GetAddress other = logEntryOptimized64GetAddress log := by
      rw [logEntryOptimized64GetAddress, logEntryOptimized64GetAddress, raw 0 (by omega)]
    have sameValue : logEntryOptimized64GetValue other = logEntryOptimized64GetValue log := same 1 (by omega)
    rw [if_neg (nonzero inside.1), typeOf (by omega), kind]
    simp only [sameAddress, sameValue]
  | word01 =>
    simp only [kind] at enough
    have inside : cfg.writeSize.bytes ≤ n ∧ 2 ≤ n := by
      split at enough <;> simp only [Decoded.reach] at enough
      next => omega
      next accepted => exact two_bytes (not_or.mp accepted).1 enough
    have sameAddress : logEntryWord01GetAddress other = logEntryWord01GetAddress log := by
      rw [logEntryWord01GetAddress, logEntryWord01GetAddress, raw 0 (by omega), raw 1 (by omega)]
    have sameValue : logEntryWord01GetValue other = logEntryWord01GetValue log := by
      rw [logEntryWord01GetValue, logEntryWord01GetValue, raw 0 (by omega)]
    rw [if_neg (nonzero inside.1), typeOf (by omega), kind]
    simp only [sameAddress, sameValue]
  | unknown =>
    simp only [kind, Decoded.reach] at enough
    rw [if_neg (nonzero (by omega)), typeOf (by omega), kind]

theorem entryAt_congr {other : Nat → UInt8} {address : Nat} {decoded : Decoded}
    (entry : entryAt cfg memory address = decoded) (short : decoded.reach cfg.writeSize ≤ 8)
    (same : ∀ k < decoded.reach cfg.writeSize, other (address + k) = memory (address + k)) :
    entryAt cfg other address = decoded := by
  subst entry
  apply decodeEntry_congr (length_slice _ _ _) (length_slice _ _ _) _ (Nat.le_refl _)
  intro k h
  have bound : k < 8 := Nat.lt_of_lt_of_le h short
  rw [getD_slice 0 bound, getD_slice 0 bound, same k h]

theorem Replays.congr {other : Nat → UInt8} {address stop : Nat} {cache : Nat → UInt8}
    {outcome : Option (Nat → UInt8)} (replays : Replays cfg memory address cache stop outcome)
    (same : ∀ i, address ≤ i → i < stop → other i = memory i) :
    Replays cfg other address cache stop outcome := by
  induction replays with
  | done address cache => exact .done address cache
  | @patch address stop target size payload cache outcome inside decoded rest ih =>
    have bounds := decodeEntry_size decoded
    have before := rest.le
    refine .patch inside ?_ (ih fun i low high => same i (by omega) high)
    exact entryAt_congr decoded (show size ≤ 8 by omega)
      fun k h => same _ (by omega) (by simp only [Decoded.reach] at h; omega)
  | @corrupt address stop cache inside before decoded =>
    have small : headerSize cfg.writeSize ≤ 8 := by cases cfg.writeSize <;> decide
    refine .corrupt inside before ?_
    exact entryAt_congr decoded small
      fun k h => same _ (by omega) (by simp only [Decoded.reach] at h; omega)

/-- Playback of a chain that is followed by an empty slot (or by the end of the
store) ends where the chain ends, with the cache the chain describes. -/
theorem playbackLoop_of_replays {faults : Faults} (reads : ∀ n, faults .read n = false)
    {address stop : Nat} {cache : Nat → UInt8} {outcome : Option (Nat → UInt8)}
    (replays : Replays cfg memory address cache stop outcome)
    (blank : stop < cfg.backingSize → entryAt cfg memory stop = .empty)
    (fuel : Nat) (enough : stop < address + fuel) (s : State) (store : s.store = memory)
    (start : s.cache = cache) :
    ∃ next, OnlyRead s { next with cache := s.cache } ∧
      match outcome with
      | some final => playbackLoop cfg faults fuel address s = (.success, stop, next) ∧ next.cache = final
      | none => ∃ end', playbackLoop cfg faults fuel address s = (.failed, end', next) := by
  induction replays generalizing fuel s with
  | done address cache =>
    obtain ⟨fuel, rfl⟩ : ∃ n, fuel = n + 1 := ⟨fuel - 1, by omega⟩
    by_cases inside : address < cfg.backingSize
    · obtain ⟨next, only, round⟩ := playbackLoop_step cfg reads fuel address s inside
      rw [store, blank inside] at round
      refine ⟨next, ?_, round, only.cache.trans start⟩
      exact ⟨rfl, only.writeAddress, only.unlocked, only.store, only.trace⟩
    · refine ⟨s, OnlyRead.refl s, ?_, start⟩
      rw [playbackLoop, if_neg inside]
  | @patch address stop target size payload cache outcome inside decoded rest ih =>
    -- each entry takes at least one byte of log, and one round of fuel
    obtain ⟨fuel, rfl⟩ : ∃ n, fuel = n + 1 := ⟨fuel - 1, by have := rest.le; omega⟩
    obtain ⟨mid, only, round⟩ := playbackLoop_step cfg reads fuel address s inside
    rw [store, decoded] at round
    have bounds := decodeEntry_size decoded
    obtain ⟨next, only', final⟩ := ih blank fuel (by omega)
      { mid with cache := blit s.cache target payload } (only.store.trans store) (by rw [start])
    have first : OnlyRead s { mid with cache := s.cache } :=
      ⟨rfl, only.writeAddress, only.unlocked, only.store, only.trace⟩
    have second : OnlyRead { mid with cache := s.cache } { next with cache := s.cache } :=
      ⟨rfl, only'.writeAddress, only'.unlocked, only'.store, only'.trace⟩
    refine ⟨next, first.trans second, ?_⟩
    rw [round]
    exact final
  | corrupt inside before decoded =>
    rename_i address stop cache
    obtain ⟨fuel, rfl⟩ : ∃ n, fuel = n + 1 := ⟨fuel - 1, by omega⟩
    obtain ⟨next, only, round⟩ := playbackLoop_step cfg reads fuel address s inside
    rw [store, decoded] at round
    obtain ⟨end', round⟩ := round
    refine ⟨next, ⟨rfl, only.writeAddress, only.unlocked, only.store, only.trace⟩, end', round⟩

end QmkFirmware.WearLeveling
