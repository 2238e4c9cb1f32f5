import QmkFirmware.WearLeveling.Playback

/-! # The entries of one write

`wear_leveling_write_raw` splits a write into log entries.  `logEntries` lists
them without touching any state; `wearLevelingWriteRaw_eq` says that the code
appends exactly their words, and `nextEntry_decodes` that playback decodes each
of them to the bytes it was made from.
-/

namespace QmkFirmware.WearLeveling

open QmkFirmware.Memory

/-- A log entry about to be written: the bytes it covers, the entry union, and
the number of its words that reach the store. -/
structure LoggedEntry where
  payload : List UInt8
  log : List UInt8
  count : Nat
  deriving DecidableEq, Repr

def LoggedEntry.words (size : WriteSize) (entry : LoggedEntry) : List (List UInt8) :=
  (List.range entry.count).map (rawWord size entry.log)

/-- The entry that one round of the write loop makes for the head of `p`. -/
def nextEntry (size : WriteSize) (address : Nat) (p : List UInt8) : LoggedEntry :=
  if size = .two ∧ 2 ≤ p.length ∧ address % 2 = 0 ∧ address < 16384 ∧
      (leadingWord p = 0 ∨ leadingWord p = 1) then
    ⟨p.take 2, logEntryMakeWord01 address (leadingWord p), 1⟩
  else if size = .two ∧ address < 64 then
    ⟨p.take 1, logEntryMakeOptimized64 address (p.getD 0 0), 1⟩
  else
    let payload := p.take logEntryMultibyteMaxBytes
    ⟨payload, logEntrySetPayload (logEntryMakeMultibyte address payload.length) payload,
      multibyteSize size payload.length / size.bytes⟩

def logEntries (size : WriteSize) : Nat → Nat → List UInt8 → List LoggedEntry
  | 0, _, _ => []
  | fuel + 1, address, p =>
    if p = [] then []
    else
      let entry := nextEntry size address p
      entry :: logEntries size fuel ((address + entry.payload.length) % 2 ^ 32) (p.drop entry.payload.length)

/-- All words of a write, in the order they are appended. -/
def logWords (size : WriteSize) (entries : List LoggedEntry) : List (List UInt8) :=
  entries.flatMap (LoggedEntry.words size)

/-! ## Words -/

@[simp] theorem length_words (size : WriteSize) (entry : LoggedEntry) :
    (entry.words size).length = entry.count := by
  simp [LoggedEntry.words]

/-- The words of an entry are the front of its union. -/
theorem flatten_words (size : WriteSize) (log : List UInt8) (count : Nat) :
    ((List.range count).map (rawWord size log)).flatten = log.take (count * size.bytes) := by
  induction count with
  | zero => simp
  | succ count ih =>
    rw [List.range_succ, List.map_append, List.flatten_append, ih, Nat.succ_mul, List.take_add]
    simp [rawWord]

theorem length_of_mem_words {size : WriteSize} {entry : LoggedEntry}
    (fits : entry.count * size.bytes ≤ entry.log.length) {word : List UInt8}
    (member : word ∈ entry.words size) : word.length = size.bytes := by
  obtain ⟨k, bound, rfl⟩ := List.mem_map.mp member
  have bound : k < entry.count := List.mem_range.mp bound
  have inside : (k + 1) * size.bytes ≤ entry.count * size.bytes := Nat.mul_le_mul_right _ bound
  rw [Nat.succ_mul] at inside
  simp only [rawWord, List.length_take, List.length_drop]
  omega

/-! ## The code appends these words -/

section Append

variable (cfg : Config) (faults : Faults)

theorem wearLevelingAppendAll_append (first second : List (List UInt8)) (s : State) :
    wearLevelingAppendAll cfg faults (first ++ second) s =
      onSuccess (wearLevelingAppendAll cfg faults first s) (wearLevelingAppendAll cfg faults second) := by
  induction first generalizing s with
  | nil => rfl
  | cons value first ih =>
    rw [List.cons_append, wearLevelingAppendAll, wearLevelingAppendAll]
    rcases wearLevelingAppendRaw cfg faults value s with ⟨status, next⟩
    cases status with
    | success => exact ih next
    | failed | consolidated => rfl

theorem wearLevelingAppendAll_singleton (value : List UInt8) (s : State) :
    wearLevelingAppendAll cfg faults [value] s = wearLevelingAppendRaw cfg faults value s := by
  rw [wearLevelingAppendAll]
  rcases wearLevelingAppendRaw cfg faults value s with ⟨status, next⟩
  cases status <;> rfl

theorem multibyteWords_eq (size : WriteSize) (address : Nat) (value : List UInt8) :
    multibyteWords size address value =
      LoggedEntry.words size
        ⟨value, logEntrySetPayload (logEntryMakeMultibyte address value.length) value,
          multibyteSize size value.length / size.bytes⟩ := by
  -- the code appends a word more for each of these bounds that the length exceeds
  by_cases first : value.length > 1 <;> by_cases third : value.length > 3
  all_goals
    cases size <;>
      simp [multibyteWords, LoggedEntry.words, multibyteSize, WriteSize.bytes, first, third,
        List.range_succ, List.range_zero]
  all_goals omega

theorem wearLevelingWriteRaw_eq (fuel address : Nat) (p : List UInt8) (s : State) :
    wearLevelingWriteRaw cfg faults fuel address p s =
      wearLevelingAppendAll cfg faults (logWords cfg.writeSize (logEntries cfg.writeSize fuel address p)) s := by
  induction fuel generalizing address p s with
  | zero => rfl
  | succ fuel ih =>
    have rest : ∀ address p, wearLevelingWriteRaw cfg faults fuel address p =
        wearLevelingAppendAll cfg faults
          (logWords cfg.writeSize (logEntries cfg.writeSize fuel address p)) :=
      fun address p => funext fun s => ih address p s
    rw [wearLevelingWriteRaw, logEntries]
    by_cases empty : p = []
    · simp [empty, logWords, wearLevelingAppendAll]
    simp only [empty, if_false, logWords, List.flatMap_cons, wearLevelingAppendAll_append]
    -- one round of the loop: the three encodings in the order in which the code tries them
    by_cases word : cfg.writeSize = .two ∧ 2 ≤ p.length ∧ address % 2 = 0 ∧ address < 16384 ∧
        (leadingWord p = 0 ∨ leadingWord p = 1)
    · have length : (p.take 2).length = 2 := by simp; omega
      simp only [nextEntry, if_pos word, length, LoggedEntry.words, List.range_one, List.map_cons,
        List.map_nil, wearLevelingAppendAll_singleton, rest, logWords]
    · by_cases small : cfg.writeSize = .two ∧ address < 64
      · have length : (p.take 1).length = 1 := by
          have := List.length_pos_iff.mpr empty
          simp; omega
        simp only [nextEntry, if_neg word, if_pos small, length, LoggedEntry.words, List.range_one,
          List.map_cons, List.map_nil, wearLevelingAppendAll_singleton, rest, logWords]
      · have take : p.take (if p.length ≥ logEntryMultibyteMaxBytes then logEntryMultibyteMaxBytes
            else p.length) = p.take logEntryMultibyteMaxBytes := by
          split
          · rfl
          · rw [List.take_of_length_le (Nat.le_refl _), List.take_of_length_le (by omega)]
        have length : (p.take logEntryMultibyteMaxBytes).length =
            if p.length ≥ logEntryMultibyteMaxBytes then logEntryMultibyteMaxBytes else p.length := by
          rw [List.length_take]
          split <;> omega
        simp only [nextEntry, if_neg word, if_neg small, take, wearLevelingWriteRawMultibyte,
          multibyteWords_eq, rest, logWords, length]

end Append

/-! ## Decoding the entries of a write -/

section Decode

variable (cfg : Config)

theorem first_word_nonzero {log : List UInt8} (size : WriteSize) (nonzero : log.getD 0 0 ≠ 0) :
    ¬ (log.take size.bytes).all (· = 0) := by
  cases log with
  | nil => exact absurd rfl nonzero
  | cons byte rest =>
    obtain ⟨n, bytes⟩ : ∃ n, size.bytes = n + 1 := ⟨size.bytes - 1, by have := writeSize_bytes_pos size; omega⟩
    rw [bytes, List.take_succ_cons]
    simp only [List.all_cons, Bool.and_eq_true, decide_eq_true_eq, not_and]
    intro zero
    exact absurd zero nonzero

/-- Any eight bytes that start with the first byte of a multi-byte entry decode
to that entry's length, at the address their next two bytes give. -/
theorem decodeEntry_multibyte (log : List UInt8) (address length : Nat) (positive : 0 < length)
    (short : length < 8) (header : log.getD 0 0 = (logEntryMakeMultibyte address length).getD 0 0) :
    decodeEntry cfg log =
      let a := address / 65536 % 8 * 65536 + raw8 log 1 * 256 + raw8 log 2
      if a + length > cfg.logicalSize then .corrupt
      else .patch a ((List.range length).map fun k => log.getD (3 + k) 0)
        (multibyteSize cfg.writeSize length) := by
  -- type, length and the upper address bits share the first byte
  obtain ⟨typeOf, lengthOf, highBits, nonzero⟩ := makeMultibyte_header address length short
  have sameByte : raw8 log 0 = raw8 (logEntryMakeMultibyte address length) 0 := by
    rw [raw8, raw8, header]
  have kind : logEntryGetType log = .multibyte := by
    rw [← typeOf, logEntryGetType, logEntryGetType, sameByte]
  have sameLength : logEntryMultibyteGetLength log = length := by
    rw [logEntryMultibyteGetLength, sameByte]
    exact lengthOf
  have sameAddress : logEntryMultibyteGetAddress log =
      address / 65536 % 8 * 65536 + raw8 log 1 * 256 + raw8 log 2 := by
    rw [logEntryMultibyteGetAddress, sameByte, highBits]
    exact join_address _ _ _ (UInt8.toNat_lt _) (UInt8.toNat_lt _)
  rw [decodeEntry, if_neg (first_word_nonzero cfg.writeSize (header ▸ nonzero positive)), kind]
  simp only [sameAddress, sameLength]

/-- The bytes of a multi-byte entry: three header bytes, the payload, zeros. -/
theorem getD_setPayload (address length : Nat) (payload : List UInt8) (k : Nat) :
    (logEntrySetPayload (logEntryMakeMultibyte address length) payload).getD k 0 =
      if k < 3 then (logEntryMakeMultibyte address length).getD k 0
      else payload.getD (k - 3) 0 := by
  have header : ((logEntryMakeMultibyte address length).take 3).length = 3 := rfl
  have zeros : ∀ j, 3 ≤ j → (logEntryMakeMultibyte address length).getD j 0 = 0 := by
    intro j low
    cases Nat.lt_or_ge j 8 with
    | inl high => interval_cases j <;> rfl
    | inr high =>
      rw [List.getD_eq_getElem?_getD, List.getElem?_eq_none (by exact high)]
      rfl
  simp only [List.getD_eq_getElem?_getD] at zeros ⊢
  unfold logEntrySetPayload
  split
  next low =>
    rw [List.append_assoc, List.getElem?_append_left (by omega), List.getElem?_take_of_lt low]
  next high =>
    rw [List.append_assoc, List.getElem?_append_right (by omega), header]
    cases Nat.lt_or_ge (k - 3) payload.length with
    | inl inside => rw [List.getElem?_append_left inside]
    | inr beyond =>
      rw [List.getElem?_append_right beyond, List.getElem?_drop, List.getElem?_eq_none beyond]
      exact zeros _ (by omega)

theorem length_setPayload (address length : Nat) (payload : List UInt8) (short : payload.length ≤ 5) :
    (logEntrySetPayload (logEntryMakeMultibyte address length) payload).length = 8 := by
  have full : (logEntryMakeMultibyte address length).length = 8 := rfl
  simp only [logEntrySetPayload, List.length_append, List.length_take, List.length_drop, full]
  omega

/-- What holds of an entry made for the bytes at `target`, wherever that is. -/
structure LoggedEntry.Recognised (entry : LoggedEntry) (target : Nat) : Prop where
  logLength : entry.log.length = 8
  countPos : 0 < entry.count
  size : entry.count * cfg.writeSize.bytes ≤ 8
  payloadPos : 0 < entry.payload.length
  /-- Playback recognises the entry's extent or rejects it. -/
  recognised : (decodeEntry cfg entry.log = .corrupt ∧
      headerSize cfg.writeSize ≤ entry.count * cfg.writeSize.bytes) ∨
    ∃ place, decodeEntry cfg entry.log =
      .patch place entry.payload (entry.count * cfg.writeSize.bytes)
  /-- Only multi-byte entries have several words. -/
  several : 1 < entry.count → entry.payload.length ≤ 5 ∧
    entry.log = logEntrySetPayload (logEntryMakeMultibyte target entry.payload.length) entry.payload ∧
    entry.count * cfg.writeSize.bytes = multibyteSize cfg.writeSize entry.payload.length

/-- What the rest of the development needs to know about an entry made for bytes inside the
logical area. -/
structure LoggedEntry.Valid (entry : LoggedEntry) (target : Nat) : Prop extends entry.Recognised cfg target where
  /-- While the logical size fits the 19 address bits, playback restores the payload in place. -/
  restores : cfg.logicalSize ≤ 2 ^ 19 →
    decodeEntry cfg entry.log = .patch target entry.payload (entry.count * cfg.writeSize.bytes)

theorem multibyteSize_div_mul (size : WriteSize) (length : Nat) :
    multibyteSize size length / size.bytes * size.bytes = multibyteSize size length := by
  by_cases first : length > 1 <;> by_cases third : length > 3 <;> cases size <;>
    simp [multibyteSize, WriteSize.bytes, first, third]

theorem map_getD_range (payload : List UInt8) :
    ((List.range payload.length).map fun k => payload.getD k 0) = payload := by
  apply List.ext_getElem
  · simp
  · intro k _ bound
    simp [List.getD_eq_getElem?_getD, List.getElem?_eq_getElem bound]

/-- A multi-byte entry decodes to the 19 low bits of its address. -/
theorem decode_multibyte (address : Nat) (payload : List UInt8) (positive : 0 < payload.length)
    (short : payload.length ≤ 5) :
    decodeEntry cfg (logEntrySetPayload (logEntryMakeMultibyte address payload.length) payload) =
      if address / 65536 % 8 * 65536 + address / 256 % 256 * 256 + address % 256 + payload.length > cfg.logicalSize then
        .corrupt
      else .patch (address / 65536 % 8 * 65536 + address / 256 % 256 * 256 + address % 256) payload
        (multibyteSize cfg.writeSize payload.length) := by
  have bytes := getD_setPayload address payload.length payload
  have decoded := decodeEntry_multibyte cfg _ address payload.length positive (by omega) (bytes 0)
  have mid : raw8 (logEntrySetPayload (logEntryMakeMultibyte address payload.length) payload) 1 =
      address / 256 % 256 := by
    rw [raw8, bytes 1]
    exact makeMultibyte_raw8_one address payload.length
  have low : raw8 (logEntrySetPayload (logEntryMakeMultibyte address payload.length) payload) 2 =
      address % 256 := by
    rw [raw8, bytes 2]
    exact makeMultibyte_raw8_two address payload.length
  have data : ((List.range payload.length).map fun k =>
      (logEntrySetPayload (logEntryMakeMultibyte address payload.length) payload).getD (3 + k) 0) =
        payload := by
    refine Eq.trans ?_ (map_getD_range payload)
    apply List.map_congr_left
    intro k _
    rw [bytes (3 + k), if_neg (by omega), Nat.add_sub_cancel_left]
  simp only [mid, low, data] at decoded
  exact decoded

theorem multibyte_recognised (address : Nat) (payload : List UInt8) (positive : 0 < payload.length)
    (short : payload.length ≤ 5) :
    LoggedEntry.Recognised cfg
      ⟨payload, logEntrySetPayload (logEntryMakeMultibyte address payload.length) payload,
        multibyteSize cfg.writeSize payload.length / cfg.writeSize.bytes⟩ address := by
  have bounds := multibyteSize_bounds cfg.writeSize payload.length
  have size := multibyteSize_div_mul cfg.writeSize payload.length
  refine ⟨length_setPayload _ _ _ short, ?_, ?_, positive, ?_, fun _ => ⟨short, rfl, size⟩⟩
  · exact Nat.div_pos (by have := headerSize_le_multibyteSize cfg.writeSize payload.length
                          have := (le_headerSize cfg.writeSize).2; omega) (writeSize_bytes_pos _)
  · rw [size]
    exact bounds.2
  · simp only [size]
    rw [decode_multibyte cfg address payload positive short]
    split
    next => exact .inl ⟨rfl, headerSize_le_multibyteSize _ _⟩
    next => exact .inr ⟨_, rfl⟩

theorem multibyte_valid (address : Nat) (payload : List UInt8) (positive : 0 < payload.length)
    (short : payload.length ≤ 5) (inside : address + payload.length ≤ cfg.logicalSize) :
    LoggedEntry.Valid cfg
      ⟨payload, logEntrySetPayload (logEntryMakeMultibyte address payload.length) payload,
        multibyteSize cfg.writeSize payload.length / cfg.writeSize.bytes⟩ address := by
  refine ⟨multibyte_recognised cfg address payload positive short, fun fits => ?_⟩
  -- here the 19 address bits are used: the upper part is only three bits wide
  have place : address / 65536 % 8 * 65536 + address / 256 % 256 * 256 + address % 256 = address := by
    omega
  rw [decode_multibyte cfg address payload positive short, place, if_neg (by omega),
    multibyteSize_div_mul cfg.writeSize payload.length]

theorem take_two_of_leadingWord {p : List UInt8} (length : 2 ≤ p.length)
    (binary : leadingWord p = 0 ∨ leadingWord p = 1) :
    p.take 2 = [UInt8.ofNat (leadingWord p), 0] := by
  obtain ⟨low, high, rest, rfl⟩ : ∃ low high rest, p = low :: high :: rest := by
    match p, length with
    | low :: high :: rest, _ => exact ⟨low, high, rest, rfl⟩
  have lowLt := UInt8.toNat_lt low
  have word : leadingWord (low :: high :: rest) = high.toNat * 256 + low.toNat := by
    simp only [leadingWord, List.getD_cons_zero, List.getD_cons_succ]
    rw [← Nat.shiftLeft_add_eq_or_of_lt (by omega), Nat.shiftLeft_eq]
  rw [word] at binary ⊢
  -- the word is at most 1, and so has no upper byte
  have highZero : high.toNat = 0 := by omega
  have high0 : high = 0 := UInt8.toNat_inj.mp highZero
  subst high0
  simp

/-- The first entry of a write covers a non-empty front part of its data. -/
theorem nextEntry_payload (size : WriteSize) (address : Nat) {p : List UInt8} (nonempty : p ≠ []) :
    (nextEntry size address p).payload = p.take (nextEntry size address p).payload.length ∧
      0 < (nextEntry size address p).payload.length := by
  have positive := List.length_pos_iff.mpr nonempty
  unfold nextEntry
  split
  next word => simp; omega
  next =>
    split
    next => simp; omega
    next => simp [logEntryMultibyteMaxBytes]; omega

/-- An entry made by the write loop for data inside the logical area is valid. -/
theorem nextEntry_valid (address : Nat) {p : List UInt8} (nonempty : p ≠ [])
    (inside : address + p.length ≤ cfg.logicalSize) :
    (nextEntry cfg.writeSize address p).Valid cfg address := by
  have positive := List.length_pos_iff.mpr nonempty
  unfold nextEntry
  split
  next word =>
    obtain ⟨two, length, even, small, binary⟩ := word
    obtain ⟨kind, place, value, nonzero⟩ := word01_roundtrip address (leadingWord p) even small binary
    have payload : p.take 2 = [UInt8.ofNat (leadingWord p), 0] := take_two_of_leadingWord length binary
    have decoded : decodeEntry cfg (logEntryMakeWord01 address (leadingWord p)) =
        .patch address (p.take 2) (1 * cfg.writeSize.bytes) := by
      rw [decodeEntry, if_neg (first_word_nonzero cfg.writeSize nonzero), kind]
      simp only [place, value, two, WriteSize.bytes, payload, ne_eq, not_true_eq_false, false_or]
      rw [if_neg (by omega)]
    exact ⟨⟨rfl, Nat.one_pos, by simp [two, WriteSize.bytes], by simp; omega, .inr ⟨address, decoded⟩,
      fun several => absurd several (Nat.lt_irrefl 1)⟩, fun _ => decoded⟩
  next =>
    split
    next small =>
      obtain ⟨two, small⟩ := small
      obtain ⟨kind, place, value, nonzero⟩ := optimized64_roundtrip address (p.getD 0 0) small
      have payload : p.take 1 = [p.getD 0 0] := by
        cases p with
        | nil => exact absurd rfl nonempty
        | cons => rfl
      have decoded : decodeEntry cfg (logEntryMakeOptimized64 address (p.getD 0 0)) =
          .patch address (p.take 1) (1 * cfg.writeSize.bytes) := by
        rw [decodeEntry, if_neg (first_word_nonzero cfg.writeSize nonzero), kind]
        simp only [place, value, two, WriteSize.bytes, payload, ne_eq, not_true_eq_false, false_or]
        rw [if_neg (by omega)]
      exact ⟨⟨rfl, Nat.one_pos, by simp [two, WriteSize.bytes], by simp; omega, .inr ⟨address, decoded⟩,
        fun several => absurd several (Nat.lt_irrefl 1)⟩, fun _ => decoded⟩
    next =>
      apply multibyte_valid
      · simp [logEntryMultibyteMaxBytes]; omega
      · simp [logEntryMultibyteMaxBytes]
      · simp; omega

/-- The addresses at which the write loop makes an entry of a range that has passed the check:
inside the logical area, or far behind it in a range whose end has wrapped. -/
def EntryAddress (address length : Nat) : Prop :=
  address + length ≤ cfg.logicalSize ∨
    16384 ≤ address ∧ address < 2 ^ 32 ∧ 2 ^ 32 ≤ address + length ∧ address + length ≤ 2 ^ 32 + cfg.logicalSize

theorem nextEntry_recognised {address : Nat} {p : List UInt8} (nonempty : p ≠ [])
    (place : EntryAddress cfg address p.length) : (nextEntry cfg.writeSize address p).Recognised cfg address := by
  cases place with
  | inl inside => exact (nextEntry_valid cfg address nonempty inside).toRecognised
  | inr far =>
    have positive := List.length_pos_iff.mpr nonempty
    rw [nextEntry, if_neg (by omega), if_neg (by omega)]
    apply multibyte_recognised
    · simp [logEntryMultibyteMaxBytes]; omega
    · simp [logEntryMultibyteMaxBytes]

/-- Every entry of a write is recognised, also where the range wraps. -/
theorem logEntries_recognised (fuel : Nat) {address : Nat} {p : List UInt8}
    (place : EntryAddress cfg address p.length) :
    ∀ entry ∈ logEntries cfg.writeSize fuel address p, ∃ target, entry.Recognised cfg target := by
  induction fuel generalizing address p with
  | zero => exact fun entry member => absurd member List.not_mem_nil
  | succ fuel ih =>
    rw [logEntries]
    split
    next => exact fun entry member => absurd member List.not_mem_nil
    next nonempty =>
      obtain ⟨front, positive⟩ := nextEntry_payload cfg.writeSize address nonempty
      have short : (nextEntry cfg.writeSize address p).payload.length ≤ p.length := by
        rw [front, List.length_take]
        exact Nat.min_le_right _ _
      have wide := cfg.twice
      have addressable := cfg.addressable
      have next : EntryAddress cfg ((address + (nextEntry cfg.writeSize address p).payload.length) % 2 ^ 32)
          (p.drop (nextEntry cfg.writeSize address p).payload.length).length := by
        rw [List.length_drop, EntryAddress]
        generalize (nextEntry cfg.writeSize address p).payload.length = length at positive short
        rw [EntryAddress] at place
        omega
      simp only [List.forall_mem_cons]
      exact ⟨⟨address, nextEntry_recognised cfg nonempty place⟩, ih next⟩

/-- `entries` are valid and their payloads are `p`, laid out from `address` on. -/
inductive Splits : Nat → List UInt8 → List LoggedEntry → Prop where
  | nil (address : Nat) : Splits address [] []
  | cons {address : Nat} {rest : List UInt8} {entry : LoggedEntry} {entries : List LoggedEntry}
      (valid : entry.Valid cfg address)
      (tail : Splits (address + entry.payload.length) rest entries) :
      Splits address (entry.payload ++ rest) (entry :: entries)

/-- The write loop splits its data into valid entries. -/
theorem logEntries_splits (fuel address : Nat) (p : List UInt8) (enough : p.length ≤ fuel)
    (inside : address + p.length ≤ cfg.logicalSize) :
    Splits cfg address p (logEntries cfg.writeSize fuel address p) := by
  induction fuel generalizing address p with
  | zero =>
    rw [List.length_eq_zero_iff.mp (by omega : p.length = 0)]
    exact .nil address
  | succ fuel ih =>
    rw [logEntries]
    split
    next empty =>
      rw [empty]
      exact .nil address
    next nonempty =>
      obtain ⟨front, positive⟩ := nextEntry_payload cfg.writeSize address nonempty
      have short : (nextEntry cfg.writeSize address p).payload.length ≤ p.length := by
        rw [front, List.length_take]
        exact Nat.min_le_right _ _
      have joined : p = (nextEntry cfg.writeSize address p).payload ++
          p.drop (nextEntry cfg.writeSize address p).payload.length := by
        conv_lhs => rw [← List.take_append_drop (nextEntry cfg.writeSize address p).payload.length p]
        rw [← front]
      have tail := ih (address + (nextEntry cfg.writeSize address p).payload.length)
        (p.drop (nextEntry cfg.writeSize address p).payload.length)
        (by rw [List.length_drop]; omega) (by rw [List.length_drop]; omega)
      -- the recursion is on the bytes behind the first entry
      have whole := Splits.cons (nextEntry_valid cfg address nonempty inside) tail
      have wide := cfg.twice
      have addressable := cfg.addressable
      rwa [← joined, ← Nat.mod_eq_of_lt (show address + (nextEntry cfg.writeSize address p).payload.length < 2 ^ 32 by
        omega)] at whole

variable {cfg}

theorem words_sizes {entries : List LoggedEntry} (recognised : ∀ entry ∈ entries, ∃ target, entry.Recognised cfg target) :
    ∀ word ∈ logWords cfg.writeSize entries, word.length = cfg.writeSize.bytes := by
  intro word member
  obtain ⟨entry, isEntry, isWord⟩ := List.mem_flatMap.mp member
  obtain ⟨target, shape⟩ := recognised entry isEntry
  exact length_of_mem_words (by rw [shape.logLength]; exact shape.size) isWord

theorem words_ne_nil {entries : List LoggedEntry} (recognised : ∀ entry ∈ entries, ∃ target, entry.Recognised cfg target)
    (nonempty : entries ≠ []) : logWords cfg.writeSize entries ≠ [] := by
  obtain ⟨entry, rest, rfl⟩ := List.exists_cons_of_ne_nil nonempty
  obtain ⟨target, shape⟩ := recognised entry List.mem_cons_self
  have words : entry.words cfg.writeSize ≠ [] := by
    apply List.ne_nil_of_length_pos
    rw [length_words]
    exact shape.countPos
  simp [logWords, words]

theorem Splits.recognised {address : Nat} {p : List UInt8} {entries : List LoggedEntry}
    (splits : Splits cfg address p entries) : ∀ entry ∈ entries, ∃ target, entry.Recognised cfg target := by
  induction splits with
  | nil => exact fun entry member => absurd member List.not_mem_nil
  | cons valid _ ih => exact List.forall_mem_cons.mpr ⟨⟨_, valid.toRecognised⟩, ih⟩

theorem logEntries_ne_nil (size : WriteSize) (address : Nat) {value : List UInt8} (nonempty : value ≠ []) :
    logEntries size value.length address value ≠ [] := by
  obtain ⟨byte, bytes, rfl⟩ := List.exists_cons_of_ne_nil nonempty
  rw [List.length_cons, logEntries, if_neg nonempty]
  exact List.cons_ne_nil _ _

end Decode

end QmkFirmware.WearLeveling
