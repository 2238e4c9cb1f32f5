import Mathlib.Tactic

/-! # Data in system exclusive messages

`sysex_tools.c`: bytes of data as bytes below 0x80, the high bits of seven bytes before them.
-/

namespace QmkFirmware.Midi

abbrev Byte := BitVec 8

def sysexEncodedLength (decodedLength : Nat) : Nat :=
  (if decodedLength % 7 ≠ 0 then decodedLength / 7 * 8 + decodedLength % 7 + 1 else decodedLength / 7 * 8) % 65536

def sysexDecodedLength (encodedLength : Nat) : Nat :=
  (if encodedLength % 8 ≠ 0 then encodedLength / 8 * 7 + encodedLength % 8 - 1 else encodedLength / 8 * 7) % 65536

/-- The high bits of the bytes of a section, from index `j` on. -/
def sectionMsbs : Nat → List Byte → Byte
  | _, [] => 0
  | j, current :: rest => (0x80#8 &&& current) >>> (1 + j) ||| sectionMsbs (j + 1) rest

def encodeSection (source : List Byte) : List Byte :=
  sectionMsbs 0 source :: source.map fun current => 0x7F#8 &&& current

/-- Full sections, and the rest if there is any more. An index of a byte is a `uint16_t`, which is enough for the encoding
of what is below 57344 bytes. -/
def sysexEncode : List Byte → List Byte
  | [] => []
  | a :: b :: c :: d :: e :: f :: g :: source => encodeSection [a, b, c, d, e, f, g] ++ sysexEncode source
  | source => encodeSection source

/-- The bytes of a section after their high bits, from index `j` on. -/
def decodeBytes (msbs : Byte) : Nat → List Byte → List Byte
  | _, [] => []
  | j, byte :: rest => ((0x7F#8 &&& byte) ||| (0x80#8 &&& msbs <<< (1 + j))) :: decodeBytes msbs (j + 1) rest

def decodeSections : List Byte → List Byte
  | [] => []
  | msbs :: a :: b :: c :: d :: e :: f :: g :: source => decodeBytes msbs 0 [a, b, c, d, e, f, g] ++ decodeSections source
  | msbs :: source => decodeBytes msbs 0 source

def sysexDecode (source : List Byte) : List Byte := if source.length < 2 then [] else decodeSections source

/-! ## One section -/

theorem getLsbD_mask (byte : Byte) {i : Nat} (low : i < 7) : (0x7F#8 &&& byte).getLsbD i = byte.getLsbD i := by
  have masked : ∀ i < 7, (0x7F#8).getLsbD i = true := by decide
  rw [BitVec.getLsbD_and, masked i low, Bool.true_and]

theorem getLsbD_mask_high (byte : Byte) : (0x7F#8 &&& byte).getLsbD 7 = false := by
  rw [BitVec.getLsbD_and]
  rfl

theorem getLsbD_high {i : Nat} (byte : Byte) : (0x80#8 &&& byte).getLsbD i = (decide (i = 7) && byte.getLsbD 7) := by
  rw [BitVec.getLsbD_and]
  by_cases high : i = 7
  · subst high
    rfl
  · have clear : (0x80#8).getLsbD i = false := by
      by_cases inside : i < 8
      · have clears : ∀ i < 8, i ≠ 7 → (0x80#8).getLsbD i = false := by decide
        exact clears i inside high
      · exact BitVec.getLsbD_of_ge _ _ (by omega)
    simp [clear, high]

/-- The bits above those of a section's bytes are clear. -/
theorem getLsbD_sectionMsbs_above (source : List Byte) {j i : Nat} (above : 6 < j + i) :
    (sectionMsbs j source).getLsbD i = false := by
  induction source generalizing j with
  | nil => simp [sectionMsbs]
  | cons current rest ih =>
    rw [sectionMsbs, BitVec.getLsbD_or, BitVec.getLsbD_ushiftRight, getLsbD_high, ih (by omega),
      decide_eq_false (by omega)]
    rfl

/-- The high bit of the byte with index `j + k` is the bit `6 - (j + k)` of the first byte. -/
theorem getLsbD_sectionMsbs (source : List Byte) {j k : Nat} (inside : j + k < 7) :
    (sectionMsbs j source).getLsbD (6 - (j + k)) = (source[k]?.getD 0).getLsbD 7 := by
  induction source generalizing j k with
  | nil => simp [sectionMsbs]
  | cons current rest ih =>
    rw [sectionMsbs, BitVec.getLsbD_or, BitVec.getLsbD_ushiftRight, getLsbD_high]
    cases k with
    | zero =>
      rw [getLsbD_sectionMsbs_above rest (by omega), decide_eq_true (by omega)]
      simp
    | succ k =>
      have later := @ih (j + 1) k (by omega)
      rw [show j + (k + 1) = j + 1 + k by omega, later, decide_eq_false (by omega)]
      simp

theorem decodeBytes_mask {msbs : Byte} {source : List Byte} {j : Nat} (short : j + source.length ≤ 7)
    (bits : ∀ k < source.length, msbs.getLsbD (6 - (j + k)) = (source[k]?.getD 0).getLsbD 7) :
    decodeBytes msbs j (source.map fun current => 0x7F#8 &&& current) = source := by
  induction source generalizing j with
  | nil => rfl
  | cons current rest ih =>
    have first : (0x7F#8 &&& (0x7F#8 &&& current)) ||| (0x80#8 &&& msbs <<< (1 + j)) = current := by
      have bit := bits 0 (by simp)
      rw [List.length_cons] at short
      apply BitVec.eq_of_getLsbD_eq
      intro i inside
      rw [BitVec.getLsbD_or, getLsbD_high, BitVec.getLsbD_shiftLeft]
      by_cases high : i = 7
      · subst high
        rw [getLsbD_mask_high, show 7 - (1 + j) = 6 - (j + 0) by omega, bit]
        have after : ¬ 7 < 1 + j := by omega
        simp [after]
      · rw [getLsbD_mask _ (by omega), getLsbD_mask _ (by omega)]
        simp [high]
    rw [List.map_cons, decodeBytes, first]
    congr 1
    refine ih (by rw [List.length_cons] at short; omega) fun k before => ?_
    have bit := bits (k + 1) (by simpa using before)
    rw [show j + 1 + k = j + (k + 1) by omega]
    simpa using bit

theorem decode_encodeSection {source : List Byte} (short : source.length ≤ 7) :
    decodeBytes (sectionMsbs 0 source) 0 (source.map fun current => 0x7F#8 &&& current) = source :=
  decodeBytes_mask (by omega) fun k before => getLsbD_sectionMsbs source (by omega)

/-! ## Sections in a row -/

theorem decodeSections_full {msbs : Byte} {body : List Byte} (full : body.length = 7) (rest : List Byte) :
    decodeSections (msbs :: body ++ rest) = decodeBytes msbs 0 body ++ decodeSections rest := by
  match body, full with
  | [a, b, c, d, e, f, g], _ => rfl

theorem decodeSections_rest (msbs : Byte) {body : List Byte} (short : body.length < 7) :
    decodeSections (msbs :: body) = decodeBytes msbs 0 body := by
  match body, short with
  | [], _ | [_], _ | [_, _], _ | [_, _, _], _ | [_, _, _, _], _ | [_, _, _, _, _], _ | [_, _, _, _, _, _], _ => rfl

/-- What is left at the end is no full section. -/
theorem rest_short {source : List Byte}
    (rest : ∀ a b c d e f g more, source = a :: b :: c :: d :: e :: f :: g :: more → False) : source.length < 7 := by
  match source, rest with
  | a :: b :: c :: d :: e :: f :: g :: more, rest => exact (rest a b c d e f g more rfl).elim
  | [], _ | [_], _ | [_, _], _ | [_, _, _], _ | [_, _, _, _], _ | [_, _, _, _, _], _ | [_, _, _, _, _, _], _ => simp

theorem decodeSections_sysexEncode (source : List Byte) : decodeSections (sysexEncode source) = source := by
  fun_induction sysexEncode source with
  | case1 => rfl
  | case2 a b c d e f g source ih =>
    rw [encodeSection, decodeSections_full (by simp), decode_encodeSection (by simp), ih]
    rfl
  | case3 source some rest =>
    have short := rest_short rest
    rw [encodeSection, decodeSections_rest _ (by simpa using short), decode_encodeSection (Nat.le_of_lt short)]

/-- What has been encoded is decoded to the data. -/
theorem sysexDecode_sysexEncode (source : List Byte) : sysexDecode (sysexEncode source) = source := by
  rw [sysexDecode, decodeSections_sysexEncode]
  split
  · next short =>
    have decoded := decodeSections_sysexEncode source
    match coded : sysexEncode source, short with
    | [], _ | [_], _ => rw [← decoded, coded]; rfl
  · rfl

/-- The encoded bytes are data of a message. -/
theorem sysexEncode_data (source : List Byte) : ∀ byte ∈ sysexEncode source, byte.getLsbD 7 = false := by
  have sectionData (part : List Byte) (byte : Byte) (member : byte ∈ encodeSection part) : byte.getLsbD 7 = false := by
    rcases List.mem_cons.mp member with rfl | later
    · exact getLsbD_sectionMsbs_above part (by omega)
    · obtain ⟨current, -, rfl⟩ := List.mem_map.mp later
      exact getLsbD_mask_high current
  fun_induction sysexEncode source with
  | case1 => simp
  | case2 a b c d e f g source ih =>
    intro byte member
    rcases List.mem_append.mp member with first | later
    · exact sectionData _ byte first
    · exact ih byte later
  | case3 source some rest => exact sectionData source

theorem length_encodeSection (part : List Byte) : (encodeSection part).length = part.length + 1 := by
  simp [encodeSection]

theorem length_sysexEncode (source : List Byte) :
    (sysexEncode source).length =
      if source.length % 7 ≠ 0 then source.length / 7 * 8 + source.length % 7 + 1 else source.length / 7 * 8 := by
  fun_induction sysexEncode source with
  | case1 => rfl
  | case2 a b c d e f g source ih =>
    rw [List.length_append, length_encodeSection, ih]
    simp only [List.length_cons, List.length_nil]
    split_ifs <;> omega
  | case3 source some rest =>
    have short := rest_short rest
    have nonempty : source.length ≠ 0 := fun none => some (List.length_eq_zero_iff.mp none)
    rw [length_encodeSection, if_pos (by omega)]
    omega

theorem sysexEncodedLength_eq {source : List Byte} (fits : source.length < 57344) :
    sysexEncodedLength source.length = (sysexEncode source).length := by
  rw [sysexEncodedLength, length_sysexEncode]
  split_ifs <;> omega

theorem sysexDecodedLength_sysexEncodedLength {length : Nat} (fits : length < 57344) :
    sysexDecodedLength (sysexEncodedLength length) = length := by
  unfold sysexEncodedLength
  by_cases rest : length % 7 ≠ 0
  · rw [if_pos rest, Nat.mod_eq_of_lt (by omega), sysexDecodedLength, if_pos (by omega), Nat.mod_eq_of_lt (by omega)]
    omega
  · rw [if_neg rest, Nat.mod_eq_of_lt (by omega), sysexDecodedLength, if_neg (by omega), Nat.mod_eq_of_lt (by omega)]
    omega

end QmkFirmware.Midi
