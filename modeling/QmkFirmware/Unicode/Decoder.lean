import QmkFirmware.Unicode.Model
import Mathlib.Tactic.SplitIfs

/-! # The UTF-8 decoder

The lead byte alone decides how many bytes `decode_utf8` takes for one code point.  On the encoding of a Unicode scalar
value it gives the value and the place behind it.
-/

namespace QmkFirmware.Unicode

/-! ## Lead bytes -/

/-- The number of bytes that a lead byte announces. -/
def announced (lead : UInt8) : Nat :=
  if lead < 0xC0 then 1 else if lead < 0xE0 then 2 else if lead < 0xF0 then 3 else if lead ≤ 0xF4 then 4 else 1

theorem lead_two (n : Nat) (byte : n < 256) : n &&& 0xE0 = 0xC0 ↔ 0xC0 ≤ n ∧ n < 0xE0 := by
  revert n
  decide +kernel

theorem lead_three (n : Nat) (byte : n < 256) : n &&& 0xF0 = 0xE0 ↔ 0xE0 ≤ n ∧ n < 0xF0 := by
  revert n
  decide +kernel

theorem lead_four (n : Nat) (byte : n < 256) : n &&& 0xF8 = 0xF0 ↔ 0xF0 ≤ n ∧ n < 0xF8 := by
  revert n
  decide +kernel

section Lead

variable (memory : Nat → UInt8) (str : Nat)

theorem announced_pos (lead : UInt8) : 1 ≤ announced lead := by
  unfold announced
  split_ifs <;> decide

theorem decodeLead_length : (decodeLead memory str).2 = announced (memory str) := by
  have byte := (memory str).toNat_lt
  unfold decodeLead announced
  simp only [Nat.add_zero, UInt8.lt_iff_toNat_lt, UInt8.le_iff_toNat_le, UInt8.reduceToNat]
  generalize (memory str).toNat = lead at byte
  simp only [lead_two lead byte, lead_three lead byte, lead_four lead byte]
  split_ifs <;> first | rfl | omega

/-- A continuation byte adds six bits. -/
theorem or_continuation (high byte : Nat) : high <<< 6 ||| (byte &&& 0x3F) = high * 64 + byte % 64 := by
  rw [show 0x3F = 2 ^ 6 - 1 from rfl, Nat.and_two_pow_sub_one_eq_mod,
    ← Nat.shiftLeft_add_eq_or_of_lt (Nat.mod_lt _ (by decide)), Nat.shiftLeft_eq]

theorem shift_or (high low n : Nat) : high <<< (6 + n) ||| low <<< n = (high <<< 6 ||| low) <<< n := by
  rw [Nat.shiftLeft_or_distrib, Nat.shiftLeft_add]

/-! ## The code point of each length -/

variable {memory str}

theorem decodeLead_one (lead : (memory str).toNat < 0x80) : decodeLead memory str = (((memory str).toNat : Int), 1) :=
  if_pos lead

theorem decodeLead_two (lead : 0xC0 ≤ (memory str).toNat ∧ (memory str).toNat < 0xE0) :
    decodeLead memory str = (↑((memory str).toNat % 32 * 64 + (memory (str + 1)).toNat % 64), 2) := by
  have mask : (memory str).toNat &&& 0x1F = (memory str).toNat % 32 := Nat.and_two_pow_sub_one_eq_mod _ 5
  unfold decodeLead
  simp only [Nat.add_zero]
  rw [if_neg (by omega), if_pos ((lead_two _ (memory str).toNat_lt).mpr lead), or_continuation, mask]

theorem decodeLead_three (lead : 0xE0 ≤ (memory str).toNat ∧ (memory str).toNat < 0xF0) :
    decodeLead memory str =
      (↑(((memory str).toNat % 16 * 64 + (memory (str + 1)).toNat % 64) * 64 + (memory (str + 2)).toNat % 64), 3) := by
  have mask : (memory str).toNat &&& 0x0F = (memory str).toNat % 16 := Nat.and_two_pow_sub_one_eq_mod _ 4
  have two := mt (lead_two _ (memory str).toNat_lt).mp (by omega)
  unfold decodeLead
  simp only [Nat.add_zero]
  rw [if_neg (by omega), if_neg two, if_pos ((lead_three _ (memory str).toNat_lt).mpr lead), shift_or _ _ 6,
    or_continuation, or_continuation, mask]

theorem decodeLead_four (lead : 0xF0 ≤ (memory str).toNat ∧ (memory str).toNat ≤ 0xF4) :
    decodeLead memory str =
      (↑((((memory str).toNat % 8 * 64 + (memory (str + 1)).toNat % 64) * 64 + (memory (str + 2)).toNat % 64) * 64 +
        (memory (str + 3)).toNat % 64), 4) := by
  have mask : (memory str).toNat &&& 0x07 = (memory str).toNat % 8 := Nat.and_two_pow_sub_one_eq_mod _ 3
  have two := mt (lead_two _ (memory str).toNat_lt).mp (by omega)
  have three := mt (lead_three _ (memory str).toNat_lt).mp (by omega)
  have four := (lead_four _ (memory str).toNat_lt).mpr (by omega)
  unfold decodeLead
  simp only [Nat.add_zero]
  rw [if_neg (by omega), if_neg two, if_neg three, if_pos ⟨four, lead.2⟩, shift_or _ _ 12,
    shift_or _ _ 6,
    or_continuation, or_continuation, or_continuation, mask]

end Lead

/-! ## Encodings -/

/-- The bytes are in the memory. -/
def Holds (memory : Nat → UInt8) (str : Nat) (bytes : List UInt8) : Prop :=
  ∀ i (inside : i < bytes.length), memory (str + i) = bytes[i]

section Encoding

variable {memory : Nat → UInt8} {str : Nat}

theorem holds_cons {byte : UInt8} {bytes : List UInt8} :
    Holds memory str (byte :: bytes) ↔ memory str = byte ∧ Holds memory (str + 1) bytes := by
  constructor
  · intro held
    refine ⟨held 0 (by simp), fun i inside => ?_⟩
    have next := held (i + 1) (by simpa using inside)
    rwa [← Nat.add_assoc, Nat.add_right_comm] at next
  · rintro ⟨first, rest⟩ i inside
    cases i with
    | zero => exact first
    | succ i =>
      have next := rest i (by simpa using inside)
      rwa [Nat.add_right_comm, Nat.add_assoc] at next

theorem holds_append {bytes more : List UInt8} :
    Holds memory str (bytes ++ more) ↔ Holds memory str bytes ∧ Holds memory (str + bytes.length) more := by
  induction bytes generalizing str with
  | nil => simp [Holds]
  | cons byte bytes ih =>
    rw [List.cons_append, holds_cons, holds_cons, ih, and_assoc, List.length_cons, Nat.add_assoc, Nat.add_comm 1]

/-- The memory of the bytes of a list. -/
def bytesAt (bytes : List UInt8) (place : Nat) : UInt8 := bytes.getD place 0

theorem holds_bytesAt (bytes : List UInt8) : Holds (bytesAt bytes) 0 bytes := by
  intro i inside
  simp [bytesAt, inside]

/-- The lead of an encoding is decoded to the character. -/
theorem decodeLead_encode (c : Char) (held : Holds memory str (String.utf8EncodeChar c)) :
    decodeLead memory str = ((c.toNat : Int), (String.utf8EncodeChar c).length) := by
  have valid : c.val.toNat < 0x110000 := by
    have := c.valid
    unfold UInt32.isValidChar Nat.isValidChar at this
    omega
  have value : c.toNat = c.val.toNat := rfl
  unfold String.utf8EncodeChar at held ⊢
  dsimp only at held ⊢
  rw [value]
  generalize c.val.toNat = v at held valid
  split_ifs at held ⊢ with one two three
  · have lead := (holds_cons.mp held).1
    have byte : (memory str).toNat = v := by
      rw [lead, UInt8.toNat_ofNat']
      omega
    rw [decodeLead_one (by omega), byte]
    rfl
  · obtain ⟨lead, rest⟩ := holds_cons.mp held
    have last := (holds_cons.mp rest).1
    have byte : (memory str).toNat = v / 64 % 0x20 + 0xC0 := by
      rw [lead, UInt8.toNat_ofNat']
      omega
    have byte' : (memory (str + 1)).toNat = v % 0x40 + 0x80 := by
      rw [last, UInt8.toNat_ofNat']
      omega
    rw [decodeLead_two (by omega), byte, byte']
    congr 2
    omega
  · obtain ⟨lead, rest⟩ := holds_cons.mp held
    obtain ⟨middle, rest⟩ := holds_cons.mp rest
    have last := (holds_cons.mp rest).1
    have byte : (memory str).toNat = v / 4096 % 0x10 + 0xE0 := by
      rw [lead, UInt8.toNat_ofNat']
      omega
    have byte' : (memory (str + 1)).toNat = v / 64 % 0x40 + 0x80 := by
      rw [middle, UInt8.toNat_ofNat']
      omega
    have byte'' : (memory (str + 2)).toNat = v % 0x40 + 0x80 := by
      rw [last, UInt8.toNat_ofNat']
      omega
    rw [decodeLead_three (by omega), byte, byte', byte'']
    congr 2
    omega
  · obtain ⟨lead, rest⟩ := holds_cons.mp held
    obtain ⟨second, rest⟩ := holds_cons.mp rest
    obtain ⟨third, rest⟩ := holds_cons.mp rest
    have last := (holds_cons.mp rest).1
    have byte : (memory str).toNat = v / 262144 % 0x08 + 0xF0 := by
      rw [lead, UInt8.toNat_ofNat']
      omega
    have byte' : (memory (str + 1)).toNat = v / 4096 % 0x40 + 0x80 := by
      rw [second, UInt8.toNat_ofNat']
      omega
    have byte'' : (memory (str + 2)).toNat = v / 64 % 0x40 + 0x80 := by
      rw [third, UInt8.toNat_ofNat']
      omega
    have byte''' : (memory (str + 3)).toNat = v % 0x40 + 0x80 := by
      rw [last, UInt8.toNat_ofNat']
      omega
    rw [decodeLead_four (by omega), byte, byte', byte'', byte''']
    congr 2
    omega

theorem decodeUtf8_encode (c : Char) (held : Holds memory str (String.utf8EncodeChar c)) :
    decodeUtf8 memory str = ((c.toNat : Int), str + (String.utf8EncodeChar c).length) := by
  have valid : c.toNat < 0xD800 ∨ 0xDFFF < c.toNat := by
    have valid := c.valid
    unfold UInt32.isValidChar Nat.isValidChar at valid
    exact valid.imp_right And.left
  rw [decodeUtf8, decodeLead_encode c held]
  rw [if_neg (by omega)]

/-- Only the NUL is encoded with a NUL. -/
theorem encode_ne_zero {c : Char} (nonzero : 1 ≤ c.toNat) (held : Holds memory str (String.utf8EncodeChar c)) :
    memory str ≠ 0 := by
  intro zero
  have lead : (memory str).toNat = 0 := by rw [zero]; rfl
  have decoded := congrArg Prod.fst (decodeLead_encode c held)
  rw [decodeLead_one (by omega), lead] at decoded
  have none : ((0 : Nat) : Int) = (c.toNat : Int) := decoded
  omega

end Encoding

end QmkFirmware.Unicode
