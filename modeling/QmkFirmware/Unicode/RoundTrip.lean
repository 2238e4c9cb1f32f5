import QmkFirmware.Unicode.Decoder
import QmkFirmware.Unicode.Typing
import Mathlib.Data.List.Forall2

/-! # Unicode output

A string of Unicode scalar values, encoded in UTF-8, is typed value by value.
-/

namespace QmkFirmware.Unicode

/-- Each value is typed in order, and the modifiers are afterwards as they were before. -/
theorem sendUnicodeString_types (env : Env) (memory : Nat → UInt8) (chars : List Char)
    (nonzero : ∀ c ∈ chars, 1 ≤ c.toNat) (str : Nat) (s : State)
    (held : Holds memory str (chars.flatMap String.utf8EncodeChar ++ [0])) :
    ∃ fuel t typed, sendUnicodeString env memory fuel str s = some t ∧ t.mods = s.mods ∧
      List.Forall₂ (fun c outputs => Types env s.inputMode c.toNat outputs) chars typed ∧
      t.outputs = s.outputs ++ typed.flatten := by
  induction chars generalizing str s with
  | nil =>
    have terminator : memory str = 0 := (holds_cons.mp held).1
    exact ⟨1, s.read [str], [], if_pos terminator, rfl, .nil, (List.append_nil _).symm⟩
  | cons c chars ih =>
    rw [List.flatMap_cons, List.append_assoc] at held
    obtain ⟨here, rest⟩ := holds_append.mp held
    have some : memory str ≠ 0 := encode_ne_zero (nonzero c (List.mem_cons_self ..)) here
    have bound : c.toNat ≤ 0x10FFFF := by
      have valid := c.valid
      unfold UInt32.isValidChar Nat.isValidChar at valid
      show c.val.toNat ≤ _
      omega
    obtain ⟨outputs, types, added, mode, mods, -⟩ :=
      registerUnicode_spec env bound ((s.read [str]).read (decodeReads memory str))
    generalize next : registerUnicode env c.toNat ((s.read [str]).read (decodeReads memory str)) = u
      at added mode mods
    obtain ⟨fuel, t, typed, ran, kept, all, total⟩ :=
      ih (fun other later => nonzero other (List.mem_cons_of_mem _ later)) _ u rest
    refine ⟨fuel + 1, t, outputs :: typed, ?_, kept.trans mods, ?_, ?_⟩
    · rw [sendUnicodeString, if_neg some, decodeUtf8_encode c here]
      dsimp only
      rw [if_pos (Int.natCast_nonneg _), Int.toNat_natCast, next]
      exact ran
    · rw [mode] at all
      exact .cons types all
    · rw [total, added, List.flatten_cons, ← List.append_assoc]
      rfl

/-- The last value of each length, and the first one of the next, on macOS with Left Shift held. -/
theorem boundaries_typed :
    let chars := [1, 0x7F, 0x80, 0x7FF, 0x800, 0xFFFF, 0x10000, 0x10FFFF].map Char.ofNat
    let env := Env.default fun _ => ⟨false, false⟩
    ∃ fuel t typed, sendUnicodeString env (bytesAt (chars.flatMap String.utf8EncodeChar ++ [0])) fuel 0
        ⟨unicodeModeMacos, 0, ⟨false, false⟩, 0x02, 0, [], []⟩ = some t ∧ t.mods = 0x02 ∧
      List.Forall₂ (fun c outputs => Types env unicodeModeMacos c.toNat outputs) chars typed ∧
      t.outputs = [] ++ typed.flatten :=
  sendUnicodeString_types _ _ _ (by simp) 0 _ (holds_bytesAt _)

end QmkFirmware.Unicode
