import QmkFirmware.Painter.Qgf

/-! # Validated images

What an image that `qgf_validate_stream` accepts looks like.  The validation does not look at the
results of its seeks, nor at that of `qgf_parse_format`.
-/

namespace QmkFirmware.Painter

/-- The bytes of a memory stream, whose length is an `int32_t`. -/
structure Image where
  bytes : List Byte
  small : bytes.length < 2 ^ 31

section WellFormed

variable {buffer : List Byte} {position next : Nat}

/-- The entry of a frame in the frame offsets. -/
def offsetEntry (buffer : List Byte) (frameNumber : Nat) : Nat := field buffer (28 + frameNumber * 4) 4

def paletteSize (format : Format) : Nat := 3 * 2 ^ format.bpp

/-- The blocks of a frame, completely inside the buffer. -/
def FrameAt (buffer : List Byte) (position : Nat) : Prop :=
  BlockAt buffer position 0x02 6 ∧
    ∃ format, parseFormat (field buffer (position + 5) 1) = some format ∧
      let isDelta := field buffer (position + 6) 1 &&& 0x02 = 0x02
      let afterPalette := position + 11 + if format.hasPalette then 5 + paletteSize format else 0
      (format.hasPalette = true → BlockAt buffer (position + 11) 0x03 (paletteSize format)) ∧
        (isDelta → BlockAt buffer afterPalette 0x04 8) ∧
        HeaderAt buffer (afterPalette + if isDelta then 13 else 0) 0x05 (-1) 0

def WellFormed (buffer : List Byte) : Prop :=
  ∀ frameNumber < frameCount buffer,
    28 + frameNumber * 4 + 4 ≤ buffer.length ∧ FrameAt buffer (offsetEntry buffer frameNumber)

/-- The seeks for a frame stay inside the buffer, and its format is known. -/
structure Reached (buffer : List Byte) (frameNumber : Nat) : Prop where
  entry : 28 + frameNumber * 4 ≤ buffer.length
  frame : offsetEntry buffer frameNumber ≤ buffer.length
  palette : ∃ format, parseFormat (field buffer (offsetEntry buffer frameNumber + 5) 1) = some format ∧
    (format.hasPalette = true →
      offsetEntry buffer frameNumber + 11 + (5 + paletteSize format) ≤ buffer.length)

theorem Reached.of_wellFormed (wellFormed : WellFormed buffer) {frameNumber : Nat}
    (bound : frameNumber < frameCount buffer) : Reached buffer frameNumber := by
  obtain ⟨entry, ⟨inside, -⟩, format, known, palette, -⟩ := wellFormed frameNumber bound
  exact ⟨by omega, by omega, format, known, fun has => (palette has).1⟩

theorem asInt32_eq {n : Nat} (small : n < 2 ^ 31) : asInt32 n = n := by
  have value : (BitVec.ofNat 32 n).toNat = n := by
    rw [BitVec.toNat_ofNat, Nat.mod_eq_of_lt (by omega)]
  unfold asInt32
  rw [BitVec.toInt_eq_toNat_of_lt (by omega), value]

/-- Seeks that stay inside lead to the frame. -/
theorem Reached.framePosition_eq {frameNumber : Nat} (small : buffer.length < 2 ^ 31)
    (reached : Reached buffer frameNumber) : framePosition buffer frameNumber = offsetEntry buffer frameNumber := by
  have entry : entryPosition buffer frameNumber = 28 + frameNumber * 4 := if_pos reached.entry
  have inside := reached.frame
  have plain : asInt32 (offsetEntry buffer frameNumber) = offsetEntry buffer frameNumber := asInt32_eq (by omega)
  unfold framePosition
  rw [entry]
  show (if 0 ≤ asInt32 (offsetEntry buffer frameNumber) ∧ asInt32 (offsetEntry buffer frameNumber) ≤ buffer.length
    then (asInt32 (offsetEntry buffer frameNumber)).toNat else 28 + frameNumber * 4 + 4) = _
  rw [plain, if_pos ⟨Int.natCast_nonneg _, by omega⟩, Int.toNat_natCast]

/-- The palettes of known formats have at most 256 entries. -/
theorem bpp_le {n : Nat} {format : Format} (known : parseFormat n = some format) (palette : format.hasPalette = true) :
    format.bpp ≤ 8 := by
  have all : ∀ format ∈ formats, format.hasPalette = true → format.bpp ≤ 8 := by decide
  exact all format (List.mem_of_getElem? known) palette

theorem paletteLength_eq {format : Format} (few : format.bpp ≤ 8) :
    asInt32 ((1 <<< format.bpp) * 3) = paletteSize format := by
  have size : 2 ^ format.bpp ≤ 2 ^ 8 := Nat.pow_le_pow_right (by decide) few
  rw [Nat.one_shiftLeft, Nat.mul_comm, ← paletteSize]
  exact asInt32_eq (by unfold paletteSize; omega)

theorem validatePalette_eq_some {format : Format} (few : format.bpp ≤ 8)
    (inside : position + (5 + paletteSize format) ≤ buffer.length) {u : Unit} :
    validatePaletteDescriptor format.bpp buffer position = (some u, next) ↔
      BlockAt buffer position 0x03 (paletteSize format) ∧ next = position + (5 + paletteSize format) := by
  unfold validatePaletteDescriptor
  rw [paletteLength_eq few]
  refine Iff.trans (@struct_header buffer position next _ 0x03 _ 0 _ _) ?_
  rw [Reader.seekCur_eq, if_pos (by omega), Prod.mk.injEq]
  constructor
  · rintro ⟨⟨-, valid⟩, -, rfl⟩
    exact ⟨⟨inside, valid⟩, by omega⟩
  · rintro ⟨⟨-, valid⟩, rfl⟩
    exact ⟨⟨by omega, valid⟩, rfl, by omega⟩

theorem validateDelta_eq_some {u : Unit} :
    validateDeltaDescriptor buffer position = (some u, next) ↔
      BlockAt buffer position 0x04 8 ∧ next = position + 13 :=
  @struct_header_last buffer position next 0x04 8 8 u

theorem validateData_eq_some {u : Unit} :
    validateFrameDataDescriptor buffer position = (some u, next) ↔
      HeaderAt buffer position 0x05 (-1) 0 ∧ next = position + 5 :=
  @struct_header_last buffer position next 0x05 (-1) 0 u

/-- A part that is read on a condition. -/
theorem optional_eq_some {condition : Prop} [Decidable condition] {x : Reader Unit} {block : Prop} {size : Nat} {u : Unit}
    (reads : condition → (x buffer position = (some u, next) ↔ block ∧ next = position + size)) :
    (if condition then x else pure ()) buffer position = (some u, next) ↔
      (condition → block) ∧ next = position + if condition then size else 0 := by
  by_cases holds : condition
  · rw [if_pos holds, if_pos holds, reads holds]
    exact and_congr_left fun _ => (imp_iff_right holds).symm
  · rw [if_neg holds, if_neg holds, Reader.pure_eq_some]
    exact ⟨fun both => ⟨fun wrong => absurd wrong holds, both.2.symm⟩, fun both => ⟨rfl, both.2.symm⟩⟩

/-- A frame that is validated and reached is there. -/
theorem validateFrame_sound {stale : Format} {frameNumber : Nat} {u : Unit} (graphics : GraphicsAt buffer)
    (small : buffer.length < 2 ^ 31) (reached : Reached buffer frameNumber)
    (h : validateFrame stale frameNumber buffer position = (some u, next)) :
    28 + frameNumber * 4 + 4 ≤ buffer.length ∧ FrameAt buffer (offsetEntry buffer frameNumber) := by
  obtain ⟨info, afterFrame, described, rest⟩ := Reader.bind_eq_some.mp h
  obtain ⟨entry, block, rfl, rfl⟩ := validateFrameDescriptor_eq_some graphics described
  obtain ⟨format, known, inside⟩ := reached.palette
  rw [reached.framePosition_eq small] at block rest
  have entryAt : entryPosition buffer frameNumber = 28 + frameNumber * 4 := if_pos reached.entry
  rw [entryAt] at entry
  generalize offsetEntry buffer frameNumber = start at block rest known inside
  have info : parseFrameDescriptor stale (buffer.drop start)
      = ⟨format, field buffer (start + 6) 1 &&& 0x02 = 0x02, field buffer (start + 7) 1, field buffer (start + 9) 2⟩ := by
    unfold parseFrameDescriptor
    rw [field_drop, field_drop, field_drop, field_drop, known, Option.getD_some]
  rw [info] at rest
  dsimp only at rest
  obtain ⟨_, afterPalette, paletteRead, rest⟩ := Reader.bind_eq_some.mp rest
  obtain ⟨_, afterDelta, deltaRead, dataRead⟩ := Reader.bind_eq_some.mp rest
  obtain ⟨palette, rfl⟩ := (optional_eq_some fun has =>
    validatePalette_eq_some (bpp_le known has) (inside has)).mp paletteRead
  obtain ⟨delta, rfl⟩ := (optional_eq_some fun _ => validateDelta_eq_some).mp deltaRead
  obtain ⟨header, -⟩ := validateData_eq_some.mp dataRead
  refine ⟨entry, block, format, known, palette, ?_, ?_⟩
  · exact fun isDelta => delta (decide_eq_true isDelta)
  · simpa only [decide_eq_true_iff] using header

theorem validateFrames_eq_some {stale : Nat → Format} {frameNumbers : List Nat} {u : Unit}
    (h : validateFrames stale frameNumbers buffer position = (some u, next)) :
    ∀ frameNumber ∈ frameNumbers, ∃ before after,
      validateFrame (stale frameNumber) frameNumber buffer before = (some (), after) := by
  induction frameNumbers generalizing position with
  | nil => exact nofun
  | cons first others ih =>
    obtain ⟨_, middle, here, more⟩ := Reader.bind_eq_some.mp h
    intro frameNumber member
    rcases List.mem_cons.mp member with rfl | later
    · exact ⟨position, middle, here⟩
    · exact ih more frameNumber later

end WellFormed

/-- An image that is validated is well formed exactly if the seeks for all its frames stay inside the
image and their formats are known, whatever the variables of the validation held before. -/
theorem validated_wellFormed_iff (stale : Nat → Format) (image : Image)
    (valid : (validateStream stale).accepts image.bytes = true) :
    WellFormed image.bytes ↔ ∀ frameNumber < frameCount image.bytes, Reached image.bytes frameNumber := by
  constructor
  · exact fun wellFormed frameNumber bound => Reached.of_wellFormed wellFormed bound
  · intro reached frameNumber bound
    obtain ⟨u, accepted⟩ := Option.isSome_iff_exists.mp valid
    have read : validateStream stale image.bytes 0 = (some u, (validateStream stale image.bytes 0).2) :=
      Prod.ext accepted rfl
    obtain ⟨_, _, described, frames⟩ := Reader.bind_eq_some.mp read
    obtain ⟨graphics, rfl, -⟩ := readGraphicsDescriptor_eq_some.mp described
    obtain ⟨before, after, frame⟩ := validateFrames_eq_some frames frameNumber (List.mem_range.mpr bound)
    exact validateFrame_sound graphics image.small (reached frameNumber bound) frame

/-- An image of one frame with two pixels, whose frame offset is `offset`. -/
def dot (offset : List Byte) : List Byte :=
  [0x00, 0xFF, 18, 0, 0, 0x51, 0x47, 0x46, 1, 48, 0, 0, 0, 0xCF, 0xFF, 0xFF, 0xFF, 2, 0, 1, 0, 1, 0,
    0x01, 0xFE, 4, 0, 0] ++ offset ++ [0x02, 0xFD, 6, 0, 0, 0, 0, 0, 0, 0, 0, 0x05, 0xFA, 1, 0, 0, 0x03]

theorem dot_wellFormed :
    WellFormed (dot [32, 0, 0, 0]) ↔ ∀ frameNumber < frameCount (dot [32, 0, 0, 0]), Reached (dot [32, 0, 0, 0]) frameNumber :=
  validated_wellFormed_iff (fun _ => ⟨1, false, false⟩) ⟨dot [32, 0, 0, 0], by decide⟩ (by decide +kernel)

/-- An offset beyond the end is not followed, and what stands after the entry passes for the frame. -/
theorem strayOffset_validated :
    (validateStream fun _ => ⟨1, false, false⟩).accepts (dot [0xFF, 0, 0, 0]) = true ∧
      ¬ WellFormed (dot [0xFF, 0, 0, 0]) := by
  refine ⟨by decide +kernel, fun wellFormed => ?_⟩
  have inside := (wellFormed 0 (by decide)).2.1.1
  exact absurd inside (by decide)

end QmkFirmware.Painter
