import Mathlib.Data.Nat.Digits.Defs
import QmkFirmware.Painter.Stream

/-! # QGF images

The reader of `quantum/painter/qgf.c`.  A packed structure is the list of its bytes, and a field of it
is read at its offset.  What the functions print is left out.
-/

namespace QmkFirmware.Painter

/-! ## Readers -/

/-- A function on a memory stream that can fail: from the buffer and the position to the result and the
next position. -/
def Reader (α : Type) := List Byte → Nat → Option α × Nat

namespace Reader

variable {α β : Type}

instance : Monad Reader where
  pure a := fun _ position => (some a, position)
  bind x f := fun buffer position =>
    match x buffer position with
    | (some a, position) => f a buffer position
    | (none, position) => (none, position)

/-- `qp_stream_read` of one structure. -/
def struct (size : Nat) : Reader (List Byte) := fun buffer position =>
  let (bytes, s) := (MemoryStream.mk buffer position).read size
  (if bytes.length / size = 1 then some bytes else none, s.position)

/-- `qp_stream_seek`, whose result no caller looks at. -/
def seek (offset : Int) (origin : MemoryStream.Origin) : Reader Unit := fun buffer position =>
  (some (), ((MemoryStream.mk buffer position).seek offset origin).2.position)

def require (condition : Bool) : Reader Unit := fun _ position => (if condition then some () else none, position)

/-- Whether it succeeded, from the start of a stream. -/
def accepts (x : Reader α) (buffer : List Byte) : Bool := (x buffer 0).1.isSome

end Reader

/-! ## Fields -/

/-- A little-endian number. -/
def le (bytes : List Byte) : Nat := Nat.ofDigits 256 (bytes.map BitVec.toNat)

def field (block : List Byte) (offset size : Nat) : Nat := le ((block.drop offset).take size)

/-- An unsigned number in an `int32_t`. -/
def asInt32 (n : Nat) : Int := (BitVec.ofNat 32 n).toInt

/-- `qgf_validate_block_header` of a structure that starts with its header. -/
def validateBlockHeader (desc : List Byte) (expectedTypeid : Byte) (expectedLength : Int) : Bool :=
  if field desc 0 1 ≠ expectedTypeid.toNat ∨ field desc 1 1 ≠ (~~~expectedTypeid).toNat then false
  else if 0 ≤ expectedLength ∧ (field desc 2 3 : Int) ≠ expectedLength then false
  else true

structure Format where
  bpp : Nat
  hasPalette : Bool
  isPanelNative : Bool
deriving DecidableEq

/-- The table in `qgf_parse_format`, by `qp_image_format_t`. -/
def formats : List Format :=
  [⟨1, false, false⟩, ⟨2, false, false⟩, ⟨4, false, false⟩, ⟨8, false, false⟩, ⟨1, true, false⟩, ⟨2, true, false⟩,
    ⟨4, true, false⟩, ⟨8, true, false⟩, ⟨16, false, true⟩, ⟨24, false, true⟩]

def parseFormat (format : Nat) : Option Format := formats[format]?

structure FrameInfo where
  format : Format
  isDelta : Bool
  compressionScheme : Nat
  delay : Nat
deriving DecidableEq

/-- `qgf_parse_frame_descriptor`.  It succeeds always; where the format is not known, what the caller
had in its variables stays there. -/
def parseFrameDescriptor (stale : Format) (frameDescriptor : List Byte) : FrameInfo where
  format := (parseFormat (field frameDescriptor 5 1)).getD stale
  isDelta := field frameDescriptor 6 1 &&& 0x02 = 0x02
  compressionScheme := field frameDescriptor 7 1
  delay := field frameDescriptor 9 2

/-! ## Reading -/

structure GraphicsDescriptor where
  imageWidth : Nat
  imageHeight : Nat
  frameCount : Nat
  totalFileSize : Nat
deriving DecidableEq

def readGraphicsDescriptor : Reader GraphicsDescriptor := do
  Reader.seek 0 .seekSet
  let graphicsDescriptor ← Reader.struct 23
  Reader.require (validateBlockHeader graphicsDescriptor 0x00 18)
  Reader.require (field graphicsDescriptor 5 3 = 0x464751 ∧ field graphicsDescriptor 8 1 = 0x01)
  Reader.require (field graphicsDescriptor 13 4 = (~~~(BitVec.ofNat 32 (field graphicsDescriptor 9 4))).toNat)
  pure ⟨field graphicsDescriptor 17 2, field graphicsDescriptor 19 2, field graphicsDescriptor 21 2,
    field graphicsDescriptor 9 4⟩

def readFrameOffset (frameNumber : Nat) : Reader Nat := do
  let graphicsDescriptor ← readGraphicsDescriptor
  let frameOffsets ← Reader.struct 5
  Reader.require (validateBlockHeader frameOffsets 0x01 (graphicsDescriptor.frameCount * 4 : Nat))
  Reader.require (frameNumber < graphicsDescriptor.frameCount)
  Reader.seek (frameNumber * 4 : Nat) .seekCur
  let offset ← Reader.struct 4
  pure (le offset)

/-- Where the offset cannot be read it is 0. -/
def seekToFrameDescriptor (frameNumber : Nat) : Reader Unit := fun buffer position =>
  let (offset, position) := readFrameOffset frameNumber buffer position
  Reader.seek (asInt32 (offset.getD 0)) .seekSet buffer position

def validateFrameDescriptor (stale : Format) (frameNumber : Nat) : Reader FrameInfo := do
  seekToFrameDescriptor frameNumber
  let frameDescriptor ← Reader.struct 11
  Reader.require (validateBlockHeader frameDescriptor 0x02 6)
  pure (parseFrameDescriptor stale frameDescriptor)

def validatePaletteDescriptor (bpp : Nat) : Reader Unit := do
  let paletteDescriptor ← Reader.struct 5
  let expectedLength := asInt32 ((1 <<< bpp) * 3)
  Reader.require (validateBlockHeader paletteDescriptor 0x03 expectedLength)
  Reader.seek expectedLength .seekCur

def validateDeltaDescriptor : Reader Unit := do
  let deltaDescriptor ← Reader.struct 13
  Reader.require (validateBlockHeader deltaDescriptor 0x04 8)

def validateFrameDataDescriptor : Reader Unit := do
  let dataDescriptor ← Reader.struct 5
  Reader.require (validateBlockHeader dataDescriptor 0x05 (-1))

/-- One turn of the loop in `qgf_validate_stream`, where `stale` is what its variables hold before. -/
def validateFrame (stale : Format) (frameNumber : Nat) : Reader Unit := do
  let info ← validateFrameDescriptor stale frameNumber
  (if info.format.hasPalette then validatePaletteDescriptor info.format.bpp else pure ())
  (if info.isDelta then validateDeltaDescriptor else pure ())
  validateFrameDataDescriptor

def validateFrames (stale : Nat → Format) : List Nat → Reader Unit
  | [] => pure ()
  | frameNumber :: frameNumbers => do
    validateFrame (stale frameNumber) frameNumber
    validateFrames stale frameNumbers

def validateStream (stale : Nat → Format) : Reader Unit := do
  let graphicsDescriptor ← readGraphicsDescriptor
  validateFrames stale (List.range graphicsDescriptor.frameCount)

/-! ## What readers do -/

namespace Reader

variable {α β : Type} {buffer : List Byte} {position next : Nat}

theorem bind_eq_some {x : Reader α} {f : α → Reader β} {b : β} :
    (x >>= f) buffer position = (some b, next) ↔
      ∃ a middle, x buffer position = (some a, middle) ∧ f a buffer middle = (some b, next) := by
  show (match x buffer position with
    | (some a, position) => f a buffer position
    | (none, position) => (none, position)) = (some b, next) ↔ _
  rcases h : x buffer position with ⟨_ | a, middle⟩
  · simp
  · simp

/-- A first part that succeeds is followed by the second. -/
theorem bind_of_eq {x : Reader α} {f : α → Reader β} {a : α} {middle : Nat}
    (h : x buffer position = (some a, middle)) : (x >>= f) buffer position = f a buffer middle := by
  show (match x buffer position with
    | (some a, position) => f a buffer position
    | (none, position) => (none, position)) = _
  rw [h]

theorem pure_eq_some {a b : α} : (pure a : Reader α) buffer position = (some b, next) ↔ a = b ∧ position = next := by
  show (some a, position) = (some b, next) ↔ _
  simp

theorem require_eq_some {condition : Bool} {u : Unit} :
    require condition buffer position = (some u, next) ↔ condition = true ∧ position = next := by
  unfold require
  cases condition <;> simp

theorem struct_eq_some {size : Nat} (positive : 0 < size) {bytes : List Byte} :
    struct size buffer position = (some bytes, next) ↔
      position + size ≤ buffer.length ∧ bytes = (buffer.drop position).take size ∧ next = position + size := by
  unfold struct
  rw [MemoryStream.read_eq]
  dsimp only [MemoryStream.remaining, MemoryStream.skip]
  have length : ((buffer.drop position).take size).length = min size (buffer.length - position) := by
    rw [List.length_take, List.length_drop]
  by_cases inside : position + size ≤ buffer.length
  · have full : ((buffer.drop position).take size).length = size := by omega
    rw [full, Nat.div_self positive, if_pos rfl, Prod.mk.injEq, Option.some.injEq]
    exact ⟨fun ⟨same, here⟩ => ⟨inside, same.symm, here.symm⟩, fun ⟨_, same, here⟩ => ⟨same.symm, here.symm⟩⟩
  · have short : ((buffer.drop position).take size).length / size = 0 := Nat.div_eq_of_lt (by omega)
    rw [short, if_neg (by decide)]
    exact ⟨fun wrong => absurd (congrArg Prod.fst wrong) (by simp), fun both => absurd both.1 inside⟩

theorem seekSet_eq (offset : Int) :
    seek offset .seekSet buffer position
      = (some (), if 0 ≤ offset ∧ offset ≤ buffer.length then offset.toNat else position) := by
  unfold seek MemoryStream.seek
  dsimp only
  by_cases low : offset < 0
  · rw [if_pos low, if_neg fun both => absurd low (Int.not_lt.mpr both.1)]
  · by_cases high : (buffer.length : Int) < offset
    · rw [if_neg low, if_pos high, if_neg fun both => absurd high (Int.not_lt.mpr both.2)]
    · rw [if_neg low, if_neg high, if_pos ⟨Int.not_lt.mp low, Int.not_lt.mp high⟩]

theorem seekCur_eq (offset : Nat) :
    seek (offset : Int) .seekCur buffer position
      = (some (), if position + offset ≤ buffer.length then position + offset else position) := by
  unfold seek MemoryStream.seek
  dsimp only
  have sum : (position : Int) + offset = ((position + offset : Nat) : Int) := by omega
  rw [if_neg (by omega), sum]
  by_cases inside : position + offset ≤ buffer.length
  · rw [if_neg (by omega), if_pos inside]
    rfl
  · rw [if_pos (by omega), if_neg inside]

theorem bind_seekSet (offset : Int) (f : Unit → Reader β) :
    (seek offset .seekSet >>= f) buffer position
      = f () buffer (if 0 ≤ offset ∧ offset ≤ buffer.length then offset.toNat else position) :=
  bind_of_eq (seekSet_eq offset)

theorem bind_seekCur (offset : Nat) (f : Unit → Reader β) :
    (seek (offset : Int) .seekCur >>= f) buffer position
      = f () buffer (if position + offset ≤ buffer.length then position + offset else position) :=
  bind_of_eq (seekCur_eq offset)

theorem bind_require {condition : Bool} {f : Unit → Reader β} {b : β} :
    (require condition >>= f) buffer position = (some b, next) ↔
      condition = true ∧ f () buffer position = (some b, next) := by
  rw [bind_eq_some]
  constructor
  · rintro ⟨_, _, required, more⟩
    obtain ⟨holds, rfl⟩ := require_eq_some.mp required
    exact ⟨holds, more⟩
  · rintro ⟨holds, more⟩
    exact ⟨(), position, require_eq_some.mpr ⟨holds, rfl⟩, more⟩

end Reader

/-! ## Blocks -/

section Blocks

variable {buffer : List Byte} {position next : Nat}

/-- A field inside the structure. -/
theorem field_take {block : List Byte} {offset size length : Nat} (inside : offset + size ≤ length) :
    field (block.take length) offset size = field block offset size := by
  unfold field
  rw [List.drop_take, List.take_take, Nat.min_eq_left (by omega)]

theorem field_drop (block : List Byte) (start offset size : Nat) :
    field (block.drop start) offset size = field block (start + offset) size := by
  unfold field
  rw [List.drop_drop]

theorem validateBlockHeader_take {block : List Byte} {length : Nat} (inside : 5 ≤ length) (typeid : Byte)
    (expectedLength : Int) :
    validateBlockHeader (block.take length) typeid expectedLength = validateBlockHeader block typeid expectedLength := by
  unfold validateBlockHeader
  rw [field_take (by omega), field_take (by omega), field_take (by omega)]

/-- A valid header with `size` bytes after it, inside the buffer. -/
def HeaderAt (buffer : List Byte) (position : Nat) (typeid : Byte) (expectedLength : Int) (size : Nat) : Prop :=
  position + (5 + size) ≤ buffer.length ∧ validateBlockHeader (buffer.drop position) typeid expectedLength = true

instance (position : Nat) (typeid : Byte) (expectedLength : Int) (size : Nat) :
    Decidable (HeaderAt buffer position typeid expectedLength size) := inferInstanceAs (Decidable (_ ∧ _))

/-- A block of the type and length, completely inside the buffer. -/
abbrev BlockAt (buffer : List Byte) (position : Nat) (typeid : Byte) (length : Nat) : Prop :=
  HeaderAt buffer position typeid length length

/-- Reading a structure that begins with a header, and checking it. -/
theorem struct_header {α : Type} {typeid : Byte} {expectedLength : Int} {size : Nat} {f : List Byte → Reader α} {a : α} :
    (do
      let block ← Reader.struct (5 + size)
      Reader.require (validateBlockHeader block typeid expectedLength)
      f block) buffer position = (some a, next) ↔
      HeaderAt buffer position typeid expectedLength size ∧
        f ((buffer.drop position).take (5 + size)) buffer (position + (5 + size)) = (some a, next) := by
  have positive : 0 < 5 + size := Nat.lt_add_right size (by decide)
  simp only [Reader.bind_eq_some, Reader.struct_eq_some positive, Reader.require_eq_some]
  constructor
  · rintro ⟨_, _, ⟨inside, rfl, rfl⟩, _, _, ⟨valid, rfl⟩, more⟩
    rw [validateBlockHeader_take (Nat.le_add_right 5 size)] at valid
    exact ⟨⟨inside, valid⟩, more⟩
  · rintro ⟨⟨inside, valid⟩, more⟩
    refine ⟨_, _, ⟨inside, rfl, rfl⟩, (), _, ⟨?_, rfl⟩, more⟩
    rwa [validateBlockHeader_take (Nat.le_add_right 5 size)]

/-- The same where nothing follows. -/
theorem struct_header_last {typeid : Byte} {expectedLength : Int} {size : Nat} {u : Unit} :
    (do
      let block ← Reader.struct (5 + size)
      Reader.require (validateBlockHeader block typeid expectedLength)) buffer position = (some u, next) ↔
      HeaderAt buffer position typeid expectedLength size ∧ next = position + (5 + size) := by
  have positive : 0 < 5 + size := Nat.lt_add_right size (by decide)
  simp only [Reader.bind_eq_some, Reader.struct_eq_some positive, Reader.require_eq_some]
  constructor
  · rintro ⟨_, _, ⟨inside, rfl, rfl⟩, valid, rfl⟩
    rw [validateBlockHeader_take (Nat.le_add_right 5 size)] at valid
    exact ⟨⟨inside, valid⟩, rfl⟩
  · rintro ⟨⟨inside, valid⟩, rfl⟩
    refine ⟨_, _, ⟨inside, rfl, rfl⟩, ?_, rfl⟩
    rwa [validateBlockHeader_take (Nat.le_add_right 5 size)]

/-! ## What the functions read -/

/-- The graphics descriptor at the start of the buffer. -/
structure GraphicsAt (buffer : List Byte) : Prop where
  block : BlockAt buffer 0 0x00 18
  magic : field buffer 5 3 = 0x464751 ∧ field buffer 8 1 = 0x01
  fileSize : field buffer 13 4 = (~~~(BitVec.ofNat 32 (field buffer 9 4))).toNat

def graphicsOf (buffer : List Byte) : GraphicsDescriptor :=
  ⟨field buffer 17 2, field buffer 19 2, field buffer 21 2, field buffer 9 4⟩

theorem readGraphicsDescriptor_eq_some {graphics : GraphicsDescriptor} :
    readGraphicsDescriptor buffer position = (some graphics, next) ↔
      GraphicsAt buffer ∧ graphics = graphicsOf buffer ∧ next = 23 := by
  have start : (0 : Int) ≤ 0 ∧ (0 : Int) ≤ buffer.length := ⟨Int.le_refl 0, Int.natCast_nonneg _⟩
  have fields (offset size : Nat) (inside : offset + size ≤ 23) :
      field ((buffer.drop 0).take (5 + 18)) offset size = field buffer offset size := field_take inside
  unfold readGraphicsDescriptor
  rw [Reader.bind_seekSet, if_pos start]
  refine Iff.trans (@struct_header buffer 0 next _ 0x00 18 18 _ _) ?_
  rw [Reader.bind_require, Reader.bind_require, Reader.pure_eq_some, fields 5 3 (by decide), fields 8 1 (by decide),
    fields 13 4 (by decide), fields 9 4 (by decide), fields 17 2 (by decide), fields 19 2 (by decide),
    fields 21 2 (by decide), decide_eq_true_iff, decide_eq_true_iff]
  constructor
  · rintro ⟨block, magic, fileSize, rfl, rfl⟩
    exact ⟨⟨block, magic, fileSize⟩, rfl, rfl⟩
  · rintro ⟨⟨block, magic, fileSize⟩, rfl, rfl⟩
    exact ⟨block, magic, fileSize, rfl, rfl⟩

def frameCount (buffer : List Byte) : Nat := field buffer 21 2

/-- Where the entry for a frame is looked for: seeking beyond the end leaves the position. -/
def entryPosition (buffer : List Byte) (frameNumber : Nat) : Nat :=
  if 28 + frameNumber * 4 ≤ buffer.length then 28 + frameNumber * 4 else 28

theorem readFrameOffset_eq_some {frameNumber offset : Nat} :
    readFrameOffset frameNumber buffer position = (some offset, next) ↔
      GraphicsAt buffer ∧ HeaderAt buffer 23 0x01 (frameCount buffer * 4 : Nat) 0 ∧ frameNumber < frameCount buffer ∧
        entryPosition buffer frameNumber + 4 ≤ buffer.length ∧
        offset = field buffer (entryPosition buffer frameNumber) 4 ∧ next = entryPosition buffer frameNumber + 4 := by
  have entry (graphics : GraphicsAt buffer) : readFrameOffset frameNumber buffer position = (some offset, next) ↔
      HeaderAt buffer 23 0x01 (frameCount buffer * 4 : Nat) 0 ∧ frameNumber < frameCount buffer ∧
        entryPosition buffer frameNumber + 4 ≤ buffer.length ∧
        offset = field buffer (entryPosition buffer frameNumber) 4 ∧ next = entryPosition buffer frameNumber + 4 := by
    have read : readGraphicsDescriptor buffer position = (some (graphicsOf buffer), 23) :=
      readGraphicsDescriptor_eq_some.mpr ⟨graphics, rfl, rfl⟩
    rw [readFrameOffset, Reader.bind_of_eq read]
    refine Iff.trans (@struct_header buffer 23 next _ 0x01 _ 0 _ _) ?_
    rw [Reader.bind_require, Reader.bind_seekCur, decide_eq_true_iff]
    simp only [Reader.bind_eq_some, Reader.struct_eq_some (by decide : 0 < 4), Reader.pure_eq_some]
    constructor
    · rintro ⟨header, inside, _, _, ⟨bound, rfl, rfl⟩, rfl, rfl⟩
      exact ⟨header, inside, bound, rfl, rfl⟩
    · rintro ⟨header, inside, bound, rfl, rfl⟩
      exact ⟨header, inside, _, _, ⟨bound, rfl, rfl⟩, rfl, rfl⟩
  by_cases graphics : GraphicsAt buffer
  · rw [entry graphics]
    exact (and_iff_right graphics).symm
  · refine ⟨fun read => ?_, fun both => absurd both.1 graphics⟩
    obtain ⟨_, _, first, -⟩ := Reader.bind_eq_some.mp read
    exact absurd (readGraphicsDescriptor_eq_some.mp first).1 graphics

/-- Where the frame descriptor is looked for: an offset beyond the end leaves the position. -/
def framePosition (buffer : List Byte) (frameNumber : Nat) : Nat :=
  let offset := asInt32 (field buffer (entryPosition buffer frameNumber) 4)
  if 0 ≤ offset ∧ offset ≤ buffer.length then offset.toNat else entryPosition buffer frameNumber + 4

/-- A frame number without an entry leads to the start of the buffer. -/
theorem seekToFrameDescriptor_eq (frameNumber : Nat) :
    (∃ offset next, readFrameOffset frameNumber buffer position = (some offset, next) ∧
        seekToFrameDescriptor frameNumber buffer position = (some (), framePosition buffer frameNumber)) ∨
      seekToFrameDescriptor frameNumber buffer position = (some (), 0) := by
  unfold seekToFrameDescriptor
  rcases h : readFrameOffset frameNumber buffer position with ⟨_ | offset, next⟩
  · right
    dsimp only
    rw [Reader.seekSet_eq, Option.getD_none, if_pos ⟨Int.le_refl 0, Int.natCast_nonneg _⟩]
    rfl
  · left
    obtain ⟨-, -, -, -, rfl, rfl⟩ := readFrameOffset_eq_some.mp h
    refine ⟨_, _, rfl, ?_⟩
    dsimp only
    rw [Reader.seekSet_eq]
    rfl

/-- A header is of one type only. -/
theorem HeaderAt.typeid_eq {first second : Byte} {length other : Int} {size size' : Nat}
    (one : HeaderAt buffer position first length size) (two : HeaderAt buffer position second other size') :
    first = second := by
  have type {typeid : Byte} {length : Int} (valid : validateBlockHeader (buffer.drop position) typeid length = true) :
      field (buffer.drop position) 0 1 = typeid.toNat := by
    unfold validateBlockHeader at valid
    by_contra differs
    rw [if_pos (.inl differs)] at valid
    exact Bool.false_ne_true valid
  exact BitVec.eq_of_toNat_eq ((type one.2).symm.trans (type two.2))

/-- A valid frame descriptor is read where the entry leads, not at the graphics descriptor. -/
theorem validateFrameDescriptor_eq_some {stale : Format} {frameNumber : Nat} {info : FrameInfo}
    (graphics : GraphicsAt buffer)
    (h : validateFrameDescriptor stale frameNumber buffer position = (some info, next)) :
    entryPosition buffer frameNumber + 4 ≤ buffer.length ∧
      BlockAt buffer (framePosition buffer frameNumber) 0x02 6 ∧
      info = parseFrameDescriptor stale (buffer.drop (framePosition buffer frameNumber)) ∧
      next = framePosition buffer frameNumber + 11 := by
  obtain ⟨_, there, sought, more⟩ := Reader.bind_eq_some.mp h
  obtain ⟨block, parsed⟩ := (@struct_header buffer there next _ 0x02 6 6 _ _).mp more
  obtain ⟨rfl, rfl⟩ := Reader.pure_eq_some.mp parsed
  rcases seekToFrameDescriptor_eq frameNumber with ⟨offset, after, read, found⟩ | start
  · obtain ⟨-, -, -, inside, -⟩ := readFrameOffset_eq_some.mp read
    rw [found, Prod.mk.injEq] at sought
    obtain ⟨-, rfl⟩ := sought
    refine ⟨inside, block, ?_, rfl⟩
    unfold parseFrameDescriptor
    rw [field_take (by decide), field_take (by decide), field_take (by decide), field_take (by decide)]
  · rw [start, Prod.mk.injEq] at sought
    obtain ⟨-, rfl⟩ := sought
    exact absurd (block.typeid_eq graphics.block) (by decide)

end Blocks

end QmkFirmware.Painter
