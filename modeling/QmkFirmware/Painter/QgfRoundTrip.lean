import QmkFirmware.Painter.DrawImage
import QmkFirmware.Painter.QgfBlocks
import QmkFirmware.Painter.Validation

/-! # Reading back what was written

Each block is read as it was written: in the validation, and when the frame is prepared.
-/

namespace QmkFirmware.Painter

/-! ## Readers on bytes -/

namespace Reader

variable {α β : Type} {x : Reader α} {f : α → Reader β} {bytes more : List Byte} {a : α} {b : β}

/-- Where these bytes stand, the reader yields this result and goes over them. -/
def Reads (x : Reader α) (bytes : List Byte) (a : α) : Prop :=
  ∀ buffer position rest, buffer.drop position = bytes ++ rest → position ≤ buffer.length →
    x buffer position = (some a, position + bytes.length)

theorem length_of_drop {buffer rest : List Byte} {position : Nat} (here : buffer.drop position = bytes ++ rest)
    (inside : position ≤ buffer.length) : position + bytes.length ≤ buffer.length := by
  have length := congrArg List.length here
  rw [List.length_drop, List.length_append] at length
  omega

theorem reads_pure (a : α) : Reads (pure a) [] a := fun _ _ _ _ _ => rfl

theorem Reads.bind (first : Reads x bytes a) (second : Reads (f a) more b) : Reads (x >>= f) (bytes ++ more) b := by
  intro buffer position rest here inside
  rw [List.append_assoc] at here
  have there : buffer.drop (position + bytes.length) = more ++ rest := by
    rw [← List.drop_drop, here, List.drop_left]
  rw [bind_of_eq (first buffer position _ here inside),
    second buffer _ rest there (length_of_drop here inside), List.length_append, Nat.add_assoc]

/-- A last part that reads nothing. -/
theorem Reads.bind_pure (first : Reads x bytes a) (second : Reads (f a) [] b) : Reads (x >>= f) bytes b := by
  have both := first.bind second
  rwa [List.append_nil] at both

theorem reads_struct {size : Nat} (positive : 0 < size) (length : bytes.length = size) :
    Reads (struct size) bytes bytes := by
  intro buffer position rest here inside
  refine (struct_eq_some positive).mpr ⟨length ▸ length_of_drop here inside, ?_, congrArg (position + ·) length⟩
  rw [here, List.take_left' length]

theorem reads_require {condition : Bool} (holds : condition = true) : Reads (require condition) [] () := by
  intro buffer position rest _ _
  exact require_eq_some.mpr ⟨holds, rfl⟩

theorem reads_seekCur {offset : Int} (length : (bytes.length : Int) = offset) :
    Reads (seek offset .seekCur) bytes () := by
  intro buffer position rest here inside
  rw [← length, seekCur_eq, if_pos (length_of_drop here inside)]

theorem reads_require_bind {condition : Bool} {f : Unit → Reader β} (holds : condition = true) (next : Reads (f ()) bytes b) :
    Reads (require condition >>= f) bytes b :=
  (reads_require holds).bind next

end Reader

/-! ## Blocks -/

open Reader

section Blocks

variable {rest : List Byte}

@[simp] theorem length_blockHeader (typeId length : Nat) : (blockHeader typeId length).length = 5 := by
  simp [blockHeader, o8]

theorem validateBlockHeader_written (typeId : Byte) (length : Nat) (expectedLength : Int)
    (same : expectedLength < 0 ∨ expectedLength = (length % 256 ^ 3 : Nat)) :
    validateBlockHeader (blockHeader typeId.toNat length ++ rest) typeId expectedLength = true := by
  have own : typeId.toNat % 256 = typeId.toNat := Nat.mod_eq_of_lt typeId.isLt
  have first : field (blockHeader typeId.toNat length ++ rest) 0 1 = typeId.toNat := by
    simp [blockHeader, o8, own]
  have second : field (blockHeader typeId.toNat length ++ rest) 1 1 = (~~~typeId).toNat := by
    simp [blockHeader, o8, field_skip]
    omega
  have third : field (blockHeader typeId.toNat length ++ rest) 2 3 = length % 256 ^ 3 := by
    simp [blockHeader, o8, field_skip]
  rw [validateBlockHeader, first, second, third, if_neg (by simp), if_neg (by omega)]

theorem reads_header (typeId : Byte) (length : Nat) (expectedLength : Int) (more : List Byte) {size : Nat} {α : Type}
    {f : List Byte → Reader α} {a : α} (same : expectedLength < 0 ∨ expectedLength = (length % 256 ^ 3 : Nat))
    (full : 5 + more.length = size) (next : Reads (f (blockHeader typeId.toNat length ++ more)) rest a) :
    Reads (do
      let block ← Reader.struct size
      Reader.require (validateBlockHeader block typeId expectedLength)
      f block) (blockHeader typeId.toNat length ++ more ++ rest) a := by
  refine (reads_struct (by omega) ?_).bind ?_
  · rw [List.length_append, length_blockHeader, full]
  · exact reads_require_bind (validateBlockHeader_written typeId length expectedLength same) next

theorem reads_header_last (typeId : Byte) (length : Nat) (expectedLength : Int) (more : List Byte) {size : Nat}
    (same : expectedLength < 0 ∨ expectedLength = (length % 256 ^ 3 : Nat)) (full : 5 + more.length = size) :
    Reads (do
      let block ← Reader.struct size
      Reader.require (validateBlockHeader block typeId expectedLength)) (blockHeader typeId.toNat length ++ more) () := by
  refine (reads_struct (by omega) ?_).bind_pure ?_
  · rw [List.length_append, length_blockHeader, full]
  · exact reads_require (validateBlockHeader_written typeId length expectedLength same)

/-! ### Validation -/

theorem length_colours (paletteEntries : List Colour) :
    (paletteEntries.flatMap colourBytes).length = paletteEntries.length * 3 := by
  induction paletteEntries with
  | nil => rfl
  | cons colour colours ih =>
    rw [List.flatMap_cons, List.length_append, ih, List.length_cons, Nat.succ_mul, Nat.add_comm]
    rfl

theorem palette_validates {bpp : Nat} (few : bpp ≤ 8) {paletteEntries : List Colour}
    (full : paletteEntries.length = 2 ^ bpp) : Reads (validatePaletteDescriptor bpp) (paletteBlock paletteEntries) () := by
  have small : 2 ^ bpp ≤ 2 ^ 8 := Nat.pow_le_pow_right (by decide) few
  have length : asInt32 ((1 <<< bpp) * 3) = (paletteEntries.length * 3 : Nat) := by
    rw [Nat.one_shiftLeft, full]
    exact asInt32_eq (by omega)
  have entries : Reads (seek (paletteEntries.length * 3 : Nat) .seekCur) (paletteEntries.flatMap colourBytes) () :=
    reads_seekCur (congrArg Nat.cast (length_colours paletteEntries))
  have fits : paletteEntries.length * 3 % 256 ^ 3 = paletteEntries.length * 3 := Nat.mod_eq_of_lt (by omega)
  have header := reads_header 0x03 (paletteEntries.length * 3) (paletteEntries.length * 3 : Nat) []
    (.inr (congrArg Nat.cast fits.symm)) rfl (f := fun _ => seek (paletteEntries.length * 3 : Nat) .seekCur) entries
  rw [List.append_nil] at header
  rw [validatePaletteDescriptor, length]
  exact header

theorem delta_validates (box : Box) : Reads validateDeltaDescriptor (deltaBlock box) () :=
  reads_header_last 0x04 8 8 _ (.inr rfl) (by simp)

theorem data_validates (length : Nat) : Reads validateFrameDataDescriptor (blockHeader 0x05 length) () := by
  have header := reads_header_last 0x05 length (-1) [] (.inl (by decide)) rfl
  rwa [List.append_nil] at header

/-! ### Frames -/

/-- The reader knows every format, with a palette of the size that is written. -/
theorem format_known (format : PixelFormat) :
    ∃ known, parseFormat format.imageFormatByte = some known ∧ known.hasPalette = format.hasPalette ∧
      (format.hasPalette = true → known.bpp ≤ 8 ∧ format.numColors = 2 ^ known.bpp) := by
  cases format <;> exact ⟨_, rfl, rfl, by simp [PixelFormat.hasPalette, PixelFormat.numColors]⟩

theorem length_descriptorBlock (content : FrameContent) : (descriptorBlock content).length = 11 := by
  simp [descriptorBlock, o8]

/-- What is written for a frame in the format. -/
structure FrameContent.Of (format : PixelFormat) (content : FrameContent) : Prop where
  fits : content.Fits
  named : content.format = format.imageFormatByte
  compression : content.compression < 256
  hasPalette : content.palette.isSome = format.hasPalette
  full : ∀ entries, content.palette = some entries → entries.length = format.numColors

variable {content : FrameContent} {format : PixelFormat} {known stale : Format}

theorem parse_descriptorBlock (of : content.Of format) (parsed : parseFormat format.imageFormatByte = some known) :
    parseFrameDescriptor stale (descriptorBlock content) =
      ⟨known, content.delta.isSome, content.compression, content.delay⟩ := by
  have byte : format.imageFormatByte % 256 = format.imageFormatByte := by cases format <;> rfl
  have formatField : field (descriptorBlock content) 5 1 = format.imageFormatByte := by
    simp [descriptorBlock, blockHeader, o8, field_skip, of.named, byte]
  have small : (if content.delta.isSome then 2 else 0) % 256 = if content.delta.isSome then 2 else 0 := by
    split <;> rfl
  have flagsField : field (descriptorBlock content) 6 1 = if content.delta.isSome then 2 else 0 := by
    simp [descriptorBlock, blockHeader, o8, field_skip, small]
  have compressionField : field (descriptorBlock content) 7 1 = content.compression := by
    simp [descriptorBlock, blockHeader, o8, field_skip, Nat.mod_eq_of_lt of.compression]
  have delayField : field (descriptorBlock content) 9 2 = content.delay := by
    simp [descriptorBlock, blockHeader, o8, field_skip]
    exact of.fits.delay
  rw [parseFrameDescriptor, formatField, flagsField, compressionField, delayField, parsed]
  cases content.delta <;> simp

/-- A part that is there exactly if something was written for it. -/
theorem reads_optional {τ α : Type} {written : Option τ} {condition : Prop} [Decidable condition]
    (there : condition ↔ written.isSome = true) {x : Reader α} {a : τ → α} {b : α} {block : τ → List Byte}
    (reads : ∀ value, written = some value → Reads x (block value) (a value)) :
    Reads (if condition then x else pure b) (written.elim [] block) (written.elim b a) := by
  cases written with
  | none =>
    rw [if_neg (by simpa using there)]
    exact reads_pure b
  | some value =>
    rw [if_pos (by simpa using there)]
    exact reads value rfl

/-! ### Preparing -/

theorem entries_read (entries : List Colour) :
    Reads (readEntries entries.length) (entries.flatMap colourBytes) (entries.map colourBytes) := by
  induction entries with
  | nil => exact reads_pure []
  | cons entry entries ih =>
    have first : Reads (Reader.struct 3) (colourBytes entry) (colourBytes entry) := reads_struct (by decide) rfl
    have others := ih.bind_pure (f := fun entries => pure (colourBytes entry :: entries)) (reads_pure _)
    exact first.bind others

theorem palette_loads {device : Device} {bpp : Nat} (few : bpp ≤ 8) (holds : device.tableHolds (paletteEntries bpp) = true)
    {entries : List Colour} (full : entries.length = 2 ^ bpp) :
    Reads (loadQgfPalette device bpp) (paletteBlock entries) (entries.map colourBytes) := by
  have small : 2 ^ bpp ≤ 2 ^ 8 := Nat.pow_le_pow_right (by decide) few
  have count : paletteEntries bpp = entries.length := by
    rw [paletteEntries, Nat.one_shiftLeft, Nat.mod_eq_of_lt (by omega), full]
  rw [count] at holds
  rw [loadQgfPalette, count]
  exact (reads_struct (by decide) (length_blockHeader _ _)).bind
    ((entries_read entries).bind_pure (reads_require_bind holds (reads_pure _)))

theorem palette_prepares {device : Device} (holds : known.bpp ≤ 8 → device.tableHolds (paletteEntries known.bpp) = true)
    (converts : ∀ count, device.paletteConvert count = true)
    (stale : List (List Byte)) (of : content.Of format) (parsed : parseFormat format.imageFormatByte = some known) :
    Reads (preparePalette device stale known) (content.palette.elim [] paletteBlock)
      (content.palette.elim stale (·.map colourBytes)) := by
  obtain ⟨known', same, hasPalette, sizes⟩ := format_known format
  obtain rfl : known' = known := Option.some.inj (same.symm.trans parsed)
  have there := of.hasPalette.trans hasPalette.symm
  rw [preparePalette]
  cases written : content.palette with
  | none =>
    rw [written] at there
    rw [if_neg (by simp [← there])]
    refine reads_require_bind ?_ (reads_require_bind ?_ (reads_pure stale))
    · by_cases few : known'.bpp ≤ 8
      · simp [holds few]
      · simp [Nat.lt_of_not_le few]
    · simp [converts]
  | some entries =>
    rw [written] at there
    have has : known'.hasPalette = true := there.symm
    obtain ⟨few, colours⟩ := sizes (hasPalette.symm.trans has)
    rw [if_pos has]
    refine (palette_loads few (holds few) ((of.full entries written).trans colours)).bind_pure ?_
    exact reads_require_bind (converts _) (reads_pure _)

def Box.rectangle (box : Box) : Rectangle := ⟨box.left, box.top, box.right - 1, box.bottom - 1⟩

theorem delta_reads {box : Box} (right : box.right ≤ 2 ^ 16) (bottom : box.bottom ≤ 2 ^ 16) :
    Reads readDelta (deltaBlock box) box.rectangle := by
  have wide := box.wide
  have high := box.high
  have value : (⟨field (deltaBlock box) 5 2, field (deltaBlock box) 7 2, field (deltaBlock box) 9 2,
      field (deltaBlock box) 11 2⟩ : Rectangle) = box.rectangle := by
    simp [deltaBlock, blockHeader, o8, field_skip, Box.rectangle]
    omega
  rw [← value]
  exact (reads_struct (by decide) (by simp [deltaBlock])).bind_pure (reads_pure _)

/-! ### Whole frames -/

/-- What the reader has to find of a frame. -/
structure Recovers (content : FrameContent) (info : DrawInfo) : Prop where
  format : parseFormat content.format = some info.frame.format
  compression : info.frame.compressionScheme = content.compression
  delay : info.frame.delay = content.delay
  palette : ∀ entries, content.palette = some entries → info.palette = entries.map colourBytes
  isDelta : info.frame.isDelta = content.delta.isSome
  delta : ∀ box, content.delta = some box → info.delta = box.rectangle

/-- The blocks of a frame stand where the offset of the frame leads. -/
structure FrameThere (buffer : List Byte) (frameNumber : Nat) (content : FrameContent) : Prop where
  there : ∃ start rest, start ≤ buffer.length ∧ buffer.drop start = contentBlocks content ++ rest ∧
    ∀ position, seekToFrameDescriptor frameNumber buffer position = (some (), start)

theorem descriptor_reads (of : content.Of format) (parsed : parseFormat format.imageFormatByte = some known)
    (stale : Format) :
    Reads (do
      let frameDescriptor ← Reader.struct 11
      Reader.require (validateBlockHeader frameDescriptor 0x02 6)
      pure (parseFrameDescriptor stale frameDescriptor)) (descriptorBlock content)
      ⟨known, content.delta.isSome, content.compression, content.delay⟩ := by
  have header := reads_header 0x02 6 6 (o8 content.format ++ (o8 (if content.delta.isSome then 0x02 else 0) ++
    (o8 content.compression ++ (o8 0xFF ++ pack 2 content.delay)))) (.inr rfl) (show 5 + _ = 11 by simp [o8])
    (f := fun frameDescriptor => pure (parseFrameDescriptor stale frameDescriptor)) (reads_pure _)
  rw [List.append_nil] at header
  rw [← parse_descriptorBlock of parsed]
  exact header

theorem full_palette (of : content.Of format) (parsed : parseFormat format.imageFormatByte = some known)
    {entries : List Colour} (written : content.palette = some entries) :
    known.hasPalette = true ∧ known.bpp ≤ 8 ∧ entries.length = 2 ^ known.bpp := by
  obtain ⟨known', same, hasPalette, sizes⟩ := format_known format
  obtain rfl : known' = known := Option.some.inj (same.symm.trans parsed)
  have has : format.hasPalette = true := by rw [← of.hasPalette, written]; rfl
  obtain ⟨few, colours⟩ := sizes has
  exact ⟨hasPalette.trans has, few, (of.full entries written).trans colours⟩

theorem frame_validates {buffer : List Byte} {frameNumber : Nat} (of : content.Of format)
    (frame : FrameThere buffer frameNumber content) (stale : Format) (position : Nat) :
    ∃ next, validateFrame stale frameNumber buffer position = (some (), next) := by
  obtain ⟨known, parsed, hasPalette, -⟩ := format_known format
  obtain ⟨start, rest, inside, here, sought⟩ := frame.there
  have palette : Reads (if known.hasPalette then validatePaletteDescriptor known.bpp else pure ())
      (content.palette.elim [] paletteBlock) () := by
    refine reads_optional (a := fun _ => ()) (by rw [of.hasPalette, hasPalette]) fun entries written => ?_
    obtain ⟨-, few, full⟩ := full_palette of parsed written
    exact palette_validates few full
  have delta : Reads (if content.delta.isSome then validateDeltaDescriptor else pure ())
      (content.delta.elim [] deltaBlock) () :=
    reads_optional (a := fun _ => ()) Iff.rfl fun box _ => delta_validates box
  have blocks : Reads (do
      (if known.hasPalette then validatePaletteDescriptor known.bpp else pure ())
      (if content.delta.isSome then validateDeltaDescriptor else pure ())
      validateFrameDataDescriptor) (content.palette.elim [] paletteBlock ++ (content.delta.elim [] deltaBlock ++
        blockHeader 0x05 content.data.length)) () :=
    palette.bind (delta.bind (data_validates content.data.length))
  rw [contentBlocks, dataBlock, List.append_assoc] at here
  have described := descriptor_reads of parsed stale buffer start _ here inside
  have behind : buffer.drop (start + (descriptorBlock content).length) =
      (content.palette.elim [] paletteBlock ++ (content.delta.elim [] deltaBlock ++
        blockHeader 0x05 content.data.length)) ++ (dataBytes content.data ++ rest) := by
    rw [← List.drop_drop, here, List.drop_left]
    simp only [List.append_assoc]
  have read := blocks buffer _ _ behind (length_of_drop here inside)
  have descriptor : validateFrameDescriptor stale frameNumber buffer position =
      (some ⟨known, content.delta.isSome, content.compression, content.delay⟩,
        start + (descriptorBlock content).length) := (bind_of_eq (sought position)).trans described
  exact ⟨_, (bind_of_eq descriptor).trans read⟩

theorem frame_prepares {device : Device} {buffer : List Byte} {frameNumber : Nat} (of : content.Of format)
    (parsed : parseFormat format.imageFormatByte = some known) (capable : device.bppCapable known.bpp = true)
    (holds : known.bpp ≤ 8 → device.tableHolds (paletteEntries known.bpp) = true) (converts : ∀ count, device.paletteConvert count = true) (frame : FrameThere buffer frameNumber content)
    (stale : DrawInfo) (position : Nat) :
    ∃ info next, prepareFrameForStreamRead device stale frameNumber buffer position = (some info, next) ∧
      Recovers content info ∧ (buffer.drop next).take content.data.length = dataBytes content.data := by
  obtain ⟨start, rest, inside, here, sought⟩ := frame.there
  have delta : Reads (if content.delta.isSome then readDelta else pure stale.delta)
      (content.delta.elim [] deltaBlock) (content.delta.elim stale.delta Box.rectangle) :=
    reads_optional Iff.rfl fun box written =>
      delta_reads (of.fits.delta box written).1 (of.fits.delta box written).2
  have data : Reads (Reader.struct 5) (blockHeader 0x05 content.data.length) (blockHeader 0x05 content.data.length) :=
    reads_struct (by decide) (length_blockHeader _ _)
  have palette := palette_prepares holds converts stale.palette of parsed
  have descriptor : Reads (Reader.struct 11) (descriptorBlock content) (descriptorBlock content) :=
    reads_struct (by decide) (length_descriptorBlock content)
  have blocks : Reads (do
      let frameDescriptor ← Reader.struct 11
      let info := parseFrameDescriptor stale.frame.format frameDescriptor
      Reader.require (device.bppCapable info.format.bpp)
      let palette ← preparePalette device stale.palette info.format
      let delta ← (if info.isDelta then readDelta else pure stale.delta)
      let _ ← Reader.struct 5
      pure (⟨info, delta, palette⟩ : DrawInfo)) (descriptorBlock content ++ (content.palette.elim [] paletteBlock ++
        (content.delta.elim [] deltaBlock ++ blockHeader 0x05 content.data.length)))
      ⟨⟨known, content.delta.isSome, content.compression, content.delay⟩,
        content.delta.elim stale.delta Box.rectangle, content.palette.elim stale.palette (·.map colourBytes)⟩ := by
    refine descriptor.bind ?_
    rw [parse_descriptorBlock of parsed]
    exact reads_require_bind capable (palette.bind (delta.bind (data.bind_pure (reads_pure _))))
  have split : contentBlocks content ++ rest = descriptorBlock content ++ (content.palette.elim [] paletteBlock ++
      (content.delta.elim [] deltaBlock ++ blockHeader 0x05 content.data.length)) ++
        (dataBytes content.data ++ rest) := by
    simp only [contentBlocks, dataBlock, List.append_assoc]
  rw [split] at here
  refine ⟨_, _, (bind_of_eq (sought position)).trans (blocks buffer start _ here inside), ?_, ?_⟩
  · refine ⟨by rw [of.named, parsed], rfl, rfl, ?_, rfl, ?_⟩
    · intro entries written
      rw [written]
      rfl
    · intro box written
      rw [written]
      rfl
  · rw [← List.drop_drop, here, List.drop_left]
    exact List.take_left' (List.length_map _)

end Blocks

end QmkFirmware.Painter
