import QmkFirmware.Painter.QgfWriter

/-! # Blocks of a QGF image

The bytes of every block, as the writer puts them into the file and as the reader finds them.
-/

namespace QmkFirmware.Painter

open QmkFirmware.Endian

/-! ## Packed numbers -/

section Packed

variable {count value offset size : Nat} {rest : List Byte}

@[simp] theorem length_pack (count value : Nat) : (pack count value).length = count := by
  rw [pack, List.length_map, length_littleEndian]

theorem le_cons (byte : Byte) (bytes : List Byte) : le (byte :: bytes) = byte.toNat + 256 * le bytes := by
  rw [le, List.map_cons, Nat.ofDigits_cons]
  rfl

theorem le_map_toBitVec (bytes : List UInt8) : le (bytes.map UInt8.toBitVec) = ofLittleEndian bytes := by
  induction bytes with
  | nil => rfl
  | cons byte bytes ih =>
    rw [List.map_cons, le_cons, ih]
    rfl

theorem le_pack (count value : Nat) : le (pack count value) = value % 256 ^ count := by
  rw [pack, le_map_toBitVec, ofLittleEndian_littleEndian]

@[simp] theorem field_here : field (pack count value ++ rest) 0 count = value % 256 ^ count := by
  rw [field, List.drop_zero, List.take_left' (length_pack count value), le_pack]

@[simp] theorem field_last : field (pack count value) 0 count = value % 256 ^ count := by
  rw [field, List.drop_zero, List.take_of_length_le (length_pack count value).le, le_pack]

theorem field_skip (behind : count ≤ offset) :
    field (pack count value ++ rest) offset size = field rest (offset - count) size := by
  have split : offset = count + (offset - count) := (Nat.add_sub_cancel' behind).symm
  rw [field, split, ← List.drop_drop, List.drop_left' (length_pack count value), Nat.add_sub_cancel_left]
  rfl

theorem pack_mod (count value : Nat) : pack count (value % 256 ^ count) = pack count value := by
  induction count generalizing value with
  | zero => rfl
  | succ count ih =>
    have first : UInt8.ofNat (value % 256 ^ (count + 1)) = UInt8.ofNat value := by
      apply UInt8.toNat_inj.mp
      rw [UInt8.toNat_ofNat', UInt8.toNat_ofNat', Nat.pow_succ']
      exact Nat.mod_mul_right_mod value 256 (256 ^ count)
    have others : value % 256 ^ (count + 1) / 256 = value / 256 % 256 ^ count := by
      rw [Nat.pow_succ', Nat.mod_mul_right_div_self]
    rw [pack, littleEndian, first, others, List.map_cons]
    exact congrArg (_ :: ·) (ih (value / 256))

theorem pack_add (first second value : Nat) :
    pack (first + second) value = pack first value ++ pack second (value / 256 ^ first) := by
  induction first generalizing value with
  | zero => simp [pack, littleEndian]
  | succ first ih =>
    rw [pack, pack, Nat.add_right_comm, littleEndian, littleEndian, List.map_cons, List.map_cons, List.cons_append,
      Nat.pow_succ', ← Nat.div_div_eq_div_mul]
    exact congrArg (_ :: ·) (ih (value / 256))

theorem o24_eq (i : Nat) : o24 i = some (pack 3 i) := by
  have low : i &&& 0xFFFF = i % 256 ^ 2 := Nat.and_two_pow_sub_one_eq_mod i 16
  have high : (i &&& 0xFF0000) >>> 16 = i / 256 ^ 2 % 256 ^ 1 := by
    rw [Nat.shiftRight_and_distrib, Nat.shiftRight_eq_div_pow]
    exact Nat.and_two_pow_sub_one_eq_mod (i / 2 ^ 16) 8
  have fits : i % 256 ^ 2 < 2 ^ 16 := Nat.mod_lt i (by decide)
  rw [o24, low, high, o16, if_pos fits, o8, pack_mod, pack_mod, pack_add 2 1]
  rfl

end Packed

/-! ## Writing -/

namespace Writer

/-- The writer puts bytes at the position over those that stand there, or behind the end. -/
def Puts (w : Writer Unit) (out : List Byte) : Prop :=
  ∀ front rest, w ⟨front ++ rest, front.length⟩ =
    some ((), ⟨front ++ (out ++ rest.drop out.length), (front ++ out).length⟩)

variable {w next : Writer Unit} {out more : List Byte}

theorem puts_write (data : List Byte) : Puts (write data) data := by
  intro front rest
  rw [write, List.take_left, ← List.drop_drop, List.drop_left, List.append_assoc, List.length_append]

theorem puts_pure : Puts (pure ()) [] := by
  intro front rest
  rw [List.append_nil]
  rfl

theorem Puts.bind (first : Puts w out) (second : Puts next more) : Puts (do w; next) (out ++ more) := by
  intro front rest
  show (w ⟨front ++ rest, front.length⟩).bind (fun written => next written.2) = _
  rw [first, Option.bind_some, ← List.append_assoc]
  dsimp only
  rw [second, List.drop_drop, ← List.length_append]
  simp only [List.append_assoc]

theorem puts_forM {α : Type} {f : α → Writer Unit} {put : α → List Byte} {xs : List α}
    (each : ∀ x ∈ xs, Puts (f x) (put x)) : Puts (xs.forM f) (xs.flatMap put) := by
  induction xs with
  | nil => exact puts_pure
  | cons x xs ih =>
    obtain ⟨here, later⟩ := List.forall_mem_cons.mp each
    rw [List.flatMap_cons]
    exact here.bind (ih later)

/-- At the end of the file, what is put is appended. -/
theorem Puts.append (puts : Puts w out) (bytes : List Byte) :
    w ⟨bytes, bytes.length⟩ = some ((), ⟨bytes ++ out, (bytes ++ out).length⟩) := by
  have appended := puts bytes []
  rwa [List.append_nil, List.drop_nil, List.append_nil] at appended

/-- Bytes of the same length are replaced. -/
theorem Puts.replace (puts : Puts w out) (front : List Byte) {old : List Byte} (rest : List Byte)
    (same : old.length = out.length) :
    w ⟨front ++ (old ++ rest), front.length⟩ = some ((), ⟨front ++ (out ++ rest), (front ++ out).length⟩) := by
  rw [puts, List.drop_left' same]

end Writer

/-! ## Blocks -/

def blockHeader (typeId length : Nat) : List Byte :=
  o8 typeId ++ (o8 (~~~BitVec.ofNat 8 typeId).toNat ++ pack 3 length)

def graphicsBlock (descriptor : GraphicsDescriptor) : List Byte :=
  blockHeader 0x00 18 ++ (pack 3 0x464751 ++ (o8 1 ++ (pack 4 descriptor.totalFileSize ++
    (pack 4 (~~~BitVec.ofNat 32 descriptor.totalFileSize).toNat ++ (pack 2 descriptor.imageWidth ++
      (pack 2 descriptor.imageHeight ++ pack 2 descriptor.frameCount))))))

def offsetsBlock (frameOffsets : List Nat) : List Byte :=
  blockHeader 0x01 (frameOffsets.length * 4) ++ frameOffsets.flatMap (pack 4)

def descriptorBlock (content : FrameContent) : List Byte :=
  blockHeader 0x02 6 ++ (o8 content.format ++ (o8 (if content.delta.isSome then 0x02 else 0) ++
    (o8 content.compression ++ (o8 0xFF ++ pack 2 content.delay))))

def colourBytes : Colour → List Byte
  | (h, s, v) => [h, s, v]

def paletteBlock (paletteEntries : List Colour) : List Byte :=
  blockHeader 0x03 (paletteEntries.length * 3) ++ paletteEntries.flatMap colourBytes

def deltaBlock (box : Box) : List Byte :=
  blockHeader 0x04 8 ++ (pack 2 box.left ++ (pack 2 box.top ++ (pack 2 (box.right - 1) ++ pack 2 (box.bottom - 1))))

def dataBytes (data : List Nat) : List Byte := data.map (BitVec.ofNat 8)

def dataBlock (data : List Nat) : List Byte := blockHeader 0x05 data.length ++ dataBytes data

def contentBlocks (content : FrameContent) : List Byte :=
  descriptorBlock content ++ (content.palette.elim [] paletteBlock ++
    (content.delta.elim [] deltaBlock ++ dataBlock content.data))

/-- The numbers of a frame fit into their fields, and its data are bytes. -/
structure FrameContent.Fits (content : FrameContent) : Prop where
  delay : content.delay < 2 ^ 16
  delta : ∀ box, content.delta = some box → box.right ≤ 2 ^ 16 ∧ box.bottom ≤ 2 ^ 16
  data : ∀ c ∈ content.data, c < 256

section Put

open Writer

theorem header_puts (typeId length : Nat) : Puts (writeBlockHeader typeId length) (blockHeader typeId length) := by
  have bytes : blockHeader typeId length = o8 typeId ++ o8 (~~~BitVec.ofNat 8 typeId).toNat ++ pack 3 length :=
    (List.append_assoc _ _ _).symm
  rw [writeBlockHeader, o24_eq, bytes]
  exact puts_write _

theorem graphics_puts (descriptor : GraphicsDescriptor) (size : descriptor.totalFileSize < 2 ^ 32)
    (width : descriptor.imageWidth < 2 ^ 16) (height : descriptor.imageHeight < 2 ^ 16)
    (count : descriptor.frameCount < 2 ^ 16) : Puts descriptor.write (graphicsBlock descriptor) := by
  have negated : (~~~BitVec.ofNat 32 descriptor.totalFileSize).toNat < 2 ^ 32 := BitVec.isLt _
  rw [GraphicsDescriptor.write, o24_eq, o32, if_pos size, o32, if_pos negated, o16, if_pos width, o16, if_pos height,
    o16, if_pos count]
  refine (header_puts 0x00 18).bind ?_
  simp only [← List.append_assoc]
  exact puts_write _

theorem offsets_puts (frameOffsets : List Nat) (fits : ∀ offset ∈ frameOffsets, offset < 2 ^ 32) :
    Puts (writeFrameOffsets frameOffsets) (offsetsBlock frameOffsets) := by
  refine (header_puts 0x01 _).bind (puts_forM fun offset member => ?_)
  rw [o32, if_pos (fits offset member)]
  exact puts_write _

theorem descriptor_puts {content : FrameContent} (delay : content.delay < 2 ^ 16) :
    Puts (writeFrameDescriptor content) (descriptorBlock content) := by
  rw [writeFrameDescriptor, o16, if_pos delay]
  refine (header_puts 0x02 6).bind ?_
  simp only [← List.append_assoc]
  exact puts_write _

theorem palette_puts (paletteEntries : List Colour) : Puts (writePalette paletteEntries) (paletteBlock paletteEntries) :=
  (header_puts 0x03 _).bind (puts_forM fun _ _ => puts_write _)

theorem delta_puts {box : Box} (right : box.right ≤ 2 ^ 16) (bottom : box.bottom ≤ 2 ^ 16) :
    Puts (writeDelta box) (deltaBlock box) := by
  have wide := box.wide
  have high := box.high
  have last : box.left + (box.right - box.left) - 1 = box.right - 1 := by omega
  have low : box.top + (box.bottom - box.top) - 1 = box.bottom - 1 := by omega
  rw [writeDelta]
  dsimp only
  rw [last, low, o16, if_pos (by omega), o16, if_pos (by omega), o16, if_pos (by omega), o16, if_pos (by omega)]
  refine (header_puts 0x04 8).bind ?_
  simp only [← List.append_assoc]
  exact puts_write _

theorem data_puts {data : List Nat} (bytes : ∀ c ∈ data, c < 256) : Puts (writeData data) (dataBlock data) := by
  rw [writeData, toBytes, if_pos bytes]
  exact (header_puts 0x05 _).bind (puts_write _)

theorem content_puts {content : FrameContent} (fits : content.Fits) :
    Puts (writeContent content) (contentBlocks content) := by
  refine (descriptor_puts fits.delay).bind ?_
  refine Puts.bind ?_ (Puts.bind ?_ (data_puts fits.data))
  · cases content.palette with
    | none => exact puts_pure
    | some paletteEntries => exact palette_puts paletteEntries
  · cases place : content.delta with
    | none => exact puts_pure
    | some box => exact delta_puts (fits.delta box place).1 (fits.delta box place).2

end Put

end QmkFirmware.Painter
