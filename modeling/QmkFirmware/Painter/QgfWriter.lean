import Mathlib.Data.List.Dedup
import QmkFirmware.Foundations.Endian
import QmkFirmware.Painter.Codec
import QmkFirmware.Painter.Qgf

/-! # Writing QGF images

`_save` of `lib/python/qmk/painter_qgf.py` with the classes of its blocks.  What the imaging library does
with a frame is a parameter, and so is the conversion of a colour, which goes through floating
point.  What is printed is left out.
-/

namespace QmkFirmware.Painter

open QmkFirmware.Endian

/-! ## Files -/

/-- A binary file.  Nothing seeks beyond its end. -/
structure OutputFile where
  bytes : List Byte
  position : Nat

/-- Code that writes into a file; `none` is an exception. -/
abbrev Writer := StateT OutputFile Option

namespace Writer

def write (data : List Byte) : Writer Unit := fun file =>
  some ((), ⟨file.bytes.take file.position ++ data ++ file.bytes.drop (file.position + data.length),
    file.position + data.length⟩)

def tell : Writer Nat := fun file => some (file.position, file)

def seek (position : Nat) : Writer Unit := fun file => some ((), { file with position := position })

end Writer

/-! ## Numbers -/

def pack (count value : Nat) : List Byte := (littleEndian count value).map UInt8.toBitVec

def o8 (i : Nat) : List Byte := pack 1 i

/-- Packing refuses a number that does not fit. -/
def o16 (i : Nat) : Option (List Byte) := if i < 2 ^ 16 then some (pack 2 i) else none

def o24 (i : Nat) : Option (List Byte) := do
  return (← o16 (i &&& 0xFFFF)) ++ o8 ((i &&& 0xFF0000) >>> 16)

def o32 (i : Nat) : Option (List Byte) := if i < 2 ^ 32 then some (pack 4 i) else none

/-! ## Blocks -/

def writeBlockHeader (typeId length : Nat) : Writer Unit := do
  Writer.write (o8 typeId ++ o8 (~~~BitVec.ofNat 8 typeId).toNat ++ (← o24 length))

def GraphicsDescriptor.write (descriptor : GraphicsDescriptor) : Writer Unit := do
  writeBlockHeader 0x00 18
  Writer.write ((← o24 0x464751) ++ o8 1 ++ (← o32 descriptor.totalFileSize) ++
    (← o32 (~~~BitVec.ofNat 32 descriptor.totalFileSize).toNat) ++ (← o16 descriptor.imageWidth) ++
    (← o16 descriptor.imageHeight) ++ (← o16 descriptor.frameCount))

def writeFrameOffsets (frameOffsets : List Nat) : Writer Unit := do
  writeBlockHeader 0x01 (frameOffsets.length * 4)
  frameOffsets.forM fun offset => do Writer.write (← o32 offset)

/-- A part of an image: the first column and row, and those after the last. -/
structure Box where
  left : Nat
  top : Nat
  right : Nat
  bottom : Nat
  wide : left < right
  high : top < bottom
deriving DecidableEq

abbrev Colour := Byte × Byte × Byte

/-- What is written for a frame; `delta` is the place of a delta frame. -/
structure FrameContent where
  format : Nat
  delta : Option Box
  compression : Nat
  delay : Nat
  palette : Option (List Colour)
  data : List Nat
deriving DecidableEq

def writeFrameDescriptor (content : FrameContent) : Writer Unit := do
  writeBlockHeader 0x02 6
  let flags := if content.delta.isSome then 0x02 else 0
  Writer.write (o8 content.format ++ o8 flags ++ o8 content.compression ++ o8 0xFF ++ (← o16 content.delay))

def writePalette (paletteEntries : List Colour) : Writer Unit := do
  writeBlockHeader 0x03 (paletteEntries.length * 3)
  paletteEntries.forM fun (h, s, v) => Writer.write [h, s, v]

def writeDelta (box : Box) : Writer Unit := do
  let size := (box.right - box.left, box.bottom - box.top)
  writeBlockHeader 0x04 8
  Writer.write ((← o16 box.left) ++ (← o16 box.top) ++ (← o16 (box.left + size.1 - 1)) ++
    (← o16 (box.top + size.2 - 1)))

def writeData (data : List Nat) : Writer Unit := do
  writeBlockHeader 0x05 data.length
  Writer.write (← toBytes data)

/-! ## Frames -/

/-- The keys of `valid_formats`. -/
inductive PixelFormat where
  | rgb888
  | rgb565
  | pal256
  | pal16
  | pal4
  | pal2
  | mono256
  | mono16
  | mono4
  | mono2
deriving DecidableEq

namespace PixelFormat

def imageFormatByte : PixelFormat → Nat
  | rgb888 => 0x09
  | rgb565 => 0x08
  | pal256 => 0x07
  | pal16 => 0x06
  | pal4 => 0x05
  | pal2 => 0x04
  | mono256 => 0x03
  | mono16 => 0x02
  | mono4 => 0x01
  | mono2 => 0x00

def hasPalette : PixelFormat → Bool
  | pal256 | pal16 | pal4 | pal2 => true
  | _ => false

def numColors : PixelFormat → Nat
  | rgb888 => 16777216
  | rgb565 => 65536
  | pal256 | mono256 => 256
  | pal16 | mono16 => 16
  | pal4 | mono4 => 4
  | pal2 | mono2 => 2

end PixelFormat

/-- What the imaging library knows of a frame and does with it.  `imageBytes` and `paletteEntry` are
what `convert_image_bytes` makes of a frame in the format, and `differenceBox` is where a frame differs from
another.  Durations are whole milliseconds: `o16` raises on a fraction. -/
structure Imaging (Frame : Type) where
  size : Frame → Nat × Nat
  duration : Frame → Option Nat
  imageBytes : PixelFormat → Frame → List Byte
  paletteEntry : PixelFormat → Frame → Nat → Colour
  hsv888 : Colour → Colour
  differenceBox : Frame → Frame → Option Box
  crop : Frame → Box → Frame
  inside : ∀ frame other box, differenceBox frame other = some box →
    box.right ≤ (size frame).1 ∧ box.bottom ≤ (size frame).2

structure SaveOptions where
  useDeltas : Bool
  useRle : Bool

/-- The data of a frame, and whether they are raw. -/
structure Encoded where
  useRaw : Bool
  data : List Nat

def encode (options : SaveOptions) (graphicData : List Byte) : Encoded :=
  let rawData := graphicData.map BitVec.toNat
  let rleData := compressBytesQmkRle rawData
  if !options.useRle ∨ rawData.length ≤ rleData.length then ⟨true, rawData⟩ else ⟨false, rleData⟩

section Save

variable {Frame : Type} (pil : Imaging Frame) (options : SaveOptions) (format : PixelFormat)

/-- The palette of `graphic_data`, converted, for a format that has one. -/
def palette (frame : Frame) : Option (List Colour) :=
  if format.hasPalette then
    some (((List.range format.numColors).map (pil.paletteEntry format frame)).map pil.hsv888)
  else none

/-- The frame that is written: `delta` is its place if it is a delta of `original`. -/
def frameContent (original thisFrame : Frame) (delta : Option Box) : FrameContent :=
  let encoded := encode options (pil.imageBytes format thisFrame)
  { format := format.imageFormatByte
    delta := delta
    compression := if encoded.useRaw then 0x00 else 0x01
    delay := (pil.duration original).getD 1000
    palette := palette pil format thisFrame
    data := encoded.data }

/-- The first part of `_write_frame`.  A delta frame is taken where it is smaller with its
descriptor.  Then `rle_data = delta_rle_data` raises unless the latter was assigned. -/
def chooseFrame (frame : Frame) (lastFrame : Option Frame) : Option FrameContent :=
  match (if options.useDeltas then lastFrame else none) with
  | none => some (frameContent pil options format frame frame none)
  | some lastFrame =>
    match pil.differenceBox frame lastFrame with
    | none => some (frameContent pil options format frame frame none)
    | some bbox =>
      let deltaFrame := pil.crop frame bbox
      let imageData := (encode options (pil.imageBytes format frame)).data
      let deltaImageData := (encode options (pil.imageBytes format deltaFrame)).data
      if deltaImageData.length + 8 < imageData.length then
        if options.useRle then some (frameContent pil options format frame deltaFrame (some bbox)) else none
      else some (frameContent pil options format frame frame none)

def writeContent (content : FrameContent) : Writer Unit := do
  writeFrameDescriptor content
  (match content.palette with
    | some paletteEntries => writePalette paletteEntries
    | none => pure ())
  (match content.delta with
    | some box => writeDelta box
    | none => pure ())
  writeData content.data

/-- `_for_all_frames(_write_frame)`, from the frame `idx` on, with the entries of `frame_offsets`. -/
def writeFrames : (idx : Nat) → (lastFrame : Option Frame) → List Frame → (frameOffsets : List Nat) → Writer (List Nat)
  | _, _, [], frameOffsets => pure frameOffsets
  | idx, lastFrame, frame :: frames, frameOffsets => do
    let content ← (chooseFrame pil options format frame lastFrame : Option FrameContent)
    let frameOffsets := frameOffsets.set idx (← Writer.tell)
    writeContent content
    writeFrames (idx + 1) (some frame) frames frameOffsets

def saveInto (frames : List Frame) : Writer Unit := do
  let frameSizes := frames.map pil.size
  (if frameSizes.dedup.length = 1 then pure () else failure)
  let graphicsDescriptorLocation ← Writer.tell
  let (imageWidth, imageHeight) := frameSizes.headD (0, 0)
  let graphicsDescriptor : GraphicsDescriptor := ⟨imageWidth, imageHeight, frameSizes.length, 0⟩
  graphicsDescriptor.write
  let frameOffsetLocation ← Writer.tell
  writeFrameOffsets (List.replicate frameSizes.length 0xFFFFFFFF)
  let frameOffsets ← writeFrames pil options format 0 none frames (List.replicate frameSizes.length 0xFFFFFFFF)
  let totalFileSize ← Writer.tell
  Writer.seek graphicsDescriptorLocation
  { graphicsDescriptor with totalFileSize := totalFileSize }.write
  Writer.seek frameOffsetLocation
  writeFrameOffsets frameOffsets

/-- `_save` into an empty file. -/
def save (frames : List Frame) : Option (List Byte) :=
  (saveInto pil options format frames ⟨[], 0⟩).map fun (_, file) => file.bytes

end Save

end QmkFirmware.Painter
