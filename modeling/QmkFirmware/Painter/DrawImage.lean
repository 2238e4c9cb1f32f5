import QmkFirmware.Painter.Qgf

/-! # Preparing a frame

`qp_drawimage_prepare_frame_for_stream_read` of `quantum/painter/qp_draw_image.c`, with
`qp_internal_load_qgf_palette` and `qp_internal_bpp_capable`.  The driver and the palettes that are interpolated
between two colours are parameters.
-/

namespace QmkFirmware.Painter

/-- The build, and what the driver and the interpolation answer for a number of palette entries. -/
structure Device where
  supportsNativeColors : Bool
  supports256Palette : Bool
  interpolatePalette : Nat → Bool
  paletteConvert : Nat → Bool

def Device.bppCapable (device : Device) (bitsPerPixel : Nat) : Bool :=
  if !device.supportsNativeColors then
    if !device.supports256Palette ∧ 4 < bitsPerPixel then false
    else if 8 < bitsPerPixel then false
    else true
  else true

structure Rectangle where
  left : Nat
  top : Nat
  right : Nat
  bottom : Nat
deriving DecidableEq

/-- `qgf_frame_info_t`, and the entries of `qp_internal_global_pixel_lookup_table`. -/
structure DrawInfo where
  frame : FrameInfo
  delta : Rectangle
  palette : List (List Byte)
deriving DecidableEq

/-- A number of entries in a `uint16_t`. -/
def paletteEntries (bpp : Nat) : Nat := (1 <<< bpp) % 2 ^ 16

def readEntries : Nat → Reader (List (List Byte))
  | 0 => pure []
  | count + 1 => do
    let entry ← Reader.struct 3
    let entries ← readEntries count
    pure (entry :: entries)

/-- The entries have room in `qp_internal_global_pixel_lookup_table`.  The source never asks: entries behind the end of
the table are written into what follows it, and the model goes no further there. -/
def Device.tableHolds (device : Device) (count : Nat) : Bool :=
  count ≤ if device.supports256Palette then 256 else 16

/-- `qp_internal_load_qgf_palette`, which does not look at the header. -/
def loadQgfPalette (device : Device) (bpp : Nat) : Reader (List (List Byte)) := do
  let _ ← Reader.struct 5
  let entries ← readEntries (paletteEntries bpp)
  Reader.require (device.tableHolds (paletteEntries bpp))
  pure entries

/-- The palette part, with what the table holds afterwards. -/
def preparePalette (device : Device) (stale : List (List Byte)) (format : Format) : Reader (List (List Byte)) := do
  if format.hasPalette then
    let palette ← loadQgfPalette device format.bpp
    Reader.require (device.paletteConvert (paletteEntries format.bpp))
    pure palette
  else
    Reader.require (8 < format.bpp || device.tableHolds (paletteEntries format.bpp))
    Reader.require (if format.bpp ≤ 8 ∧ device.interpolatePalette (paletteEntries format.bpp)
      then device.paletteConvert (paletteEntries format.bpp) else true)
    pure stale

def readDelta : Reader Rectangle := do
  let deltaDescriptor ← Reader.struct 13
  pure ⟨field deltaDescriptor 5 2, field deltaDescriptor 7 2, field deltaDescriptor 9 2, field deltaDescriptor 11 2⟩

/-- `stale` is what `info` and the table hold before. -/
def prepareFrameForStreamRead (device : Device) (stale : DrawInfo) (frameNumber : Nat) : Reader DrawInfo := do
  seekToFrameDescriptor frameNumber
  let frameDescriptor ← Reader.struct 11
  let info := parseFrameDescriptor stale.frame.format frameDescriptor
  Reader.require (device.bppCapable info.format.bpp)
  let palette ← preparePalette device stale.palette info.format
  let delta ← (if info.isDelta then readDelta else pure stale.delta)
  let _ ← Reader.struct 5
  pure ⟨info, delta, palette⟩

end QmkFirmware.Painter
