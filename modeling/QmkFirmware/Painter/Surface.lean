import QmkFirmware.Foundations.Mirror
import QmkFirmware.Foundations.Runs

/-! # Surfaces

The RGB565 surface of `drivers/painter/generic`, which keeps the rectangle that has changed since it has been drawn on
another display.  Coordinates are `uint16_t`.
-/

namespace QmkFirmware.Painter.Surfaces

open QmkFirmware.Mirror

abbrev Pixel := BitVec 16

structure Viewport where
  l : Nat
  t : Nat
  r : Nat
  b : Nat
  pixdataX : Nat
  pixdataY : Nat

structure Dirty where
  isDirty : Bool
  l : Nat
  t : Nat
  r : Nat
  b : Nat

structure Surface where
  panelWidth : Nat
  panelHeight : Nat
  buffer : Nat → Pixel
  viewport : Viewport
  dirty : Dirty

def uint16Max : Nat := 65535

def uint16 (value : Nat) : Nat := value % 65536

/-! ## Writing -/

def incrementPixdataLocation (viewport : Viewport) : Viewport :=
  let x := uint16 (viewport.pixdataX + 1)
  let (x, y) := if viewport.r < x then (viewport.l, uint16 (viewport.pixdataY + 1)) else (x, viewport.pixdataY)
  { viewport with
    pixdataX := x
    pixdataY := if viewport.b < y then viewport.t else y }

def updateDirty (dirty : Dirty) (x y : Nat) : Dirty :=
  let dirty := if x < dirty.l then { dirty with l := x, isDirty := true } else dirty
  let dirty := if dirty.r < x then { dirty with r := x, isDirty := true } else dirty
  let dirty := if y < dirty.t then { dirty with t := y, isDirty := true } else dirty
  if dirty.b < y then { dirty with b := y, isDirty := true } else dirty

def setpixel (s : Surface) (x y : Nat) (pixel : Pixel) : Surface :=
  if s.panelWidth ≤ x ∨ s.panelHeight ≤ y then s
  else if s.buffer (y * s.panelWidth + x) ≠ pixel then
    { s with
      dirty := updateDirty s.dirty x y
      buffer := Function.update s.buffer (y * s.panelWidth + x) pixel }
  else s

def appendPixel (s : Surface) (pixel : Pixel) : Surface :=
  let s := setpixel s s.viewport.pixdataX s.viewport.pixdataY pixel
  { s with viewport := incrementPixdataLocation s.viewport }

def streamPixdata (s : Surface) (data : List Pixel) : Surface := data.foldl appendPixel s

def setViewport (s : Surface) (l t r b : Nat) : Surface :=
  { s with viewport := { l := l, t := t, r := r, b := b, pixdataX := l, pixdataY := t } }

def init (s : Surface) : Surface :=
  { s with
    buffer := fun _ => 0
    dirty :=
      { isDirty := true
        l := 0
        t := 0
        r := s.panelWidth - 1
        b := s.panelHeight - 1 } }

def flush (s : Surface) : Surface :=
  { s with
    dirty :=
      { isDirty := false
        l := uint16Max
        t := uint16Max
        r := 0
        b := 0 } }

/-! ## Drawing on another display -/

/-- A call to the display fails, possibly after some of the pixels. -/
abbrev Answer := Option Nat

/-- A transfer that is under way: the pixels in the buffer, the display, and the answers to come. -/
structure Transfer where
  chunk : List Pixel
  target : Surface
  answers : List Answer
  ok : Bool

def Transfer.send (transfer : Transfer) : Transfer :=
  match transfer.answers.headD none with
  | none =>
    { chunk := []
      target := streamPixdata transfer.target transfer.chunk
      answers := transfer.answers.tail
      ok := true }
  | some written =>
    { chunk := []
      target := streamPixdata transfer.target (transfer.chunk.take written)
      answers := transfer.answers.tail
      ok := false }

def Transfer.pixel (total : Nat) (transfer : Transfer) (pixel : Pixel) : Transfer :=
  if transfer.ok then
    let transfer := { transfer with chunk := transfer.chunk ++ [pixel] }
    if transfer.chunk.length = total then transfer.send else transfer
  else transfer

/-- The pixels that are left over are sent after the loops. -/
def Transfer.finish (transfer : Transfer) : Bool × Surface :=
  if transfer.ok ∧ transfer.chunk ≠ [] then (transfer.send.ok, transfer.send.target)
  else (transfer.ok, transfer.target)

/-- The coordinates of the loops, row by row. -/
def rows (l t r b : Nat) : List (Nat × Nat) :=
  (List.range' t (b + 1 - t)).flatMap fun y => (List.range' l (r + 1 - l)).map fun x => (x, y)

structure Area where
  l : Nat
  t : Nat
  r : Nat
  b : Nat

/-- What a transfer reads from the surface. -/
def area (s : Surface) (entireSurface : Bool) : Area where
  l := if entireSurface then 0 else s.dirty.l
  t := if entireSurface then 0 else s.dirty.t
  r := if entireSurface then s.panelWidth - 1 else s.dirty.r
  b := if entireSurface then s.panelHeight - 1 else s.dirty.b

/-- `rgb565_target_pixdata_transfer`, with a buffer for so many pixels. -/
def targetPixdataTransfer (total : Nat) (s target : Surface) (x y : Nat) (entireSurface : Bool) (answers : List Answer) :
    Bool × Surface :=
  let read := area s entireSurface
  match answers.headD none with
  | some _ => (false, target)
  | none =>
    let start : Transfer :=
      { chunk := []
        target := setViewport target (uint16 (x + read.l)) (uint16 (y + read.t)) (uint16 (x + read.r)) (uint16 (y + read.b))
        answers := answers.tail
        ok := true }
    let pixels := (rows read.l read.t read.r read.b).map fun place => s.buffer (place.2 * s.panelWidth + place.1)
    (pixels.foldl (Transfer.pixel total) start).finish

/-- `qp_surface_draw`, on a display with as many bits per pixel. -/
def draw (total : Nat) (s target : Surface) (x y : Nat) (entireSurface : Bool) (answers : List Answer) :
    Bool × Surface × Surface :=
  if s.dirty.isDirty then
    let (ok, target) := targetPixdataTransfer total s target x y entireSurface answers
    if ok then (true, flush s, target) else (false, s, target)
  else (true, s, target)

/-! ## Runs -/

inductive Op where
  | viewport (l t r b : Nat)
  | pixdata (data : List Pixel)
  | clear
  | draw (entireSurface : Bool) (answers : List Answer)

structure System where
  surface : Surface
  target : Surface
  /-- what the last drawing has returned -/
  drawn : Bool

/-- A surface is always drawn at the same place. -/
def step (total x y : Nat) (s : System) : Op → System
  | .viewport l t r b => { s with surface := setViewport s.surface l t r b, drawn := false }
  | .pixdata data => { s with surface := streamPixdata s.surface data, drawn := false }
  | .clear => { s with surface := init s.surface, drawn := false }
  | .draw entireSurface answers =>
    let (ok, surface, target) := draw total s.surface s.target x y entireSurface answers
    { surface := surface, target := target, drawn := ok }

end QmkFirmware.Painter.Surfaces
