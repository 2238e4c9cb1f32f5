import QmkFirmware.Painter.DrawImage

/-! # Drawing

`qp_line` and `qp_rect` of `quantum/painter/qp_draw_core.c`, as the calls that they make to the driver of a display.
Coordinates are numbers below `2 ^ 16`.  What the driver answers may depend on all the calls before.
-/

namespace QmkFirmware.Painter

inductive DrawCall where
  | viewport (area : Rectangle)
  | pixdata (count : Nat)
deriving DecidableEq

structure Display where
  validateOk : Bool
  commsStart : Bool
  bufferSize : Nat
  nativeBitsPerPixel : Nat
  positive : 0 < nativeBitsPerPixel
  holdsPixel : nativeBitsPerPixel ≤ bufferSize * 8
  viewport : List DrawCall → Rectangle → Bool
  pixdata : List DrawCall → Nat → Bool

namespace Display

/-- `qp_internal_num_pixels_in_buffer`. -/
def pixelsInBuffer (display : Display) : Nat := display.bufferSize * 8 / display.nativeBitsPerPixel

theorem pixelsInBuffer_pos (display : Display) : 0 < display.pixelsInBuffer :=
  Nat.div_pos display.holdsPixel display.positive

/-- The driver takes all the pixels. -/
structure Works (display : Display) : Prop where
  valid : display.validateOk = true
  starts : display.commsStart = true
  viewport : ∀ calls area, display.viewport calls area = true
  pixdata : ∀ calls count, display.pixdata calls count = true

theorem sixteen_pos : 0 < 16 := by decide

/-- A display of 16 bits per pixel that takes all the pixels. -/
def working : Display where
  validateOk := true
  commsStart := true
  bufferSize := 1024
  nativeBitsPerPixel := 16
  positive := sixteen_pos
  holdsPixel := by decide
  viewport _ _ := true
  pixdata _ _ := true

theorem working_works : working.Works where
  valid := rfl
  starts := rfl
  viewport _ _ := rfl
  pixdata _ _ := rfl

end Display

/-! ## Rectangles -/

/-- The conversion to `uint16_t`. -/
def toUint16 (value : Int) : Nat := (value % 2 ^ 16).toNat

/-- The loop of `qp_internal_fillrect_helper_impl`.  Every turn sends at least one pixel, so that the pixels that
remain are fuel enough. -/
def sendPixels (display : Display) : (fuel remaining : Nat) → List DrawCall → Bool × List DrawCall
  | 0, _, calls => (true, calls)
  | fuel + 1, remaining, calls =>
    if 0 < remaining then
      let transmit := min remaining display.pixelsInBuffer
      if display.pixdata calls transmit then
        sendPixels display fuel (remaining - transmit) (calls ++ [.pixdata transmit])
      else (false, calls ++ [.pixdata transmit])
    else (true, calls)

/-- `qp_internal_fillrect_helper_impl`, which does not look at what setting the viewport returns. -/
def fillrectHelper (display : Display) (left top right bottom : Nat) (calls : List DrawCall) : Bool × List DrawCall :=
  let l := min left right
  let r := max left right
  let t := min top bottom
  let b := max top bottom
  let w := toUint16 (r - l + 1)
  let h := toUint16 (b - t + 1)
  let remaining := w * h % 2 ^ 32
  sendPixels display remaining remaining (calls ++ [.viewport ⟨l, t, r, b⟩])

/-- The sides of an outline, each of them only if those before could be drawn. -/
def drawSides (display : Display) : List Rectangle → List DrawCall → Bool × List DrawCall
  | [], calls => (true, calls)
  | side :: sides, calls =>
    let (drawn, calls) := fillrectHelper display side.left side.top side.right side.bottom calls
    if drawn then drawSides display sides calls else (false, calls)

def outlineSides (l t r b : Nat) : List Rectangle :=
  [⟨l, t, r, t⟩, ⟨l, b, r, b⟩, ⟨l, toUint16 (t + 1), l, toUint16 (b - 1)⟩, ⟨r, toUint16 (t + 1), r, toUint16 (b - 1)⟩]

def qpRect (display : Display) (left top right bottom : Nat) (filled : Bool) (calls : List DrawCall) :
    Bool × List DrawCall :=
  if !display.validateOk then (false, calls)
  else
    let l := min left right
    let r := max left right
    let t := min top bottom
    let b := max top bottom
    if !display.commsStart then (false, calls)
    else if filled then fillrectHelper display l t r b calls
    else drawSides display (outlineSides l t r b) calls

/-! ## Lines -/

/-- The conversion to `int16_t`. -/
def toInt16 (value : Int) : Int := value.bmod (2 ^ 16)

/-- `qp_internal_setpixel_impl`. -/
def setpixel (display : Display) (x y : Nat) (calls : List DrawCall) : Bool × List DrawCall :=
  let area : Rectangle := ⟨x, y, x, y⟩
  if display.viewport calls area then
    (display.pixdata (calls ++ [.viewport area]) 1, calls ++ [.viewport area, .pixdata 1])
  else (false, calls ++ [.viewport area])

/-- What `qp_line` computes before its loop. -/
structure Line where
  x1 : Nat
  y1 : Nat
  slopex : Int
  slopey : Int
  dx : Int
  dy : Int

/-- The variables of the loop, each of them an `int16_t`. -/
structure LineState where
  x : Int
  y : Int
  e : Int
deriving DecidableEq

def Line.ofEndpoints (x0 y0 x1 y1 : Nat) : Line where
  x1 := x1
  y1 := y1
  slopex := if toInt16 x0 < toInt16 x1 then 1 else -1
  slopey := if toInt16 y0 < toInt16 y1 then 1 else -1
  dx := toInt16 |toInt16 x1 - toInt16 x0|
  dy := toInt16 (-|toInt16 y1 - toInt16 y0|)

def Line.start (line : Line) (x0 y0 : Nat) : LineState where
  x := toInt16 x0
  y := toInt16 y0
  e := toInt16 (line.dx + line.dy)

/-- The part of a turn that goes along `x`. -/
def Line.stepX (line : Line) (s : LineState) : LineState :=
  { s with e := toInt16 (s.e + line.dy), x := toInt16 (s.x + line.slopex) }

def Line.stepY (line : Line) (s : LineState) : LineState :=
  { s with e := toInt16 (s.e + line.dx), y := toInt16 (s.y + line.slopey) }

/-- One turn of the loop behind its pixel. -/
def Line.turn (line : Line) (s : LineState) : LineState :=
  let e2 := toInt16 (2 * s.e)
  let s := if line.dy ≤ e2 then line.stepX s else s
  if e2 ≤ line.dx then line.stepY s else s

/-- The condition of the loop, in `int`. -/
def Line.Running (line : Line) (s : LineState) : Prop := s.x ≠ line.x1 ∨ s.y ≠ line.y1

instance (line : Line) (s : LineState) : Decidable (line.Running s) := inferInstanceAs (Decidable (_ ∨ _))

/-- The loop, with the value of `ret` and the variables at its end. -/
def Line.loop (display : Display) (line : Line) : (fuel : Nat) → LineState → List DrawCall →
    Option (Bool × LineState × List DrawCall)
  | 0, _, _ => none
  | fuel + 1, s, calls =>
    if line.Running s then
      let (drawn, calls) := setpixel display (toUint16 s.x) (toUint16 s.y) calls
      if drawn then line.loop display fuel (line.turn s) calls else some (false, s, calls)
    else some (true, s, calls)

/-- The pixel behind the loop, which is drawn also if a `break` has left the loop. -/
def lastPixel (display : Display) (ret : Bool) (s : LineState) (calls : List DrawCall) : Bool × List DrawCall :=
  let (drawn, calls) := setpixel display (toUint16 s.x) (toUint16 s.y) calls
  (ret && drawn, calls)

def qpLine (display : Display) (fuel x0 y0 x1 y1 : Nat) (calls : List DrawCall) : Option (Bool × List DrawCall) :=
  if x0 = x1 ∨ y0 = y1 then some (qpRect display x0 y0 x1 y1 true calls)
  else if !display.validateOk then some (false, calls)
  else if !display.commsStart then some (false, calls)
  else
    let line := Line.ofEndpoints x0 y0 x1 y1
    (line.loop display fuel (line.start x0 y0) calls).map fun result =>
      lastPixel display result.1 result.2.1 result.2.2

end QmkFirmware.Painter
