import QmkFirmware.Painter.DrawCore
import Mathlib.Data.List.Basic

/-! # Rectangles

What `qp_rect` fills.  Widths and heights are `uint16_t`, so that a rectangle from the first coordinate to the last has
none, and the sides of an outline that is one pixel high are turned around by the helper: they go one pixel over it and
one under it.
-/

namespace QmkFirmware.Painter

/-! ## Fills -/

/-- A viewport, with the number of pixels that were sent for it. -/
structure Fill where
  area : Rectangle
  sent : Nat
deriving DecidableEq

/-- The pixels sent before the next viewport. -/
def sentPixels : List DrawCall → Nat
  | .pixdata count :: calls => count + sentPixels calls
  | _ => 0

def fills : List DrawCall → List Fill
  | [] => []
  | .viewport area :: calls => ⟨area, sentPixels calls⟩ :: fills calls
  | .pixdata _ :: calls => fills calls

theorem sentPixels_pixdata (counts : List Nat) : sentPixels (counts.map .pixdata) = counts.sum := by
  induction counts with
  | nil => rfl
  | cons count counts ih => simp [sentPixels, ih]

theorem fills_pixdata (counts : List Nat) : fills (counts.map .pixdata) = [] := by
  induction counts with
  | nil => rfl
  | cons count counts ih => simpa [fills] using ih

/-- A viewport ends what was sent before it. -/
theorem sentPixels_append_viewport (calls : List DrawCall) (area : Rectangle) (later : List DrawCall) :
    sentPixels (calls ++ .viewport area :: later) = sentPixels calls := by
  induction calls with
  | nil => rfl
  | cons call calls ih =>
    cases call with
    | viewport _ => rfl
    | pixdata count => simp [sentPixels, ih]

theorem fills_append_viewport (calls : List DrawCall) (area : Rectangle) (counts : List Nat) :
    fills (calls ++ .viewport area :: counts.map .pixdata) = fills calls ++ [⟨area, counts.sum⟩] := by
  induction calls with
  | nil => simp [fills, fills_pixdata, sentPixels_pixdata]
  | cons call calls ih =>
    cases call with
    | viewport area => simp [fills, sentPixels_append_viewport, ih]
    | pixdata count => simpa [fills] using ih

/-! ## What the helper fills -/

/-- The corners in order, as the helper puts them. -/
def Rectangle.sorted (area : Rectangle) : Rectangle where
  left := min area.left area.right
  top := min area.top area.bottom
  right := max area.left area.right
  bottom := max area.top area.bottom

/-- The number of pixels that the helper computes. -/
def Rectangle.remaining (area : Rectangle) : Nat :=
  toUint16 (area.right - area.left + 1) * toUint16 (area.bottom - area.top + 1) % 2 ^ 32

def Rectangle.fill (area : Rectangle) : Fill := ⟨area.sorted, area.sorted.remaining⟩

variable {display : Display}

theorem pair_eq {result : Bool × List DrawCall} (ok : result.1 = true) : result = (true, result.2) :=
  Prod.ext ok rfl

theorem sendPixels_true {fuel remaining : Nat} (enough : remaining ≤ fuel) {calls after : List DrawCall}
    (sent : sendPixels display fuel remaining calls = (true, after)) :
    ∃ counts : List Nat, after = calls ++ counts.map .pixdata ∧ counts.sum = remaining := by
  induction fuel generalizing remaining calls with
  | zero =>
    obtain rfl : calls = after := congrArg Prod.snd sent
    exact ⟨[], by simp, by simp; omega⟩
  | succ fuel ih =>
    rw [sendPixels] at sent
    split at sent
    next more =>
      dsimp only at sent
      split at sent
      next taken =>
        have positive := display.pixelsInBuffer_pos
        obtain ⟨counts, rfl, sum⟩ := ih (by omega) sent
        refine ⟨min remaining display.pixelsInBuffer :: counts, by simp, ?_⟩
        rw [List.sum_cons, sum]
        omega
      next refused => cases sent
    next done =>
      obtain rfl : calls = after := congrArg Prod.snd sent
      exact ⟨[], by simp, by simp; omega⟩

theorem sendPixels_works (works : display.Works) (fuel remaining : Nat) (calls : List DrawCall) :
    (sendPixels display fuel remaining calls).1 = true := by
  induction fuel generalizing remaining calls with
  | zero => rfl
  | succ fuel ih =>
    rw [sendPixels]
    split
    · simpa [works.pixdata] using ih _ _
    · rfl

theorem fillrectHelper_true {area : Rectangle} {calls after : List DrawCall}
    (drawn : fillrectHelper display area.left area.top area.right area.bottom calls = (true, after)) :
    fills after = fills calls ++ [area.fill] := by
  obtain ⟨counts, rfl, sum⟩ := sendPixels_true (Nat.le_refl _) drawn
  rw [List.append_assoc, List.singleton_append, fills_append_viewport, sum]
  rfl

theorem drawSides_true {sides : List Rectangle} {calls after : List DrawCall}
    (drawn : drawSides display sides calls = (true, after)) : fills after = fills calls ++ sides.map Rectangle.fill := by
  induction sides generalizing calls with
  | nil =>
    obtain rfl : calls = after := congrArg Prod.snd drawn
    simp
  | cons side sides ih =>
    rw [drawSides] at drawn
    dsimp only at drawn
    split at drawn
    next ok =>
      have first := fillrectHelper_true (pair_eq ok)
      rw [ih drawn, first, List.append_assoc]
      rfl
    next failed => cases drawn

theorem drawSides_works (works : display.Works) (sides : List Rectangle) (calls : List DrawCall) :
    (drawSides display sides calls).1 = true := by
  induction sides generalizing calls with
  | nil => rfl
  | cons side sides ih =>
    have ok : (fillrectHelper display side.left side.top side.right side.bottom calls).1 = true :=
      sendPixels_works works _ _ _
    simpa [drawSides, ok] using ih _

/-! ## What a rectangle fills -/

/-- The areas that are handed to the helper. -/
def rectSides (filled : Bool) (area : Rectangle) : List Rectangle :=
  if filled then [area] else outlineSides area.left area.top area.right area.bottom

theorem qpRect_true {left top right bottom : Nat} {filled : Bool} {calls : List DrawCall}
    (drawn : qpRect display left top right bottom filled [] = (true, calls)) :
    fills calls = (rectSides filled (Rectangle.sorted ⟨left, top, right, bottom⟩)).map Rectangle.fill := by
  unfold qpRect at drawn
  split at drawn
  next invalid => cases drawn
  next valid =>
    dsimp only at drawn
    split at drawn
    next silent => cases drawn
    next starts =>
      cases filled with
      | true => exact @fillrectHelper_true _ (Rectangle.sorted ⟨left, top, right, bottom⟩) _ _ drawn
      | false => exact drawSides_true drawn

theorem qpRect_works (works : display.Works) (left top right bottom : Nat) (filled : Bool) (calls : List DrawCall) :
    (qpRect display left top right bottom filled calls).1 = true := by
  simp only [qpRect, works.valid, works.starts, Bool.not_true, Bool.false_eq_true, if_false]
  split
  · exact sendPixels_works works _ _ _
  · exact drawSides_works works _ _

/-! ## The pixels of a rectangle -/

def Rectangle.Contains (area : Rectangle) (x y : Nat) : Prop :=
  area.left ≤ x ∧ x ≤ area.right ∧ area.top ≤ y ∧ y ≤ area.bottom

/-- The number of pixels. -/
def Rectangle.size (area : Rectangle) : Nat := (area.right - area.left + 1) * (area.bottom - area.top + 1)

/-- On the border, one pixel wide. -/
def Rectangle.Border (area : Rectangle) (x y : Nat) : Prop :=
  area.Contains x y ∧ (x = area.left ∨ x = area.right ∨ y = area.top ∨ y = area.bottom)

/-- What is to be drawn. -/
def Rectangle.Shape (area : Rectangle) (filled : Bool) (x y : Nat) : Prop :=
  if filled then area.Contains x y else area.Border x y

/-- The fills cover the shape and nothing else, each of them completely. -/
structure Covers (fills : List Fill) (filled : Bool) (area : Rectangle) : Prop where
  pixels : ∀ x y, (∃ fill ∈ fills, fill.area.Contains x y) ↔ area.Shape filled x y
  counts : ∀ fill ∈ fills, fill.sent = fill.area.size

/-- A rectangle that is drawn at all is drawn as its shape, and it is drawn by a display that takes the pixels. -/
structure DrawsRect (filled : Bool) (left top right bottom : Nat) : Prop where
  covers : ∀ display calls, qpRect display left top right bottom filled [] = (true, calls) →
    Covers (fills calls) filled (Rectangle.sorted ⟨left, top, right, bottom⟩)
  completes : ∀ display : Display, display.Works → (qpRect display left top right bottom filled []).1 = true

theorem drawsRect_iff_covers {filled : Bool} {left top right bottom : Nat} :
    DrawsRect filled left top right bottom ↔
      Covers ((rectSides filled (Rectangle.sorted ⟨left, top, right, bottom⟩)).map Rectangle.fill) filled
        (Rectangle.sorted ⟨left, top, right, bottom⟩) := by
  constructor
  · intro draws
    have drawn := pair_eq (draws.completes _ Display.working_works)
    have covers := draws.covers _ _ drawn
    rwa [qpRect_true drawn] at covers
  · intro covers
    refine ⟨?_, fun display works => qpRect_works works _ _ _ _ _ _⟩
    intro display calls drawn
    rwa [qpRect_true drawn]

/-! ## When that is the rectangle -/

/-- Not all the 65536 columns; for a filled rectangle not all the rows, for an outline more than one. -/
def RectFits (filled : Bool) (area : Rectangle) : Prop :=
  area.right - area.left < 65535 ∧ if filled then area.bottom - area.top < 65535 else area.top ≠ area.bottom

theorem toUint16_eq {value : Int} (nonneg : 0 ≤ value) (small : value < 65536) : (toUint16 value : Int) = value := by
  unfold toUint16
  omega

theorem remaining_eq {area : Rectangle} (columns : area.right - area.left < 65535) (rows : area.bottom - area.top < 65535)
    (sorted : area.left ≤ area.right ∧ area.top ≤ area.bottom) : area.remaining = area.size := by
  have width : toUint16 (area.right - area.left + 1) = area.right - area.left + 1 := by
    have equal := @toUint16_eq (area.right - area.left + 1) (by omega) (by omega)
    omega
  have height : toUint16 (area.bottom - area.top + 1) = area.bottom - area.top + 1 := by
    have equal := @toUint16_eq (area.bottom - area.top + 1) (by omega) (by omega)
    omega
  have small : (area.right - area.left + 1) * (area.bottom - area.top + 1) ≤ 65535 * 65535 :=
    Nat.mul_le_mul (by omega) (by omega)
  rw [Rectangle.remaining, Rectangle.size, width, height]
  omega

theorem remaining_wraps {area : Rectangle} (all : area.right = area.left + 65535 ∨ area.bottom = area.top + 65535) :
    area.remaining ≠ area.size := by
  have positive : 0 < area.size := Nat.mul_pos (by omega) (by omega)
  have none : area.remaining = 0 := by
    unfold Rectangle.remaining
    cases all with
    | inl columns =>
      have width : toUint16 (area.right - area.left + 1) = 0 := by
        unfold toUint16
        omega
      simp [width]
    | inr rows =>
      have height : toUint16 (area.bottom - area.top + 1) = 0 := by
        unfold toUint16
        omega
      simp [height]
  omega

theorem Rectangle.sorted_of_le {area : Rectangle} (columns : area.left ≤ area.right) (rows : area.top ≤ area.bottom) :
    area.sorted = area := by
  cases area with
  | mk left top right bottom => simp_all [Rectangle.sorted]

theorem fill_complete {side : Rectangle} (columns : side.sorted.right - side.sorted.left < 65535)
    (rows : side.sorted.bottom - side.sorted.top < 65535) : side.fill.sent = side.fill.area.size := by
  apply remaining_eq columns rows
  simp only [Rectangle.sorted]
  omega

variable {area : Rectangle}

theorem filled_covers_iff (columns : area.left ≤ area.right) (rows : area.top ≤ area.bottom)
    (last : area.right < 65536) (lowest : area.bottom < 65536) :
    Covers ((rectSides true area).map Rectangle.fill) true area ↔ RectFits true area := by
  have one : (rectSides true area).map Rectangle.fill = [⟨area, area.remaining⟩] := by
    simp [rectSides, Rectangle.fill, Rectangle.sorted_of_le columns rows]
  rw [one]
  constructor
  · intro covers
    have equal : area.remaining = area.size := covers.counts _ (List.mem_singleton_self _)
    have small := mt remaining_wraps (not_not_intro equal)
    simp only [RectFits, if_true]
    omega
  · intro fits
    refine ⟨fun x y => by simp [Rectangle.Shape], fun fill member => ?_⟩
    obtain rfl := List.mem_singleton.mp member
    exact remaining_eq fits.1 fits.2 ⟨columns, rows⟩

/-- The sides of an outline of more than one row, as the helper fills them: the rows at the top and at the bottom, and
what is between them of the columns at the left and at the right. -/
theorem outline_areas (columns : area.left ≤ area.right) (lowest : area.bottom < 65536) (two : area.top < area.bottom)
    (x y : Nat) :
    (∃ fill ∈ (rectSides false area).map Rectangle.fill, fill.area.Contains x y) ↔ area.Border x y := by
  have under := @toUint16_eq (area.top + 1) (by omega) (by omega)
  have beyond := @toUint16_eq (area.bottom - 1) (by omega) (by omega)
  simp only [rectSides, outlineSides, Rectangle.fill, Rectangle.sorted, Rectangle.Contains, Rectangle.Border,
    List.map_cons, List.map_nil, List.mem_cons, List.not_mem_nil, or_false, exists_eq_or_imp, exists_eq_left,
    Bool.false_eq_true, if_false]
  omega

theorem outline_counts (columns : area.left ≤ area.right) (lowest : area.bottom < 65536)
    (two : area.top < area.bottom) (fits : RectFits false area) :
    ∀ side ∈ outlineSides area.left area.top area.right area.bottom, side.fill.sent = side.fill.area.size := by
  have under := @toUint16_eq (area.top + 1) (by omega) (by omega)
  have beyond := @toUint16_eq (area.bottom - 1) (by omega) (by omega)
  have narrow := fits.1
  intro side member
  simp only [outlineSides, List.mem_cons, List.not_mem_nil, or_false] at member
  obtain rfl | rfl | rfl | rfl := member <;> apply fill_complete <;> simp only [Rectangle.sorted] <;> omega

/-- The side at the left leaves an outline of one row. -/
theorem outline_one_row (one : area.top = area.bottom) :
    ∃ y, (∃ fill ∈ (rectSides false area).map Rectangle.fill, fill.area.Contains area.left y) ∧
      ¬ area.Border area.left y := by
  refine ⟨toUint16 (area.top + 1), ⟨_, List.mem_map_of_mem (a := ⟨area.left, toUint16 (area.top + 1), area.left,
    toUint16 (area.bottom - 1)⟩) (by simp [rectSides, outlineSides]), ?_⟩, ?_⟩
  · simp only [Rectangle.fill, Rectangle.sorted, Rectangle.Contains]
    omega
  · simp only [Rectangle.Border, Rectangle.Contains, toUint16]
    omega

theorem outline_covers_iff (columns : area.left ≤ area.right) (rows : area.top ≤ area.bottom)
    (last : area.right < 65536) (lowest : area.bottom < 65536) :
    Covers ((rectSides false area).map Rectangle.fill) false area ↔ RectFits false area := by
  constructor
  · intro covers
    have top := covers.counts _ (List.mem_map_of_mem (a := ⟨area.left, area.top, area.right, area.top⟩)
      (by simp [rectSides, outlineSides]))
    have small := mt remaining_wraps (not_not_intro top)
    simp only [Rectangle.sorted] at small
    refine ⟨by omega, ?_⟩
    intro one
    obtain ⟨y, filled, outside⟩ := outline_one_row one
    exact outside ((covers.pixels _ _).mp filled)
  · intro fits
    have two : area.top < area.bottom := Nat.lt_of_le_of_ne rows fits.2
    refine ⟨outline_areas columns lowest two, ?_⟩
    simpa [rectSides] using outline_counts columns lowest two fits

theorem rect_drawn_iff {left top right bottom : Nat} (filled : Bool) (leftSmall : left < 2 ^ 16)
    (topSmall : top < 2 ^ 16) (rightSmall : right < 2 ^ 16) (bottomSmall : bottom < 2 ^ 16) :
    DrawsRect filled left top right bottom ↔ RectFits filled (Rectangle.sorted ⟨left, top, right, bottom⟩) := by
  rw [drawsRect_iff_covers]
  cases filled with
  | true => apply filled_covers_iff <;> simp only [Rectangle.sorted] <;> omega
  | false => apply outline_covers_iff <;> simp only [Rectangle.sorted] <;> omega

theorem rect_drawn_at_origin : DrawsRect false 0 0 1 1 :=
  (rect_drawn_iff false (by decide) (by decide) (by decide) (by decide)).mpr
    (by simp [RectFits, Rectangle.sorted])

/-- The outline of one row of pixels goes over it and under it. -/
theorem row_outline_overdrawn : ¬ DrawsRect false 10 10 20 10 := by
  rw [drawsRect_iff_covers]
  intro covers
  have beyond := (covers.pixels 10 9).mp ⟨⟨⟨10, 9, 10, 11⟩, 3⟩, by decide, by simp [Rectangle.Contains]⟩
  simp [Rectangle.Shape, Rectangle.Border, Rectangle.Contains, Rectangle.sorted] at beyond

end QmkFirmware.Painter
