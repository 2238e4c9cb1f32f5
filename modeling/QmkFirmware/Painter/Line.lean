import QmkFirmware.Painter.Rect
import QmkFirmware.Foundations.LineWalk
import Mathlib.Data.List.Chain
import Mathlib.Data.List.Range

/-! # Lines

`qp_line` keeps an error whose double is an `int16_t`.  Without overflow its loop is the walk of a line on a grid, along
the axis on which the line is longer; the doubled error overflows on some lines whose coordinates are all small.
-/

namespace QmkFirmware.Painter

open QmkFirmware.LineWalk

/-! ## Overflow -/

def Fits16 (value : Int) : Prop := -2 ^ 15 ≤ value ∧ value < 2 ^ 15

theorem toInt16_eq {value : Int} (fits : Fits16 value) : toInt16 value = value := by
  obtain ⟨least, most⟩ := fits
  exact Int.bmod_eq_of_le least most

structure LineState.InRange (s : LineState) : Prop where
  x : Fits16 s.x
  y : Fits16 s.y
  e : Fits16 s.e

namespace Line

variable (line : Line) (s : LineState)

/-! A turn with numbers that do not overflow. -/

def exactX : LineState := { s with e := s.e + line.dy, x := s.x + line.slopex }

def exactY : LineState := { s with e := s.e + line.dx, y := s.y + line.slopey }

def exactTurn : LineState :=
  let between := if line.dy ≤ 2 * s.e then line.exactX s else s
  if 2 * s.e ≤ line.dx then line.exactY between else between

/-- Nothing overflows in a turn. -/
structure Fits : Prop where
  doubled : Fits16 (2 * s.e)
  between : line.dy ≤ 2 * s.e → (line.exactX s).InRange
  after : (line.exactTurn s).InRange

variable {line s}

theorem stepX_eq (fits : (line.exactX s).InRange) : line.stepX s = line.exactX s := by
  have x : toInt16 (s.x + line.slopex) = s.x + line.slopex := toInt16_eq fits.x
  have e : toInt16 (s.e + line.dy) = s.e + line.dy := toInt16_eq fits.e
  simp only [stepX, exactX, x, e]

theorem stepY_eq (fits : (line.exactY s).InRange) : line.stepY s = line.exactY s := by
  have y : toInt16 (s.y + line.slopey) = s.y + line.slopey := toInt16_eq fits.y
  have e : toInt16 (s.e + line.dx) = s.e + line.dx := toInt16_eq fits.e
  simp only [stepY, exactY, y, e]

theorem turn_eq (fits : line.Fits s) : line.turn s = line.exactTurn s := by
  have first : (if line.dy ≤ 2 * s.e then line.stepX s else s) = if line.dy ≤ 2 * s.e then line.exactX s else s := by
    split
    next along => exact stepX_eq (fits.between along)
    next => rfl
  have after := fits.after
  simp only [exactTurn] at after
  simp only [turn, exactTurn, toInt16_eq fits.doubled, first]
  split
  next along =>
    rw [if_pos along] at after
    exact stepY_eq after
  next => rfl

/-! ## The loop along a course -/

variable (line) in
/-- The states that the loop would go through with exact numbers. -/
structure Course (length : Nat) (states : Nat → LineState) : Prop where
  next : ∀ k < length, line.exactTurn (states k) = states (k + 1)
  running : ∀ k < length, line.Running (states k)
  ends : ¬ line.Running (states length)

variable (line) in
/-- Nothing overflows as long as the loop goes on. -/
def NoOverflow (start : LineState) : Prop :=
  ∀ n, (∀ m ≤ n, line.Running (line.turn^[m] start)) → line.Fits (line.turn^[n] start)

section Course

variable {length : Nat} {states : Nat → LineState} (course : line.Course length states)
include course

theorem Course.iterate {n : Nat} (before : n ≤ length) (fits : ∀ k < n, line.Fits (states k)) :
    line.turn^[n] (states 0) = states n := by
  induction n with
  | zero => rfl
  | succ n ih =>
    rw [Function.iterate_succ_apply', ih (by omega) fun k earlier => fits k (by omega), turn_eq (fits n (by omega))]
    exact course.next n before

theorem Course.noOverflow_iff : line.NoOverflow (states 0) ↔ ∀ k < length, line.Fits (states k) := by
  constructor
  · intro free k
    induction k using Nat.strong_induction_on with
    | _ k ih =>
      intro before
      have reached : ∀ m ≤ k, line.turn^[m] (states 0) = states m := fun m earlier =>
        course.iterate (by omega) fun i smaller => ih i (by omega) (by omega)
      rw [← reached k (Nat.le_refl k)]
      apply free
      intro m earlier
      rw [reached m earlier]
      exact course.running m (by omega)
  · intro fits n running
    by_cases before : n < length
    · rw [course.iterate (by omega) fun k earlier => fits k (by omega)]
      exact fits n before
    · have last := running length (by omega)
      rw [course.iterate (Nat.le_refl _) fits] at last
      exact absurd last course.ends

end Course

end Line

/-! ## Pixels -/

structure Pixel where
  x : Nat
  y : Nat
deriving DecidableEq

/-- The calls that set one pixel after the other. -/
def pixelCalls (pixels : List Pixel) : List DrawCall :=
  pixels.flatMap fun pixel => [.viewport ⟨pixel.x, pixel.y, pixel.x, pixel.y⟩, .pixdata 1]

theorem pixelCalls_append (first second : List Pixel) :
    pixelCalls (first ++ second) = pixelCalls first ++ pixelCalls second :=
  List.flatMap_append

def LineState.pixel (s : LineState) : Pixel := ⟨toUint16 s.x, toUint16 s.y⟩

theorem setpixel_true {display : Display} {s : LineState} {calls after : List DrawCall}
    (drawn : setpixel display (toUint16 s.x) (toUint16 s.y) calls = (true, after)) :
    after = calls ++ pixelCalls [s.pixel] := by
  unfold setpixel at drawn
  dsimp only at drawn
  split at drawn
  next => exact (congrArg Prod.snd drawn).symm
  next => cases drawn

theorem setpixel_works {display : Display} (works : display.Works) (x y : Nat) (calls : List DrawCall) :
    (setpixel display x y calls).1 = true := by
  simp [setpixel, works.viewport, works.pixdata]

namespace Line

variable {line : Line} {length : Nat} {states : Nat → LineState}

/-- The pixels of a number of states from one on. -/
def coursePixels (states : Nat → LineState) (k count : Nat) : List Pixel :=
  (List.range' k count).map fun k => (states k).pixel

theorem coursePixels_succ (states : Nat → LineState) (count : Nat) :
    coursePixels states 0 (count + 1) = coursePixels states 0 count ++ [(states count).pixel] := by
  simp [coursePixels, List.range'_concat]

theorem loop_succ (display : Display) (fuel : Nat) {s : LineState} (running : line.Running s) (calls : List DrawCall) :
    line.loop display (fuel + 1) s calls =
      if (setpixel display (toUint16 s.x) (toUint16 s.y) calls).1 then
        line.loop display fuel (line.turn s) (setpixel display (toUint16 s.x) (toUint16 s.y) calls).2
      else some (false, s, (setpixel display (toUint16 s.x) (toUint16 s.y) calls).2) := by
  rw [loop, if_pos running]

section Course

variable (course : line.Course length states) (fits : ∀ k < length, line.Fits (states k))
include course fits

/-- The loop ends, whatever the display answers. -/
theorem Course.loop_ends (display : Display) {k : Nat} (before : k ≤ length) (calls : List DrawCall) :
    ∃ result, line.loop display (length - k + 1) (states k) calls = some result := by
  induction count : length - k generalizing k calls with
  | zero =>
    obtain rfl : k = length := by omega
    exact ⟨_, by rw [loop, if_neg course.ends]⟩
  | succ count ih =>
    rw [loop_succ _ _ (course.running k (by omega)), turn_eq (fits k (by omega)), course.next k (by omega)]
    split
    · exact ih (by omega) _ (by omega)
    · exact ⟨_, rfl⟩

theorem Course.loop_true {display : Display} {fuel k : Nat} (before : k ≤ length) {calls after : List DrawCall}
    {s : LineState} (ran : line.loop display fuel (states k) calls = some (true, s, after)) :
    s = states length ∧ after = calls ++ pixelCalls (coursePixels states k (length - k)) := by
  induction fuel generalizing k calls with
  | zero => cases ran
  | succ fuel ih =>
    by_cases more : k < length
    · rw [loop_succ _ _ (course.running k more)] at ran
      split at ran
      next drawn =>
        rw [turn_eq (fits k more), course.next k more] at ran
        obtain ⟨last, rfl⟩ := ih more ran
        refine ⟨last, ?_⟩
        rw [setpixel_true (pair_eq drawn), List.append_assoc, show length - k = length - (k + 1) + 1 by omega]
        rfl
      next refused => cases ran
    · obtain rfl : k = length := by omega
      rw [loop, if_neg course.ends] at ran
      cases ran
      simp [coursePixels, pixelCalls]

end Course

theorem loop_works {display : Display} (works : display.Works) {fuel : Nat} {s : LineState} {calls : List DrawCall}
    {result : Bool × LineState × List DrawCall} (ran : line.loop display fuel s calls = some result) :
    result.1 = true := by
  induction fuel generalizing s calls with
  | zero => cases ran
  | succ fuel ih =>
    by_cases running : line.Running s
    · rw [loop_succ _ _ running, if_pos (setpixel_works works _ _ _)] at ran
      exact ih ran
    · rw [loop, if_neg running] at ran
      cases ran
      rfl

end Line

/-! ## The two courses -/

/-- The number of steps between two coordinates. -/
def distance (origin target : Nat) : Nat := ((target : Int) - origin).natAbs

def slope (origin target : Nat) : Int := if origin < target then 1 else -1

/-- The coordinate after a number of steps. -/
def along (origin target k : Nat) : Int := origin + slope origin target * k

theorem along_zero (origin target : Nat) : along origin target 0 = origin := by
  simp [along]

theorem along_succ (origin target k : Nat) : along origin target (k + 1) = along origin target k + slope origin target := by
  simp only [along]
  push_cast
  ring

theorem along_distance (origin target : Nat) : along origin target (distance origin target) = target := by
  unfold along slope distance
  split <;> omega

theorem along_ne {origin target k : Nat} (before : k < distance origin target) : along origin target k ≠ target := by
  unfold along slope
  unfold distance at before
  split <;> omega

theorem along_bounds {origin target k : Nat} (first : origin < 2 ^ 14) (last : target < 2 ^ 14)
    (before : k ≤ distance origin target) : 0 ≤ along origin target k ∧ along origin target k < 2 ^ 14 := by
  unfold along slope
  unfold distance at before
  split <;> omega

theorem distance_pos {origin target : Nat} (different : origin ≠ target) : 0 < distance origin target := by
  unfold distance
  omega

theorem distance_lt {origin target : Nat} (first : origin < 2 ^ 14) (last : target < 2 ^ 14) :
    distance origin target < 2 ^ 14 := by
  unfold distance
  omega

/-- The endpoints of a line that `qp_line` does not draw as a rectangle. -/
structure Endpoints where
  x0 : Nat
  y0 : Nat
  x1 : Nat
  y1 : Nat
  small : x0 < 2 ^ 14 ∧ y0 < 2 ^ 14 ∧ x1 < 2 ^ 14 ∧ y1 < 2 ^ 14
  columns : x0 ≠ x1
  rows : y0 ≠ y1

namespace Endpoints

variable (ends : Endpoints)

def line : Line := Line.ofEndpoints ends.x0 ends.y0 ends.x1 ends.y1

def width : Nat := distance ends.x0 ends.x1

def height : Nat := distance ends.y0 ends.y1

/-- Where the loop is after a number of steps to the side and a number upwards or downwards. -/
def state (i j : Nat) (e : Int) : LineState where
  x := along ends.x0 ends.x1 i
  y := along ends.y0 ends.y1 j
  e := e

/-- The states on a line that is not higher than wide. -/
def flat (k : Nat) : LineState :=
  ends.state k (walk ends.width ends.height k).short (walk ends.width ends.height k).error

/-- The states on a line that is higher than wide. -/
def steep (k : Nat) : LineState :=
  ends.state (walk ends.height ends.width k).short k (-(walk ends.height ends.width k).error)

theorem width_pos : 0 < ends.width := distance_pos ends.columns

theorem height_pos : 0 < ends.height := distance_pos ends.rows

theorem width_lt : ends.width < 2 ^ 14 := distance_lt ends.small.1 ends.small.2.2.1

theorem height_lt : ends.height < 2 ^ 14 := distance_lt ends.small.2.1 ends.small.2.2.2

theorem toInt16_small {n : Nat} (small : n < 2 ^ 14) : toInt16 n = n :=
  toInt16_eq ⟨by omega, by omega⟩

theorem abs_eq_distance (origin target : Nat) : |(target : Int) - origin| = distance origin target :=
  Int.abs_eq_natAbs _

theorem line_eq : ends.line = ⟨ends.x1, ends.y1, slope ends.x0 ends.x1, slope ends.y0 ends.y1, ends.width, -ends.height⟩ := by
  obtain ⟨x0, y0, x1, y1⟩ := ends.small
  have wide := ends.width_lt
  have high := ends.height_lt
  have dx : toInt16 (ends.width : Int) = ends.width := toInt16_small wide
  have dy : toInt16 (-(ends.height : Int)) = -ends.height := toInt16_eq ⟨by omega, by omega⟩
  simp only [line, Line.ofEndpoints, toInt16_small x0, toInt16_small y0, toInt16_small x1, toInt16_small y1,
    abs_eq_distance, Nat.cast_lt]
  rw [← height, ← width, dx, dy]
  rfl

theorem start_eq : ends.line.start ends.x0 ends.y0 = ends.state 0 0 (ends.width - ends.height) := by
  obtain ⟨x0, y0, -, -⟩ := ends.small
  have wide := ends.width_lt
  have high := ends.height_lt
  have e : toInt16 ((ends.width : Int) + -ends.height) = ends.width - ends.height := toInt16_eq ⟨by omega, by omega⟩
  simp only [Line.start, line_eq, toInt16_small x0, toInt16_small y0, e, state, along_zero]

variable {ends}

theorem inRange_state {i j : Nat} {e : Int} (across : i ≤ ends.width) (down : j ≤ ends.height) (error : Fits16 e) :
    (ends.state i j e).InRange where
  x := by
    have bounds := along_bounds ends.small.1 ends.small.2.2.1 across
    exact ⟨by simp only [state]; omega, by simp only [state]; omega⟩
  y := by
    have bounds := along_bounds ends.small.2.1 ends.small.2.2.2 down
    exact ⟨by simp only [state]; omega, by simp only [state]; omega⟩
  e := error

/-- A turn, when the error allows a step to the side, or one upwards or downwards. -/
theorem exactTurn_state (i j : Nat) (e : Int) :
    ends.line.exactTurn (ends.state i j e) =
      if -(ends.height : Int) ≤ 2 * e then
        if 2 * e ≤ ends.width then ends.state (i + 1) (j + 1) (e - ends.height + ends.width)
        else ends.state (i + 1) j (e - ends.height)
      else if 2 * e ≤ ends.width then ends.state i (j + 1) (e + ends.width)
      else ends.state i j e := by
  simp only [line_eq, Line.exactTurn, Line.exactX, Line.exactY, state, along_succ, Int.sub_eq_add_neg]
  split <;> split <;> rfl

theorem running_iff (i j : Nat) (e : Int) :
    ends.line.Running (ends.state i j e) ↔ along ends.x0 ends.x1 i ≠ ends.x1 ∨ along ends.y0 ends.y1 j ≠ ends.y1 := by
  rw [line_eq]
  rfl

theorem flat_course (wide : ends.height ≤ ends.width) : ends.line.Course ends.width ends.flat where
  next k _ := by
    obtain ⟨above, -⟩ := walk_window wide ends.width_pos k
    rw [flat, exactTurn_state, if_pos (by omega), flat, walk, Place.next]
    split <;> rfl
  running k before := (running_iff _ _ _).mpr (.inl (along_ne before))
  ends := by
    rw [flat, running_iff, walk_long wide ends.width_pos]
    simp [along_distance, width, height]

theorem steep_course (high : ends.width < ends.height) : ends.line.Course ends.height ends.steep where
  next k _ := by
    obtain ⟨above, -⟩ := walk_window high.le ends.height_pos k
    rw [steep, exactTurn_state, steep, walk, Place.next]
    by_cases aside : 2 * (walk ends.height ends.width k).error ≤ ends.height
    · rw [if_pos (by omega), if_pos (by omega), if_pos aside]
      dsimp only
      congr 1
      omega
    · rw [if_neg (by omega), if_pos (by omega), if_neg aside]
      dsimp only
      congr 1
      omega
  running k before := (running_iff _ _ _).mpr (.inr (along_ne before))
  ends := by
    rw [steep, running_iff, walk_long high.le ends.height_pos]
    simp [along_distance, width, height]

/-! ## Which errors fit -/

theorem exactX_state (i j : Nat) (e : Int) :
    ends.line.exactX (ends.state i j e) = ends.state (i + 1) j (e - ends.height) := by
  simp only [line_eq, Line.exactX, state, along_succ, Int.sub_eq_add_neg]

theorem flat_fits_iff (wide : ends.height ≤ ends.width) {k : Nat} (before : k < ends.width) :
    ends.line.Fits (ends.flat k) ↔ (walk ends.width ends.height k).error ≤ (16383 : Nat) := by
  have small := ends.width_lt
  have positive := ends.width_pos
  obtain ⟨above, below⟩ := walk_window wide positive k
  obtain ⟨above', below'⟩ := walk_window wide positive (k + 1)
  have down := walk_short_le wide positive before.le
  have down' := walk_short_le wide positive (show k + 1 ≤ ends.width from before)
  constructor
  · intro fits
    have doubled : 2 * (walk ends.width ends.height k).error < 2 ^ 15 := fits.doubled.2
    omega
  · intro bounded
    refine ⟨⟨?_, ?_⟩, fun _ => ?_, ?_⟩
    · simp only [flat, state]
      omega
    · simp only [flat, state]
      omega
    · rw [flat, exactX_state]
      exact inRange_state before down ⟨by omega, by omega⟩
    · rw [(flat_course wide).next k before]
      exact inRange_state before down' ⟨by omega, by omega⟩

theorem steep_fits_iff (high : ends.width < ends.height) {k : Nat} (before : k < ends.height) :
    ends.line.Fits (ends.steep k) ↔ (walk ends.height ends.width k).error ≤ (16384 : Nat) := by
  have small := ends.height_lt
  have positive := ends.height_pos
  obtain ⟨above, below⟩ := walk_window high.le positive k
  obtain ⟨above', below'⟩ := walk_window high.le positive (k + 1)
  have aside' := walk_short_le high.le positive (show k + 1 ≤ ends.height from before)
  constructor
  · intro fits
    have doubled : -2 ^ 15 ≤ 2 * -(walk ends.height ends.width k).error := fits.doubled.1
    omega
  · intro bounded
    refine ⟨⟨?_, ?_⟩, fun along => ?_, ?_⟩
    · simp only [steep, state]
      omega
    · simp only [steep, state]
      omega
    · -- the step to the side is made by the walk too
      have aside : 2 * (walk ends.height ends.width k).error ≤ ends.height := by
        rw [line_eq] at along
        simp only [steep, state] at along
        omega
      have next : (walk ends.height ends.width (k + 1)).short = (walk ends.height ends.width k).short + 1 := by
        rw [walk, Place.next, if_pos aside]
      rw [steep, exactX_state]
      exact inRange_state (by omega) before.le ⟨by omega, by omega⟩
    · rw [(steep_course high).next k before]
      exact inRange_state aside' before ⟨by omega, by omega⟩

variable (ends) in
/-- The doubled errors of the walk are `int16_t`.  They are positive on a flat line and negative on a steep one. -/
def ErrorsFit : Prop :=
  if ends.height ≤ ends.width then peak ends.width ends.height ≤ 16383 else peak ends.height ends.width ≤ 16384

instance : Decidable ends.ErrorsFit :=
  inferInstanceAs (Decidable (if ends.height ≤ ends.width then _ else _))

variable (ends) in
/-- The states of the loop, along the longer axis. -/
def states (k : Nat) : LineState := if ends.height ≤ ends.width then ends.flat k else ends.steep k

variable (ends) in
def length : Nat := max ends.width ends.height

theorem states_course : ends.line.Course ends.length ends.states := by
  by_cases wide : ends.height ≤ ends.width
  · have all : ends.states = ends.flat := funext fun k => if_pos wide
    rw [all, length, Nat.max_eq_left wide]
    exact flat_course wide
  · have all : ends.states = ends.steep := funext fun k => if_neg wide
    rw [all, length, Nat.max_eq_right (by omega)]
    exact steep_course (by omega)

theorem forall_fits_iff : (∀ k < ends.length, ends.line.Fits (ends.states k)) ↔ ends.ErrorsFit := by
  unfold ErrorsFit states length
  split
  next wide =>
    rw [Nat.max_eq_left wide, ← forall_error_le_iff wide ends.width_pos]
    exact forall₂_congr fun k before => flat_fits_iff wide before
  next high =>
    rw [Nat.max_eq_right (by omega), ← forall_error_le_iff (by omega) ends.height_pos]
    exact forall₂_congr fun k before => steep_fits_iff (by omega) before

theorem states_zero : ends.states 0 = ends.line.start ends.x0 ends.y0 := by
  rw [start_eq]
  unfold states
  split
  · rfl
  · simp [steep, walk]

theorem states_inside {k : Nat} (before : k ≤ ends.length) :
    (0 ≤ (ends.states k).x ∧ (ends.states k).x < 2 ^ 14) ∧ 0 ≤ (ends.states k).y ∧ (ends.states k).y < 2 ^ 14 := by
  obtain ⟨x0, y0, x1, y1⟩ := ends.small
  unfold states length at *
  split
  next wide =>
    rw [Nat.max_eq_left wide] at before
    exact ⟨along_bounds x0 x1 before, along_bounds y0 y1 (walk_short_le wide ends.width_pos before)⟩
  next high =>
    rw [Nat.max_eq_right (by omega)] at before
    exact ⟨along_bounds x0 x1 (walk_short_le (by omega) ends.height_pos before), along_bounds y0 y1 before⟩

end Endpoints

/-! ## The pixels of a line -/

structure Pixel.Near (p q : Pixel) : Prop where
  x : |(q.x : Int) - p.x| ≤ 1
  y : |(q.y : Int) - p.y| ≤ 1

/-- One pixel for every step along the longer axis, from the one endpoint to the other. -/
structure Connects (x0 y0 x1 y1 : Nat) (pixels : List Pixel) : Prop where
  length : pixels.length = max (distance x0 x1) (distance y0 y1) + 1
  first : pixels.head? = some ⟨x0, y0⟩
  last : pixels.getLast? = some ⟨x1, y1⟩
  near : pixels.IsChain Pixel.Near

/-- The loop of a line ends without overflow, whatever the display answers, and draws a line that connects the
endpoints unless a pixel cannot be written. -/
structure DrawsLine (x0 y0 x1 y1 : Nat) : Prop where
  noOverflow : (Line.ofEndpoints x0 y0 x1 y1).NoOverflow ((Line.ofEndpoints x0 y0 x1 y1).start x0 y0)
  ends : ∀ display calls, ∃ fuel result, qpLine display fuel x0 y0 x1 y1 calls = some result
  connects : ∀ display fuel calls after, qpLine display fuel x0 y0 x1 y1 calls = some (true, after) →
    ∃ pixels, after = calls ++ pixelCalls pixels ∧ Connects x0 y0 x1 y1 pixels
  completes : ∀ display : Display, display.Works → ∀ fuel calls result,
    qpLine display fuel x0 y0 x1 y1 calls = some result → result.1 = true

theorem toUint16_small {value : Int} (nonneg : 0 ≤ value) (small : value < 2 ^ 14) : (toUint16 value : Int) = value :=
  toUint16_eq nonneg (by omega)

namespace Endpoints

variable {ends : Endpoints}

theorem pixel_x {k : Nat} (before : k ≤ ends.length) : ((ends.states k).pixel.x : Int) = (ends.states k).x :=
  toUint16_small (states_inside before).1.1 (states_inside before).1.2

theorem pixel_y {k : Nat} (before : k ≤ ends.length) : ((ends.states k).pixel.y : Int) = (ends.states k).y :=
  toUint16_small (states_inside before).2.1 (states_inside before).2.2

theorem abs_slope (origin target : Nat) : |slope origin target| ≤ 1 := by
  unfold slope
  split <;> decide

/-- A turn goes at most one step along each axis. -/
theorem exactTurn_near (s : LineState) :
    |(ends.line.exactTurn s).x - s.x| ≤ 1 ∧ |(ends.line.exactTurn s).y - s.y| ≤ 1 := by
  have x := abs_slope ends.x0 ends.x1
  have y := abs_slope ends.y0 ends.y1
  rw [line_eq]
  simp only [Line.exactTurn, Line.exactX, Line.exactY]
  split <;> split <;> simp [x, y]

theorem near_succ {k : Nat} (before : k < ends.length) : (ends.states k).pixel.Near (ends.states (k + 1)).pixel := by
  have near := @exactTurn_near ends (ends.states k)
  rw [states_course.next k before] at near
  constructor
  · rw [pixel_x before, pixel_x before.le]
    exact near.1
  · rw [pixel_y before, pixel_y before.le]
    exact near.2

theorem first_pixel : (ends.states 0).pixel = ⟨ends.x0, ends.y0⟩ := by
  have start : ends.states 0 = ends.state 0 0 (ends.width - ends.height) := states_zero.trans (start_eq ends)
  have x : ((ends.states 0).pixel.x : Int) = ends.x0 :=
    (pixel_x (Nat.zero_le _)).trans (by simp [start, state, along_zero])
  have y : ((ends.states 0).pixel.y : Int) = ends.y0 :=
    (pixel_y (Nat.zero_le _)).trans (by simp [start, state, along_zero])
  exact congrArg₂ Pixel.mk (Int.ofNat_inj.mp x) (Int.ofNat_inj.mp y)

theorem last_pixel : (ends.states ends.length).pixel = ⟨ends.x1, ends.y1⟩ := by
  have x := @pixel_x ends _ (Nat.le_refl _)
  have y := @pixel_y ends _ (Nat.le_refl _)
  have stopped := @states_course ends |>.ends
  rw [line_eq, Line.Running, not_or, not_not, not_not] at stopped
  rw [stopped.1] at x
  rw [stopped.2] at y
  exact congrArg₂ Pixel.mk (Int.ofNat_inj.mp x) (Int.ofNat_inj.mp y)

theorem coursePixels_connects :
    Connects ends.x0 ends.y0 ends.x1 ends.y1 (Line.coursePixels ends.states 0 (ends.length + 1)) where
  length := by
    rw [Line.coursePixels, List.length_map, List.length_range']
    rfl
  first := by
    rw [Line.coursePixels, List.range'_succ, List.map_cons, List.head?_cons, first_pixel]
  last := by
    rw [Line.coursePixels_succ, List.getLast?_concat, last_pixel]
  near := by
    rw [Line.coursePixels, ← List.range_eq_range', List.isChain_map, List.isChain_range_succ]
    exact fun k before => near_succ before

theorem qpLine_eq (display : Display) (fuel : Nat) (calls : List DrawCall) :
    qpLine display fuel ends.x0 ends.y0 ends.x1 ends.y1 calls =
      if display.validateOk ∧ display.commsStart then
        (ends.line.loop display fuel (ends.states 0) calls).map fun result =>
          lastPixel display result.1 result.2.1 result.2.2
      else some (false, calls) := by
  rw [qpLine, if_neg (not_or_intro ends.columns ends.rows), states_zero]
  cases display.validateOk <;> cases display.commsStart <;> rfl

/-- Without overflow the whole line is drawn. -/
theorem drawsLine_of_fits (fits : ∀ k < ends.length, ends.line.Fits (ends.states k)) :
    DrawsLine ends.x0 ends.y0 ends.x1 ends.y1 where
  noOverflow := by
    have free := states_course.noOverflow_iff.mpr fits
    rwa [states_zero] at free
  ends display calls := by
    obtain ⟨result, ran⟩ := states_course.loop_ends fits display (Nat.zero_le _) calls
    refine ⟨ends.length - 0 + 1, ?_⟩
    rw [qpLine_eq, ran]
    split
    · exact ⟨_, rfl⟩
    · exact ⟨_, rfl⟩
  connects display fuel calls after ran := by
    rw [qpLine_eq] at ran
    split at ran
    next =>
      obtain ⟨⟨ret, s, drawn⟩, looped, last⟩ := Option.map_eq_some_iff.mp ran
      obtain ⟨rfl, written⟩ := Bool.and_eq_true_iff.mp (congrArg Prod.fst last)
      obtain ⟨rfl, rfl⟩ := states_course.loop_true fits (Nat.zero_le _) looped
      obtain rfl : _ = after := congrArg Prod.snd last
      refine ⟨_, ?_, coursePixels_connects⟩
      dsimp only [lastPixel]
      rw [setpixel_true (pair_eq written), List.append_assoc, ← pixelCalls_append, Nat.sub_zero, Line.coursePixels_succ]
    next => cases ran
  completes display works fuel calls result ran := by
    rw [qpLine_eq, if_pos ⟨works.valid, works.starts⟩] at ran
    obtain ⟨⟨ret, s, drawn⟩, looped, rfl⟩ := Option.map_eq_some_iff.mp ran
    exact Bool.and_eq_true_iff.mpr ⟨Line.loop_works works looped, setpixel_works works _ _ _⟩

theorem drawsLine_iff_fits :
    DrawsLine ends.x0 ends.y0 ends.x1 ends.y1 ↔ ∀ k < ends.length, ends.line.Fits (ends.states k) := by
  constructor
  · intro draws
    apply states_course.noOverflow_iff.mp
    rw [states_zero]
    exact draws.noOverflow
  · exact drawsLine_of_fits

end Endpoints

theorem line_drawn_iff (ends : Endpoints) : DrawsLine ends.x0 ends.y0 ends.x1 ends.y1 ↔ ends.ErrorsFit := by
  rw [Endpoints.drawsLine_iff_fits, Endpoints.forall_fits_iff]

/-- A line almost along the first axis, from one row into the next. -/
def almostFlat : Endpoints where
  x0 := 0
  y0 := 0
  x1 := 16383
  y1 := 1
  small := by decide
  columns := by decide
  rows := by decide

/-- The error comes to 24573 on the way, and its double is no `int16_t`. -/
theorem almostFlat_overflows : ¬ DrawsLine 0 0 16383 1 := by
  have overflows : ¬ almostFlat.ErrorsFit := by decide +kernel
  rw [← Endpoints.forall_fits_iff, ← Endpoints.drawsLine_iff_fits] at overflows
  exact overflows

end QmkFirmware.Painter
