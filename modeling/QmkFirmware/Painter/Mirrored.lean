import QmkFirmware.Painter.Surface

/-! # Surfaces and their displays

The pixels of a display and of the surface that is drawn on it differ in the dirty rectangle only, whatever has been
written and whichever drawings have failed on the way.
-/

namespace QmkFirmware.Painter.Surfaces

open QmkFirmware.Mirror

def Surface.pixelAt (s : Surface) (place : Nat × Nat) : Pixel := s.buffer (place.2 * s.panelWidth + place.1)

def Surface.OnPanel (s : Surface) (place : Nat × Nat) : Prop := place.1 < s.panelWidth ∧ place.2 < s.panelHeight

instance (s : Surface) (place : Nat × Nat) : Decidable (s.OnPanel place) :=
  inferInstanceAs (Decidable (_ ∧ _))

/-- What no operation changes. -/
def Surface.SamePanel (s s' : Surface) : Prop := s'.panelWidth = s.panelWidth ∧ s'.panelHeight = s.panelHeight

theorem Surface.SamePanel.trans {s s' s'' : Surface} (first : s.SamePanel s') (second : s'.SamePanel s'') : s.SamePanel s'' :=
  ⟨second.1.trans first.1, second.2.trans first.2⟩

theorem Surface.SamePanel.onPanel {s s' : Surface} (same : s.SamePanel s') (place : Nat × Nat) :
    s'.OnPanel place ↔ s.OnPanel place := by
  rw [Surface.OnPanel, Surface.OnPanel, same.1, same.2]

/-- Places of one panel have their own indices in the buffer. -/
theorem index_injective {width : Nat} {place other : Nat × Nat} (onPanel : place.1 < width) (otherOnPanel : other.1 < width)
    (same : place.2 * width + place.1 = other.2 * width + other.1) : place = other := by
  have rows : place.2 = other.2 := by
    have := congrArg (· / width) same
    simpa [Nat.add_comm, Nat.add_mul_div_right _ _ (Nat.zero_lt_of_lt onPanel), Nat.div_eq_of_lt onPanel,
      Nat.div_eq_of_lt otherOnPanel] using this
  rw [rows] at same
  exact Prod.ext (by omega) rows

/-! ## Setting a pixel -/

theorem setpixel_samePanel (s : Surface) (x y : Nat) (pixel : Pixel) : s.SamePanel (setpixel s x y pixel) := by
  unfold setpixel
  split
  · exact ⟨rfl, rfl⟩
  split <;> exact ⟨rfl, rfl⟩

theorem setpixel_viewport (s : Surface) (x y : Nat) (pixel : Pixel) : (setpixel s x y pixel).viewport = s.viewport := by
  unfold setpixel
  split
  · rfl
  split <;> rfl

theorem setpixel_pixelAt (s : Surface) (x y : Nat) (pixel : Pixel) {place : Nat × Nat} (onPanel : s.OnPanel place) :
    (setpixel s x y pixel).pixelAt place = if place = (x, y) then pixel else s.pixelAt place := by
  rw [Surface.pixelAt, (setpixel_samePanel s x y pixel).1]
  unfold setpixel
  by_cases here : place = (x, y)
  · subst here
    rw [if_pos rfl, if_neg (by unfold Surface.OnPanel at onPanel; omega)]
    split_ifs with differs
    · simp
    · simpa using differs
  · rw [if_neg here]
    split_ifs with off differs
    · rfl
    · have otherIndex : place.2 * s.panelWidth + place.1 ≠ y * s.panelWidth + x := by
        intro same
        exact here (@index_injective _ place (x, y) onPanel.1 (by simp only; omega) same)
      simp [otherIndex, Surface.pixelAt]
    · rfl

/-! ## Streaming -/

/-- The write location goes through these places. -/
def Walks : Viewport → List (Nat × Nat) → Prop
  | _, [] => True
  | viewport, place :: places =>
    (viewport.pixdataX, viewport.pixdataY) = place ∧ Walks (incrementPixdataLocation viewport) places

theorem Walks.take {viewport : Viewport} {places : List (Nat × Nat)} (walks : Walks viewport places) (count : Nat) :
    Walks viewport (places.take count) := by
  induction places generalizing viewport count with
  | nil => simp [Walks]
  | cons place places ih =>
    cases count with
    | zero => trivial
    | succ count => exact ⟨walks.1, ih walks.2 count⟩

theorem appendPixel_samePanel (s : Surface) (pixel : Pixel) : s.SamePanel (appendPixel s pixel) :=
  setpixel_samePanel s _ _ pixel

theorem streamPixdata_samePanel (s : Surface) (data : List Pixel) : s.SamePanel (streamPixdata s data) :=
  QmkFirmware.Runs.foldl_invariant (fun state pixel (same : s.SamePanel state) =>
    same.trans (appendPixel_samePanel state pixel)) ⟨rfl, rfl⟩ data

theorem streamPixdata_append (s : Surface) (data more : List Pixel) :
    streamPixdata s (data ++ more) = streamPixdata (streamPixdata s data) more :=
  List.foldl_append

/-- Streamed pixels arrive where the write location goes, and nothing else changes. -/
theorem streamPixdata_pixelAt {s : Surface} {places : List (Nat × Nat)} (walks : Walks s.viewport places)
    (pixels : Nat × Nat → Pixel) {place : Nat × Nat} (onPanel : s.OnPanel place) :
    (streamPixdata s (places.map pixels)).pixelAt place = if place ∈ places then pixels place else s.pixelAt place := by
  induction places generalizing s with
  | nil => rfl
  | cons first places ih =>
    obtain ⟨here, rest⟩ := walks
    have same := appendPixel_samePanel s (pixels first)
    have viewport : (appendPixel s (pixels first)).viewport = incrementPixdataLocation s.viewport := by
      simp [appendPixel, setpixel_viewport]
    have later := @ih (appendPixel s (pixels first)) (viewport ▸ rest) ((same.onPanel place).mpr onPanel)
    have now : (appendPixel s (pixels first)).pixelAt place = if place = first then pixels first else s.pixelAt place := by
      rw [← here]
      exact setpixel_pixelAt s _ _ _ onPanel
    rw [List.map_cons, streamPixdata, List.foldl_cons, ← streamPixdata, later, now]
    by_cases isFirst : place = first <;> simp [isFirst]

/-! ## Rows -/

def Viewport.at (viewport : Viewport) (x y : Nat) : Viewport := { viewport with pixdataX := x, pixdataY := y }

theorem incrementPixdataLocation_inside {viewport : Viewport} {x y : Nat} (inside : x < viewport.r)
    (right : viewport.r < 65535) (row : y ≤ viewport.b) :
    incrementPixdataLocation (viewport.at x y) = viewport.at (x + 1) y := by
  have small : uint16 (x + 1) = x + 1 := Nat.mod_eq_of_lt (by omega)
  simp [incrementPixdataLocation, Viewport.at, small, Nat.not_lt.mpr inside, Nat.not_lt.mpr row]

theorem incrementPixdataLocation_edge {viewport : Viewport} {y : Nat} (right : viewport.r < 65535)
    (bottom : viewport.b < 65535) (row : y ≤ viewport.b) :
    incrementPixdataLocation (viewport.at viewport.r y) =
      viewport.at viewport.l (if y = viewport.b then viewport.t else y + 1) := by
  have smallX : uint16 (viewport.r + 1) = viewport.r + 1 := Nat.mod_eq_of_lt (by omega)
  have smallY : uint16 (y + 1) = y + 1 := Nat.mod_eq_of_lt (by omega)
  have last : viewport.b < y + 1 ↔ y = viewport.b := by omega
  simp [incrementPixdataLocation, Viewport.at, smallX, smallY, last]

theorem walks_row {viewport : Viewport} {x y count : Nat} {rest : List (Nat × Nat)} (right : viewport.r < 65535)
    (bottom : viewport.b < 65535) (row : y ≤ viewport.b) (last : x + count = viewport.r)
    (next : Walks (viewport.at viewport.l (if y = viewport.b then viewport.t else y + 1)) rest) :
    Walks (viewport.at x y) (((List.range' x (count + 1)).map fun x => (x, y)) ++ rest) := by
  induction count generalizing x with
  | zero =>
    obtain rfl : x = viewport.r := by omega
    exact ⟨rfl, (incrementPixdataLocation_edge right bottom row).symm ▸ next⟩
  | succ count ih =>
    rw [List.range'_succ]
    refine ⟨rfl, ?_⟩
    rw [incrementPixdataLocation_inside (by omega) right row]
    exact ih (by omega)

/-- The loops of a transfer follow the write location of the viewport that it sets. -/
theorem walks_rows {viewport : Viewport} {y count : Nat} (right : viewport.r < 65535) (bottom : viewport.b < 65535)
    (wide : viewport.l ≤ viewport.r) (last : y + count = viewport.b + 1) :
    Walks (viewport.at viewport.l y) ((List.range' y count).flatMap fun y =>
      (List.range' viewport.l (viewport.r + 1 - viewport.l)).map fun x => (x, y)) := by
  induction count generalizing y with
  | zero => trivial
  | succ count ih =>
    rw [List.range'_succ, List.flatMap_cons]
    have width : viewport.r + 1 - viewport.l = viewport.r - viewport.l + 1 := by omega
    rw [width]
    refine walks_row right bottom (by omega) (by omega) ?_
    rw [← width]
    split
    · obtain rfl : count = 0 := by omega
      trivial
    · exact ih (by omega)

theorem mem_rows {l t r b : Nat} {place : Nat × Nat} :
    place ∈ rows l t r b ↔ (l ≤ place.1 ∧ place.1 ≤ r) ∧ t ≤ place.2 ∧ place.2 ≤ b := by
  simp only [rows, List.mem_flatMap, List.mem_map, List.mem_range'_1]
  constructor
  · rintro ⟨y, row, x, column, rfl⟩
    simp only
    omega
  · intro inside
    exact ⟨place.2, by omega, place.1, by omega, rfl⟩

/-! ## Transfers -/

/-- A transfer has streamed some of the pixels it has read, and all but those in the buffer if it has not failed. -/
structure Transfer.Streams (start : Surface) (pixels : List Pixel) (transfer : Transfer) : Prop where
  streamed : ∃ count, transfer.target = streamPixdata start (pixels.take count)
  complete : transfer.ok = true →
    ∃ sent, transfer.target = streamPixdata start sent ∧ sent ++ transfer.chunk = pixels

theorem Transfer.Streams.send {start : Surface} {pixels : List Pixel} {transfer : Transfer}
    (streams : transfer.Streams start pixels) (ok : transfer.ok = true) : transfer.send.Streams start pixels := by
  obtain ⟨sent, target, all⟩ := streams.complete ok
  unfold Transfer.send
  split
  · have streamed : streamPixdata transfer.target transfer.chunk = streamPixdata start pixels := by
      rw [target, ← streamPixdata_append, all]
    constructor
    · exact ⟨pixels.length, by rw [List.take_length]; exact streamed⟩
    · intro _
      exact ⟨pixels, streamed, List.append_nil pixels⟩
  · next written _ =>
    constructor
    · refine ⟨sent.length + written, ?_⟩
      rw [← all, List.take_length_add_append, streamPixdata_append, ← target]
    · intro failed
      simp at failed

theorem Transfer.Streams.pixel {start : Surface} {pixels : List Pixel} {transfer : Transfer}
    (streams : transfer.Streams start pixels) (total : Nat) (pixel : Pixel) :
    (transfer.pixel total pixel).Streams start (pixels ++ [pixel]) := by
  have read : transfer.ok = true →
      Transfer.Streams start (pixels ++ [pixel]) { transfer with chunk := transfer.chunk ++ [pixel] } := by
    intro ok
    obtain ⟨sent, target, all⟩ := streams.complete ok
    constructor
    · exact ⟨sent.length, by simp [target, ← all]⟩
    · intro _
      exact ⟨sent, target, by simp [← all]⟩
  unfold Transfer.pixel
  by_cases ok : transfer.ok = true
  · rw [if_pos ok]
    dsimp only
    split
    · exact (read ok).send ok
    · exact read ok
  · rw [if_neg ok]
    obtain ⟨count, streamed⟩ := streams.streamed
    constructor
    · refine ⟨min count pixels.length, ?_⟩
      rw [streamed, List.take_append_of_le_length (Nat.min_le_right _ _)]
      congr 1
      exact List.take_eq_take_min
    · intro succeeded
      exact absurd succeeded ok

theorem Transfer.Streams.foldl {start : Surface} {pixels : List Pixel} {transfer : Transfer}
    (streams : transfer.Streams start pixels) (total : Nat) (more : List Pixel) :
    (more.foldl (Transfer.pixel total) transfer).Streams start (pixels ++ more) := by
  induction more generalizing pixels transfer with
  | nil => simpa using streams
  | cons pixel more ih => simpa using ih (streams.pixel total pixel)

/-- What is left in the buffer is sent last. -/
theorem Transfer.Streams.finish {start : Surface} {pixels : List Pixel} {transfer : Transfer}
    (streams : transfer.Streams start pixels) :
    ∃ count, transfer.finish.2 = streamPixdata start (pixels.take count) ∧
      (transfer.finish.1 = true → pixels.take count = pixels) := by
  have finished {last : Transfer} (lastStreams : last.Streams start pixels) (empty : last.ok = true → last.chunk = []) :
      ∃ count, last.target = streamPixdata start (pixels.take count) ∧ (last.ok = true → pixels.take count = pixels) := by
    by_cases ok : last.ok = true
    · obtain ⟨sent, target, all⟩ := lastStreams.complete ok
      rw [empty ok, List.append_nil] at all
      exact ⟨pixels.length, by rw [List.take_length, target, all], fun _ => List.take_length⟩
    · obtain ⟨count, target⟩ := lastStreams.streamed
      exact ⟨count, target, fun succeeded => absurd succeeded ok⟩
  unfold Transfer.finish
  split_ifs with more
  · refine finished (streams.send more.1) fun _ => ?_
    unfold Transfer.send
    split <;> rfl
  · exact finished streams fun ok => not_not.mp fun full => more ⟨ok, full⟩

/-- A display after a transfer shows the pixels of some of the places, and of all of them if the transfer succeeds. -/
structure Transferred (s target : Surface) (x y : Nat) (places : List (Nat × Nat)) (result : Bool × Surface) : Prop where
  samePanel : target.SamePanel result.2
  pixels : ∃ copied ⊆ places, (result.1 = true → copied = places) ∧
    ∀ place, result.2.OnPanel place → result.2.pixelAt place =
      if place ∈ copied.map (fun inner => (x + inner.1, y + inner.2)) then s.pixelAt (place.1 - x, place.2 - y)
      else target.pixelAt place

theorem rows_shift {l t r b : Nat} (x y : Nat) :
    (rows l t r b).map (fun inner => (x + inner.1, y + inner.2)) = rows (x + l) (y + t) (x + r) (y + b) := by
  have width : x + r + 1 - (x + l) = r + 1 - l := by omega
  have height : y + b + 1 - (y + t) = b + 1 - t := by omega
  simp only [rows, width, height, List.map_flatMap, List.map_map, ← List.map_add_range', List.flatMap_map]
  rfl

theorem targetPixdataTransfer_transferred {total : Nat} {s target : Surface} {x y : Nat} {entireSurface : Bool}
    {read : Area} (answers : List Answer) (reads : area s entireSurface = read) (wide : read.l ≤ read.r)
    (right : x + read.r < 65535) (high : read.t ≤ read.b) (bottom : y + read.b < 65535) :
    Transferred s target x y (rows read.l read.t read.r read.b)
      (targetPixdataTransfer total s target x y entireSurface answers) := by
  unfold targetPixdataTransfer
  simp only [reads]
  split
  · exact ⟨⟨rfl, rfl⟩, [], by simp, by simp, by simp⟩
  have small : uint16 (x + read.l) = x + read.l ∧ uint16 (y + read.t) = y + read.t ∧
      uint16 (x + read.r) = x + read.r ∧ uint16 (y + read.b) = y + read.b := by
    refine ⟨?_, ?_, ?_, ?_⟩ <;> exact Nat.mod_eq_of_lt (by omega)
  simp only [small]
  set places := rows read.l read.t read.r read.b with places_eq
  set pixels := places.map fun place => s.buffer (place.2 * s.panelWidth + place.1) with pixels_eq
  set start := setViewport target (x + read.l) (y + read.t) (x + read.r) (y + read.b) with start_eq
  have begun : Transfer.Streams start [] ⟨[], start, answers.tail, true⟩ :=
    ⟨⟨0, rfl⟩, fun _ => ⟨[], rfl, rfl⟩⟩
  obtain ⟨count, shown, complete⟩ := (begun.foldl total pixels).finish
  rw [List.nil_append] at shown complete
  have walks : Walks start.viewport ((places.take count).map fun inner => (x + inner.1, y + inner.2)) := by
    rw [List.map_take, rows_shift]
    exact (@walks_rows start.viewport _ _ right bottom (by simp [start, setViewport, wide])
      (by simp [start, setViewport]; omega)).take count
  have streamed : pixels.take count =
      ((places.take count).map fun inner => (x + inner.1, y + inner.2)).map
        fun place => s.pixelAt (place.1 - x, place.2 - y) := by
    simp [pixels, Surface.pixelAt, List.map_take, Function.comp_def]
  constructor
  · rw [shown]
    exact streamPixdata_samePanel start _
  · refine ⟨places.take count, List.take_subset _ _, fun ok => ?_, fun place onPanel => ?_⟩
    · refine List.take_of_length_le ?_
      simpa [pixels] using congrArg List.length (complete ok)
    · rw [shown, streamed] at onPanel ⊢
      exact streamPixdata_pixelAt walks _ (((streamPixdata_samePanel start _).onPanel place).mp onPanel)

/-! ## The dirty rectangle -/

section

variable {w h : Nat}

abbrev Cell (w h : Nat) := Fin w × Fin h

/-- The dirty rectangle lies on the panel, and has the values of a flush if nothing is dirty. -/
structure Dirty.Tidy (w h : Nat) (dirty : Dirty) : Prop where
  inside : dirty.isDirty = true → (dirty.l ≤ dirty.r ∧ dirty.r < w) ∧ dirty.t ≤ dirty.b ∧ dirty.b < h
  flushed : dirty.isDirty = false → (dirty.l = uint16Max ∧ dirty.r = 0) ∧ dirty.t = uint16Max ∧ dirty.b = 0

def Dirty.region (dirty : Dirty) : Set (Cell w h) :=
  {cell | dirty.isDirty = true ∧ (dirty.l ≤ cell.1.val ∧ cell.1.val ≤ dirty.r) ∧
    dirty.t ≤ cell.2.val ∧ cell.2.val ≤ dirty.b}

theorem updateDirty_eq {dirty : Dirty} (tidy : dirty.Tidy w h) {x y : Nat} (small : x < uint16Max) :
    updateDirty dirty x y =
      { isDirty := true, l := min dirty.l x, t := min dirty.t y, r := max dirty.r x, b := max dirty.b y } := by
  have becomesDirty : dirty.isDirty = true ∨ x < dirty.l := by
    by_cases isDirty : dirty.isDirty = true
    · exact Or.inl isDirty
    · exact Or.inr (((tidy.flushed (by simpa using isDirty)).1.1).symm ▸ small)
  obtain ⟨isDirty, l, t, r, b⟩ := dirty
  simp only at becomesDirty
  simp only [updateDirty]
  split_ifs <;> simp_all <;> omega

theorem Dirty.Tidy.update {dirty : Dirty} (tidy : dirty.Tidy w h) {x y : Nat} (column : x < w) (row : y < h)
    (narrow : w ≤ uint16Max) : (updateDirty dirty x y).Tidy w h := by
  rw [updateDirty_eq tidy (Nat.lt_of_lt_of_le column narrow)]
  constructor
  · intro _
    by_cases isDirty : dirty.isDirty = true
    · have inside := tidy.inside isDirty
      simp only
      omega
    · have flushed := tidy.flushed (by simpa using isDirty)
      simp only
      omega
  · intro clean
    simp at clean

theorem region_update {dirty : Dirty} (tidy : dirty.Tidy w h) {x y : Nat} (column : x < w) (narrow : w ≤ uint16Max) :
    dirty.region ⊆ ((updateDirty dirty x y).region : Set (Cell w h)) := by
  rw [updateDirty_eq tidy (Nat.lt_of_lt_of_le column narrow)]
  rintro cell ⟨-, inside⟩
  refine ⟨rfl, ?_⟩
  simp only
  omega

theorem mem_region_update {dirty : Dirty} (tidy : dirty.Tidy w h) (cell : Cell w h) (narrow : w ≤ uint16Max) :
    cell ∈ (updateDirty dirty cell.1 cell.2).region := by
  rw [updateDirty_eq tidy (Nat.lt_of_lt_of_le cell.1.isLt narrow)]
  refine ⟨rfl, ?_⟩
  simp only
  omega

/-! ## Operations -/

def Surface.content (s : Surface) (cell : Cell w h) : Pixel := s.pixelAt (cell.1, cell.2)

/-- What a display shows where a surface is drawn. -/
def Surface.shows (display : Surface) (x y : Nat) (cell : Cell w h) : Pixel := display.pixelAt (x + cell.1, y + cell.2)

/-- The display is up to date outside the dirty rectangle. -/
structure Behind (w h x y : Nat) (s display : Surface) : Prop where
  panel : s.panelWidth = w ∧ s.panelHeight = h
  tidy : s.dirty.Tidy w h
  upToDate : UpToDate s.dirty.region (s.content (w := w) (h := h)) (display.shows x y)

variable {x y : Nat} {s display : Surface}

theorem setpixel_cases (s : Surface) (x y : Nat) (pixel : Pixel) :
    setpixel s x y pixel = s ∨
      (x < s.panelWidth ∧ y < s.panelHeight) ∧ (setpixel s x y pixel).dirty = updateDirty s.dirty x y := by
  unfold setpixel
  split_ifs with off
  · exact Or.inl rfl
  · exact Or.inr ⟨by omega, rfl⟩
  · exact Or.inl rfl

theorem Behind.setpixel (behind : Behind w h x y s display) (narrow : w ≤ uint16Max) (column row : Nat) (pixel : Pixel) :
    Behind w h x y (setpixel s column row pixel) display := by
  rcases setpixel_cases s column row pixel with same | ⟨onPanel, dirty⟩
  · rw [same]
    exact behind
  · rw [behind.panel.1, behind.panel.2] at onPanel
    have samePanel := setpixel_samePanel s column row pixel
    constructor
    · rw [samePanel.1, samePanel.2]
      exact behind.panel
    · rw [dirty]
      exact behind.tidy.update onPanel.1 onPanel.2 narrow
    · rw [dirty]
      refine behind.upToDate.write (region_update behind.tidy onPanel.1 narrow) fun cell changed => ?_
      have inside : s.OnPanel (cell.1, cell.2) := by
        rw [Surface.OnPanel, behind.panel.1, behind.panel.2]
        exact ⟨cell.1.isLt, cell.2.isLt⟩
      rw [Surface.content, setpixel_pixelAt s column row pixel inside] at changed
      split at changed
      · next here =>
        obtain ⟨rfl, rfl⟩ := Prod.mk.inj here
        exact mem_region_update behind.tidy cell narrow
      · exact absurd rfl changed

theorem Behind.setViewport (behind : Behind w h x y s display) (l t r b : Nat) :
    Behind w h x y (setViewport s l t r b) display :=
  ⟨behind.panel, behind.tidy, behind.upToDate⟩

theorem Behind.streamPixdata (behind : Behind w h x y s display) (narrow : w ≤ uint16Max) (data : List Pixel) :
    Behind w h x y (streamPixdata s data) display := by
  refine QmkFirmware.Runs.foldl_invariant (fun state pixel (before : Behind w h x y state display) => ?_) behind data
  have after := before.setpixel narrow state.viewport.pixdataX state.viewport.pixdataY pixel
  exact ⟨after.panel, after.tidy, after.upToDate⟩

/-- A surface that has been cleared is dirty everywhere, whatever the display shows. -/
theorem behind_init (panel : s.panelWidth = w ∧ s.panelHeight = h) (wide : 0 < w) (high : 0 < h) (display : Surface) :
    Behind w h x y (init s) display := by
  constructor
  · exact panel
  · constructor
    · intro _
      simp only [init, panel.1, panel.2]
      omega
    · intro clean
      simp [init] at clean
  · refine (upToDate_univ _ _).mono fun cell _ => ⟨rfl, ?_⟩
    have column := cell.1.isLt
    have row := cell.2.isLt
    simp only [init, panel.1, panel.2]
    omega

/-- What a drawing reads from the surface lies on the panel, and holds whatever is dirty. -/
theorem Behind.area (behind : Behind w h x y s display) (dirty : s.dirty.isDirty = true) (entireSurface : Bool)
    (wide : 0 < w) (high : 0 < h) {read : Area} (reads : area s entireSurface = read) :
    (read.l ≤ read.r ∧ read.r < w ∧ read.t ≤ read.b ∧ read.b < h) ∧
      ∀ cell ∈ (s.dirty.region : Set (Cell w h)), (cell.1.val, cell.2.val) ∈ rows read.l read.t read.r read.b := by
  subst reads
  have inside := behind.tidy.inside dirty
  have panel := behind.panel
  cases entireSurface
  · simp only [Surfaces.area, Bool.false_eq_true, if_false]
    refine ⟨by omega, fun cell member => mem_rows.mpr member.2⟩
  · simp only [Surfaces.area, if_true, panel.1, panel.2]
    refine ⟨by omega, fun cell member => mem_rows.mpr ?_⟩
    have column := cell.1.isLt
    have row := cell.2.isLt
    simp only
    omega

/-- The surface fits on the display where it is drawn. -/
structure Fits (w h x y : Nat) (display : Surface) : Prop where
  wide : 0 < w
  high : 0 < h
  right : x + w ≤ display.panelWidth
  bottom : y + h ≤ display.panelHeight
  width : display.panelWidth ≤ uint16Max
  height : display.panelHeight ≤ uint16Max

/-- A place of the display that is not below the surface. -/
def Outside (w h x y : Nat) (place : Nat × Nat) : Prop :=
  ¬((x ≤ place.1 ∧ place.1 < x + w) ∧ y ≤ place.2 ∧ place.2 < y + h)

/-- A transfer brings the display up to date where it has copied pixels, and touches nothing outside the surface. -/
theorem Behind.transfer (behind : Behind w h x y s display) (fits : Fits w h x y display)
    (dirty : s.dirty.isDirty = true) (total : Nat) (entireSurface : Bool) (answers : List Answer) {result : Bool × Surface}
    (result_eq : targetPixdataTransfer total s display x y entireSurface answers = result) :
    display.SamePanel result.2 ∧ Behind w h x y s result.2 ∧
      (result.1 = true → s.content (w := w) (h := h) = result.2.shows x y) ∧
      ∀ place, display.OnPanel place → Outside w h x y place → result.2.pixelAt place = display.pixelAt place := by
  obtain ⟨inside, dirtyRead⟩ := behind.area dirty entireSurface fits.wide fits.high rfl
  obtain ⟨wide, high, right, bottom, width, height⟩ := fits
  simp only [uint16Max] at width height
  have transferred := @targetPixdataTransfer_transferred total s display x y entireSurface _ answers rfl inside.1 (by omega)
    inside.2.2.1 (by omega)
  rw [result_eq] at transferred
  obtain ⟨samePanel, copied, copiedRead, complete, pixels⟩ := transferred
  have shown (cell : Cell w h) : result.2.shows x y cell =
      if (cell.1.val, cell.2.val) ∈ copied then s.content cell else display.shows x y cell := by
    have column := cell.1.isLt
    have row := cell.2.isLt
    have onPanel : result.2.OnPanel (x + cell.1, y + cell.2) := by
      rw [samePanel.onPanel]
      exact ⟨by simp only; omega, by simp only; omega⟩
    have here : (x + cell.1.val, y + cell.2.val) ∈ copied.map (fun inner => (x + inner.1, y + inner.2)) ↔
        (cell.1.val, cell.2.val) ∈ copied := by
      constructor
      · rintro member
        obtain ⟨inner, innerCopied, same⟩ := List.mem_map.mp member
        obtain ⟨sameColumn, sameRow⟩ := Prod.mk.inj same
        have : inner = (cell.1.val, cell.2.val) := Prod.ext (by simp only; omega) (by simp only; omega)
        exact this ▸ innerCopied
      · exact fun member => List.mem_map.mpr ⟨_, member, rfl⟩
    rw [Surface.shows, pixels _ onPanel]
    simp only [here, Nat.add_sub_cancel_left, Surface.content, Surface.shows]
  refine ⟨samePanel, ⟨behind.panel, behind.tidy, ?_⟩, ?_, ?_⟩
  · have fresh (cell : Cell w h) (member : cell ∈ {cell : Cell w h | (cell.1.val, cell.2.val) ∈ copied}) :
        result.2.shows x y cell = s.content cell := (shown cell).trans (if_pos member)
    have kept (cell : Cell w h) (other : cell ∉ {cell : Cell w h | (cell.1.val, cell.2.val) ∈ copied}) :
        result.2.shows x y cell = display.shows x y cell := (shown cell).trans (if_neg other)
    exact (behind.upToDate.copy fresh kept).mono fun cell member => member.1
  · intro ok
    funext cell
    rw [shown]
    split
    · rfl
    · next kept =>
      rw [complete ok] at kept
      exact (behind.upToDate cell fun isDirty => kept (dirtyRead cell isDirty)).symm
  · intro place onPanel outside
    rw [pixels place ((samePanel.onPanel place).mpr onPanel), if_neg]
    intro member
    obtain ⟨inner, innerCopied, rfl⟩ := List.mem_map.mp member
    have read := mem_rows.mp (copiedRead innerCopied)
    exact outside (by simp only; omega)

/-! ## Runs -/

/-- What holds of a surface, of its display and of the display as it was at first. -/
structure Mirrors (w h x y : Nat) (first : Surface) (s : System) : Prop where
  behind : Behind w h x y s.surface s.target
  samePanel : first.SamePanel s.target
  frame : ∀ place, first.OnPanel place → Outside w h x y place → s.target.pixelAt place = first.pixelAt place
  drawn : s.drawn = true → s.surface.content (w := w) (h := h) = s.target.shows x y

theorem Mirrors.step {first : Surface} {s : System} (mirrors : Mirrors w h x y first s) (fits : Fits w h x y first)
    (total : Nat) (op : Op) : Mirrors w h x y first (step total x y s op) := by
  have narrow : w ≤ uint16Max := by
    have right := fits.right
    have width := fits.width
    omega
  obtain ⟨behind, samePanel, frame, drawn⟩ := mirrors
  cases op with
  | viewport l t r b => exact ⟨behind.setViewport l t r b, samePanel, frame, by simp [Surfaces.step]⟩
  | pixdata data => exact ⟨behind.streamPixdata narrow data, samePanel, frame, by simp [Surfaces.step]⟩
  | clear => exact ⟨behind_init behind.panel fits.wide fits.high _, samePanel, frame, by simp [Surfaces.step]⟩
  | draw entireSurface answers =>
    have fitsNow : Fits w h x y s.target := by
      obtain ⟨wide, high, right, bottom, width, height⟩ := fits
      exact ⟨wide, high, samePanel.1 ▸ right, samePanel.2 ▸ bottom, samePanel.1 ▸ width, samePanel.2 ▸ height⟩
    by_cases isDirty : s.surface.dirty.isDirty = true
    · simp only [Surfaces.step, draw, isDirty, if_true]
      generalize result_eq : targetPixdataTransfer total s.surface s.target x y entireSurface answers = result
      obtain ⟨same, after, complete, kept⟩ := behind.transfer fitsNow isDirty total entireSurface answers result_eq
      have frameAfter (place : Nat × Nat) (onPanel : first.OnPanel place) (outside : Outside w h x y place) :
          result.2.pixelAt place = first.pixelAt place := by
        rw [kept place ((samePanel.onPanel place).mpr onPanel) outside, frame place onPanel outside]
      by_cases ok : result.1 = true
      · simp only [ok, if_true]
        have shown := complete ok
        refine ⟨⟨after.panel, ⟨by simp [flush], fun _ => ⟨⟨rfl, rfl⟩, rfl, rfl⟩⟩, ?_⟩, samePanel.trans same, frameAfter,
          fun _ => shown⟩
        exact fun cell _ => (congrFun shown cell).symm
      · simp only [ok]
        exact ⟨after, samePanel.trans same, frameAfter, by simp⟩
    · simp only [Surfaces.step, draw, isDirty]
      refine ⟨behind, samePanel, frame, fun _ => ?_⟩
      funext cell
      exact (behind.upToDate cell fun member => isDirty member.1).symm

end

/-- After every run, a display shows the surface except where it is dirty, and all of it when the drawing that is last
has succeeded, also without a transfer; nothing else of the display has changed. -/
theorem surface_mirrors {total x y : Nat} {surface display : Surface}
    (fits : Fits surface.panelWidth surface.panelHeight x y display) (ops : List Op) :
    let s := ops.foldl (step total x y) { surface := init surface, target := display, drawn := false }
    (∀ place, surface.OnPanel place → s.target.pixelAt (x + place.1, y + place.2) ≠ s.surface.pixelAt place →
      s.surface.dirty.isDirty = true ∧ (s.surface.dirty.l ≤ place.1 ∧ place.1 ≤ s.surface.dirty.r) ∧
        s.surface.dirty.t ≤ place.2 ∧ place.2 ≤ s.surface.dirty.b) ∧
      (s.drawn = true → ∀ place, surface.OnPanel place →
        s.target.pixelAt (x + place.1, y + place.2) = s.surface.pixelAt place) ∧
      ∀ place, display.OnPanel place → Outside surface.panelWidth surface.panelHeight x y place →
        s.target.pixelAt place = display.pixelAt place := by
  intro s
  have mirrors : Mirrors surface.panelWidth surface.panelHeight x y display s := by
    refine QmkFirmware.Runs.foldl_invariant (fun state op
      (before : Mirrors surface.panelWidth surface.panelHeight x y display state) => before.step fits total op) ?_ ops
    exact ⟨behind_init ⟨rfl, rfl⟩ fits.wide fits.high display, ⟨rfl, rfl⟩, fun _ _ _ => rfl, by simp⟩
  refine ⟨fun place onPanel differs => ?_, fun drawn place onPanel => ?_, mirrors.frame⟩
  · have dirty := mirrors.behind.upToDate (⟨place.1, onPanel.1⟩, ⟨place.2, onPanel.2⟩)
    by_contra clean
    exact differs (dirty clean)
  · exact (congrFun (mirrors.drawn drawn) (⟨place.1, onPanel.1⟩, ⟨place.2, onPanel.2⟩)).symm

def exampleSurface (panelWidth panelHeight : Nat) : Surface where
  panelWidth := panelWidth
  panelHeight := panelHeight
  buffer := fun _ => 7#16
  viewport := ⟨0, 0, 0, 0, 0, 0⟩
  dirty := ⟨false, 0, 0, 0, 0⟩

def exampleDrawing : List Op :=
  [.draw false [], .viewport 0 0 1 1, .pixdata [5#16, 6#16], .draw false [none, some 1], .draw false []]

/-- A drawing that succeeds makes up for one that fails after its first pixel. -/
theorem example_mirrors :
    let s := exampleDrawing.foldl (step 2 1 1)
      { surface := init (exampleSurface 2 2), target := exampleSurface 3 3, drawn := false }
    s.target.pixelAt (2, 1) = s.surface.pixelAt (1, 0) ∧ s.surface.pixelAt (1, 0) = 6#16 ∧
      s.target.pixelAt (0, 0) = 7#16 := by
  have mirrors := @surface_mirrors 2 1 1 (exampleSurface 2 2) (exampleSurface 3 3)
    ⟨by decide, by decide, by decide, by decide, by decide, by decide⟩ exampleDrawing
  exact ⟨mirrors.2.1 rfl (1, 0) ⟨by decide, by decide⟩, rfl, mirrors.2.2 (0, 0) ⟨by decide, by decide⟩ (by simp [Outside])⟩

end QmkFirmware.Painter.Surfaces
