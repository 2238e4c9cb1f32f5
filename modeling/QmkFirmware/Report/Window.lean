import QmkFirmware.Report.RingBuffer
import Mathlib.Data.List.Perm.Basic
import Mathlib.Data.List.Rotate

/-! # The window of the ring

The keys from the head to the tail, in the order in which they have been added, with holes where keys have been taken
out.  Clearing the report leaves holes only and does not touch the count, which then is too great.  That does no harm
until the count, of eight bits, is zero while there are keys.
-/

namespace QmkFirmware.Report

/-! ## Entries that are not zero -/

@[simp] theorem pressed_nil : pressed [] = [] := rfl

@[simp] theorem pressed_zero (entries : List Keycode) : pressed (0#8 :: entries) = pressed entries := rfl

@[simp] theorem pressed_cons {key : Keycode} (nonzero : key ≠ 0#8) (entries : List Keycode) :
    pressed (key :: entries) = key :: pressed entries :=
  List.filter_cons_of_pos (decide_eq_true nonzero)

@[simp] theorem pressed_append (first second : List Keycode) : pressed (first ++ second) = pressed first ++ pressed second :=
  List.filter_append _ _

@[simp] theorem pressed_replicate (count : Nat) : pressed (List.replicate count 0#8) = [] := by
  induction count with
  | zero => rfl
  | succ count ih => exact ih

theorem pressed_eq_self {entries : List Keycode} (keys : 0 ∉ entries) : pressed entries = entries := by
  rw [pressed, List.filter_eq_self]
  intro key member
  exact decide_eq_true fun zero => keys (zero ▸ member)

theorem mem_pressed {key : Keycode} {entries : List Keycode} : key ∈ pressed entries ↔ key ∈ entries ∧ key ≠ 0 := by
  simp [pressed]

/-! ## The keys from the head on -/

def view (keys : Nat → Keycode) (head : Nat) : List Keycode := (List.range 6).map fun k => keys ((head + k) % 6)

variable {keys : Nat → Keycode} {head : Nat}

@[simp] theorem length_view : (view keys head).length = 6 := by
  simp [view]

theorem view_getElem {k : Nat} (inside : k < (view keys head).length) : (view keys head)[k] = keys ((head + k) % 6) := by
  simp [view]

theorem view_at {before behind : List Keycode} {key : Keycode} (cells : view keys head = before ++ key :: behind) :
    keys ((head + before.length) % 6) = key := by
  have bound : before.length < (view keys head).length := by
    rw [cells]
    simp
  rw [← view_getElem bound]
  simp [cells]

theorem view_update {p : Nat} (inside : p < 6) (value : Keycode) :
    view (Function.update keys ((head + p) % 6) value) head = (view keys head).set p value := by
  apply List.ext_getElem
  · simp
  · intro k bound _
    rw [length_view] at bound
    rw [view_getElem, List.getElem_set, view_getElem]
    by_cases same : p = k
    · rw [if_pos same, same, Function.update_self]
    · rw [if_neg same, Function.update_of_ne]
      omega

theorem view_clear : view (fun _ => 0) head = List.replicate 6 0 := by
  simp [view]

/-- The next head has the keys behind the first one, and the first one last. -/
theorem view_next {first : Keycode} {rest : List Keycode} (cells : view keys head = first :: rest) :
    view keys (roInc head) = rest ++ [first] := by
  have length : rest.length = 5 := by
    have all := congrArg List.length cells
    simpa using all.symm
  apply List.ext_getElem
  · simp [length]
  · intro k bound _
    rw [length_view] at bound
    rw [view_getElem, List.getElem_append]
    split
    next earlier =>
      have inside : k + 1 < (view keys head).length := by
        rw [length_view]
        omega
      have same : (view keys head)[k + 1] = rest[k] := by simp [cells]
      rw [← same, view_getElem]
      congr 1
      unfold roInc roAdd
      omega
    next last =>
      have inside : 0 < (view keys head).length := by
        rw [length_view]
        omega
      have same : (view keys head)[0] = first := by simp [cells]
      simp only [List.getElem_singleton]
      rw [← same, view_getElem]
      congr 1
      unfold roInc roAdd
      omega

/-- The report shows the keys of every view. -/
theorem reported_perm {ring : KeyRing} (head : ring.head < 6) :
    ring.reported.Perm (pressed (view ring.keys ring.head)) := by
  have rotations : ∀ head < 6, (List.range 6).map (fun k => (head + k) % 6) = (List.range 6).rotate head := by decide
  have rotated := rotations ring.head head
  have all : view ring.keys ring.head = ((List.range 6).rotate ring.head).map ring.keys := by
    rw [← rotated, List.map_map]
    rfl
  rw [all]
  exact List.Perm.filter _ (((List.range 6).rotate_perm ring.head).map ring.keys).symm

/-! ## The indexes of a loop -/

theorem visit_eq {p m fuel : Nat} (some : p < m) (most : m ≤ p + 6) (enough : m - p ≤ fuel) :
    visit ((head + m) % 6) fuel ((head + p) % 6) = (List.range' p (m - p)).map fun k => (head + k) % 6 := by
  induction fuel generalizing p with
  | zero => omega
  | succ fuel ih =>
    have next : roInc ((head + p) % 6) = (head + (p + 1)) % 6 := by
      unfold roInc roAdd
      omega
    rw [visit, next, show m - p = m - (p + 1) + 1 by omega, List.range'_succ, List.map_cons]
    congr 1
    by_cases last : m = p + 1
    · rw [if_pos (by rw [last]), last]
      simp
    · rw [if_neg (by omega), ih (by omega) (by omega) (by omega)]

/-- The ring shows a window from its head on, behind which it is empty.  The last key of a window is there, unless all
of them have been cleared. -/
structure Window (ring : KeyRing) (window : List Keycode) : Prop where
  head : ring.head < 6
  tail : ring.tail = (ring.head + window.length) % 6
  nonempty : 0 < window.length
  most : window.length ≤ 6
  cells : view ring.keys ring.head = window ++ List.replicate (6 - window.length) 0
  last : (∀ key ∈ window, key = 0) ∨ ∃ before key, window = before ++ [key] ∧ key ≠ 0

namespace Window

variable {ring : KeyRing} {window : List Keycode} (shows : Window ring window)
include shows

theorem indexes_eq : ring.indexes = (List.range window.length).map fun k => (ring.head + k) % 6 := by
  have all := @visit_eq ring.head 0 window.length 6 shows.nonempty (by have := shows.most; omega) shows.most
  have head : (ring.head + 0) % 6 = ring.head := by
    have small := shows.head
    omega
  rw [head, ← shows.tail, Nat.sub_zero, ← List.range_eq_range'] at all
  exact all

theorem keys_eq {k : Nat} (inside : k < window.length) : ring.keys ((ring.head + k) % 6) = window[k] := by
  have small := shows.most
  have bound : k < (view ring.keys ring.head).length := by
    rw [length_view]
    omega
  rw [← view_getElem bound]
  simp only [shows.cells, List.getElem_append_left inside]

theorem indexes_keys : ring.indexes.map ring.keys = window := by
  rw [shows.indexes_eq, List.map_map]
  apply List.ext_getElem
  · simp
  · intro k _ inside
    simp [shows.keys_eq inside]

/-- The loop looks for a code in the window. -/
theorem any_iff (code : Keycode) : ring.indexes.any (ring.keys · = code) = true ↔ code ∈ window := by
  have same : ring.indexes.any (ring.keys · = code) = window.any (· = code) := by
    rw [← shows.indexes_keys, List.any_map]
    rfl
  simp [same]

/-- It finds the first one. -/
theorem find_some {code : Keycode} {i : Nat} (found : ring.indexes.find? (ring.keys · = code) = some i) :
    ∃ before behind, window = before ++ code :: behind ∧ code ∉ before ∧ i = (ring.head + before.length) % 6 := by
  obtain ⟨equal, earlier, later, indexes, none⟩ := List.find?_eq_some_iff_append.mp found
  refine ⟨earlier.map ring.keys, later.map ring.keys, ?_, ?_, ?_⟩
  · rw [← shows.indexes_keys, indexes, List.map_append, List.map_cons, of_decide_eq_true equal]
  · intro member
    obtain ⟨j, member, same⟩ := List.mem_map.mp member
    simpa [same] using none j member
  · have at_index : ring.indexes[earlier.length]? = some i := by simp [indexes]
    have bound : earlier.length < window.length := by
      rw [← shows.indexes_keys, indexes]
      simp
    rw [shows.indexes_eq] at at_index
    simpa [bound] using at_index.symm

theorem find_none {code : Keycode} (none : ring.indexes.find? (ring.keys · = code) = none) : code ∉ window := by
  rw [← shows.any_iff]
  simpa using none

theorem pressed_view : pressed (view ring.keys ring.head) = pressed window := by
  simp [shows.cells]

end Window

/-! ## Adding a key -/

theorem replicate_append_cons (count : Nat) (rest : List Keycode) :
    List.replicate count 0#8 ++ 0#8 :: rest = 0#8 :: (List.replicate count 0#8 ++ rest) := by
  rw [← List.cons_append, ← List.replicate_succ, List.replicate_succ', List.append_assoc, List.singleton_append]

theorem set_behind (kept : List Keycode) (first value : Keycode) (rest : List Keycode) :
    (kept ++ first :: rest).set kept.length value = kept ++ value :: rest := by
  simp

/-- A key is added behind what is there. -/
theorem window_addToTail {ring : KeyRing} {kept : List Keycode} {code : Keycode} (key : code ≠ 0)
    (head : ring.head < 6) (tail : ring.tail = (ring.head + kept.length) % 6) {cell : Keycode}
    {rest : List Keycode} (cells : view ring.keys ring.head = kept ++ cell :: rest)
    (behind : rest = List.replicate (5 - kept.length) 0) : Window (ring.addToTail code) (kept ++ [code]) where
  head := head
  tail := by
    show roInc ring.tail = _
    rw [tail, roInc, roAdd, List.length_append, List.length_singleton]
    show _ = (ring.head + _) % 6
    omega
  nonempty := by simp
  most := by
    have all := congrArg List.length cells
    simp at all
    simp
    omega
  cells := by
    have all := congrArg List.length cells
    simp only [length_view, List.length_append, List.length_cons] at all
    show view (Function.update ring.keys ring.tail code) ring.head = _
    rw [tail, view_update (by omega), cells, set_behind, behind, List.append_assoc]
    simp
  last := .inr ⟨kept, code, rfl, key⟩

/-- There is room behind a window that does not fill the ring. -/
theorem Window.room {ring : KeyRing} {window : List Keycode} (shows : Window ring window) (less : window.length < 6) :
    view ring.keys ring.head = window ++ 0 :: List.replicate (5 - window.length) 0 := by
  rw [shows.cells, show 6 - window.length = 5 - window.length + 1 by omega, List.replicate_succ]

theorem Window.full_iff {ring : KeyRing} {window : List Keycode} (shows : Window ring window) :
    ring.tail = ring.head ↔ window.length = 6 := by
  have head := shows.head
  have tail := shows.tail
  have some := shows.nonempty
  have most := shows.most
  omega

/-! ## The left shift -/

/-- What is kept moves to the front, and the holes behind it. -/
theorem compact_eq {kept rest : List Keycode} {holes p : Nat} (some : 0 < holes) (place : p = kept.length + holes)
    (length : p + rest.length = 6) (cells : view keys head = kept ++ (List.replicate holes 0 ++ rest)) :
    ∃ after offset, compact keys ((head + kept.length) % 6) holes
        ((List.range' p rest.length).map fun k => (head + k) % 6) = (after, offset) ∧
      view after head = (kept ++ pressed rest) ++ List.replicate offset 0 ∧ 0 < offset := by
  induction rest generalizing keys kept holes p with
  | nil => exact ⟨keys, holes, rfl, by simpa using cells, some⟩
  | cons key rest ih =>
    rw [List.length_cons] at length
    have at_place : keys ((head + p) % 6) = key := by
      rw [← List.append_assoc] at cells
      have there := view_at cells
      rwa [List.length_append, List.length_replicate, ← place] at there
    rw [List.length_cons, List.range'_succ, List.map_cons, compact, at_place]
    by_cases hole : key = 0
    · rw [if_neg (not_not_intro hole)]
      obtain ⟨after, offset, ran, shown, positive⟩ := ih (Nat.zero_lt_succ holes)
        (show p + 1 = kept.length + (holes + 1) by omega) (by omega)
        (by rw [cells, hole, List.replicate_succ', List.append_assoc]; rfl)
      exact ⟨after, offset, ran, by simpa [hole] using shown, positive⟩
    · rw [if_pos hole]
      obtain ⟨fewer, rfl⟩ : ∃ fewer, holes = fewer + 1 := ⟨holes - 1, by omega⟩
      have moved : view (Function.update (Function.update keys ((head + kept.length) % 6) key) ((head + p) % 6) 0) head =
          (kept ++ [key]) ++ (List.replicate (fewer + 1) 0 ++ rest) := by
        have at_hole := set_behind (kept ++ key :: List.replicate fewer 0) key 0 rest
        have place : p = (kept ++ key :: List.replicate fewer 0).length := by
          simp
          omega
        rw [view_update (by omega), view_update (by omega), cells, List.replicate_succ, List.cons_append, set_behind,
          ← List.cons_append, ← List.append_assoc, place, at_hole]
        simp [replicate_append_cons]
      have next : roInc ((head + kept.length) % 6) = (head + (kept ++ [key]).length) % 6 := by
        simp only [roInc, roAdd, List.length_append, List.length_singleton]
        omega
      obtain ⟨after, offset, ran, shown, positive⟩ := ih some
        (show p + 1 = (kept ++ [key]).length + (fewer + 1) by simp; omega) (by omega) moved
      rw [next, pressed_cons hole]
      exact ⟨after, offset, ran, by simpa using shown, positive⟩

/-- A full window with a hole has room after the left shift. -/
theorem Window.leftShift {ring : KeyRing} {before behind : List Keycode}
    (shows : Window ring (before ++ 0 :: behind)) (all : (before ++ 0 :: behind).length = 6) (keys : 0 ∉ before) :
    ∃ kept offset, kept = pressed (before ++ 0 :: behind) ∧ 0 < offset ∧
      (ring.leftShift ((ring.head + before.length) % 6)).head = ring.head ∧
      (ring.leftShift ((ring.head + before.length) % 6)).tail = (ring.head + kept.length) % 6 ∧
      view (ring.leftShift ((ring.head + before.length) % 6)).keys ring.head = kept ++ List.replicate offset 0 := by
  have length : before.length + (behind.length + 1) = 6 := by simpa using all
  have more : behind ≠ [] := by
    rintro rfl
    obtain zeros | ⟨earlier, key, last, nonzero⟩ := shows.last
    · -- only the first key of a cleared window is the first hole
      cases before with
      | nil => simp at length
      | cons key before =>
        have zero := zeros key (by simp)
        exact keys (by simp [zero])
    · have same : (0 : Keycode) = key := by
        simpa using congrArg List.getLast? last
      exact nonzero same.symm
  have some := List.length_pos_of_ne_nil more
  have cells : view ring.keys ring.head = before ++ (List.replicate 1 0 ++ behind) := by
    rw [shows.cells, all]
    simp
  obtain ⟨after, offset, ran, shown, positive⟩ := compact_eq Nat.one_pos
    (show before.length + 1 = before.length + 1 from rfl) (by omega) cells
  have full := shows.full_iff.mpr all
  have next : roInc ((ring.head + before.length) % 6) = (ring.head + (before.length + 1)) % 6 := by
    unfold roInc roAdd
    omega
  have tail : ring.tail = (ring.head + 6) % 6 := by
    have head := shows.head
    omega
  have visited := @visit_eq ring.head (before.length + 1) 6 6 (by omega) (by omega) (by omega)
  rw [← tail, ← next, show 6 - (before.length + 1) = behind.length by omega] at visited
  have shifted : ring.leftShift ((ring.head + before.length) % 6) =
      { ring with keys := after, tail := roSub ring.tail offset } := by
    rw [KeyRing.leftShift, visited, ran]
  have count := congrArg List.length shown
  simp only [length_view, List.length_append, List.length_replicate] at count
  refine ⟨before ++ pressed behind, offset, by simp [pressed_eq_self keys], positive, by rw [shifted], ?_, by rw [shifted]; exact shown⟩
  rw [shifted, tail]
  simp only [roSub, List.length_append]
  omega

/-! ## What adding does to the window -/

theorem pressed_pressed (entries : List Keycode) : pressed (pressed entries) = pressed entries := by
  simp [pressed]

theorem length_pressed_le (entries : List Keycode) : (pressed entries).length ≤ entries.length :=
  List.length_filter_le _ _

theorem recentAfter_room {recent : List Keycode} {code : Keycode} (key : code ≠ 0) (new : code ∉ recent)
    (room : recent.length < 6) : recentAfter recent (.add code key) = recent ++ [code] := by
  rw [recentAfter, if_neg new, show recent.length + 1 - 6 = 0 by omega, List.drop_zero]

namespace Window

variable {ring : KeyRing} {window : List Keycode} (shows : Window ring window) {code : Keycode} (key : code ≠ 0)
include shows key

/-- A full window without holes loses its first key. -/
theorem evict {first : Keycode} {rest : List Keycode} (all : window = first :: rest) (full : window.length = 6) :
    Window ({ ring with head := roInc ring.head, count := ring.count - 1 }.addToTail code) (rest ++ [code]) := by
  subst all
  have head := shows.head
  have tail := shows.full_iff.mpr full
  have length : rest.length = 5 := by simpa using full
  have cells : view ring.keys ring.head = first :: rest := by simpa [full] using shows.cells
  have inside : (ring.head + 1) % 6 < 6 := by omega
  have behind : ring.tail = ((ring.head + 1) % 6 + rest.length) % 6 := by omega
  exact window_addToTail key inside behind (view_next cells) (by simp [length])

theorem add (counted : ring.count ≠ 0) :
    ∃ after, Window (addKeyByte ring code) after ∧ pressed after = recentAfter (pressed window) (.add code key) := by
  have one : pressed [code] = [code] := pressed_cons key []
  rw [addKeyByte, if_pos counted]
  by_cases there : code ∈ window
  · rw [if_pos ((shows.any_iff code).mpr there)]
    exact ⟨window, shows, by rw [recentAfter, if_pos (mem_pressed.mpr ⟨there, key⟩)]⟩
  · have new : code ∉ pressed window := fun member => there (mem_pressed.mp member).1
    have few := length_pressed_le window
    rw [if_neg (mt (shows.any_iff code).mp there)]
    by_cases full : ring.tail = ring.head
    · have six := shows.full_iff.mp full
      rw [if_pos full]
      split
      next none =>
        have keys := pressed_eq_self (shows.find_none none)
        obtain ⟨first, rest, all⟩ := List.exists_cons_of_length_eq_add_one six
        have rest_keys : pressed rest = rest := by
          apply pressed_eq_self
          intro hole
          exact shows.find_none none (all ▸ List.mem_cons_of_mem _ hole)
        refine ⟨_, shows.evict key all six, ?_⟩
        rw [recentAfter, if_neg new, keys, six, pressed_append, rest_keys, one, all]
        rfl
      next empty found =>
        obtain ⟨before, behind, rfl, keys, rfl⟩ := shows.find_some found
        obtain ⟨kept, offset, equal, positive, head, tail, cells⟩ := shows.leftShift six keys
        obtain ⟨fewer, rfl⟩ : ∃ fewer, offset = fewer + 1 := ⟨offset - 1, by omega⟩
        have count := congrArg List.length cells
        simp only [length_view, List.length_append, List.length_replicate] at count
        refine ⟨kept ++ [code], @window_addToTail _ kept code key ?_ ?_ 0 _ ?_ rfl, ?_⟩
        · rw [head]
          exact shows.head
        · rw [head, tail]
        · rw [head, cells, List.replicate_succ, show fewer = 5 - kept.length by omega]
        · rw [← equal] at new ⊢
          rw [recentAfter_room key new (by omega), pressed_append, one, equal, pressed_pressed]
    · rw [if_neg full]
      have less : window.length < 6 := Nat.lt_of_le_of_ne shows.most (mt shows.full_iff.mpr full)
      refine ⟨_, window_addToTail key shows.head shows.tail (shows.room less) rfl, ?_⟩
      rw [recentAfter_room key new (by omega), pressed_append, one]

end Window

/-! ## Taking a key out -/

/-- The tail goes back to the last key that is left, or to the head. -/
theorem shiftTail_eq {kept : List Keycode} {fuel : Nat} (inside : head < 6) (less : kept.length < 6)
    (enough : kept.length < fuel) (cells : view keys head = kept ++ List.replicate (6 - kept.length) 0) :
    ∃ left : List Keycode, shiftTail keys head fuel ((head + (kept.length + 1)) % 6) = (head + left.length) % 6 ∧
      view keys head = left ++ List.replicate (6 - left.length) 0 ∧
      (left = [] ∨ ∃ before key, left = before ++ [key] ∧ key ≠ 0) := by
  induction kept using List.reverseRecOn generalizing fuel with
  | nil =>
    obtain ⟨fuel, rfl⟩ : ∃ less, fuel = less + 1 := ⟨fuel - 1, by omega⟩
    have back : roDec ((head + 1) % 6) = head := by
      unfold roDec roSub
      omega
    have before : keys (roDec head) = 0 := by
      have same : roDec head = (head + 5) % 6 := by
        unfold roDec roSub
        omega
      rw [same]
      exact @view_at keys head (List.replicate 5 0) [] 0 cells
    refine ⟨[], ?_, cells, .inl rfl⟩
    rw [List.length_nil, Nat.zero_add, shiftTail, back, if_neg (not_not_intro before), if_neg (not_not_intro rfl)]
    show head = (head + 0) % 6
    omega
  | append_singleton kept key ih =>
    rw [List.length_append, List.length_singleton] at less enough
    obtain ⟨fuel, rfl⟩ : ∃ less, fuel = less + 1 := ⟨fuel - 1, by omega⟩
    have back : roDec ((head + (kept.length + 1 + 1)) % 6) = (head + (kept.length + 1)) % 6 := by
      unfold roDec roSub
      omega
    have again : roDec ((head + (kept.length + 1)) % 6) = (head + kept.length) % 6 := by
      unfold roDec roSub
      omega
    have there : keys ((head + kept.length) % 6) = key := by
      rw [List.append_assoc] at cells
      exact view_at cells
    rw [List.length_append, List.length_singleton, shiftTail, back, again, there]
    by_cases hole : key = 0
    · rw [if_neg (not_not_intro hole), if_pos (by omega)]
      apply ih (by omega) (by omega)
      rw [cells, hole, List.append_assoc, show 6 - kept.length = 6 - (kept.length + 1) + 1 by omega, List.replicate_succ]
      simp
    · rw [if_pos hole]
      exact ⟨kept ++ [key], by simp, cells, .inr ⟨kept, key, rfl, hole⟩⟩

theorem shiftTail_lt (fuel : Nat) {tail : Nat} (inside : tail < 6) : shiftTail keys head fuel tail < 6 := by
  have back : ∀ tail, roDec tail < 6 := fun tail => Nat.mod_lt _ (by decide)
  induction fuel generalizing tail with
  | zero => exact inside
  | succ fuel ih =>
    rw [shiftTail]
    split
    · exact back tail
    · split
      · exact ih (back tail)
      · exact back tail

theorem recentAfter_absent {recent : List Keycode} {code : Keycode} (absent : code ∉ recent) :
    recentAfter recent (.del code) = recent := by
  rw [recentAfter, List.filter_eq_self]
  intro key member
  exact decide_eq_true fun same => absent (same ▸ member)

/-- Without duplicates, taking a code out leaves the others. -/
theorem pressed_take {before behind : List Keycode} {code : Keycode} (first : code ∉ before)
    (nodup : (pressed (before ++ code :: behind)).Nodup) :
    pressed (before ++ 0 :: behind) = recentAfter (pressed (before ++ code :: behind)) (.del code) := by
  have front : code ∉ pressed before := fun member => first (mem_pressed.mp member).1
  by_cases zero : code = 0
  · subst zero
    have absent : (0 : Keycode) ∉ pressed (before ++ 0 :: behind) := fun member => (mem_pressed.mp member).2 rfl
    exact (recentAfter_absent absent).symm
  · rw [pressed_append, pressed_cons zero] at nodup
    have back : code ∉ pressed behind := (List.nodup_cons.mp (List.nodup_append.mp nodup).2.1).1
    have left := recentAfter_absent front
    have right := recentAfter_absent back
    simp only [recentAfter] at left right ⊢
    rw [pressed_append, pressed_append, pressed_cons zero, List.filter_append, left, List.filter_cons_of_neg (by simp),
      right]
    rfl

namespace Window

variable {ring : KeyRing} {before behind : List Keycode} {code : Keycode}
variable (shows : Window ring (before ++ code :: behind))
include shows

theorem view_take : view (ring.take ((ring.head + before.length) % 6)).keys ring.head =
    before ++ 0 :: behind ++ List.replicate (6 - (before ++ code :: behind).length) 0 := by
  have most := shows.most
  rw [List.length_append, List.length_cons] at most
  show view (Function.update ring.keys _ 0) ring.head = _
  rw [view_update (by omega), shows.cells, List.append_assoc, List.cons_append, set_behind, List.append_assoc]
  rfl

/-- A hole before other keys stays in the window. -/
theorem take_inside (more : behind ≠ []) :
    Window (ring.take ((ring.head + before.length) % 6)) (before ++ 0 :: behind) where
  head := shows.head
  tail := by
    have tail := shows.tail
    rw [List.length_append, List.length_cons] at tail ⊢
    exact tail
  nonempty := by
    rw [List.length_append, List.length_cons]
    omega
  most := by
    have most := shows.most
    rw [List.length_append, List.length_cons] at most ⊢
    exact most
  cells := by
    have cells := shows.view_take
    rw [List.length_append, List.length_cons] at cells ⊢
    exact cells
  last := by
    obtain zeros | ⟨earlier, key, last, nonzero⟩ := shows.last
    · left
      intro key member
      simp only [List.mem_append, List.mem_cons] at member zeros
      obtain front | rfl | back := member
      · exact zeros key (.inl front)
      · rfl
      · exact zeros key (.inr (.inr back))
    · right
      obtain ⟨middle, final, rfl⟩ := (List.eq_nil_or_concat behind).resolve_left more
      have ends : (before ++ code :: middle) ++ [final] = earlier ++ [key] := by simpa using last
      have same : final = key := List.singleton_inj.mp (List.append_inj' ends rfl).2
      exact ⟨before ++ 0 :: middle, final, by simp, same ▸ nonzero⟩

/-- Before nothing else, it goes with the holes before it. -/
theorem take_last (last : behind = []) :
    ∃ after, Window { ring.take ((ring.head + before.length) % 6) with
        tail := shiftTail (ring.take ((ring.head + before.length) % 6)).keys ring.head 6 ring.tail } after ∧
      pressed after = pressed before := by
  subst last
  have head := shows.head
  have most := shows.most
  have tail := shows.tail
  have cells := shows.view_take
  rw [List.length_append, List.length_singleton] at most tail cells
  have holes : view (ring.take ((ring.head + before.length) % 6)).keys ring.head =
      before ++ List.replicate (6 - before.length) 0 := by
    rw [cells, List.append_assoc, show 6 - before.length = 6 - (before.length + 1) + 1 by omega, List.replicate_succ]
    rfl
  obtain ⟨left, shifted, shown, ending⟩ := @shiftTail_eq _ _ _ 6 head (by omega) (by omega) holes
  have same : pressed left = pressed before := by
    have both := congrArg pressed (shown.symm.trans holes)
    simpa using both
  rw [tail, shifted]
  obtain rfl | ⟨earlier, key, rfl, nonzero⟩ := ending
  · -- the whole ring is a window of holes
    refine ⟨List.replicate 6 0, ⟨head, ?_, by simp, by simp, shown, .inl (by simp)⟩, ?_⟩
    · show (ring.head + 0) % 6 = (ring.head + 6) % 6
      omega
    rw [← same]
    rfl
  · have all := congrArg List.length shown
    simp only [length_view, List.length_append, List.length_singleton, List.length_replicate] at all
    exact ⟨earlier ++ [key], ⟨head, rfl, by simp, by simp; omega, shown, .inr ⟨earlier, key, rfl, nonzero⟩⟩, same⟩

end Window

/-! ## Runs -/

/-- What is known of the ring and of the keys that have been added last.  While the count is not zero, the ring shows
them in a window. -/
structure Tracks (ring : KeyRing) (recent : List Keycode) : Prop where
  head : ring.head < 6
  tail : ring.tail < 6
  nodup : recent.Nodup
  shown : ring.reported.Perm recent
  window : ring.count ≠ 0 → ∃ window, Window ring window ∧ pressed window = recent

theorem Tracks.of_window {ring : KeyRing} {window recent : List Keycode} (nodup : recent.Nodup)
    (shows : Window ring window) (equal : pressed window = recent) : Tracks ring recent where
  head := shows.head
  tail := by
    rw [shows.tail]
    exact Nat.mod_lt _ (by decide)
  nodup := nodup
  shown := by
    have shown := reported_perm shows.head
    rwa [shows.pressed_view, equal] at shown
  window _ := ⟨window, shows, equal⟩

theorem recentAfter_nodup {recent : List Keycode} (nodup : recent.Nodup) (call : Call) : (recentAfter recent call).Nodup := by
  cases call with
  | add code key =>
    rw [recentAfter]
    split
    next => exact nodup
    next new =>
      apply List.Nodup.sublist (List.drop_sublist _ _)
      refine List.nodup_append.mpr ⟨nodup, List.nodup_singleton code, ?_⟩
      intro key member other last same
      rw [same, List.mem_singleton.mp last] at member
      exact new member
  | del code => exact nodup.filter _
  | clear => exact List.nodup_nil

theorem reported_eq_nil_iff {ring : KeyRing} : ring.reported = [] ↔ ∀ k < 6, ring.keys k = 0 := by
  simp [KeyRing.reported, pressed]

section Steps

variable {ring : KeyRing} {recent : List Keycode} (tracks : Tracks ring recent)
include tracks

theorem Tracks.add {code : Keycode} (key : code ≠ 0) (counted : ring.Counted (.add code key)) :
    Tracks (addKeyByte ring code) (recentAfter recent (.add code key)) := by
  have nodup := recentAfter_nodup tracks.nodup (.add code key)
  by_cases zero : ring.count = 0
  · -- in an empty ring, the window reaches from the head to the new key
    have none := counted zero
    obtain rfl : recent = [] := by
      have shown := tracks.shown
      rw [none] at shown
      exact List.nil_perm.mp shown
    have head := tracks.head
    have tail := tracks.tail
    have gap : ((ring.tail + 6 - ring.head) % 6) < 6 := Nat.mod_lt _ (by decide)
    have cells : view ring.keys ring.head = List.replicate 6 0 := by
      rw [List.eq_replicate_iff]
      refine ⟨length_view, fun cell member => ?_⟩
      obtain ⟨k, -, rfl⟩ := List.mem_map.mp member
      exact reported_eq_nil_iff.mp none _ (Nat.mod_lt _ (by decide))
    have split : List.replicate 6 (0 : Keycode) = List.replicate ((ring.tail + 6 - ring.head) % 6) 0 ++
        0 :: List.replicate (5 - (ring.tail + 6 - ring.head) % 6) 0 := by
      rw [← List.replicate_succ, List.replicate_append_replicate]
      congr 1
      omega
    rw [addKeyByte, if_neg (not_not_intro zero)]
    have shows := @window_addToTail ring (List.replicate ((ring.tail + 6 - ring.head) % 6) 0) code key head
      (by rw [List.length_replicate]; omega) 0 _ (cells.trans split) (by rw [List.length_replicate])
    apply Tracks.of_window nodup shows
    rw [pressed_append, pressed_cons key]
    simp [recentAfter]
  · obtain ⟨window, shows, equal⟩ := tracks.window zero
    obtain ⟨after, shown, same⟩ := shows.add key zero
    rw [equal] at same
    exact Tracks.of_window nodup shown same

/-- With the last key that is counted the ring starts again; then only the report is known. -/
theorem Tracks.of_uncounted {after : KeyRing} (head : after.head < 6) (tail : after.tail < 6)
    {before behind : List Keycode} {code : Keycode}
    (shows : Window ring (before ++ code :: behind)) (equal : pressed (before ++ code :: behind) = recent)
    (first : code ∉ before) (keys : after.keys = (ring.take ((ring.head + before.length) % 6)).keys)
    (zero : after.count = 0) : Tracks after (recentAfter recent (.del code)) where
  head := head
  tail := tail
  nodup := recentAfter_nodup tracks.nodup _
  shown := by
    have shown := @reported_perm (ring.take ((ring.head + before.length) % 6)) shows.head
    have taken : pressed (view (ring.take ((ring.head + before.length) % 6)).keys ring.head) =
        recentAfter recent (.del code) := by
      rw [shows.view_take, pressed_append, ← equal, ← pressed_take first (equal ▸ tracks.nodup)]
      simp
    show (pressed ((List.range 6).map after.keys)).Perm _
    rw [keys, ← taken]
    exact shown
  window counted := absurd zero counted

theorem Tracks.del {code : Keycode} (counted : ring.Counted (.del code)) :
    Tracks (delKeyByte ring code) (recentAfter recent (.del code)) := by
  by_cases zero : ring.count = 0
  · have absent : code ∉ recent := fun member => counted zero (tracks.shown.mem_iff.mpr member)
    rw [delKeyByte, if_neg (not_not_intro zero), recentAfter_absent absent]
    exact tracks
  · obtain ⟨window, shows, equal⟩ := tracks.window zero
    rw [delKeyByte, if_pos zero]
    split
    next none =>
      have absent : code ∉ recent := by
        rw [← equal]
        exact fun member => shows.find_none none (mem_pressed.mp member).1
      rw [recentAfter_absent absent]
      exact tracks
    next i found =>
      obtain ⟨before, behind, rfl, first, rfl⟩ := shows.find_some found
      have nodup := tracks.nodup
      have left := pressed_take first (equal ▸ nodup)
      dsimp only
      by_cases last : (ring.take ((ring.head + before.length) % 6)).count = 0
      · rw [if_pos last]
        split
        next =>
          exact tracks.of_uncounted (Nat.succ_pos 5) (shiftTail_lt 6 (Nat.succ_pos 5)) shows equal first rfl last
        next => exact tracks.of_uncounted (Nat.succ_pos 5) (Nat.succ_pos 5) shows equal first rfl last
      · have place : (ring.head + before.length) % 6 = roDec ring.tail ↔ behind = [] := by
          have most := shows.most
          have tail := shows.tail
          rw [List.length_append, List.length_cons] at most tail
          rw [tail, ← List.length_eq_zero_iff, roDec, roSub]
          omega
        have nodup := recentAfter_nodup nodup (.del code)
        rw [if_neg last]
        split
        next next_to_tail =>
          obtain ⟨after, shown, same⟩ := shows.take_last (place.mp next_to_tail)
          apply Tracks.of_window nodup shown
          rw [← equal, ← left, same, place.mp next_to_tail]
          simp
        next inside =>
          apply Tracks.of_window nodup (shows.take_inside (mt place.mpr inside))
          rw [left, equal]

theorem Tracks.clear : Tracks (clearKeys ring) [] where
  head := tracks.head
  tail := tracks.tail
  nodup := List.nodup_nil
  shown := by
    rw [reported_eq_nil_iff.mpr fun _ _ => rfl]
  window counted := by
    obtain ⟨window, shows, -⟩ := tracks.window counted
    have most := shows.most
    refine ⟨List.replicate window.length 0, ⟨shows.head, ?_, ?_, ?_, ?_, ?_⟩, by simp⟩
    · rw [List.length_replicate]
      exact shows.tail
    · rw [List.length_replicate]
      exact shows.nonempty
    · rw [List.length_replicate]
      exact most
    · show view (fun _ => 0) ring.head = _
      rw [view_clear, List.length_replicate, List.replicate_append_replicate]
      congr 1
      omega
    · exact .inl fun key member => List.eq_of_mem_replicate member

end Steps

theorem Tracks.empty : Tracks KeyRing.empty [] where
  head := Nat.succ_pos 5
  tail := Nat.succ_pos 5
  nodup := List.nodup_nil
  shown := by
    rw [reported_eq_nil_iff.mpr fun _ _ => rfl]
  window counted := absurd rfl counted

/-- The ring follows the keys that have been added last, as long as its count is not zero beside keys. -/
theorem tracks_run (calls : List Call)
    (counted : Runs.EveryStep (fun earlier call => (KeyRing.run earlier).Counted call) calls) :
    Tracks (KeyRing.run calls) (recentKeys calls) := by
  apply Runs.foldl_everyStep (fun earlier call => (KeyRing.run earlier).Counted call)
    (fun calls ring => Tracks ring (recentKeys calls)) Tracks.empty _ calls counted
  intro calls call counted tracks
  rw [recentKeys, List.foldl_append]
  cases call with
  | add code key => exact tracks.add key counted
  | del code => exact tracks.del counted
  | clear => exact tracks.clear

theorem report_shows_recent (calls : List Call)
    (counted : Runs.EveryStep (fun earlier call => (KeyRing.run earlier).Counted call) calls) (n : Nat) :
    (KeyRing.run (calls.take n)).Shows (recentKeys (calls.take n)) := by
  have tracks := tracks_run (calls.take n) (counted.take n)
  exact ⟨tracks.shown.nodup_iff.mpr tracks.nodup, fun code => tracks.shown.mem_iff⟩

/-- Seven keys, of which the first one is evicted, two are taken out, and one is added again. -/
def typing : List Call :=
  [.add 4 (by decide), .add 5 (by decide), .add 6 (by decide), .add 7 (by decide), .add 8 (by decide),
    .add 9 (by decide), .add 10 (by decide), .del 6, .del 10, .add 6 (by decide)]

theorem typing_shown : (KeyRing.run (typing.take 10)).Shows (recentKeys (typing.take 10)) :=
  report_shows_recent typing (by decide +kernel) 10

/-- A key is added and cleared 255 times.  Then the count of the next key is zero, and it cannot be taken out. -/
def addedAndCleared : List Call :=
  (List.replicate 255 [Call.add 4 (by decide), Call.clear]).flatten ++ [.add 4 (by decide), .del 4]

theorem deleted_key_stays : ¬ (KeyRing.run addedAndCleared).Shows (recentKeys addedAndCleared) := by
  intro shows
  have stays : (KeyRing.run addedAndCleared).reported = [4] := by decide +kernel
  have deleted : recentKeys addedAndCleared = [] := by decide +kernel
  have exact := shows.exact 4
  rw [stays, deleted] at exact
  exact absurd (exact.mp (List.mem_singleton_self 4)) List.not_mem_nil

end QmkFirmware.Report
