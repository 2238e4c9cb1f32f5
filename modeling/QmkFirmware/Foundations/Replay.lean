import Mathlib.Data.List.Basic

/-! # Replays

A sequence of items that open and close something is replayed when every item comes
out once and in order, except that an item which closes may come out again and again
as long as the last item that came out in its turn is one that opens.
-/

namespace QmkFirmware.Replay

variable {α : Type} {opens : α → Bool}

inductive Replayed (opens : α → Bool) : List α → List α → Prop where
  | nil : Replayed opens [] []
  | next {items out : List α} (item : α) (replayed : Replayed opens items out) :
      Replayed opens (items ++ [item]) (out ++ [item])
  | again {items out : List α} (item last : α) (replayed : Replayed opens items out)
      (closes : opens item = false) (opened : items.getLast? = some last)
      (isOpen : opens last = true) : Replayed opens items (out ++ [item])

theorem Replayed.append {items out : List α} (replayed : Replayed opens items out)
    (rest : List α) : Replayed opens (items ++ rest) (out ++ rest) := by
  induction rest generalizing items out with
  | nil => simpa using replayed
  | cons item rest ih => simpa using ih (replayed.next item)

theorem Replayed.repeat {items out : List α} {last : α} (replayed : Replayed opens items out)
    (opened : items.getLast? = some last) (isOpen : opens last = true) (extra : List α)
    (closes : ∀ item ∈ extra, opens item = false) : Replayed opens items (out ++ extra) := by
  induction extra generalizing out with
  | nil => simpa using replayed
  | cons item extra ih =>
    rw [List.forall_mem_cons] at closes
    simpa using ih (replayed.again item last closes.1 opened isOpen) closes.2

/-- Every item that opens comes out exactly once. -/
theorem Replayed.filter_opens {items out : List α} (replayed : Replayed opens items out) :
    out.filter opens = items.filter opens := by
  induction replayed with
  | nil => rfl
  | next item replayed ih => rw [List.filter_append, List.filter_append, ih]
  | again item last replayed closes opened isOpen ih =>
    rw [List.filter_append, ih, List.filter_singleton, closes]
    exact List.append_nil _

/-- Every item comes out at least once, and in order. -/
theorem Replayed.sublist {items out : List α} (replayed : Replayed opens items out) :
    items.Sublist out := by
  induction replayed with
  | nil => exact .slnil
  | next item replayed ih => exact ih.append (List.Sublist.refl _)
  | again item last replayed closes opened isOpen ih =>
    exact ih.trans (List.sublist_append_left _ _)

theorem Replayed.head? {items out : List α} (replayed : Replayed opens items out) :
    out.head? = items.head? := by
  induction replayed with
  | nil => rfl
  | next item replayed ih => rw [List.head?_append, List.head?_append, ih]
  | @again items out item last replayed closes opened isOpen ih =>
    rw [List.head?_append, ih]
    cases items with
    | nil => cases opened
    | cons first items => rfl

/-- If the first item opens, nothing closes before it. -/
theorem Replayed.opens_before {items out : List α} (replayed : Replayed opens items out)
    (first : ∀ item, items.head? = some item → opens item = true) {front back : List α} {item : α}
    (split : out = front ++ item :: back) (closes : opens item = false) :
    ∃ earlier ∈ front, opens earlier = true := by
  rw [← replayed.head?, split] at first
  cases front with
  | nil =>
    rw [first item rfl] at closes
    cases closes
  | cons earlier front => exact ⟨earlier, List.mem_cons_self, first earlier rfl⟩

end QmkFirmware.Replay
