import Mathlib.Data.Option.Basic

/-! # Runs with fuel

A loop that may not end is a function of its fuel, which gives `none` as long as the fuel does not
do.  Such a run is stable: once it has ended, more fuel gives the same result.  The rules follow the
body of a loop, which is compared with itself for one more unit of fuel.
-/

namespace QmkFirmware

variable {α β : Type}

/-- A result of the one is the result of the other. -/
def Extends (short long : Option α) : Prop := ∀ result, short = some result → long = some result

namespace Extends

theorem refl (run : Option α) : Extends run run := fun _ found => found

theorem none (long : Option α) : Extends .none long := fun _ found => nomatch found

theorem bind {short long : Option α} {next next' : α → Option β} (first : Extends short long)
    (later : ∀ result, Extends (next result) (next' result)) : Extends (short.bind next) (long.bind next') := by
  intro result found
  obtain ⟨mid, ran, found⟩ := Option.bind_eq_some_iff.mp found
  exact Option.bind_eq_some_iff.mpr ⟨mid, first mid ran, later mid result found⟩

theorem ite (condition : Prop) [Decidable condition] {short long short' long' : Option α}
    (yes : Extends short long) (no : Extends short' long') :
    Extends (if condition then short else short') (if condition then long else long') := by
  split
  · exact yes
  · exact no

end Extends

def Stable (run : Nat → Option α) : Prop := ∀ fuel, Extends (run fuel) (run (fuel + 1))

namespace Stable

variable {run : Nat → Option α}

theorem le (stable : Stable run) {fuel more : Nat} {result : α} (enough : fuel ≤ more)
    (found : run fuel = some result) : run more = some result := by
  induction enough with
  | refl => exact found
  | step _ ih => exact stable _ _ ih

theorem unique (stable : Stable run) {fuel other : Nat} {result result' : α} (found : run fuel = some result)
    (found' : run other = some result') : result = result' := by
  have left := stable.le (Nat.le_max_left fuel other) found
  have right := stable.le (Nat.le_max_right fuel other) found'
  exact Option.some.inj (left.symm.trans right)

end Stable

end QmkFirmware
