import Mathlib.Data.List.Basic

/-! # Transducers

A machine that reads its input from left to right and puts out a list for each item.
-/

namespace QmkFirmware.Transducer

variable {σ ι ω : Type} (step : σ → ι → σ × List ω)

def run : σ → List ι → σ × List ω
  | s, [] => (s, [])
  | s, input :: inputs =>
    let (s, now) := step s input
    let (s, later) := run s inputs
    (s, now ++ later)

variable {step} {s : σ} {ready : σ → Prop}

@[simp] theorem run_nil : run step s [] = (s, []) := rfl

theorem run_cons (input : ι) (inputs : List ι) :
    run step s (input :: inputs) =
      ((run step (step s input).1 inputs).1, (step s input).2 ++ (run step (step s input).1 inputs).2) := rfl

theorem run_append (inputs more : List ι) :
    run step s (inputs ++ more) =
      ((run step (run step s inputs).1 more).1, (run step s inputs).2 ++ (run step (run step s inputs).1 more).2) := by
  induction inputs generalizing s with
  | nil => rfl
  | cons input inputs ih =>
    rw [List.cons_append, run_cons, run_cons, ih, List.append_assoc]

/-- A step that puts out this, and is ready for the next input. -/
structure Gives (step : σ → ι → σ × List ω) (ready : σ → Prop) (inputs : List ι) (outputs : List ω) (s : σ) : Prop where
  ready : ready (run step s inputs).1
  outputs : (run step s inputs).2 = outputs

theorem gives_cons {input : ι} {inputs : List ι} {next : σ} {now later : List ω} (first : step s input = (next, now))
    (rest : Gives step ready inputs later next) : Gives step ready (input :: inputs) (now ++ later) s := by
  constructor
  · rw [run_cons, first]
    exact rest.ready
  · rw [run_cons, first, ← rest.outputs]

theorem Gives.append {inputs more : List ι} {outputs further : List ω} (first : Gives step ready inputs outputs s)
    (second : ∀ s, ready s → Gives step ready more further s) :
    Gives step ready (inputs ++ more) (outputs ++ further) s := by
  have next := second _ first.ready
  constructor
  · rw [run_append]
    exact next.ready
  · rw [run_append, first.outputs, next.outputs]

/-- Blocks of input that are answered one by one are answered in a row. -/
theorem gives_flatMap {κ : Type} {block : κ → List ι} {reply : κ → List ω} {items : List κ}
    (each : ∀ item ∈ items, ∀ s, ready s → Gives step ready (block item) (reply item) s) (initial : ready s) :
    Gives step ready (items.flatMap block) (items.flatMap reply) s := by
  induction items generalizing s with
  | nil => exact ⟨initial, rfl⟩
  | cons item items ih =>
    exact (each item List.mem_cons_self s initial).append fun s isReady =>
      ih (fun item member => each item (List.mem_cons_of_mem _ member)) isReady

/-- A machine that answers each input as another one answers a block. -/
theorem run_simulates {τ κ : Type} {inner : τ → κ → τ × List ω} {block : ι → List κ} {related : σ → τ → Prop}
    {inputs : List ι} {t : τ} (initial : related s t)
    (simulates : ∀ input ∈ inputs, ∀ s t, related s t →
      related (step s input).1 (run inner t (block input)).1 ∧ (step s input).2 = (run inner t (block input)).2) :
    related (run step s inputs).1 (run inner t (inputs.flatMap block)).1 ∧
      (run step s inputs).2 = (run inner t (inputs.flatMap block)).2 := by
  induction inputs generalizing s t with
  | nil => exact ⟨initial, rfl⟩
  | cons input inputs ih =>
    obtain ⟨next, now⟩ := simulates input List.mem_cons_self s t initial
    obtain ⟨last, later⟩ := ih next fun input member => simulates input (List.mem_cons_of_mem _ member)
    rw [run_cons, List.flatMap_cons, run_append]
    exact ⟨last, congrArg₂ (· ++ ·) now later⟩

/-- Only some of what is put out is looked at. -/
theorem run_filterMap {υ : Type} (look : ω → Option υ) (inputs : List ι) :
    run (fun s input => ((step s input).1, (step s input).2.filterMap look)) s inputs =
      ((run step s inputs).1, (run step s inputs).2.filterMap look) := by
  induction inputs generalizing s with
  | nil => rfl
  | cons input inputs ih => rw [run_cons, run_cons, ih, List.filterMap_append]

/-! ## Inputs that leave the state as it is -/

/-- What is put out for each of the inputs. -/
def replies (step : σ → ι → σ × List ω) : σ → List ι → List (ι × List ω)
  | _, [] => []
  | s, input :: inputs => (input, (step s input).2) :: replies step (step s input).1 inputs

theorem run_snd_eq_flatMap (inputs : List ι) : (run step s inputs).2 = (replies step s inputs).flatMap Prod.snd := by
  induction inputs generalizing s with
  | nil => rfl
  | cons input inputs ih => rw [run_cons, ih, replies, List.flatMap_cons]

theorem map_fst_replies (inputs : List ι) : (replies step s inputs).map Prod.fst = inputs := by
  induction inputs generalizing s with
  | nil => rfl
  | cons input inputs ih => rw [replies, List.map_cons, ih]

theorem exists_of_mem_replies {inputs : List ι} {reply : ι × List ω} (initial : ready s)
    (keeps : ∀ s input, ready s → ready (step s input).1) (member : reply ∈ replies step s inputs) :
    ∃ t, ready t ∧ reply.2 = (step t reply.1).2 := by
  induction inputs generalizing s with
  | nil => exact absurd member (by simp [replies])
  | cons input inputs ih =>
    rcases List.mem_cons.mp member with rfl | later
    · exact ⟨s, initial, rfl⟩
    · exact ih (keeps s input initial) later

/-- Without the inputs that leave the state as it is, the others are answered as before. -/
theorem replies_filter {passing : ι → Bool} (passes : ∀ s input, passing input = false → (step s input).1 = s)
    (inputs : List ι) :
    (replies step s inputs).filter (fun reply => passing reply.1) = replies step s (inputs.filter passing) := by
  induction inputs generalizing s with
  | nil => rfl
  | cons input inputs ih =>
    by_cases stays : passing input = true
    · rw [replies, List.filter_cons_of_pos (by exact stays), @List.filter_cons_of_pos _ passing _ _ stays, replies, ih]
    · rw [replies, List.filter_cons_of_neg (by exact stays), @List.filter_cons_of_neg _ passing _ _ stays, ih,
        passes s input (by simpa using stays)]

/-- Keeping some of what the items give is keeping some of the items. -/
theorem filter_flatMap_eq {κ ν : Type} {give : κ → List ν} {wanted : ν → Bool} {items : List κ} (keep : κ → Bool)
    (kept : ∀ item ∈ items, keep item = true → ∀ given ∈ give item, wanted given = true)
    (dropped : ∀ item ∈ items, keep item = false → ∀ given ∈ give item, wanted given = false) :
    (items.flatMap give).filter wanted = (items.filter keep).flatMap give := by
  induction items with
  | nil => rfl
  | cons item items ih =>
    have rest := ih (fun other member => kept other (List.mem_cons_of_mem _ member))
      (fun other member => dropped other (List.mem_cons_of_mem _ member))
    rw [List.flatMap_cons, List.filter_append, rest]
    by_cases isKept : keep item = true
    · rw [List.filter_cons_of_pos isKept, List.flatMap_cons,
        List.filter_eq_self.mpr (kept item List.mem_cons_self isKept)]
    · have none : (give item).filter wanted = [] := by
        refine List.filter_eq_nil_iff.mpr fun given member => ?_
        simp [dropped item List.mem_cons_self (by simpa using isKept) given member]
      rw [List.filter_cons_of_neg isKept, none, List.nil_append]

end QmkFirmware.Transducer
