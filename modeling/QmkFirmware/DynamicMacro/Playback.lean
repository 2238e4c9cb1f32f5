import QmkFirmware.DynamicMacro.Slots
import Mathlib.Data.Finset.Lattice.Fold
import Mathlib.Data.Finset.Range
import Mathlib.Data.Fintype.List

/-! # Nested playback

A macro may hold the play keys of both slots, so that playing one can start another while it waits for
`process_record`.  A replay has finitely many records left, so that only replays nested ever deeper go on for ever.
-/

namespace QmkFirmware.DynamicMacro

/-! ## Accesses stay inside the buffer -/

section Inside

variable (config : Config)

/-- A replay whose element and whose last element are in the buffer. -/
structure Frame.Inside (frame : Frame) : Prop where
  element : InBuffer config frame.macroBuffer
  last : InBuffer config (frame.macroEnd - frame.slot.direction)
  more : 0 < frame.slot.direction * (frame.macroEnd - frame.macroBuffer)

/-- Where the pointer may be while a slot is recorded: not past the other slot. -/
def PointerInside (s : State) : Slot → Int → Prop
  | .first, macroPointer => 0 ≤ macroPointer ∧ macroPointer ≤ s.rMacroEnd + 1
  | .second, macroPointer => s.macroEnd - 1 ≤ macroPointer ∧ macroPointer ≤ config.size - 1

structure Inside (s : State) : Prop where
  first : 0 ≤ s.macroEnd
  between : s.macroEnd ≤ s.rMacroEnd + 1
  second : s.rMacroEnd ≤ config.size - 1
  pointer : ∀ slot, s.macroId = some slot → ∃ macroPointer, s.macroPointer = some macroPointer ∧
    PointerInside config s slot macroPointer
  frames : ∀ frame ∈ s.frames, frame.Inside config

variable {config} {s : State}

/-- The number of records that a replay has left, with the one that it waits for. -/
def Frame.remaining (frame : Frame) : Nat := (frame.slot.direction * (frame.macroEnd - frame.macroBuffer)).toNat

def AtMostOneMore (frames after : List Frame) : Prop := after = frames ∨ ∃ frame, after = frame :: frames

/-- What a step leaves of the frames: an event adds one at most, and the replay that goes on is the last one. -/
def FramesAfter (frames : List Frame) : Input → List Frame → Prop
  | .event .., after => AtMostOneMore frames after
  | .written _, after => after = frames
  | .returned, after =>
    match frames with
    | [] => after = []
    | frame :: frames => after = frames ∨ ∃ later, after = later :: frames ∧ later.remaining + 1 = frame.remaining

theorem Inside.emit (inside : Inside config s) (output : Output) : Inside config (s.emit output) :=
  ⟨inside.first, inside.between, inside.second, inside.pointer, inside.frames⟩

theorem load_inside {index : Int} (inside : InBuffer config index) : load config s index = some (s.buffer index) :=
  if_pos inside

/-- A replay ends, or waits for the `process_record` of its next record. -/
theorem playOn_inside (inside : Inside config s) (frame : Frame)
    (next : frame.macroBuffer = frame.macroEnd ∨ frame.Inside config) :
    ∃ after, playOn config frame s = some after ∧ Inside config after ∧
      (after.frames = s.frames ∨ after.frames = frame :: s.frames ∧ frame.Inside config) := by
  unfold playOn
  by_cases ended : frame.macroBuffer = frame.macroEnd
  · rw [if_pos ended]
    exact ⟨_, rfl, (inside.emit _).emit _, .inl rfl⟩
  · have more := next.resolve_left ended
    rw [if_neg ended, load_inside more.element]
    refine ⟨_, rfl, ⟨inside.first, inside.between, inside.second, inside.pointer, ?_⟩, .inr ⟨rfl, more⟩⟩
    intro other member
    obtain rfl | member := List.mem_cons.mp member
    · exact more
    · exact inside.frames other member

theorem replay_inside (inside : Inside config s) {slot : Slot} (some : start config slot ≠ s.endOf slot)
    (layerState : BitVec 32) : (Frame.mk (start config slot) (s.endOf slot) slot layerState).Inside config := by
  have first := inside.first
  have between := inside.between
  have second := inside.second
  cases slot <;> simp only [start, State.endOf] at some <;>
    refine ⟨⟨?_, ?_⟩, ⟨?_, ?_⟩, ?_⟩ <;> simp only [start, State.endOf, Slot.direction] <;> omega

theorem dynamicMacroPlay_inside (inside : Inside config s) (slot : Slot) (layerState : BitVec 32) :
    ∃ after, dynamicMacroPlay config (start config slot) (s.endOf slot) slot layerState s = some after ∧
      Inside config after ∧ AtMostOneMore s.frames after.frames := by
  obtain ⟨after, played, sound, frames⟩ := playOn_inside (inside.emit (.playStart slot))
    ⟨start config slot, s.endOf slot, slot, layerState⟩
    (or_iff_not_imp_left.mpr fun some => replay_inside inside some layerState)
  refine ⟨after, played, sound, ?_⟩
  obtain same | ⟨one, -⟩ := frames
  · exact .inl same
  · exact .inr ⟨_, one⟩

theorem trimPresses_inside {slot : Slot} {fuel : Nat} {macroPointer : Int}
    (enough : slot.direction * (macroPointer - start config slot) < fuel)
    (least : 0 ≤ slot.direction * (macroPointer - start config slot))
    (most : slot.direction * (macroPointer - start config slot) ≤ config.size) :
    ∃ trimmed, trimPresses config (start config slot) slot s fuel macroPointer = some trimmed ∧
      0 ≤ slot.direction * (trimmed - start config slot) ∧
      slot.direction * (trimmed - start config slot) ≤ slot.direction * (macroPointer - start config slot) := by
  induction fuel generalizing macroPointer with
  | zero => omega
  | succ fuel ih =>
    unfold trimPresses
    by_cases ended : macroPointer = start config slot
    · rw [if_pos ended]
      exact ⟨_, rfl, least, Int.le_refl _⟩
    · have element : InBuffer config (macroPointer - slot.direction) := by
        unfold InBuffer
        cases slot <;> simp only [Slot.direction, start] at * <;> omega
      rw [if_neg ended, load_inside element]
      dsimp only [Option.bind_eq_bind, Option.bind_some]
      split
      next pressed =>
        obtain ⟨trimmed, found, lower, upper⟩ := @ih (macroPointer - slot.direction)
          (by cases slot <;> simp only [Slot.direction, start] at * <;> omega)
          (by cases slot <;> simp only [Slot.direction, start] at * <;> omega)
          (by cases slot <;> simp only [Slot.direction, start] at * <;> omega)
        refine ⟨trimmed, found, lower, ?_⟩
        cases slot <;> simp only [Slot.direction, start] at * <;> omega
      next released => exact ⟨_, rfl, least, Int.le_refl _⟩

/-- The end of a recording is between the start of its slot and the pointer. -/
theorem dynamicMacroRecordEnd_inside (inside : Inside config s) {slot : Slot} (recording : s.macroId = some slot) :
    ∃ macroEnd macroPointer, dynamicMacroRecordEnd config (start config slot) slot s = some macroEnd ∧
      PointerInside config s slot macroPointer ∧ 0 ≤ slot.direction * (macroEnd - start config slot) ∧
      slot.direction * (macroEnd - start config slot) ≤ slot.direction * (macroPointer - start config slot) := by
  have first := inside.first
  have between := inside.between
  have second := inside.second
  obtain ⟨macroPointer, pointer, within⟩ := inside.pointer slot recording
  have range : 0 ≤ slot.direction * (macroPointer - start config slot) ∧
      slot.direction * (macroPointer - start config slot) ≤ config.size := by
    cases slot <;> simp only [Slot.direction, start, PointerInside] at * <;> omega
  obtain ⟨trimmed, found, lower, upper⟩ := @trimPresses_inside config s slot (config.size + 1) macroPointer (by omega)
    range.1 range.2
  refine ⟨trimmed, macroPointer, ?_, within, lower, upper⟩
  rw [dynamicMacroRecordEnd, pointer]
  exact found

theorem dynamicMacroStopRecording_inside (inside : Inside config s) :
    ∃ after, dynamicMacroStopRecording config s = some after ∧ Inside config after ∧ after.frames = s.frames := by
  have first := inside.first
  have second := inside.second
  unfold dynamicMacroStopRecording
  cases recording : s.macroId with
  | none => exact ⟨s, rfl, inside, rfl⟩
  | some slot =>
    obtain ⟨macroEnd, macroPointer, ended, within, lower, upper⟩ := dynamicMacroRecordEnd_inside inside recording
    cases slot with
    | first =>
      obtain ⟨least, most⟩ := within
      simp only [Slot.direction, start] at lower upper
      simp only [ended, Option.bind_eq_bind, Option.bind_some]
      exact ⟨_, rfl, ⟨by dsimp only; omega, by show macroEnd ≤ s.rMacroEnd + 1; omega, second,
        fun _ none => absurd none (Option.some_ne_none _).symm, inside.frames⟩, rfl⟩
    | second =>
      obtain ⟨least, most⟩ := within
      simp only [Slot.direction, start] at lower upper
      simp only [ended, Option.bind_eq_bind, Option.bind_some]
      exact ⟨_, rfl, ⟨first, by show s.macroEnd ≤ macroEnd + 1; omega, by dsimp only; omega,
        fun _ none => absurd none (Option.some_ne_none _).symm, inside.frames⟩, rfl⟩

/-- Recording a key leaves the pointer beside the other slot. -/
theorem dynamicMacroRecordKey_inside (inside : Inside config s) {slot : Slot} (recording : s.macroId = some slot)
    (record : KeyRecord) :
    ∃ after, dynamicMacroRecordKey config (start config slot) (s.endOf slot.other) slot record s = some after ∧
      Inside config after ∧ after.frames = s.frames := by
  have first := inside.first
  have between := inside.between
  have second := inside.second
  obtain ⟨macroPointer, pointer, within⟩ := inside.pointer slot recording
  simp only [dynamicMacroRecordKey, pointer, Option.bind_eq_bind, Option.bind_some]
  split
  next => exact ⟨s, rfl, inside, rfl⟩
  next =>
    split
    next room =>
      have element : InBuffer config macroPointer := by
        unfold InBuffer
        cases slot <;> simp only [Slot.direction, Slot.other, State.endOf, PointerInside] at * <;> omega
      rw [store, if_pos element]
      refine ⟨_, rfl, ⟨first, between, second, ?_, inside.frames⟩, rfl⟩
      intro other same
      obtain rfl : slot = other := Option.some.inj (recording.symm.trans same)
      refine ⟨_, rfl, ?_⟩
      cases slot <;> simp only [Slot.direction, Slot.other, State.endOf, PointerInside] at * <;> omega
    next full => exact ⟨_, rfl, inside.emit _, rfl⟩

theorem processRecording_inside (inside : Inside config s) {slot : Slot} (recording : s.macroId = some slot)
    (keycode : Keycode) (record : KeyRecord) :
    ∃ after, processRecording config slot keycode record s = some after ∧ Inside config after ∧
      after.frames = s.frames := by
  unfold processRecording
  split
  next =>
    split
    next =>
      obtain ⟨after, stopped, sound, frames⟩ := dynamicMacroStopRecording_inside inside
      rw [stopped]
      exact ⟨_, rfl, sound.emit _, frames⟩
    next => exact ⟨_, rfl, inside.emit _, rfl⟩
  next =>
    split
    next => exact ⟨_, rfl, inside.emit _, rfl⟩
    next =>
      split
      next =>
        obtain ⟨after, recorded, sound, frames⟩ := dynamicMacroRecordKey_inside inside recording record
        cases slot <;> simp only [Slot.other, State.endOf] at recorded <;> simp only [recorded, Option.bind_eq_bind] <;>
          exact ⟨_, rfl, sound.emit _, frames⟩
      next => exact ⟨_, rfl, inside.emit _, rfl⟩

/-- The pointer of a recording that starts is at the start of its slot. -/
theorem startRecording_inside (inside : Inside config s) (slot : Slot) (output : Output) :
    Inside config ({ dynamicMacroRecordStart (start config slot) slot s with macroId := some slot }.emit output) := by
  have first := inside.first
  have between := inside.between
  have second := inside.second
  refine ⟨first, between, second, ?_, inside.frames⟩
  intro other same
  obtain rfl : slot = other := Option.some.inj same
  refine ⟨_, rfl, ?_⟩
  cases slot
  · exact ⟨Int.le_refl _, show (0 : Int) ≤ s.rMacroEnd + 1 by omega⟩
  · exact ⟨show s.macroEnd - 1 ≤ config.size - 1 by omega, Int.le_refl _⟩

theorem processDynamicMacro_inside (inside : Inside config s) (keycode : Keycode) (record : KeyRecord)
    (layerState : BitVec 32) :
    ∃ after, processDynamicMacro config keycode record layerState s = some after ∧ Inside config after ∧
      AtMostOneMore s.frames after.frames := by
  unfold processDynamicMacro
  cases recording : s.macroId with
  | some slot =>
    obtain ⟨after, processed, sound, frames⟩ := processRecording_inside inside recording keycode record
    exact ⟨after, processed, sound, .inl frames⟩
  | none =>
    dsimp only
    split_ifs
    · exact ⟨_, rfl, inside.emit _, .inl rfl⟩
    · exact ⟨_, rfl, startRecording_inside inside .first _, .inl rfl⟩
    · exact ⟨_, rfl, startRecording_inside inside .second _, .inl rfl⟩
    · exact dynamicMacroPlay_inside inside .first layerState
    · exact dynamicMacroPlay_inside inside .second layerState
    · exact ⟨_, rfl, inside.emit _, .inl rfl⟩

theorem returned_inside (inside : Inside config s) :
    ∃ after, step config s .returned = some after ∧ Inside config after ∧ FramesAfter s.frames .returned after.frames := by
  unfold step FramesAfter
  cases all : s.frames with
  | nil => exact ⟨s, rfl, inside, all⟩
  | cons frame frames =>
    have now := inside.frames frame (by rw [all]; exact List.mem_cons_self)
    have others : Inside config { s with frames := frames } :=
      ⟨inside.first, inside.between, inside.second, inside.pointer, fun other member =>
        inside.frames other (by rw [all]; exact List.mem_cons_of_mem _ member)⟩
    obtain ⟨⟨least, most⟩, ⟨least', most'⟩, more⟩ := now
    obtain ⟨after, played, sound, left⟩ := playOn_inside others
      { frame with macroBuffer := frame.macroBuffer + frame.slot.direction } (by
        rw [or_iff_not_imp_left]
        intro going
        cases slot : frame.slot <;> simp only [slot, Slot.direction] at * <;>
          refine ⟨⟨?_, ?_⟩, ⟨?_, ?_⟩, ?_⟩ <;> simp only [Slot.direction] <;> omega)
    refine ⟨after, played, sound, ?_⟩
    obtain same | ⟨one, later⟩ := left
    · exact .inl same
    · refine .inr ⟨_, one, ?_⟩
      have left := later.more
      unfold Frame.remaining
      cases slot : frame.slot <;> simp only [slot, Slot.direction] at * <;> omega

/-- No step leaves the buffer. -/
theorem step_inside (inside : Inside config s) (input : Input) :
    ∃ after, step config s input = some after ∧ Inside config after ∧ FramesAfter s.frames input after.frames := by
  cases input with
  | event keycode record layerState => exact processDynamicMacro_inside inside keycode record layerState
  | returned => exact returned_inside inside
  | written record =>
    unfold step
    cases all : s.frames with
    | nil => exact ⟨s, rfl, inside, all⟩
    | cons frame frames =>
      have now := inside.frames frame (by rw [all]; exact List.mem_cons_self)
      dsimp only
      rw [store, if_pos now.element]
      exact ⟨_, rfl, ⟨inside.first, inside.between, inside.second, inside.pointer, inside.frames⟩, all⟩

theorem initial_inside (config : Config) : Inside config (initial config) := by
  refine ⟨Int.le_refl 0, ?_, Int.le_refl _, fun _ none => absurd none (Option.some_ne_none _).symm, List.forall_mem_nil _⟩
  show (0 : Int) ≤ config.size - 1 + 1
  omega

end Inside

/-! ## The firmware around a replay -/

/-- A state whose accesses stay inside the buffer. -/
abbrev Sound (config : Config) : Type := { s : State // Inside config s }

namespace Sound

variable {config : Config}

def step (s : Sound config) (input : Input) : Sound config :=
  ⟨(DynamicMacro.step config s.1 input).get (by
      obtain ⟨after, stepped, -⟩ := step_inside s.2 input
      rw [stepped]
      rfl), by
    obtain ⟨after, stepped, sound, -⟩ := step_inside s.2 input
    simpa only [stepped, Option.get_some] using sound⟩

theorem step_eq (s : Sound config) (input : Input) : DynamicMacro.step config s.1 input = some (s.step input).1 :=
  (Option.some_get _).symm

theorem frames_step (s : Sound config) (input : Input) : FramesAfter s.1.frames input (s.step input).1.frames := by
  obtain ⟨after, stepped, -, frames⟩ := step_inside s.2 input
  rw [step_eq, Option.some.injEq] at stepped
  rw [stepped]
  exact frames

def run (config : Config) (inputs : List Input) : Sound config := inputs.foldl step ⟨initial config, initial_inside config⟩

/-- Every run stays inside the buffer. -/
theorem run_eq (inputs : List Input) : DynamicMacro.run config inputs = some (run config inputs).1 := by
  induction inputs using List.reverseRecOn with
  | nil => rfl
  | append_singleton inputs input ih =>
    have last : DynamicMacro.run config (inputs ++ [input]) =
        (DynamicMacro.run config inputs).bind fun s => DynamicMacro.step config s input := by
      simp [DynamicMacro.run, List.foldlM_append]
    rw [last, ih]
    simp only [run, List.foldl_append]
    exact step_eq _ _

end Sound

/-- What `process_record` does with a record, apart from replays: the key events that come to `process_dynamic_macro`
in it, and the writes through its pointer. -/
inductive Work where
  | event (keycode : Keycode) (record : KeyRecord) (layerState : BitVec 32)
  | written (record : KeyRecord)

def Work.input : Work → Input
  | .event keycode record layerState => .event keycode record layerState
  | .written record => .written record

/-- The rest of the firmware.  It knows what has happened, and for each record of a replay it has finitely many things
to do. -/
structure Firmware (ρ : Type) where
  react : ρ → Input → State → ρ
  work : ρ → State → List Work

/-- A replay and those that wait for it, with what is left to do in each `process_record`. -/
structure Playing (config : Config) (ρ : Type) where
  sound : Sound config
  rest : ρ
  pending : List (List Work)

section Playing

variable {config : Config} {ρ : Type} (firmware : Firmware ρ)

namespace Playing

/-- A step, and what is to do for the record if it has replayed one. -/
def feed (input : Input) (pending : List (List Work)) (p : Playing config ρ) : Playing config ρ :=
  let sound := p.sound.step input
  let rest := firmware.react p.rest input sound.1
  ⟨sound, rest, if pending.length < sound.1.frames.length then firmware.work rest sound.1 :: pending else pending⟩

/-- Goes on with the last `process_record`, which returns when nothing is left to do. -/
def advance (p : Playing config ρ) : Playing config ρ :=
  match p.pending with
  | [] => p
  | [] :: others => p.feed firmware .returned others
  | (work :: left) :: others => p.feed firmware work.input (left :: others)

/-- The play key of a slot is released. -/
def playKey (slot : Slot) (record : KeyRecord) (layerState : BitVec 32) : Input :=
  .event (match slot with | .first => qkPlay1 | .second => qkPlay2) { record with event.pressed := false } layerState

def replay (slot : Slot) (record : KeyRecord) (layerState : BitVec 32) (sound : Sound config) (rest : ρ) :
    Playing config ρ :=
  feed firmware (playKey slot record layerState) [] ⟨sound, rest, []⟩

/-- All calls of `process_record` return. -/
def Ends (p : Playing config ρ) : Prop := ∃ n, ((advance firmware)^[n] p).pending = []

/-- Replays are not nested deeper than a bound. -/
def Bounded (p : Playing config ρ) : Prop := ∃ bound, ∀ n, ((advance firmware)^[n] p).pending.length ≤ bound

/-- No slot is replayed while it is being replayed. -/
def Plain (p : Playing config ρ) : Prop := ∀ n, (((advance firmware)^[n] p).sound.1.frames.map Frame.slot).Nodup

/-- For each replay there is what is left to do in its `process_record`. -/
def Matched (p : Playing config ρ) : Prop := p.pending.length = p.sound.1.frames.length

variable {firmware} {p : Playing config ρ}

theorem advance_iterate_of_done (done : p.pending = []) (n : Nat) : ((advance firmware)^[n] p).pending = [] := by
  induction n with
  | zero => exact done
  | succ n ih =>
    rw [Function.iterate_succ_apply', advance, ih]
    exact ih

theorem work_frames (work : Work) (sound : Sound config) : AtMostOneMore sound.1.frames (sound.step work.input).1.frames := by
  have frames := sound.frames_step work.input
  cases work with
  | event keycode record layerState => exact frames
  | written record => exact .inl frames

/-- What a record needs is done, or another replay starts in it. -/
theorem advance_work {work : Work} {left : List Work} {others : List (List Work)}
    (pending : p.pending = (work :: left) :: others) (matched : p.Matched) :
    (p.advance firmware).Matched ∧
      ((p.advance firmware).sound.1.frames = p.sound.1.frames ∧ (p.advance firmware).pending = left :: others ∨
        ∃ frame more, (p.advance firmware).sound.1.frames = frame :: p.sound.1.frames ∧
          (p.advance firmware).pending = more :: left :: others) := by
  have length : (left :: others).length = p.sound.1.frames.length := by
    rw [← matched, pending]
    rfl
  unfold Matched
  simp only [advance, pending, feed]
  obtain same | ⟨frame, one⟩ := work_frames work p.sound
  · rw [same, if_neg (by omega)]
    exact ⟨length, .inl ⟨rfl, rfl⟩⟩
  · rw [one, if_pos (by simp only [List.length_cons] at length ⊢; omega)]
    exact ⟨by rw [List.length_cons, length]; rfl, .inr ⟨frame, _, rfl, rfl⟩⟩

/-- When `process_record` returns, the replay goes on with its next record, or ends. -/
theorem advance_returned {frame : Frame} {frames : List Frame} {others : List (List Work)}
    (pending : p.pending = [] :: others) (playing : p.sound.1.frames = frame :: frames) (matched : p.Matched) :
    (p.advance firmware).Matched ∧
      ((p.advance firmware).sound.1.frames = frames ∧ (p.advance firmware).pending = others ∨
        ∃ later more, (p.advance firmware).sound.1.frames = later :: frames ∧ later.remaining + 1 = frame.remaining ∧
          (p.advance firmware).pending = more :: others) := by
  have length : others.length = frames.length := by
    have both := matched
    rw [Matched, pending, playing] at both
    exact Nat.succ.inj both
  unfold Matched
  simp only [advance, pending, feed]
  have after := p.sound.frames_step .returned
  rw [playing] at after
  obtain same | ⟨later, one, fewer⟩ := after
  · rw [same, if_neg (by omega)]
    exact ⟨length, .inl ⟨rfl, rfl⟩⟩
  · rw [one, if_pos (by rw [List.length_cons]; omega)]
    exact ⟨by rw [List.length_cons, length]; rfl, .inr ⟨later, _, rfl, fewer, rfl⟩⟩

/-- The replay that a state waits for has ended, and those below it go on. -/
def ReturnsTo (firmware : Firmware ρ) (p : Playing config ρ) (frames : List Frame) (others : List (List Work)) : Prop :=
  ∃ n, ((advance firmware)^[n] p).sound.1.frames = frames ∧ ((advance firmware)^[n] p).pending = others ∧
    ((advance firmware)^[n] p).Matched

theorem ReturnsTo.trans {frames : List Frame} {others : List (List Work)} {n : Nat}
    (returns : ReturnsTo firmware ((advance firmware)^[n] p) frames others) : ReturnsTo firmware p frames others := by
  obtain ⟨k, reached⟩ := returns
  exact ⟨k + n, by rwa [Function.iterate_add_apply]⟩

theorem bounded_later {bound : Nat} (bounded : ∀ n, ((advance firmware)^[n] p).pending.length ≤ bound) (k n : Nat) :
    ((advance firmware)^[n] ((advance firmware)^[k] p)).pending.length ≤ bound := by
  rw [← Function.iterate_add_apply]
  exact bounded (n + k)

/-- A replay returns if those in it are nested at most so deep.  The induction is on the depth, then on the records that
the replay has left, and then on what is left to do for the one that it waits for. -/
theorem returns_of_depth {depth : Nat} {frame : Frame} {frames : List Frame} {left : List Work}
    {others : List (List Work)} (playing : p.sound.1.frames = frame :: frames) (pending : p.pending = left :: others)
    (matched : p.Matched) (bounded : ∀ n, ((advance firmware)^[n] p).pending.length ≤ others.length + depth) :
    ReturnsTo firmware p frames others := by
  induction depth generalizing p frame frames left others with
  | zero =>
    have now := bounded 0
    rw [Function.iterate_zero_apply, pending, List.length_cons] at now
    omega
  | succ depth deeper =>
    induction records : frame.remaining using Nat.strong_induction_on generalizing p frame left with
    | _ records goes_on =>
      induction left generalizing p with
      | nil =>
        obtain ⟨matched', ⟨ended, waiting⟩ | ⟨next, more, playing', fewer, pending'⟩⟩ :=
          @advance_returned _ _ firmware p _ _ _ pending playing matched
        · exact ⟨1, ended, waiting, matched'⟩
        · exact ReturnsTo.trans (n := 1)
            (goes_on next.remaining (by omega) playing' pending' matched' (bounded_later bounded 1) rfl)
      | cons work left finishes =>
        obtain ⟨matched', ⟨same, pending'⟩ | ⟨inner, more, playing', pending'⟩⟩ :=
          @advance_work _ _ firmware p _ _ _ pending matched
        · exact ReturnsTo.trans (n := 1) (finishes (same.trans playing) pending' matched' (bounded_later bounded 1))
        · -- the replay within it returns first
          rw [playing] at playing'
          have shallower : ∀ n, ((advance firmware)^[n] (p.advance firmware)).pending.length ≤
              (left :: others).length + depth := by
            intro n
            have below := bounded_later bounded 1 n
            rw [List.length_cons]
            exact Nat.le_trans below (by omega)
          obtain ⟨n, back, pending'', matched''⟩ := deeper playing' pending' matched' shallower
          have later := bounded_later bounded (n + 1)
          rw [Function.iterate_succ_apply] at later
          exact ReturnsTo.trans (n := 1) (ReturnsTo.trans (finishes back pending'' matched'' later))

theorem replay_matched (slot : Slot) (record : KeyRecord) (layerState : BitVec 32) {sound : Sound config}
    (idle : sound.1.frames = []) (rest : ρ) : (replay firmware slot record layerState sound rest).Matched ∧
      (replay firmware slot record layerState sound rest).pending.length ≤ 1 := by
  have frames := sound.frames_step (playKey slot record layerState)
  unfold Matched replay feed
  rw [idle] at frames
  obtain none | ⟨frame, one⟩ := frames
  · simp [none]
  · simp [one]

/-- A replay ends exactly if replays are not nested ever deeper. -/
theorem ends_iff_bounded (slot : Slot) (record : KeyRecord) (layerState : BitVec 32) {sound : Sound config}
    (idle : sound.1.frames = []) (rest : ρ) :
    Ends firmware (replay firmware slot record layerState sound rest) ↔
      Bounded firmware (replay firmware slot record layerState sound rest) := by
  obtain ⟨matched, one⟩ := @replay_matched config ρ firmware slot record layerState sound idle rest
  generalize replay firmware slot record layerState sound rest = p at matched one
  constructor
  · intro ended
    obtain ⟨n, done⟩ := ended
    obtain ⟨bound, before⟩ : ∃ bound, ∀ m < n, ((advance firmware)^[m] p).pending.length ≤ bound := by
      refine ⟨(Finset.range n).sup fun m => ((advance firmware)^[m] p).pending.length, fun m earlier => ?_⟩
      exact Finset.le_sup (f := fun m => ((advance firmware)^[m] p).pending.length) (Finset.mem_range.mpr earlier)
    refine ⟨bound, fun m => ?_⟩
    by_cases earlier : m < n
    · exact before m earlier
    · obtain ⟨more, rfl⟩ := Nat.exists_eq_add_of_le (Nat.le_of_not_lt earlier)
      rw [Nat.add_comm, Function.iterate_add_apply, advance_iterate_of_done done]
      exact Nat.zero_le _
  · intro bounded
    obtain ⟨bound, bounded⟩ := bounded
    cases pending : p.pending with
    | nil => exact ⟨0, pending⟩
    | cons left others =>
      rw [pending, List.length_cons] at one
      obtain rfl : others = [] := List.length_eq_zero_iff.mp (by omega)
      cases playing : p.sound.1.frames with
      | nil =>
        rw [Matched, pending, playing] at matched
        cases matched
      | cons frame frames =>
        obtain ⟨n, -, done, -⟩ := @returns_of_depth _ _ firmware p bound _ _ _ _ playing pending matched (by simpa using bounded)
        exact ⟨n, done⟩

theorem advance_matched (matched : p.Matched) : (p.advance firmware).Matched := by
  cases pending : p.pending with
  | nil => rwa [advance, pending]
  | cons left others =>
    cases left with
    | cons work left => exact (advance_work pending matched).1
    | nil =>
      cases playing : p.sound.1.frames with
      | nil =>
        rw [Matched, pending, playing] at matched
        cases matched
      | cons frame frames => exact (advance_returned pending playing matched).1

theorem iterate_matched (matched : p.Matched) (n : Nat) : ((advance firmware)^[n] p).Matched := by
  induction n with
  | zero => exact matched
  | succ n ih =>
    rw [Function.iterate_succ_apply']
    exact advance_matched ih

theorem length_le_two {slots : List Slot} (nodup : slots.Nodup) : slots.length ≤ 2 := by
  have all : slots ⊆ [.first, .second] := by
    intro slot _
    cases slot <;> simp
  exact (List.subperm_of_subset nodup all).length_le

/-- A replay that no slot is replayed in twice is nested in one other at most. -/
theorem Plain.bounded (matched : p.Matched) (plain : Plain firmware p) : Bounded firmware p := by
  refine ⟨2, fun n => ?_⟩
  have few := length_le_two (plain n)
  have same := @iterate_matched _ _ firmware _ matched n
  rw [List.length_map] at few
  rwa [same]

end Playing

theorem playback_ends_iff (inputs : List Input) (idle : (Sound.run config inputs).1.frames = []) (rest : ρ)
    (slot : Slot) (record : KeyRecord) (layerState : BitVec 32) :
    let p := Playing.replay firmware slot record layerState (Sound.run config inputs) rest
    (p.Ends firmware ↔ p.Bounded firmware) ∧ (p.Plain firmware → p.Ends firmware) := by
  have exact_iff := @Playing.ends_iff_bounded config ρ firmware slot record layerState _ idle rest
  refine ⟨exact_iff, fun plain => exact_iff.mpr ?_⟩
  exact plain.bounded (Playing.replay_matched slot record layerState idle rest).1

end Playing

/-! ## Macros of a keymap of one layer -/

def defaultConfig : Config where
  size := 128
  noNesting := false
  validKey _ _ := true

def playRecord : KeyRecord := ⟨⟨0, 3, 0, true⟩, false, 0⟩

/-- A keymap of one layer. -/
def keycodeOf (record : KeyRecord) : Keycode := if record.event.col = 3 then qkPlay1 else 4

/-- Each record is processed as the key that it is of, and nothing else happens. -/
def plainFirmware : Firmware Unit where
  react _ _ _ := ()
  work _ s :=
    match s.frames with
    | [] => []
    | frame :: _ => [.event (keycodeOf (s.buffer frame.macroBuffer)) (s.buffer frame.macroBuffer) 1]

theorem recorded_playback_ends_iff :
    let p := Playing.replay plainFirmware .first playRecord 1 (Sound.run eightRecords recordAndPlay) ()
    (p.Ends plainFirmware ↔ p.Bounded plainFirmware) ∧ (p.Plain plainFirmware → p.Ends plainFirmware) :=
  playback_ends_iff plainFirmware recordAndPlay (by rfl) () .first playRecord 1

/-- Records a key and the play key of the slot itself. -/
def recordSelf : List Input :=
  [.event qkRecordStart1 default 1, .event 4 keyA 1, .event qkPlay1 playRecord 1, .event qkPlay1 playRecord.released 1,
    .event qkRecordStop { (default : KeyRecord) with event.pressed := true } 1]

/-- The macro is in the first slot, and no other is recorded. -/
structure HoldsSelf (s : State) : Prop where
  idle : s.macroId = none
  macroEnd : s.macroEnd = 3
  key : s.buffer 0 = keyA
  pressed : s.buffer 1 = playRecord
  released : s.buffer 2 = playRecord.released

def selfWork (s : State) (k : Int) : List Work := [.event (keycodeOf (s.buffer k)) (s.buffer k) 1]

/-- The replay has come to one of the three records. -/
structure Looping (p : Playing defaultConfig Unit) : Prop where
  holds : HoldsSelf p.sound.1
  place : ∃ (k : Int) (frames : List Frame) (others : List (List Work)), (k = 0 ∨ k = 1 ∨ k = 2) ∧
    p.sound.1.frames = ⟨k, 3, .first, 1⟩ :: frames ∧ others.length = frames.length ∧
      (p.pending = selfWork p.sound.1 k :: others ∨ k < 2 ∧ p.pending = [] :: others)

theorem Sound.step_val {config : Config} {sound : Sound config} {input : Input} {s : State}
    (stepped : DynamicMacro.step config sound.1 input = some s) : (sound.step input).1 = s := by
  rw [Sound.step_eq] at stepped
  exact Option.some.inj stepped

theorem HoldsSelf.press {s : State} (holds : HoldsSelf s) {k : Int} (early : k = 0 ∨ k = 1) :
    step defaultConfig s (.event (keycodeOf (s.buffer k)) (s.buffer k) 1) = some (s.emit (.result true)) := by
  obtain rfl | rfl := early
  · simp [step, processDynamicMacro, holds.idle, holds.key, keyA]
  · simp [step, processDynamicMacro, holds.idle, holds.pressed, playRecord]

/-- The release of the play key starts the macro within itself. -/
theorem HoldsSelf.release {s : State} (holds : HoldsSelf s) :
    step defaultConfig s (.event (keycodeOf (s.buffer 2)) (s.buffer 2) 1) =
      some { (s.emit (.playStart .first)).emit (.replayed .first (s.buffer 0)) with
        frames := ⟨0, 3, .first, 1⟩ :: s.frames } := by
  have play : keycodeOf playRecord.released = qkPlay1 := by decide
  have inside : InBuffer defaultConfig 0 := by decide
  rw [holds.released, play]
  simp [step, processDynamicMacro, holds.idle, playRecord, KeyRecord.released, qkPlay1, qkRecordStart1, qkRecordStart2,
    dynamicMacroPlay, playOn, load, start, holds.macroEnd, inside, State.emit]

theorem next_of_self {s : State} {k : Int} {frames : List Frame} (early : k = 0 ∨ k = 1)
    (playing : s.frames = ⟨k, 3, .first, 1⟩ :: frames) :
    step defaultConfig s .returned = some { s.emit (.replayed .first (s.buffer (k + 1))) with
      frames := ⟨k + 1, 3, .first, 1⟩ :: frames } := by
  have inside : InBuffer defaultConfig (k + 1) := by
    obtain rfl | rfl := early <;> decide
  have going : k + 1 ≠ 3 := by omega
  simp [step, playing, playOn, load, Slot.direction, going, inside, State.emit]

theorem feed_eq {p : Playing defaultConfig Unit} {input : Input} {s : State} (pending : List (List Work))
    (stepped : step defaultConfig p.sound.1 input = some s) :
    (p.feed plainFirmware input pending).sound.1 = s ∧ (p.feed plainFirmware input pending).pending =
      if pending.length < s.frames.length then plainFirmware.work () s :: pending else pending := by
  have same := Sound.step_val stepped
  simp [Playing.feed, same]

theorem Looping.advance {p : Playing defaultConfig Unit} (looping : Looping p) :
    Looping (p.advance plainFirmware) := by
  have holds := looping.holds
  obtain ⟨k, frames, others, place, playing, length, pending | ⟨early, pending⟩⟩ := looping.place
  · have advanced : p.advance plainFirmware =
        p.feed plainFirmware (.event (keycodeOf (p.sound.1.buffer k)) (p.sound.1.buffer k) 1) ([] :: others) := by
      simp only [Playing.advance, pending]
      rfl
    by_cases last : k = 2
    · subst last
      obtain ⟨state, left⟩ := feed_eq ([] :: others) holds.release
      have deeper : ([] :: others : List (List Work)).length < p.sound.1.frames.length + 1 := by simp [playing, length]
      rw [advanced]
      refine ⟨?_, 0, p.sound.1.frames, [] :: others, .inl rfl, ?_, ?_, .inl ?_⟩
      · rw [state]
        exact ⟨holds.idle, holds.macroEnd, holds.key, holds.pressed, holds.released⟩
      · rw [state]
      · simp [playing, length]
      · rw [left, state]
        exact if_pos deeper
    · obtain ⟨state, left⟩ := feed_eq ([] :: others) (holds.press (show k = 0 ∨ k = 1 by omega))
      have same : ¬ ([] :: others : List (List Work)).length < p.sound.1.frames.length := by simp [playing, length]
      rw [advanced]
      refine ⟨?_, k, frames, others, place, ?_, length, .inr ⟨by omega, ?_⟩⟩
      · rw [state]
        exact ⟨holds.idle, holds.macroEnd, holds.key, holds.pressed, holds.released⟩
      · rw [state]
        exact playing
      · rw [left]
        exact if_neg same
  · have advanced : p.advance plainFirmware = p.feed plainFirmware .returned others := by
      simp only [Playing.advance, pending]
    obtain ⟨state, left⟩ := feed_eq others (next_of_self (show k = 0 ∨ k = 1 by omega) playing)
    have next : others.length < frames.length + 1 := by omega
    rw [advanced]
    refine ⟨?_, k + 1, frames, others, by omega, ?_, length, .inl ?_⟩
    · rw [state]
      exact ⟨holds.idle, holds.macroEnd, holds.key, holds.pressed, holds.released⟩
    · rw [state]
    · rw [left, state]
      exact if_pos next

/-- The macro can be recorded, and its replay does not end. -/
theorem recursive_macro_never_ends : (Sound.run defaultConfig recordSelf).1.frames = [] ∧
    ¬ (Playing.replay plainFirmware .first playRecord 1 (Sound.run defaultConfig recordSelf) ()).Ends plainFirmware := by
  have idle : (Sound.run defaultConfig recordSelf).1.frames = [] := by rfl
  have started : Looping (Playing.replay plainFirmware .first playRecord 1 (Sound.run defaultConfig recordSelf) ()) :=
    ⟨⟨by rfl, by rfl, by rfl, by rfl, by rfl⟩, 0, [], [], .inl rfl, by rfl, rfl, .inl (by rfl)⟩
  refine ⟨idle, ?_⟩
  rintro ⟨n, done⟩
  have looping : Looping ((Playing.advance plainFirmware)^[n]
      (Playing.replay plainFirmware .first playRecord 1 (Sound.run defaultConfig recordSelf) ())) := by
    clear done
    induction n with
    | zero => exact started
    | succ n ih =>
      rw [Function.iterate_succ_apply']
      exact ih.advance
  obtain ⟨k, frames, others, -, -, -, pending | ⟨-, pending⟩⟩ := looping.place
  · rw [pending] at done
    cases done
  · rw [pending] at done
    cases done

end QmkFirmware.DynamicMacro
