import Mathlib.Data.List.DropRight
import Mathlib.Tactic.Common
import QmkFirmware.DynamicMacro.Model
import QmkFirmware.Foundations.Runs
import QmkFirmware.Foundations.Strides

/-! # Two macros in one buffer

The recorder below keeps two lists that have nothing to do with each other but the space they
may take together.  The two ends of the shared buffer behave like it as long as nothing writes to
an element that a slot or a replay in progress still needs.
-/

namespace QmkFirmware.DynamicMacro

open QmkFirmware.Runs QmkFirmware.Strides

/-! ## The recorder -/

/-- A replay in progress, with the records it has not passed to `process_record` yet. -/
structure Replay where
  slot : Slot
  remaining : List KeyRecord
  savedLayerState : BitVec 32

structure Recorder where
  /-- What the last completed recording of each slot has kept. -/
  saved : Slot → List KeyRecord
  recording : Option (Slot × List KeyRecord)
  replays : List Replay
  outputs : List Output

namespace Recorder

def emit (output : Output) (a : Recorder) : Recorder := { a with outputs := a.outputs ++ [output] }

def replayOn (replay : Replay) (a : Recorder) : Recorder :=
  match replay.remaining with
  | [] => (a.emit (.played replay.slot replay.savedLayerState)).emit (.result false)
  | record :: rest =>
    { a.emit (.replayed replay.slot record) with replays := { replay with remaining := rest } :: a.replays }

def play (slot : Slot) (layerState : BitVec 32) (a : Recorder) : Recorder :=
  replayOn ⟨slot, a.saved slot, layerState⟩ (a.emit (.playStart slot))

def startRecording (slot : Slot) (a : Recorder) : Recorder :=
  { (a.emit (.recordStart slot)).emit (.result false) with recording := some (slot, []) }

section Space

variable (config : Config)

/-- Leading releases are ignored, and so is what does not fit beside the other slot. -/
def recordKey (slot : Slot) (recorded : List KeyRecord) (record : KeyRecord) (a : Recorder) : Recorder :=
  if record.event.pressed = false ∧ recorded = [] then a
  else if recorded.length + (a.saved slot.other).length < config.size then
    { a with recording := some (slot, recorded ++ [record]) }
  else a.emit (.full slot record)

/-- The presses that end the recording are not kept. -/
def stopRecording (slot : Slot) (recorded : List KeyRecord) (a : Recorder) : Recorder :=
  { a.emit (.recordEnd slot) with
    saved := Function.update a.saved slot (recorded.rdropWhile fun record => record.event.pressed)
    recording := none }

def event (keycode : Keycode) (record : KeyRecord) (layerState : BitVec 32) (a : Recorder) : Recorder :=
  match a.recording with
  | none =>
    if record.event.pressed = true then a.emit (.result true)
    else if keycode = qkRecordStart1 then a.startRecording .first
    else if keycode = qkRecordStart2 then a.startRecording .second
    else if keycode = qkPlay1 then a.play .first layerState
    else if keycode = qkPlay2 then a.play .second layerState
    else a.emit (.result true)
  | some (slot, recorded) =>
    if keycode = qkRecordStart1 ∨ keycode = qkRecordStart2 ∨ keycode = qkRecordStop then
      if record.event.pressed ^^ decide (keycode ≠ qkRecordStop) then
        (a.stopRecording slot recorded).emit (.result false)
      else a.emit (.result false)
    else if config.noNesting = true ∧ (keycode = qkPlay1 ∨ keycode = qkPlay2) then a.emit (.result false)
    else if config.validKey keycode record then (a.recordKey config slot recorded record).emit (.result true)
    else a.emit (.result true)

def step (a : Recorder) : Input → Recorder
  | .event keycode record layerState => a.event config keycode record layerState
  | .written _ => a
  | .returned =>
    match a.replays with
    | [] => a
    | replay :: replays => replayOn replay { a with replays := replays }

def run (inputs : List Input) : Recorder := inputs.foldl (step config) ⟨fun _ => [], none, [], []⟩

end Space

/-- What is in the part of the buffer that belongs to a slot. -/
def held (a : Recorder) (slot : Slot) : List KeyRecord :=
  match a.recording with
  | some (recordingSlot, recorded) => if recordingSlot = slot then recorded else a.saved slot
  | none => a.saved slot

end Recorder

/-! ## The shared buffer -/

section Buffer

variable (config : Config)

/-- The element of a slot at a distance from its start. -/
def place (slot : Slot) (k : Int) : Int := start config slot + slot.direction * k

structure FrameShows (buffer : Int → KeyRecord) (frame : Frame) (replay : Replay) : Prop where
  slot : frame.slot = replay.slot
  saved : frame.savedLayerState = replay.savedLayerState
  remaining : stride buffer (frame.macroBuffer + frame.slot.direction) frame.slot.direction
    replay.remaining.length = replay.remaining
  macroEnd : frame.macroEnd = frame.macroBuffer + frame.slot.direction * (replay.remaining.length + 1)
  inside : ∀ k : Nat, k ≤ replay.remaining.length → InBuffer config (frame.macroBuffer + frame.slot.direction * k)

structure Shows (s : State) (a : Recorder) : Prop where
  macroId : s.macroId = a.recording.map Prod.fst
  macroPointer : ∀ slot recorded, a.recording = some (slot, recorded) →
    s.macroPointer = some (place config slot recorded.length)
  ends : ∀ slot, s.macroId ≠ some slot → s.endOf slot = place config slot (a.saved slot).length
  contents : ∀ slot, stride s.buffer (start config slot) slot.direction (a.held slot).length = a.held slot
  room : (a.held .first).length + (a.held .second).length ≤ config.size
  frames : List.Forall₂ (FrameShows config s.buffer) s.frames a.replays
  outputs : s.outputs = a.outputs

/-- The replay has not come to the element yet. -/
def Frame.Unread (frame : Frame) (index : Int) : Prop :=
  0 < frame.slot.direction * (index - frame.macroBuffer) ∧ 0 < frame.slot.direction * (frame.macroEnd - index)

/-- Where the filled part of a slot ends. -/
def filledEnd (s : State) (slot : Slot) : Int :=
  if s.macroId = some slot then s.macroPointer.getD 0 else s.endOf slot

/-- A slot holds the element, or a replay in progress is still to come to it. -/
def Needed (s : State) (index : Int) : Prop :=
  (∃ slot : Slot, 0 < slot.direction * (filledEnd s slot - index)) ∨ ∃ frame ∈ s.frames, frame.Unread index

/-- The event is stored in the buffer at the pointer. -/
def Stores (s : State) (keycode : Keycode) (record : KeyRecord) (slot : Slot) (macroPointer : Int) : Prop :=
  s.macroId = some slot ∧ s.macroPointer = some macroPointer ∧
    ¬ (keycode = qkRecordStart1 ∨ keycode = qkRecordStart2 ∨ keycode = qkRecordStop) ∧
    ¬ (config.noNesting = true ∧ (keycode = qkPlay1 ∨ keycode = qkPlay2)) ∧
    config.validKey keycode record = true ∧
    ¬ (record.event.pressed = false ∧ macroPointer = start config slot) ∧
    macroPointer - slot.direction ≠ s.endOf slot.other

/-- Nothing is stored where a replay in progress is still to read, and `process_record` leaves the
record it is given as it is, unless nothing needs it any more. -/
def Undisturbed (s : State) : Input → Prop
  | .event keycode record _ => ∀ slot macroPointer, Stores config s keycode record slot macroPointer →
      ∀ frame ∈ s.frames, ¬ frame.Unread macroPointer
  | .written record => ∀ frame ∈ s.frames.head?,
      record = s.buffer frame.macroBuffer ∨ ¬ Needed s frame.macroBuffer
  | .returned => True

/-! ### Places -/

variable {config}

theorem place_inBuffer {slot : Slot} {k : Nat} (inside : k < config.size) : InBuffer config (place config slot k) := by
  cases slot <;> simp only [InBuffer, place, start, Slot.direction] <;> omega

theorem place_zero (slot : Slot) : place config slot (0 : Nat) = start config slot := by
  simp [place]

theorem place_succ (slot : Slot) (k : Nat) :
    place config slot k + slot.direction = place config slot (k + 1 : Nat) := by
  cases slot <;> simp only [place, start, Slot.direction] <;> omega

theorem place_eq_start (slot : Slot) (k : Nat) : place config slot k = start config slot ↔ k = 0 := by
  cases slot <;> simp only [place, start, Slot.direction] <;> omega

/-- The pointer is about to meet the other slot. -/
theorem place_meets (slot : Slot) (k n : Nat) :
    place config slot k - slot.direction = place config slot.other n ↔ k + n = config.size := by
  cases slot <;> simp only [place, start, Slot.direction, Slot.other] <;> omega

theorem place_same {slot : Slot} {j k : Nat} : place config slot j = place config slot k ↔ j = k := by
  cases slot <;> simp only [place, start, Slot.direction] <;> omega

theorem place_other {slot : Slot} {j k m n : Nat} (first : j < m) (second : k < n) (room : m + n ≤ config.size) :
    place config slot.other k ≠ place config slot j := by
  cases slot <;> simp only [place, start, Slot.direction, Slot.other] <;> omega

theorem place_before {slot : Slot} {k n : Nat} (before : k < n) :
    0 < slot.direction * (place config slot n - place config slot k) := by
  cases slot <;> simp only [place, start, Slot.direction] <;> omega

theorem frames_update {buffer : Int → KeyRecord} {frames : List Frame} {replays : List Replay} {index : Int}
    (record : KeyRecord) (shows : List.Forall₂ (FrameShows config buffer) frames replays)
    (read : ∀ frame ∈ frames, ¬ frame.Unread index) :
    List.Forall₂ (FrameShows config (Function.update buffer index record)) frames replays := by
  induction shows with
  | nil => exact .nil
  | @cons frame replay frames replays head _ ih =>
    refine .cons ?_ (ih fun frame member => read frame (List.mem_cons_of_mem _ member))
    refine ⟨head.slot, head.saved, ?_, head.macroEnd, head.inside⟩
    rw [stride_update]
    · exact head.remaining
    · intro k bound here
      apply read frame List.mem_cons_self
      have ends := head.macroEnd
      subst here
      unfold Frame.Unread
      rw [ends]
      cases frame.slot <;> simp only [Slot.direction] <;> omega

/-! ### What each function does to the recorder -/

variable {s : State} {a : Recorder}

theorem Slot.other_ne (slot : Slot) : slot ≠ slot.other := by
  cases slot <;> decide

theorem Slot.eq_other {someSlot slot : Slot} (different : someSlot ≠ slot) : someSlot = slot.other := by
  cases someSlot <;> cases slot <;> first | rfl | exact absurd rfl different

theorem room_of (slot : Slot) (room : (a.held slot).length + (a.held slot.other).length ≤ config.size) :
    (a.held .first).length + (a.held .second).length ≤ config.size := by
  cases slot
  · exact room
  · rwa [Nat.add_comm]

theorem held_self {slot : Slot} {recorded : List KeyRecord} (recording : a.recording = some (slot, recorded)) :
    a.held slot = recorded := by
  rw [Recorder.held, recording]
  exact if_pos rfl

theorem held_other {slot : Slot} {recorded : List KeyRecord} (recording : a.recording = some (slot, recorded)) :
    a.held slot.other = a.saved slot.other := by
  rw [Recorder.held, recording]
  exact if_neg slot.other_ne

theorem held_idle (idle : a.recording = none) (slot : Slot) : a.held slot = a.saved slot := by
  rw [Recorder.held, idle]

namespace Shows

theorem room_beside (shows : Shows config s a) (slot : Slot) :
    (a.held slot).length + (a.held slot.other).length ≤ config.size := by
  have := shows.room
  cases slot
  · exact this
  · rw [Nat.add_comm]
    exact this

theorem emit (shows : Shows config s a) (output : Output) : Shows config (s.emit output) (a.emit output) := by
  refine ⟨shows.macroId, shows.macroPointer, ?_, shows.contents, shows.room, shows.frames, ?_⟩
  · intro slot idle
    have ends := shows.ends slot idle
    cases slot <;> exact ends
  · show s.outputs ++ [output] = a.outputs ++ [output]
    rw [shows.outputs]

theorem ends_idle (shows : Shows config s a) (idle : a.recording = none) (slot : Slot) :
    s.endOf slot = place config slot (a.saved slot).length := by
  apply shows.ends
  rw [shows.macroId, idle]
  exact nofun

theorem ends_other (shows : Shows config s a) {slot : Slot} {recorded : List KeyRecord}
    (recording : a.recording = some (slot, recorded)) :
    s.endOf slot.other = place config slot.other (a.saved slot.other).length := by
  apply shows.ends
  rw [shows.macroId, recording]
  intro same
  exact slot.other_ne (Option.some.inj same)

theorem filledEnd_eq (shows : Shows config s a) (slot : Slot) :
    filledEnd s slot = place config slot (a.held slot).length := by
  unfold filledEnd
  cases recording : a.recording with
  | none =>
    have idle : s.macroId ≠ some slot := by
      rw [shows.macroId, recording]
      exact nofun
    rw [if_neg idle, held_idle recording, shows.ends_idle recording]
  | some current =>
    obtain ⟨recordingSlot, recorded⟩ := current
    have macroId : s.macroId = some recordingSlot := by
      rw [shows.macroId, recording]
      rfl
    by_cases here : slot = recordingSlot
    · subst here
      rw [if_pos macroId, held_self recording, shows.macroPointer _ _ recording, Option.getD_some]
    · obtain rfl := Slot.eq_other here
      have idle : s.macroId ≠ some recordingSlot.other := by
        rw [macroId]
        intro same
        exact recordingSlot.other_ne (Option.some.inj same)
      rw [if_neg idle, held_other recording, shows.ends_other recording]

/-- A write that no slot and no replay sees. -/
theorem update (shows : Shows config s a) {index : Int} (record : KeyRecord)
    (unheld : ∀ slot, ∀ k : Nat, k < (a.held slot).length → place config slot k ≠ index)
    (read : ∀ frame ∈ s.frames, ¬ frame.Unread index) :
    Shows config { s with buffer := Function.update s.buffer index record } a := by
  refine ⟨shows.macroId, shows.macroPointer, ?_, ?_, shows.room, ?_, shows.outputs⟩
  · intro slot idle
    have ends := shows.ends slot idle
    cases slot <;> exact ends
  · intro slot
    rw [stride_update]
    · exact shows.contents slot
    · exact unheld slot
  · exact frames_update record shows.frames read

theorem playOn (shows : Shows config s a) (frame : Frame) (replay : Replay)
    (slot : frame.slot = replay.slot) (saved : frame.savedLayerState = replay.savedLayerState)
    (remaining : stride s.buffer frame.macroBuffer frame.slot.direction replay.remaining.length = replay.remaining)
    (macroEnd : frame.macroEnd = frame.macroBuffer + frame.slot.direction * replay.remaining.length)
    (inside : ∀ k : Nat, k < replay.remaining.length → InBuffer config (frame.macroBuffer + frame.slot.direction * k)) :
    ∃ s', DynamicMacro.playOn config frame s = some s' ∧ Shows config s' (a.replayOn replay) := by
  obtain ⟨replaySlot, records, layers⟩ := replay
  dsimp only at slot saved remaining macroEnd inside
  subst slot saved
  unfold DynamicMacro.playOn Recorder.replayOn
  cases records with
  | nil =>
    have done : frame.macroBuffer = frame.macroEnd := by simpa using macroEnd.symm
    rw [if_pos done]
    exact ⟨_, rfl, (shows.emit _).emit _⟩
  | cons record rest =>
    have more : frame.macroBuffer ≠ frame.macroEnd := by
      rw [macroEnd, List.length_cons]
      cases frame.slot <;> simp only [Slot.direction] <;> omega
    rw [List.length_cons, stride_cons, List.cons.injEq] at remaining
    have here : InBuffer config frame.macroBuffer := by
      have := inside 0 (Nat.succ_pos _)
      rwa [Int.natCast_zero, Int.mul_zero, Int.add_zero] at this
    rw [if_neg more, load, if_pos here, remaining.1]
    refine ⟨_, rfl, ?_⟩
    have after := shows.emit (.replayed frame.slot record)
    refine ⟨after.macroId, after.macroPointer, ?_, after.contents, after.room, ?_, after.outputs⟩
    · intro slot idle
      have ends := after.ends slot idle
      cases slot <;> exact ends
    · refine .cons ⟨rfl, rfl, remaining.2, ?_, ?_⟩ after.frames
      · rw [macroEnd, List.length_cons, Int.natCast_succ]
      · intro k bound
        exact inside k (Nat.lt_succ_of_le bound)

theorem play (shows : Shows config s a) (idle : a.recording = none) (slot : Slot) (layerState : BitVec 32) :
    ∃ s', dynamicMacroPlay config (start config slot) (s.endOf slot) slot layerState s = some s' ∧
      Shows config s' (a.play slot layerState) := by
  have held : (a.saved slot).length ≤ config.size := by
    have := shows.room_beside slot
    rw [held_idle idle] at this
    omega
  apply (shows.emit (.playStart slot)).playOn ⟨_, _, _, _⟩ ⟨_, _, _⟩ rfl rfl
  · have contents := shows.contents slot
    rwa [held_idle idle] at contents
  · exact shows.ends_idle idle slot
  · intro k bound
    exact place_inBuffer (Nat.lt_of_lt_of_le bound held)

theorem startRecording (shows : Shows config s a) (idle : a.recording = none) (slot : Slot) :
    Shows config
      (State.emit (.result false) { dynamicMacroRecordStart (start config slot) slot s with macroId := some slot })
      (a.startRecording slot) := by
  have recording : (a.startRecording slot).recording = some (slot, []) := rfl
  have other : (a.startRecording slot).held slot.other = a.held slot.other := by
    rw [held_other recording, held_idle idle]
    rfl
  have self : (a.startRecording slot).held slot = [] := held_self recording
  have room := shows.room_beside slot
  refine ⟨rfl, ?_, ?_, ?_, ?_, shows.frames, ?_⟩
  · rintro _ _ ⟨⟩
    rw [List.length_nil, place_zero]
    rfl
  · intro otherSlot idleSlot
    have ends := shows.ends_idle idle otherSlot
    cases otherSlot <;> exact ends
  · intro someSlot
    by_cases here : someSlot = slot
    · rw [here, self]
      rfl
    · obtain rfl := Slot.eq_other here
      rw [other]
      exact shows.contents slot.other
  · apply room_of slot
    rw [self, other, List.length_nil]
    omega
  · show s.outputs ++ [_] ++ [_] = a.outputs ++ [_] ++ [_]
    rw [shows.outputs]

theorem extend (shows : Shows config s a) {slot : Slot} {recorded : List KeyRecord}
    (recording : a.recording = some (slot, recorded)) (record : KeyRecord)
    (fits : recorded.length + (a.saved slot.other).length < config.size)
    (read : ∀ frame ∈ s.frames, ¬ frame.Unread (place config slot recorded.length)) :
    Shows config
      { s with
        buffer := Function.update s.buffer (place config slot recorded.length) record
        macroPointer := some (place config slot recorded.length + slot.direction) }
      { a with recording := some (slot, recorded ++ [record]) } := by
  have self := held_self recording
  have other := held_other recording
  have unheld (someSlot : Slot) (k : Nat) (bound : k < (a.held someSlot).length) :
      place config someSlot k ≠ place config slot recorded.length := by
    by_cases here : someSlot = slot
    · subst here
      rw [self] at bound
      rw [Ne, place_same]
      omega
    · obtain rfl := Slot.eq_other here
      rw [other] at bound
      apply place_other (Nat.lt_succ_self _) bound
      omega
  have written := shows.update record unheld read
  have newSelf : Recorder.held { a with recording := some (slot, recorded ++ [record]) } slot = recorded ++ [record] :=
    held_self rfl
  have newOther : Recorder.held { a with recording := some (slot, recorded ++ [record]) } slot.other
      = a.saved slot.other := held_other rfl
  refine ⟨?_, ?_, ?_, ?_, ?_, written.frames, shows.outputs⟩
  · show s.macroId = some slot
    rw [shows.macroId, recording]
    rfl
  · rintro _ _ ⟨⟩
    rw [List.length_append, List.length_singleton, place_succ]
  · intro someSlot idle
    have ends := shows.ends someSlot idle
    cases someSlot <;> exact ends
  · intro someSlot
    have contents := written.contents someSlot
    by_cases here : someSlot = slot
    · subst here
      rw [self] at contents
      rw [newSelf, List.length_append, List.length_singleton, stride_succ, contents]
      show recorded ++ [Function.update s.buffer (place config someSlot recorded.length) record
        (place config someSlot recorded.length)] = recorded ++ [record]
      rw [Function.update_self]
    · obtain rfl := Slot.eq_other here
      rw [other] at contents
      rw [newOther]
      exact contents
  · apply room_of slot
    rw [newSelf, newOther, List.length_append, List.length_singleton]
    omega

theorem recordKey (shows : Shows config s a) {slot : Slot} {recorded : List KeyRecord}
    (recording : a.recording = some (slot, recorded)) (record : KeyRecord)
    (read : ¬ (record.event.pressed = false ∧ place config slot recorded.length = start config slot) →
      place config slot recorded.length - slot.direction ≠ s.endOf slot.other →
      ∀ frame ∈ s.frames, ¬ frame.Unread (place config slot recorded.length)) :
    ∃ s', dynamicMacroRecordKey config (start config slot) (s.endOf slot.other) slot record s = some s' ∧
      Shows config s' (a.recordKey config slot recorded record) := by
  have room := shows.room_beside slot
  rw [held_self recording, held_other recording] at room
  have empty : place config slot recorded.length = start config slot ↔ recorded = [] := by
    rw [place_eq_start, List.length_eq_zero_iff]
  have full : place config slot recorded.length - slot.direction = s.endOf slot.other ↔
      recorded.length + (a.saved slot.other).length = config.size := by
    rw [shows.ends_other recording, place_meets]
  unfold dynamicMacroRecordKey Recorder.recordKey
  rw [shows.macroPointer slot recorded recording]
  dsimp only [Option.bind_eq_bind, Option.bind_some]
  by_cases ignored : record.event.pressed = false ∧ recorded = []
  · rw [if_pos (by rwa [empty]), if_pos ignored]
    exact ⟨s, rfl, shows⟩
  · have counted : ¬ (record.event.pressed = false ∧ place config slot recorded.length = start config slot) := by
      rwa [empty]
    rw [if_neg counted, if_neg ignored]
    by_cases fits : recorded.length + (a.saved slot.other).length < config.size
    · have apart : place config slot recorded.length - slot.direction ≠ s.endOf slot.other := by
        rw [Ne, full]
        omega
      have inside : InBuffer config (place config slot recorded.length) := place_inBuffer (by omega)
      rw [if_pos apart, if_pos fits, DynamicMacro.store, if_pos inside]
      exact ⟨_, rfl, shows.extend recording record fits (read counted apart)⟩
    · have meets : ¬ place config slot recorded.length - slot.direction ≠ s.endOf slot.other := by
        rw [Ne, full]
        omega
      rw [if_neg meets, if_neg fits]
      exact ⟨_, rfl, shows.emit _⟩

/-- The loop walks back over the presses that end the recording. -/
theorem trimPresses_eq {slot : Slot} {recorded : List KeyRecord} {fuel : Nat}
    (contents : stride s.buffer (start config slot) slot.direction recorded.length = recorded)
    (fits : recorded.length ≤ config.size) (enough : recorded.length < fuel) :
    trimPresses config (start config slot) slot s fuel (place config slot recorded.length)
      = some (place config slot (recorded.rdropWhile fun record => record.event.pressed).length) := by
  induction recorded using List.reverseRecOn generalizing fuel with
  | nil =>
    obtain ⟨fuel, rfl⟩ := Nat.exists_eq_add_of_lt enough
    rw [List.rdropWhile_nil, List.length_nil, trimPresses, if_pos (place_zero slot)]
  | append_singleton recorded last ih =>
    rw [List.length_append, List.length_singleton] at contents fits enough ⊢
    obtain ⟨fuel, rfl⟩ : ∃ more, fuel = more + 1 := ⟨fuel - 1, by omega⟩
    rw [stride_succ] at contents
    obtain ⟨earlier, value⟩ := List.append_inj contents (by rw [length_stride])
    have more : place config slot (recorded.length + 1 : Nat) ≠ start config slot := by
      rw [Ne, place_eq_start]
      omega
    have back : place config slot (recorded.length + 1 : Nat) - slot.direction = place config slot recorded.length := by
      rw [← place_succ]
      omega
    have loaded : load config s (place config slot recorded.length) = some last := by
      rw [load, if_pos (place_inBuffer (by omega))]
      exact congrArg some (List.cons.inj value).1
    rw [trimPresses, if_neg more, back, loaded]
    dsimp only [Option.bind_eq_bind, Option.bind_some]
    by_cases pressed : last.event.pressed = true
    · rw [if_pos pressed, List.rdropWhile_concat_pos (fun record : KeyRecord => record.event.pressed) _ _ pressed]
      exact ih earlier (by omega) (by omega)
    · rw [if_neg pressed, List.rdropWhile_concat_neg (fun record : KeyRecord => record.event.pressed) _ _ pressed,
        List.length_append, List.length_singleton]

theorem recordEnd (shows : Shows config s a) {slot : Slot} {recorded : List KeyRecord}
    (recording : a.recording = some (slot, recorded)) :
    dynamicMacroRecordEnd config (start config slot) slot s
      = some (place config slot (recorded.rdropWhile fun record => record.event.pressed).length) := by
  have contents := shows.contents slot
  have room := shows.room_beside slot
  rw [held_self recording] at contents room
  rw [dynamicMacroRecordEnd, shows.macroPointer slot recorded recording]
  exact trimPresses_eq contents (by omega) (by omega)

/-- The slot ends where its recording was trimmed to. -/
theorem stopRecording (shows : Shows config s a) {slot : Slot} {recorded : List KeyRecord}
    (recording : a.recording = some (slot, recorded)) :
    ∃ s', dynamicMacroStopRecording config s = some s' ∧ Shows config s' (a.stopRecording slot recorded) := by
  have self := held_self recording
  have other := held_other recording
  have kept : (recorded.rdropWhile fun record => record.event.pressed) <+: recorded := List.rdropWhile_prefix _ _
  have macroId : s.macroId = some slot := by
    rw [shows.macroId, recording]
    rfl
  have newSelf : (a.stopRecording slot recorded).held slot = recorded.rdropWhile fun record => record.event.pressed := by
    rw [held_idle rfl]
    exact Function.update_self _ _ _
  have newOther : (a.stopRecording slot recorded).held slot.other = a.saved slot.other := by
    rw [held_idle rfl]
    exact Function.update_of_ne slot.other_ne.symm _ _
  have stopped (s' : State) (buffer : s'.buffer = s.buffer) (frames : s'.frames = s.frames)
      (outputs : s'.outputs = s.outputs ++ [.recordEnd slot]) (idle : s'.macroId = none)
      (self : s'.endOf slot = place config slot (recorded.rdropWhile fun record => record.event.pressed).length)
      (other : s'.endOf slot.other = s.endOf slot.other) : Shows config s' (a.stopRecording slot recorded) := by
    refine ⟨idle, fun _ _ => nofun, ?_, ?_, ?_, ?_, ?_⟩
    · intro someSlot _
      rw [← held_idle rfl]
      by_cases here : someSlot = slot
      · rw [here, newSelf, self]
      · obtain rfl := Slot.eq_other here
        rw [newOther, other, shows.ends_other recording]
    · intro someSlot
      rw [buffer]
      have contents := shows.contents someSlot
      by_cases here : someSlot = slot
      · subst here
        rw [held_self recording] at contents
        rw [newSelf]
        exact stride_of_prefix contents kept
      · obtain rfl := Slot.eq_other here
        rw [held_other recording] at contents
        rw [newOther]
        exact contents
    · apply room_of slot
      have room := shows.room_beside slot
      have shorter := kept.length_le
      rw [held_self recording, held_other recording] at room
      rw [newSelf, newOther]
      omega
    · rw [buffer, frames]
      exact shows.frames
    · rw [outputs, shows.outputs]
      rfl
  have ended := shows.recordEnd recording
  unfold dynamicMacroStopRecording
  rw [macroId]
  cases slot
  · dsimp only
    rw [ended]
    exact ⟨_, rfl, stopped _ rfl rfl rfl rfl rfl rfl⟩
  · dsimp only
    rw [ended]
    exact ⟨_, rfl, stopped _ rfl rfl rfl rfl rfl rfl⟩

theorem processRecording (shows : Shows config s a) {slot : Slot} {recorded : List KeyRecord}
    (recording : a.recording = some (slot, recorded)) (keycode : Keycode) (record : KeyRecord)
    (layerState : BitVec 32) (undisturbed : Undisturbed config s (.event keycode record layerState)) :
    ∃ s', processRecording config slot keycode record s = some s' ∧
      Shows config s' (a.event config keycode record layerState) := by
  have macroId : s.macroId = some slot := by
    rw [shows.macroId, recording]
    rfl
  unfold DynamicMacro.processRecording Recorder.event
  rw [recording]
  dsimp only
  split_ifs with stops stop ignored valid
  · obtain ⟨s', done, after⟩ := shows.stopRecording recording
    rw [done]
    exact ⟨_, rfl, after.emit _⟩
  · exact ⟨_, rfl, shows.emit _⟩
  · exact ⟨_, rfl, shows.emit _⟩
  · obtain ⟨s', done, after⟩ := shows.recordKey recording record fun counted apart =>
      undisturbed slot _ ⟨macroId, shows.macroPointer slot recorded recording, stops, ignored, valid, counted, apart⟩
    cases slot <;>
      simp only [Slot.other, State.endOf] at done ⊢ <;>
      rw [done] <;>
      exact ⟨_, rfl, after.emit _⟩
  · exact ⟨_, rfl, shows.emit _⟩

theorem processDynamicMacro (shows : Shows config s a) (keycode : Keycode) (record : KeyRecord)
    (layerState : BitVec 32) (undisturbed : Undisturbed config s (.event keycode record layerState)) :
    ∃ s', processDynamicMacro config keycode record layerState s = some s' ∧
      Shows config s' (a.event config keycode record layerState) := by
  cases recording : a.recording with
  | some current =>
    obtain ⟨slot, recorded⟩ := current
    have macroId : s.macroId = some slot := by
      rw [shows.macroId, recording]
      rfl
    unfold DynamicMacro.processDynamicMacro
    rw [macroId]
    exact shows.processRecording recording keycode record layerState undisturbed
  | none =>
    have macroId : s.macroId = none := by
      rw [shows.macroId, recording]
      rfl
    unfold DynamicMacro.processDynamicMacro Recorder.event
    rw [macroId, recording]
    dsimp only
    split_ifs
    · exact ⟨_, rfl, shows.emit _⟩
    · exact ⟨_, rfl, shows.startRecording recording .first⟩
    · exact ⟨_, rfl, shows.startRecording recording .second⟩
    · exact shows.play recording .first layerState
    · exact shows.play recording .second layerState
    · exact ⟨_, rfl, shows.emit _⟩

theorem returned (shows : Shows config s a) :
    ∃ s', step config s .returned = some s' ∧ Shows config s' (a.step config .returned) := by
  have frames := shows.frames
  unfold step Recorder.step
  cases h : s.frames with
  | nil =>
    rw [h] at frames
    cases h' : a.replays with
    | nil => exact ⟨s, rfl, shows⟩
    | cons replay replays =>
      rw [h'] at frames
      cases frames
  | cons frame rest =>
    rw [h] at frames
    cases h' : a.replays with
    | nil =>
      rw [h'] at frames
      cases frames
    | cons replay replays =>
      rw [h'] at frames
      cases frames with
      | cons head tail =>
        have below : Shows config { s with frames := rest } { a with replays := replays } := by
          refine ⟨shows.macroId, shows.macroPointer, ?_, shows.contents, shows.room, tail, shows.outputs⟩
          intro slot idle
          have ends := shows.ends slot idle
          cases slot <;> exact ends
        show ∃ s', DynamicMacro.playOn config
            { frame with macroBuffer := frame.macroBuffer + frame.slot.direction } { s with frames := rest } = some s' ∧
          Shows config s' (Recorder.replayOn replay { a with replays := replays })
        apply below.playOn { frame with macroBuffer := frame.macroBuffer + frame.slot.direction } replay
          head.slot head.saved
        · exact head.remaining
        · have ends := head.macroEnd
          dsimp only
          rw [ends, Int.mul_add]
          omega
        · intro k bound
          have inside := head.inside (k + 1) bound
          rwa [Int.natCast_succ, Int.mul_add, Int.mul_one, Int.add_comm (_ * _), ← Int.add_assoc] at inside

theorem written (shows : Shows config s a) (record : KeyRecord)
    (undisturbed : Undisturbed config s (.written record)) :
    ∃ s', step config s (.written record) = some s' ∧ Shows config s' a := by
  have frames := shows.frames
  unfold step
  cases h : s.frames with
  | nil => exact ⟨s, rfl, shows⟩
  | cons frame rest =>
    rw [h] at frames
    generalize a.replays = replays at frames
    cases frames with
    | @cons _ replay _ replays head tail =>
      have inside : InBuffer config frame.macroBuffer := by
        have := head.inside 0 (Nat.zero_le _)
        rwa [Int.natCast_zero, Int.mul_zero, Int.add_zero] at this
      dsimp only
      rw [store, if_pos inside]
      refine ⟨_, rfl, ?_⟩
      rcases undisturbed frame (by rw [h]; rfl) with same | free
      · rw [same, Function.update_eq_self]
        exact shows
      · rw [Needed, not_or] at free
        apply shows.update record
        · intro slot k bound here
          apply free.1
          refine ⟨slot, ?_⟩
          rw [shows.filledEnd_eq, ← here]
          exact place_before bound
        · intro frame member unread
          exact free.2 ⟨frame, member, unread⟩

end Shows

theorem step_shows (shows : Shows config s a) (input : Input) (undisturbed : Undisturbed config s input) :
    ∃ s', step config s input = some s' ∧ Shows config s' (a.step config input) := by
  cases input with
  | event keycode record layerState => exact shows.processDynamicMacro keycode record layerState undisturbed
  | written record => exact shows.written record undisturbed
  | returned => exact shows.returned

theorem initial_shows : Shows config (initial config) ⟨fun _ => [], none, [], []⟩ := by
  refine ⟨rfl, fun _ _ => nofun, ?_, fun _ => rfl, Nat.zero_le _, .nil, rfl⟩
  intro slot _
  cases slot <;> simp [State.endOf, initial, place]

end Buffer

/-- The condition of a step after a run, which is vacuous if the run left the buffer. -/
def UndisturbedAfter (config : Config) (earlier : List Input) (input : Input) : Prop :=
  ∀ s ∈ run config earlier, Undisturbed config s input

theorem run_shows (config : Config) (inputs : List Input)
    (undisturbed : EveryStep (UndisturbedAfter config) inputs) :
    ∃ s, run config inputs = some s ∧ Shows config s (Recorder.run config inputs) := by
  induction inputs using List.reverseRecOn with
  | nil => exact ⟨_, rfl, initial_shows⟩
  | append_singleton inputs input ih =>
    rw [everyStep_concat] at undisturbed
    obtain ⟨s, ran, shows⟩ := ih undisturbed.1
    obtain ⟨s', stepped, after⟩ := step_shows shows input (undisturbed.2 s ran)
    refine ⟨s', ?_, ?_⟩
    · rw [run, List.foldlM_append]
      show (run config inputs >>= fun s => [input].foldlM (step config) s) = some s'
      rw [ran]
      simpa using stepped
    · rw [Recorder.run, List.foldl_append]
      exact after

/-- In every run that is never disturbed, all accesses stay inside the buffer and the macros are
recorded and replayed as by the recorder. -/
theorem macros_recorded (config : Config) (inputs : List Input)
    (undisturbed : EveryStep (UndisturbedAfter config) inputs) (n : Nat) :
    ∃ s, run config (inputs.take n) = some s ∧ s.outputs = (Recorder.run config (inputs.take n)).outputs := by
  obtain ⟨s, ran, shows⟩ := run_shows config (inputs.take n) (undisturbed.take n)
  exact ⟨s, ran, shows.outputs⟩

/-! ## Runs -/

def eightRecords : Config where
  size := 8
  noNesting := false
  validKey _ _ := true

def keyA : KeyRecord := ⟨⟨0, 1, 0, true⟩, false, 0⟩

def oneShotKey : KeyRecord := ⟨⟨0, 2, 0, true⟩, false, 0⟩

def KeyRecord.released (record : KeyRecord) : KeyRecord := { record with event.pressed := false }

def tapped (keycode : Keycode) (record : KeyRecord) : List Input :=
  [.event keycode { record with event.pressed := true } 1, .event keycode record.released 1]

/-- Records the key and plays it. -/
def recordAndPlay : List Input :=
  tapped qkRecordStart1 default ++ tapped 4 keyA ++ tapped qkRecordStop default ++
    tapped qkPlay1 default ++ [.event 4 keyA 1, .returned, .event 4 keyA.released 1, .returned]

theorem undisturbed_event {config : Config} {s : State} (quiet : s.frames.isEmpty = true ∨ s.macroId = none)
    (keycode : Keycode) (record : KeyRecord) (layerState : BitVec 32) :
    Undisturbed config s (.event keycode record layerState) := by
  intro slot macroPointer stores frame member
  rcases quiet with none | idle
  · rw [List.isEmpty_iff.mp none] at member
    cases member
  · rw [Stores, idle] at stores
    exact nomatch stores.1

theorem recordAndPlay_undisturbed : EveryStep (UndisturbedAfter eightRecords) recordAndPlay := by
  intro index bound s member
  have quiet : ∀ index, index < recordAndPlay.length →
      ((run eightRecords (recordAndPlay.take index)).all fun s => s.frames.isEmpty || s.macroId.isNone) = true := by
    decide +kernel
  have now := quiet index bound
  rw [Option.mem_def.mp member, Option.all_some, Bool.or_eq_true, Option.isNone_iff_eq_none] at now
  have listed := List.getElem_mem bound
  cases input : recordAndPlay[index] with
  | event keycode record layerState => exact undisturbed_event now keycode record layerState
  | returned => exact True.intro
  | written record =>
    rw [input] at listed
    simp [recordAndPlay, tapped] at listed

theorem recordAndPlay_recorded : ∃ s, run eightRecords recordAndPlay = some s ∧
    s.outputs = (Recorder.run eightRecords recordAndPlay).outputs := by
  have recorded := macros_recorded eightRecords recordAndPlay recordAndPlay_undisturbed recordAndPlay.length
  rwa [List.take_length] at recorded

/-- A one-shot layer and a key on it.  The action of the key ends the layer, for which it makes the
record a release and processes it again. -/
def recordOneShot : List Input :=
  tapped qkRecordStart1 default ++ tapped 0x5281 oneShotKey ++
    [.event 4 keyA 2, .event 4 keyA.released 2, .event 4 keyA.released 1] ++ tapped qkRecordStop default

def playOneShot : List Input :=
  tapped qkPlay1 default ++
    [.event 0x5281 oneShotKey 1, .returned, .event 0x5281 oneShotKey.released 2, .returned,
      .event 4 keyA 2, .written keyA.released, .event 4 keyA.released 2, .returned,
      .event 4 keyA.released 1, .returned, .event 4 keyA.released 1, .returned]

/-- The second time, the macro has two releases of the key and no press. -/
theorem playOneShot_changes_macro :
    ¬ ∃ s, run eightRecords (recordOneShot ++ playOneShot ++ tapped qkPlay1 default ++ [.returned, .returned]) = some s ∧
      s.outputs = (Recorder.run eightRecords
        (recordOneShot ++ playOneShot ++ tapped qkPlay1 default ++ [.returned, .returned])).outputs := by
  have differs : (run eightRecords (recordOneShot ++ playOneShot ++ tapped qkPlay1 default ++ [.returned, .returned])).map
      State.outputs ≠ some (Recorder.run eightRecords
        (recordOneShot ++ playOneShot ++ tapped qkPlay1 default ++ [.returned, .returned])).outputs := by
    decide +kernel
  rintro ⟨s, ran, same⟩
  rw [ran, Option.map_some, same] at differs
  exact differs rfl

end QmkFirmware.DynamicMacro
