import QmkFirmware.Foundations.Runs
import QmkFirmware.Qmkata.FunctionUpload

/-! # The table of dynamic functions

Which load messages stay inside the code buffers and the function table, and which ones leave the
code of an installed function alone.
-/

namespace QmkFirmware.Qmkata

open QmkFirmware.Memory QmkFirmware.Traced

/-! ## Bounds -/

/-- An access to the code buffers or the function table that lies inside. -/
def PacketEvent.InTables : PacketEvent → Prop
  | .codeBuffer funId offset count => funId < dynldFunIdMax ∧ offset + count ≤ dynldFuncSize
  | .functionTable funId => funId < dynldFunIdMax
  | .read .. => True
  | .subtract .. => True

/-- A message for a function that exists, or one that is turned down before the id is used. -/
def Guarded (funId offset len : Nat) : Prop :=
  funId < dynldFunIdMax ∨ offset ≠ 0xFFFF ∧ offset + len ≤ dynldFuncSize

section Bounds

variable (data : Nat → UInt8) (s : Firmware)

theorem inTables_dynldFuncBufSet (funId offset : Nat) (bytes : List UInt8) :
    Always PacketEvent.InTables (dynldFuncBufSet funId offset bytes) s ↔
      funId < dynldFunIdMax ∧ offset + bytes.length ≤ dynldFuncSize := by
  rw [dynldFuncBufSet, always_bind, always_record, always_update, and_true]
  rfl

theorem inTables_funcSet (funId : Nat) (pointer : Option Nat) :
    Always PacketEvent.InTables (funcSet funId pointer) s ↔ funId < dynldFunIdMax := by
  rw [funcSet, always_bind, always_record, always_update, and_true]
  rfl

theorem inTables_clearFunction (funId : Nat) :
    Always PacketEvent.InTables (clearFunction funId) s ↔ funId < dynldFunIdMax := by
  rw [clearFunction, inTables_dynldFuncBufSet, List.length_replicate, Nat.zero_add]
  exact and_iff_left (Nat.le_refl _)

theorem inTables_pure (value : α) (t : Firmware) : Always PacketEvent.InTables (pure value : Handler α) t :=
  (always_pure _ value t).mpr trivial

theorem inTables_readBytes (index count : Nat) : Always PacketEvent.InTables (readBytes data index count) s := by
  rw [readBytes, always_bind, always_record]
  exact ⟨trivial, inTables_pure _ _⟩

theorem inTables_loadFunction (funId source offset len : Nat) :
    Always PacketEvent.InTables (loadFunction data funId source offset len) s ↔ Guarded funId offset len := by
  rw [loadFunction, Guarded]
  by_cases commit : offset = 0xFFFF
  · rw [if_pos commit, always_bind, always_record]
    constructor
    · exact fun inside => .inl inside.1.1
    · intro guarded
      have known := guarded.resolve_right fun late => late.1 commit
      refine ⟨⟨known, by decide⟩, ?_⟩
      rw [always_bind]
      refine ⟨(always_read _ _).mpr trivial, ?_⟩
      rw [always_ite]
      refine ⟨fun _ => ?_, fun _ => inTables_pure _ _⟩
      rw [always_bind]
      exact ⟨(inTables_funcSet _ _ _).mpr known, inTables_pure _ _⟩
  rw [if_neg commit]
  by_cases large : offset + len > dynldFuncSize
  · rw [if_pos large, always_bind, always_bind, inTables_clearFunction, inTables_funcSet]
    exact ⟨fun inside => .inl inside.1, fun guarded =>
      have known := guarded.resolve_right fun fits => Nat.not_le_of_gt large fits.2
      ⟨known, known, inTables_pure _ _⟩⟩
  rw [if_neg large]
  refine ⟨fun _ => .inr ⟨commit, Nat.le_of_not_gt large⟩, fun _ => ?_⟩
  by_cases unknown : funId ≥ dynldFunIdMax
  · rw [if_pos unknown]
    exact inTables_pure _ _
  rw [if_neg unknown]
  have known := Nat.lt_of_not_ge unknown
  have stored (t : Firmware) :
      Always PacketEvent.InTables (dynldFuncBufSet funId offset (slice data source len)) t := by
    rw [inTables_dynldFuncBufSet, length_slice]
    exact ⟨known, Nat.le_of_not_gt large⟩
  by_cases first : offset = 0
  · have copied (front : List UInt8) (t : Firmware) : Always PacketEvent.InTables (if front = [0, 0] then pure 0 else do
        dynldFuncBufSet funId offset (← readBytes data source len)
        pure 0 : Handler Int) t := by
      rw [always_ite]
      refine ⟨fun _ => inTables_pure _ _, fun _ => ?_⟩
      rw [always_bind, always_bind]
      exact ⟨inTables_readBytes data _ _ _, stored _, inTables_pure _ _⟩
    rw [if_pos first, always_bind, always_bind, inTables_funcSet, inTables_clearFunction]
    refine ⟨known, known, ?_⟩
    dsimp only
    rw [always_ite]
    refine ⟨fun _ => ?_, fun _ => ?_⟩
    · rw [always_bind]
      exact ⟨inTables_readBytes data _ _ _, copied _ _⟩
    · rw [always_bind]
      exact ⟨inTables_pure _ _, copied _ _⟩
  · rw [if_neg first, always_bind, always_bind]
    exact ⟨inTables_readBytes data _ _ _, stored _, inTables_pure _ _⟩

/-- The number of the function that a load message names, and its offset. -/
def requestedId (data : Nat → UInt8) (buf : Nat) : Nat := word16 (data buf) (data (buf + 1))

def requestedOffset (data : Nat → UInt8) (buf : Nat) : Nat := word16 (data (buf + 2)) (data (buf + 3))

/-- A load message touches the buffers and the table inside only, and an unknown function is turned
down. -/
structure LoadsInside (seqnum len : UInt8) (buf : Nat) (s : Firmware) : Prop where
  tables : Always PacketEvent.InTables (handleCmdSetDynldFunction data seqnum len buf) s
  refused : dynldFunIdMax ≤ requestedId data buf →
    (handleCmdSetDynldFunction data seqnum len buf s).state =
      { s with calls := s.calls ++ [.sendSysex qmkataCmdResponse [seqnum, qmkataIdDynldFunction, 0xFF]] }

theorem inTables_readByte (index : Nat) : Always PacketEvent.InTables (readByte data index) s := by
  rw [readByte, always_bind, always_record]
  exact ⟨trivial, inTables_pure _ _⟩

theorem inTables_subtractHeader (length header : UInt8) :
    Always PacketEvent.InTables (subtractHeader length header) s := by
  rw [subtractHeader, always_bind, always_record]
  exact ⟨trivial, inTables_pure _ _⟩

theorem inTables_handleCmdSetDynldFunction (seqnum len : UInt8) (buf : Nat) :
    Always PacketEvent.InTables (handleCmdSetDynldFunction data seqnum len buf) s ↔
      Guarded (requestedId data buf) (requestedOffset data buf) (len - 4).toNat := by
  have answered (payload : List UInt8) (t : Firmware) : Always PacketEvent.InTables (respond payload) t := nofun
  simp only [handleCmdSetDynldFunction, always_bind, inTables_readByte, inTables_subtractHeader, answered, true_and,
    and_true]
  exact inTables_loadFunction data _ _ _ _ _

/-- A message for an unknown function that is turned down changes nothing. -/
theorem loadFunction_unknown {funId offset len : Nat} (source : Nat) (unknown : dynldFunIdMax ≤ funId)
    (late : offset ≠ 0xFFFF) (fits : offset + len ≤ dynldFuncSize) :
    loadFunction data funId source offset len s = ⟨-1, s, []⟩ := by
  rw [loadFunction, if_neg late, if_neg (Nat.not_lt.mpr fits), if_pos unknown]
  rfl

/-- A load message stays inside the tables, and is turned down for an unknown function, unless it
commits or clears an unknown function. -/
theorem loadsInside_iff (seqnum len : UInt8) (buf : Nat) :
    (∀ s, LoadsInside data seqnum len buf s) ↔
      requestedId data buf < dynldFunIdMax ∨
        requestedOffset data buf ≠ 0xFFFF ∧ requestedOffset data buf + (len - 4).toNat ≤ dynldFuncSize := by
  constructor
  · intro inside
    exact (inTables_handleCmdSetDynldFunction data blankFirmware seqnum len buf).mp (inside blankFirmware).tables
  · intro guarded s
    refine ⟨(inTables_handleCmdSetDynldFunction data s seqnum len buf).mpr guarded, fun unknown => ?_⟩
    obtain ⟨late, fits⟩ := guarded.resolve_left (Nat.not_lt.mpr unknown)
    have load := loadFunction_unknown data s (buf + 4) unknown late fits
    show (respond [seqnum, qmkataIdDynldFunction,
      if (loadFunction data (requestedId data buf) (buf + 4) (requestedOffset data buf) (len - 4).toNat s).value = 0
      then 0 else 0xFF]
      (loadFunction data (requestedId data buf) (buf + 4) (requestedOffset data buf) (len - 4).toNat s).state).state = _
    rw [load]
    rfl

end Bounds

/-- A commit of the function 7. -/
def strayCommit (i : Nat) : UInt8 := [7, 0, 0xFF, 0xFF].getD i 0

/-- It looks into a code buffer that does not exist. -/
theorem strayCommit_outside : ¬ LoadsInside strayCommit 0 60 0 blankFirmware := by
  intro inside
  have guarded := (inTables_handleCmdSetDynldFunction strayCommit blankFirmware 0 60 0).mp inside.tables
  exact absurd guarded (by unfold Guarded; decide)

/-! ## Installed code -/

/-- The arguments of a call of `load_function`, for a function that exists or one that is turned down. -/
structure LoadCall where
  funId : Nat
  data : Nat → UInt8
  source : Nat
  offset : Nat
  len : Nat
  guarded : Guarded funId offset len

def LoadCall.bytes (call : LoadCall) : List UInt8 := slice call.data call.source call.len

/-- The firmware, and the code that each function had when its pointer was set last. -/
structure Loader where
  firmware : Firmware
  installed : Nat → Nat → UInt8

def LoadCall.run (loader : Loader) (call : LoadCall) : Loader :=
  let s := loader.firmware
  { firmware := (loadFunction call.data call.funId call.source call.offset call.len s).state
    installed :=
      if call.offset = 0xFFFF ∧ slice (s.dynldFuncBuf call.funId) 0 2 ≠ [0, 0] then
        Function.update loader.installed call.funId (s.dynldFuncBuf call.funId)
      else loader.installed }

def bootLoader : Loader := ⟨blankFirmware, fun _ _ => 0⟩

def runLoads (calls : List LoadCall) : Loader := calls.foldl LoadCall.run bootLoader

/-- The code of every installed function is the code that was installed. -/
def Loader.Live (loader : Loader) : Prop :=
  ∀ funId, loader.firmware.func funId ≠ none →
    ∀ i < dynldFuncSize, loader.firmware.dynldFuncBuf funId i = loader.installed funId i

/-- Only functions that exist are installed. -/
def Loader.Known (loader : Loader) : Prop := ∀ funId, loader.firmware.func funId ≠ none → funId < dynldFunIdMax

/-- A chunk behind the first one is for a function that is not installed, or repeats its code. -/
def LoadCall.Spares (loader : Loader) (call : LoadCall) : Prop :=
  call.offset ≠ 0 → call.offset + call.len ≤ dynldFuncSize → loader.firmware.func call.funId ≠ none →
    slice (loader.firmware.dynldFuncBuf call.funId) call.offset call.len = call.bytes

section Steps

variable {loader : Loader} {call : LoadCall}

/-- A commit installs the code in the buffer, unless it begins with two zeros. -/
theorem run_commit (commit : call.offset = 0xFFFF) :
    call.run loader =
      if slice (loader.firmware.dynldFuncBuf call.funId) 0 2 ≠ [0, 0] then
        ⟨{ loader.firmware with func := Function.update loader.firmware.func call.funId (some call.funId) },
          Function.update loader.installed call.funId (loader.firmware.dynldFuncBuf call.funId)⟩
      else loader := by
  by_cases code : slice (loader.firmware.dynldFuncBuf call.funId) 0 2 ≠ [0, 0]
  · rw [if_pos code, LoadCall.run, if_pos ⟨commit, code⟩, loadFunction, if_pos commit]
    simp only [bind_state]
    split
    · rfl
    · rename_i blank
      exact absurd code blank
  · rw [if_neg code, LoadCall.run, if_neg fun both => code both.2, loadFunction, if_pos commit]
    simp only [bind_state]
    split
    · rename_i loaded
      exact absurd loaded code
    · rfl

/-- A chunk that is too large, or the first one, removes the pointer. -/
theorem run_removes (loader : Loader) (removes : call.offset ≠ 0xFFFF ∧ dynldFuncSize < call.offset + call.len ∨
      call.offset = 0 ∧ call.offset + call.len ≤ dynldFuncSize ∧ call.funId < dynldFunIdMax) :
    ∃ buffer, call.run loader =
      ⟨{ loader.firmware with
          dynldFuncBuf := Function.update loader.firmware.dynldFuncBuf call.funId buffer
          func := Function.update loader.firmware.func call.funId none }, loader.installed⟩ := by
  rcases removes with ⟨late, large⟩ | ⟨first, fits, known⟩
  · rw [LoadCall.run, if_neg fun both => late both.1, loadFunction, if_neg late, if_pos large]
    exact ⟨_, rfl⟩
  · have late : call.offset ≠ 0xFFFF := by omega
    rw [LoadCall.run, if_neg fun both => late both.1, loadFunction, if_neg late, if_neg (Nat.not_lt.mpr fits),
      if_neg (Nat.not_le.mpr known), if_pos first]
    -- what follows the reset only writes to the buffer
    have filled (front : List UInt8) (t : Firmware) : ∃ buffer, ((if front = [0, 0] then pure 0 else do
        dynldFuncBufSet call.funId call.offset (← readBytes call.data call.source call.len)
        pure 0 : Handler Int) t).state =
          { t with dynldFuncBuf := Function.update t.dynldFuncBuf call.funId buffer } := by
      split
      · exact ⟨t.dynldFuncBuf call.funId, by rw [Function.update_eq_self]; rfl⟩
      · exact ⟨_, rfl⟩
    have reset (front : List UInt8) : ∃ buffer, ((if front = [0, 0] then pure 0 else do
        dynldFuncBufSet call.funId call.offset (← readBytes call.data call.source call.len)
        pure 0 : Handler Int) (clearFunction call.funId (funcSet call.funId none loader.firmware).state).state).state =
          { loader.firmware with
            dynldFuncBuf := Function.update loader.firmware.dynldFuncBuf call.funId buffer
            func := Function.update loader.firmware.func call.funId none } := by
      obtain ⟨buffer, done⟩ := filled front (clearFunction call.funId (funcSet call.funId none loader.firmware).state).state
      refine ⟨buffer, done.trans ?_⟩
      have twice := Function.update_idem (f := loader.firmware.dynldFuncBuf) (a := call.funId)
        (blit (loader.firmware.dynldFuncBuf call.funId) 0 (List.replicate dynldFuncSize 0)) buffer
      exact congrArg (fun buffers => { loader.firmware with
        dynldFuncBuf := buffers, func := Function.update loader.firmware.func call.funId none }) twice
    by_cases several : call.len ≥ 2
    · obtain ⟨buffer, done⟩ := reset (slice call.data call.source 2)
      refine ⟨buffer, congrArg (Loader.mk · loader.installed) (Eq.trans ?_ done)⟩
      simp only [bind_state, if_pos several]
      rfl
    · obtain ⟨buffer, done⟩ := reset []
      refine ⟨buffer, congrArg (Loader.mk · loader.installed) (Eq.trans ?_ done)⟩
      simp only [bind_state, if_neg several]
      rfl

/-- Another chunk is copied into the buffer. -/
theorem run_copies (behind : call.offset ≠ 0) (fits : call.offset + call.len ≤ dynldFuncSize)
    (known : call.funId < dynldFunIdMax) :
    call.run loader =
      ⟨{ loader.firmware with
          dynldFuncBuf := Function.update loader.firmware.dynldFuncBuf call.funId
            (blit (loader.firmware.dynldFuncBuf call.funId) call.offset call.bytes) }, loader.installed⟩ := by
  have late : call.offset ≠ 0xFFFF := by
    rw [dynldFuncSize] at fits
    omega
  rw [LoadCall.run, if_neg fun both => late both.1, loadFunction, if_neg late, if_neg (Nat.not_lt.mpr fits),
    if_neg (Nat.not_le.mpr known), if_neg behind]
  rfl

theorem run_unknown (unknown : dynldFunIdMax ≤ call.funId) : call.run loader = loader := by
  obtain ⟨late, fits⟩ := call.guarded.resolve_left (Nat.not_lt.mpr unknown)
  rw [LoadCall.run, loadFunction_unknown _ _ _ unknown late fits, if_neg fun both => late both.1]

/-- The kinds of calls, by what they do. -/
theorem call_cases (call : LoadCall) :
    call.offset = 0xFFFF ∨
      (call.offset ≠ 0xFFFF ∧ dynldFuncSize < call.offset + call.len ∨
        call.offset = 0 ∧ call.offset + call.len ≤ dynldFuncSize ∧ call.funId < dynldFunIdMax) ∨
      dynldFunIdMax ≤ call.funId ∨
      call.offset ≠ 0 ∧ call.offset + call.len ≤ dynldFuncSize ∧ call.funId < dynldFunIdMax := by
  by_cases known : call.funId < dynldFunIdMax
  · have fits := Nat.lt_or_ge dynldFuncSize (call.offset + call.len)
    tauto
  · exact .inr (.inr (.inl (Nat.le_of_not_lt known)))

theorem known_run (known : loader.Known) : (call.run loader).Known := by
  intro funId installed
  by_cases this : funId = call.funId
  · by_contra unknown
    rw [run_unknown (by omega)] at installed
    exact unknown (known funId installed)
  refine known funId ?_
  rcases call_cases call with commit | removes | unknown | ⟨behind, fits, exist⟩
  · rw [run_commit commit] at installed
    split at installed
    · dsimp only at installed
      rwa [Function.update_of_ne this] at installed
    · exact installed
  · obtain ⟨buffer, run⟩ := run_removes loader removes
    rw [run] at installed
    dsimp only at installed
    rwa [Function.update_of_ne this] at installed
  · rwa [run_unknown unknown] at installed
  · rwa [run_copies behind fits exist] at installed

/-- The live code stays what it is exactly if the call spares it. -/
theorem live_run (known : loader.Known) (live : loader.Live) : (call.run loader).Live ↔ call.Spares loader := by
  rcases call_cases call with commit | removes | unknown | ⟨behind, fits, exist⟩
  · refine ⟨fun _ _ fits => absurd fits (by rw [commit, dynldFuncSize]; omega), fun _ => ?_⟩
    rw [run_commit commit]
    split
    · intro funId installed i inside
      by_cases this : funId = call.funId
      · subst this
        dsimp only
        rw [Function.update_self]
      · dsimp only at installed ⊢
        rw [Function.update_of_ne this] at installed ⊢
        exact live funId installed i inside
    · exact live
  · refine ⟨fun _ => ?_, fun _ => ?_⟩
    · rcases removes with ⟨-, large⟩ | ⟨first, -, -⟩
      · exact fun _ fits => absurd fits (Nat.not_le.mpr large)
      · exact fun behind => absurd first behind
    · obtain ⟨buffer, run⟩ := run_removes loader removes
      rw [run]
      intro funId installed i inside
      dsimp only at installed ⊢
      by_cases this : funId = call.funId
      · subst this
        rw [Function.update_self] at installed
        exact absurd rfl installed
      · rw [Function.update_of_ne this] at installed ⊢
        exact live funId installed i inside
  · rw [run_unknown unknown]
    exact iff_of_true live fun _ _ installed => absurd (known _ installed) (Nat.not_lt.mpr unknown)
  · have size : call.bytes.length = call.len := length_slice _ _ _
    rw [run_copies behind fits exist]
    constructor
    · intro live' _ _ installed
      -- both before and after, the buffer holds what was installed
      have same : ∀ i < dynldFuncSize, loader.firmware.dynldFuncBuf call.funId i =
          blit (loader.firmware.dynldFuncBuf call.funId) call.offset call.bytes i := by
        intro i inside
        have after := live' call.funId installed i inside
        dsimp only at after
        rw [Function.update_self] at after
        exact (live call.funId installed i inside).trans after.symm
      have written := slice_blit (loader.firmware.dynldFuncBuf call.funId) call.offset call.bytes
      rw [size] at written
      exact (slice_congr fun i _ below => same i (by omega)).trans written
    · intro spares funId installed i inside
      dsimp only at installed ⊢
      by_cases this : funId = call.funId
      · subst this
        have repeated := blit_slice (loader.firmware.dynldFuncBuf call.funId) call.offset call.len
        rw [spares behind fits installed] at repeated
        rw [Function.update_self, repeated]
        exact live call.funId installed i inside
      · rw [Function.update_of_ne this]
        exact live funId installed i inside

end Steps

/-- In every run, installed code is never overwritten, exactly if every call spares it. -/
theorem live_iff_spares (calls : List LoadCall) :
    (∀ n, (runLoads (calls.take n)).Live) ↔
      Runs.EveryStep (fun earlier call => call.Spares (runLoads earlier)) calls := by
  have booted (funId : Nat) : bootLoader.firmware.func funId = none := rfl
  exact @Runs.forall_take_iff_everyStep Loader LoadCall LoadCall.run bootLoader Loader.Known Loader.Live
    (fun loader call => call.Spares loader) (fun funId installed => absurd (booted funId) installed)
    (fun funId installed => absurd (booted funId) installed)
    (fun _ _ known => known_run known) (fun _ _ known live => live_run known live) calls

/-- A return instruction, its commit, and a chunk at the offset 2. -/
def patchedFunction : List LoadCall :=
  [⟨1, fun i => [0x70, 0x47].getD i 0, 0, 0, 4, .inl (by decide)⟩, ⟨1, fun _ => 0, 0, 0xFFFF, 0, .inl (by decide)⟩,
    ⟨1, fun _ => 1, 0, 2, 2, .inl (by decide)⟩]

/-- The function is still installed when its code changes. -/
theorem patchedFunction_changes : ¬ ∀ n, (runLoads (patchedFunction.take n)).Live := by
  intro live
  exact absurd (live 3 1 (by decide) 2 (by decide)) (by decide)

end QmkFirmware.Qmkata
