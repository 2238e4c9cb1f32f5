import QmkFirmware.Painter.QgfRoundTrip

/-! # Saved images

An image that was saved is accepted, and every frame is prepared with what was written for it.  Saving fails
exactly where a delta frame is taken without compression.
-/

namespace QmkFirmware.Painter

open Reader Writer

/-! ## The file -/

section Saved

variable {Frame : Type} (pil : Imaging Frame) (options : SaveOptions) (format : PixelFormat)

/-- What is written for the frames that follow `lastFrame`. -/
def chooseFrames : Option Frame → List Frame → Option (List FrameContent)
  | _, [] => some []
  | lastFrame, frame :: frames => do
    let content ← chooseFrame pil options format frame lastFrame
    let contents ← chooseFrames (some frame) frames
    some (content :: contents)

/-- Where the frames begin, if the first one begins at `start`. -/
def offsetsFrom : (start : Nat) → List FrameContent → List Nat
  | _, [] => []
  | start, content :: contents => start :: offsetsFrom (start + (contentBlocks content).length) contents

def firstOffset (contents : List FrameContent) : Nat := 28 + contents.length * 4

def fileSize (contents : List FrameContent) : Nat := firstOffset contents + (contents.flatMap contentBlocks).length

def savedFile (size : Nat × Nat) (contents : List FrameContent) : List Byte :=
  graphicsBlock ⟨size.1, size.2, contents.length, fileSize contents⟩ ++
    (offsetsBlock (offsetsFrom (firstOffset contents) contents) ++ contents.flatMap contentBlocks)

@[simp] theorem length_offsetsFrom (start : Nat) (contents : List FrameContent) :
    (offsetsFrom start contents).length = contents.length := by
  induction contents generalizing start with
  | nil => rfl
  | cons content contents ih => rw [offsetsFrom, List.length_cons, ih, List.length_cons]

theorem offsetsFrom_le {start : Nat} {contents : List FrameContent} :
    ∀ offset ∈ offsetsFrom start contents, offset ≤ start + (contents.flatMap contentBlocks).length := by
  induction contents generalizing start with
  | nil => exact List.forall_mem_nil _
  | cons content contents ih =>
    rw [offsetsFrom, List.flatMap_cons, List.length_append]
    refine List.forall_mem_cons.mpr ⟨Nat.le_add_right _ _, fun offset member => ?_⟩
    have later := ih offset member
    omega

@[simp] theorem length_graphicsBlock (descriptor : GraphicsDescriptor) : (graphicsBlock descriptor).length = 23 := by
  simp [graphicsBlock, o8]

@[simp] theorem length_offsetsBlock (frameOffsets : List Nat) :
    (offsetsBlock frameOffsets).length = 5 + frameOffsets.length * 4 := by
  have entries : (frameOffsets.flatMap (pack 4)).length = frameOffsets.length * 4 := by
    rw [List.length_flatMap]
    simp
  rw [offsetsBlock, List.length_append, length_blockHeader, entries]

theorem length_savedFile (size : Nat × Nat) (contents : List FrameContent) :
    (savedFile size contents).length = fileSize contents := by
  rw [savedFile, List.length_append, List.length_append, length_graphicsBlock, length_offsetsBlock, length_offsetsFrom,
    fileSize, firstOffset]
  omega

theorem chooseFrames_length {lastFrame : Option Frame} {frames : List Frame} {contents : List FrameContent}
    (chosen : chooseFrames pil options format lastFrame frames = some contents) : contents.length = frames.length := by
  induction frames generalizing lastFrame contents with
  | nil =>
    cases chosen
    rfl
  | cons frame frames ih =>
    obtain ⟨content, -, chosen⟩ := Option.bind_eq_some_iff.mp chosen
    obtain ⟨others, later, same⟩ := Option.bind_eq_some_iff.mp chosen
    cases same
    rw [List.length_cons, ih later, List.length_cons]

/-! ## Saving -/

theorem bind_some {α β : Type} {x : Writer α} {f : α → Writer β} {file next : OutputFile} {a : α}
    (h : x file = some (a, next)) : (x >>= f) file = f a next := by
  show (x file).bind (fun (a, file) => f a file) = _
  rw [h]
  rfl

theorem writeFrames_eq {lastFrame : Option Frame} {frames : List Frame} {contents : List FrameContent}
    (chosen : chooseFrames pil options format lastFrame frames = some contents)
    (fits : ∀ content ∈ contents, content.Fits) (done others : List Nat) (same : others.length = frames.length)
    (bytes : List Byte) :
    writeFrames pil options format done.length lastFrame frames (done ++ others) ⟨bytes, bytes.length⟩ =
      some (done ++ offsetsFrom bytes.length contents,
        ⟨bytes ++ contents.flatMap contentBlocks, (bytes ++ contents.flatMap contentBlocks).length⟩) := by
  induction frames generalizing lastFrame contents done others bytes with
  | nil =>
    cases chosen
    rw [List.length_eq_zero_iff.mp same, List.flatMap_nil, List.append_nil, List.append_nil, offsetsFrom, List.append_nil]
    rfl
  | cons frame frames ih =>
    obtain ⟨content, first, chosen⟩ := Option.bind_eq_some_iff.mp chosen
    obtain ⟨rest, later, same'⟩ := Option.bind_eq_some_iff.mp chosen
    cases same'
    obtain ⟨here, fits⟩ := List.forall_mem_cons.mp fits
    obtain ⟨entry, others, rfl⟩ := List.exists_cons_of_length_eq_add_one same
    have lifted : (liftM (chooseFrame pil options format frame lastFrame) : Writer FrameContent) ⟨bytes, bytes.length⟩ =
        some (content, ⟨bytes, bytes.length⟩) := by
      rw [first]
      rfl
    have set : (done ++ entry :: others).set done.length bytes.length = (done ++ [bytes.length]) ++ others := by
      simp
    rw [writeFrames, bind_some lifted, bind_some (show Writer.tell _ = some (bytes.length, _) from rfl), set,
      bind_some ((content_puts here).append bytes)]
    have next := ih later fits (done ++ [bytes.length]) others (by simpa using same) (bytes ++ contentBlocks content)
    have index : (done ++ [bytes.length]).length = done.length + 1 := by simp
    have behind : (bytes ++ contentBlocks content).length = bytes.length + (contentBlocks content).length :=
      List.length_append
    rw [index] at next
    rw [next, offsetsFrom, List.flatMap_cons, behind]
    simp only [List.append_assoc, List.singleton_append]

/-- The numbers of an image fit into their fields, and its size into the `int32_t` of a stream. -/
structure InRange (frames : List Frame) : Prop where
  size : ∀ frame ∈ frames, (pil.size frame).1 < 2 ^ 16 ∧ (pil.size frame).2 < 2 ^ 16
  count : frames.length < 2 ^ 16
  delay : ∀ frame ∈ frames, (pil.duration frame).getD 1000 < 2 ^ 16
  small : ∀ contents, chooseFrames pil options format none frames = some contents → fileSize contents < 2 ^ 31

variable {pil options format}

theorem sizes_dedup {frames : List Frame} {size : Nat × Nat} (some : frames ≠ [])
    (same : ∀ frame ∈ frames, pil.size frame = size) : (frames.map pil.size).dedup = [size] := by
  have constant : frames.map pil.size = List.replicate frames.length size := by
    refine List.eq_replicate_iff.mpr ⟨List.length_map _, fun other member => ?_⟩
    obtain ⟨frame, here, rfl⟩ := List.mem_map.mp member
    exact same frame here
  rw [constant, List.replicate_dedup (mt List.length_eq_zero_iff.mp some)]

theorem save_eq {frames : List Frame} {size : Nat × Nat} {contents : List FrameContent} (nonempty : frames ≠ [])
    (same : ∀ frame ∈ frames, pil.size frame = size) (range : InRange pil options format frames)
    (chosen : chooseFrames pil options format none frames = some contents) (fits : ∀ content ∈ contents, content.Fits) :
    save pil options format frames = some (savedFile size contents) := by
  have count := chooseFrames_length pil options format chosen
  have few : contents.length < 2 ^ 16 := by rw [count]; exact range.count
  have small := range.small contents chosen
  have first : (frames.map pil.size).headD (0, 0) = size := by
    obtain ⟨frame, others, rfl⟩ := List.exists_cons_of_ne_nil nonempty
    exact same frame List.mem_cons_self
  have fields : size.1 < 2 ^ 16 ∧ size.2 < 2 ^ 16 := by
    obtain ⟨frame, others, rfl⟩ := List.exists_cons_of_ne_nil nonempty
    rw [← same frame List.mem_cons_self]
    exact range.size frame List.mem_cons_self
  let written (total : Nat) : GraphicsDescriptor := ⟨size.1, size.2, contents.length, total⟩
  let blank := List.replicate contents.length 0xFFFFFFFF
  let offsets := offsetsFrom (firstOffset contents) contents
  let blocks := contents.flatMap contentBlocks
  have puts (total : Nat) (fits : total < 2 ^ 32) : Puts (written total).write (graphicsBlock (written total)) :=
    graphics_puts _ fits fields.1 fields.2 few
  have blanks : Puts (writeFrameOffsets blank) (offsetsBlock blank) :=
    offsets_puts blank fun offset member => by rw [List.eq_of_mem_replicate member]; decide
  have filled : Puts (writeFrameOffsets offsets) (offsetsBlock offsets) :=
    offsets_puts offsets fun offset member =>
      Nat.lt_of_le_of_lt (offsetsFrom_le offset member) (Nat.lt_trans small (by decide))
  -- both blocks are written with placeholders first, and over them in the end
  have graphics := (puts 0 (by decide)).append []
  rw [List.nil_append] at graphics
  have placeholders := blanks.append (graphicsBlock (written 0))
  have start : (graphicsBlock (written 0) ++ offsetsBlock blank).length = firstOffset contents := by
    rw [List.length_append, length_graphicsBlock, length_offsetsBlock, List.length_replicate, firstOffset]
    omega
  have written' := writeFrames_eq pil options format chosen fits [] blank (by rw [List.length_replicate, count])
    (graphicsBlock (written 0) ++ offsetsBlock blank)
  have total : (graphicsBlock (written 0) ++ offsetsBlock blank ++ blocks).length = fileSize contents := by
    rw [List.length_append, start, fileSize]
  rw [start, List.nil_append, List.nil_append, total] at written'
  have again := (puts (fileSize contents) (Nat.lt_trans small (by decide))).replace [] (offsetsBlock blank ++ blocks)
    ((length_graphicsBlock (written 0)).trans (length_graphicsBlock _).symm)
  have offsetsAgain := filled.replace (graphicsBlock (written (fileSize contents))) blocks
    (show (offsetsBlock blank).length = (offsetsBlock offsets).length by simp [blank, offsets])
  rw [length_graphicsBlock] at graphics placeholders offsetsAgain
  rw [List.nil_append, ← List.append_assoc, List.nil_append, List.nil_append, length_graphicsBlock] at again
  have run : ∃ position, saveInto pil options format frames ⟨[], 0⟩ = some ((), ⟨savedFile size contents, position⟩) := by
    rw [saveInto]
    dsimp only
    rw [sizes_dedup nonempty same, if_pos (show [size].length = 1 from rfl), first, List.length_map, ← count]
    have told (file : OutputFile) : Writer.tell file = some (file.position, file) := rfl
    have sought (position : Nat) (file : OutputFile) :
        Writer.seek position file = some ((), { file with position := position }) := rfl
    refine ⟨(graphicsBlock (written (fileSize contents)) ++ offsetsBlock offsets).length, ?_⟩
    refine (bind_some (show (pure () : Writer Unit) ⟨[], 0⟩ = some ((), ⟨[], 0⟩) from rfl)).trans ?_
    refine (bind_some (told _)).trans ?_
    refine (bind_some graphics).trans ?_
    refine (bind_some (told _)).trans ?_
    refine (bind_some placeholders).trans ?_
    rw [start]
    refine (bind_some written').trans ?_
    refine (bind_some (told _)).trans ?_
    refine (bind_some (sought _ _)).trans ?_
    refine (bind_some again).trans ?_
    exact (bind_some (sought _ _)).trans offsetsAgain
  obtain ⟨position, run⟩ := run
  rw [save, run]
  rfl

theorem bind_none {α β : Type} {x : Writer α} {f : α → Writer β} (fails : ∀ a file, f a file = none)
    (file : OutputFile) : (x >>= f) file = none := by
  show (x file).bind (fun (a, file) => f a file) = none
  cases x file with
  | none => rfl
  | some result => exact fails result.1 result.2

theorem writeFrames_raises {idx : Nat} {lastFrame : Option Frame} {frames : List Frame} {offsets : List Nat}
    (unchosen : chooseFrames pil options format lastFrame frames = none) (file : OutputFile) :
    writeFrames pil options format idx lastFrame frames offsets file = none := by
  induction frames generalizing idx lastFrame offsets file with
  | nil => cases unchosen
  | cons frame frames ih =>
    rw [writeFrames]
    cases chosen : chooseFrame pil options format frame lastFrame with
    | none => rfl
    | some content =>
      refine bind_none (fun content' file => bind_none (fun position file => bind_none (fun _ file => ih ?_ file) file) file) file
      rw [chooseFrames, chosen] at unchosen
      cases rest : chooseFrames pil options format (some frame) frames with
      | none => rfl
      | some contents =>
        rw [rest] at unchosen
        cases unchosen

theorem save_raises {frames : List Frame} (unchosen : chooseFrames pil options format none frames = none) :
    save pil options format frames = none := by
  have raises (offsets : List Nat) (file : OutputFile) :
      writeFrames pil options format 0 none frames offsets file = none := writeFrames_raises unchosen file
  have stops {β : Type} (f : List Nat → Writer β) (offsets : List Nat) (file : OutputFile) :
      (writeFrames pil options format 0 none frames offsets >>= f) file = none := by
    show (writeFrames pil options format 0 none frames offsets file).bind _ = none
    rw [raises]
    rfl
  have raised : saveInto pil options format frames ⟨[], 0⟩ = none :=
    bind_none (fun _ file => bind_none (fun _ file => bind_none (fun _ file => bind_none (fun _ file =>
      bind_none (fun _ file => stops _ _ file) file) file) file) file) _
  rw [save, raised]
  rfl

/-! ## Reading the file -/

theorem field_behind (front rest : List Byte) (offset count : Nat) :
    field (front ++ rest) (front.length + offset) count = field rest offset count := by
  rw [← field_drop, List.drop_left]

theorem entry_field {offsets : List Nat} {n offset : Nat} (entry : offsets[n]? = some offset) (rest : List Byte) :
    field (offsets.flatMap (pack 4) ++ rest) (n * 4) 4 = offset % 256 ^ 4 := by
  induction offsets generalizing n with
  | nil => simp at entry
  | cons first offsets ih =>
    rw [List.flatMap_cons, List.append_assoc]
    cases n with
    | zero =>
      cases entry
      exact field_here
    | succ n =>
      rw [field_skip (by omega), Nat.succ_mul, Nat.add_sub_cancel]
      exact ih entry

/-- The offset of a frame leads to its blocks. -/
theorem offset_leads {contents : List FrameContent} {n start : Nat} {content : FrameContent}
    (here : contents[n]? = some content) :
    ∃ front rest, (offsetsFrom start contents)[n]? = some (start + front.length) ∧
      contents.flatMap contentBlocks = front ++ (contentBlocks content ++ rest) := by
  induction contents generalizing n start with
  | nil => simp at here
  | cons first contents ih =>
    rw [offsetsFrom, List.flatMap_cons]
    cases n with
    | zero =>
      cases here
      exact ⟨[], contents.flatMap contentBlocks, rfl, rfl⟩
    | succ n =>
      have later := @ih n (start + (contentBlocks first).length) here
      obtain ⟨front, rest, entry, split⟩ := later
      refine ⟨contentBlocks first ++ front, rest, ?_, ?_⟩
      · rw [List.getElem?_cons_succ, entry, List.length_append, Nat.add_assoc]
      · rw [split, List.append_assoc]

variable {size : Nat × Nat} {contents : List FrameContent}

theorem saved_graphics (count : contents.length < 2 ^ 16) (small : fileSize contents < 2 ^ 31) :
    GraphicsAt (savedFile size contents) ∧ frameCount (savedFile size contents) = contents.length := by
  have total : field (savedFile size contents) 9 4 = fileSize contents := by
    simp [savedFile, graphicsBlock, blockHeader, o8, field_skip]
    omega
  have negated : field (savedFile size contents) 13 4 = (~~~BitVec.ofNat 32 (fileSize contents)).toNat := by
    have fits : (~~~BitVec.ofNat 32 (fileSize contents)).toNat < 2 ^ 32 := BitVec.isLt _
    simp only [savedFile, graphicsBlock, blockHeader, o8, List.append_assoc, field_skip, Nat.reduceLeDiff, Nat.reduceSub,
      field_here]
    exact Nat.mod_eq_of_lt fits
  have counted : field (savedFile size contents) 21 2 = contents.length := by
    simp [savedFile, graphicsBlock, blockHeader, o8, field_skip]
    omega
  refine ⟨⟨⟨?_, ?_⟩, ⟨?_, ?_⟩, by rw [total, negated]⟩, counted⟩
  · rw [length_savedFile, fileSize, firstOffset]
    omega
  · rw [List.drop_zero, savedFile, graphicsBlock, List.append_assoc]
    exact validateBlockHeader_written 0x00 18 18 (.inr rfl)
  · simp [savedFile, graphicsBlock, blockHeader, o8, field_skip]
  · simp [savedFile, graphicsBlock, blockHeader, o8, field_skip]

/-- Every frame of a saved file is found. -/
theorem saved_frame (count : contents.length < 2 ^ 16) (small : fileSize contents < 2 ^ 31) {n : Nat}
    {content : FrameContent} (here : contents[n]? = some content) :
    FrameThere (savedFile size contents) n content := by
  obtain ⟨graphics, counted⟩ := @saved_graphics size contents count small
  obtain ⟨front, rest, entry, split⟩ := @offset_leads contents n (firstOffset contents) content here
  have inside : n < contents.length := (List.getElem?_eq_some_iff.mp here).1
  have long := congrArg List.length split
  rw [List.length_append] at long
  have offsetSmall : firstOffset contents + front.length ≤ fileSize contents := by
    rw [fileSize]
    omega
  have placed : entryPosition (savedFile size contents) n = 28 + n * 4 := by
    refine if_pos ?_
    rw [length_savedFile, fileSize, firstOffset]
    omega
  have offset : field (savedFile size contents) (28 + n * 4) 4 = firstOffset contents + front.length := by
    have behind : 28 + n * 4 = (graphicsBlock ⟨size.1, size.2, contents.length, fileSize contents⟩ ++
        blockHeader 0x01 ((offsetsFrom (firstOffset contents) contents).length * 4)).length + n * 4 := by simp
    rw [savedFile, offsetsBlock, List.append_assoc, ← List.append_assoc, behind, field_behind, entry_field entry]
    exact Nat.mod_eq_of_lt (by omega)
  have header : HeaderAt (savedFile size contents) 23 0x01 (frameCount (savedFile size contents) * 4 : Nat) 0 := by
    rw [counted]
    refine ⟨?_, ?_⟩
    · rw [length_savedFile, fileSize, firstOffset]
      omega
    · rw [savedFile, List.drop_left' (length_graphicsBlock _), offsetsBlock, List.append_assoc, length_offsetsFrom]
      refine validateBlockHeader_written 0x01 (contents.length * 4) _ (.inr ?_)
      rw [Nat.mod_eq_of_lt (by omega)]
  have found (position : Nat) : readFrameOffset n (savedFile size contents) position =
      (some (field (savedFile size contents) (entryPosition (savedFile size contents) n) 4),
        entryPosition (savedFile size contents) n + 4) := by
    refine readFrameOffset_eq_some.mpr ⟨graphics, header, by rw [counted]; exact inside, ?_, rfl, rfl⟩
    rw [placed, length_savedFile, fileSize, firstOffset]
    omega
  have start : (graphicsBlock ⟨size.1, size.2, contents.length, fileSize contents⟩ ++
      offsetsBlock (offsetsFrom (firstOffset contents) contents)).length = firstOffset contents := by
    rw [List.length_append, length_graphicsBlock, length_offsetsBlock, length_offsetsFrom, firstOffset]
    omega
  refine ⟨firstOffset contents + front.length, rest, ?_, ?_, fun position => ?_⟩
  · rw [length_savedFile]
    exact offsetSmall
  · rw [savedFile, ← List.append_assoc, ← List.drop_drop, List.drop_left' start, split, List.drop_left]
  · rw [seekToFrameDescriptor, found]
    dsimp only
    rw [seekSet_eq, Option.getD_some, placed, offset, asInt32_eq (by omega), length_savedFile,
      if_pos ⟨Int.natCast_nonneg _, by exact_mod_cast offsetSmall⟩, Int.toNat_natCast]

/-! ## What is chosen -/

theorem encode_bytes (data : List Byte) : ∀ c ∈ (encode options data).data, c < 256 := by
  have raw : ∀ c ∈ data.map BitVec.toNat, c < 256 := by
    intro c member
    obtain ⟨byte, -, rfl⟩ := List.mem_map.mp member
    exact byte.isLt
  rw [encode]
  split
  · exact raw
  · exact imageData_lt .compressedRle raw

theorem frameContent_of {original thisFrame : Frame} {delta : Option Box}
    (delay : (pil.duration original).getD 1000 < 2 ^ 16)
    (place : ∀ box, delta = some box → box.right ≤ 2 ^ 16 ∧ box.bottom ≤ 2 ^ 16) :
    (frameContent pil options format original thisFrame delta).Of format where
  fits := ⟨delay, place, encode_bytes _⟩
  named := rfl
  compression := by
    rw [frameContent]
    dsimp only
    split <;> decide
  hasPalette := by
    rw [frameContent, palette]
    cases format.hasPalette <;> rfl
  full := by
    intro entries written
    rw [frameContent, palette] at written
    dsimp only at written
    split at written
    · rw [← Option.some.inj written, List.length_map, List.length_map, List.length_range]
    · cases written

/-- A frame is written whole, or as the part in which it differs. -/
theorem chooseFrame_cases {frame : Frame} {lastFrame : Option Frame} {content : FrameContent}
    (chosen : chooseFrame pil options format frame lastFrame = some content) :
    content = frameContent pil options format frame frame none ∨
      ∃ before bbox, pil.differenceBox frame before = some bbox ∧
        content = frameContent pil options format frame (pil.crop frame bbox) (some bbox) := by
  rw [chooseFrame] at chosen
  split at chosen
  · exact .inl (Option.some.inj chosen).symm
  · rename_i before _
    split at chosen
    · exact .inl (Option.some.inj chosen).symm
    · rename_i bbox differs
      dsimp only at chosen
      split at chosen
      · split at chosen
        · exact .inr ⟨before, bbox, differs, (Option.some.inj chosen).symm⟩
        · cases chosen
      · exact .inl (Option.some.inj chosen).symm

theorem chooseFrames_of {lastFrame : Option Frame} {frames : List Frame} {contents : List FrameContent}
    (delays : ∀ frame ∈ frames, (pil.duration frame).getD 1000 < 2 ^ 16)
    (sizes : ∀ frame ∈ frames, (pil.size frame).1 < 2 ^ 16 ∧ (pil.size frame).2 < 2 ^ 16)
    (chosen : chooseFrames pil options format lastFrame frames = some contents) :
    ∀ content ∈ contents, content.Of format := by
  induction frames generalizing lastFrame contents with
  | nil =>
    cases chosen
    exact List.forall_mem_nil _
  | cons frame frames ih =>
    obtain ⟨content, first, chosen⟩ := Option.bind_eq_some_iff.mp chosen
    obtain ⟨others, later, same⟩ := Option.bind_eq_some_iff.mp chosen
    cases same
    obtain ⟨delay, delays⟩ := List.forall_mem_cons.mp delays
    obtain ⟨⟨width, height⟩, sizes⟩ := List.forall_mem_cons.mp sizes
    refine List.forall_mem_cons.mpr ⟨?_, ih delays sizes later⟩
    rcases chooseFrame_cases first with rfl | ⟨before, bbox, differs, rfl⟩
    · exact frameContent_of delay (by simp)
    · refine frameContent_of delay fun box same => ?_
      cases same
      obtain ⟨right, bottom⟩ := pil.inside frame before bbox differs
      exact ⟨Nat.le_trans right (Nat.le_of_lt width), Nat.le_trans bottom (Nat.le_of_lt height)⟩

/-- Without compression, what differs is not smaller than the frame by more than a delta descriptor. -/
def NoSmallerDelta (pil : Imaging Frame) (format : PixelFormat) (lastFrame frame : Frame) : Prop :=
  ∀ bbox, pil.differenceBox frame lastFrame = some bbox →
    (pil.imageBytes format frame).length ≤ (pil.imageBytes format (pil.crop frame bbox)).length + 8

/-- No frame is taken as a delta without compression. -/
def Encodable (pil : Imaging Frame) (options : SaveOptions) (format : PixelFormat) (frames : List Frame) : Prop :=
  options.useRle = true ∨ options.useDeltas = false ∨ frames.IsChain (NoSmallerDelta pil format)

theorem length_encode (raw : options.useRle = false) (data : List Byte) :
    (encode options data).data.length = data.length := by
  rw [encode, if_pos (by simp [raw]), List.length_map]

theorem chooseFrame_isSome {frame : Frame} {lastFrame : Option Frame} :
    (∃ content, chooseFrame pil options format frame lastFrame = some content) ↔
      options.useRle = true ∨ options.useDeltas = false ∨
        ∀ before, lastFrame = some before → NoSmallerDelta pil format before frame := by
  have whole (unused : (if options.useDeltas then lastFrame else none) = none) :
      chooseFrame pil options format frame lastFrame = some (frameContent pil options format frame frame none) := by
    rw [chooseFrame, unused]
  cases deltas : options.useDeltas with
  | false => exact iff_of_true ⟨_, whole (by simp [deltas])⟩ (.inr (.inl rfl))
  | true =>
    cases lastFrame with
    | none => exact iff_of_true ⟨_, whole (by simp)⟩ (by simp)
    | some before =>
      rw [chooseFrame, deltas, if_pos rfl]
      dsimp only
      cases differs : pil.differenceBox frame before with
      | none => exact iff_of_true ⟨_, rfl⟩ (by simp [NoSmallerDelta, differs])
      | some bbox =>
        dsimp only
        cases compressed : options.useRle with
        | true => exact iff_of_true (by split <;> exact ⟨_, rfl⟩) (.inl rfl)
        | false =>
          rw [length_encode compressed, length_encode compressed]
          have large : (false = true ∨ true = false ∨
                ∀ other, some before = some other → NoSmallerDelta pil format other frame) ↔
              (pil.imageBytes format frame).length ≤ (pil.imageBytes format (pil.crop frame bbox)).length + 8 := by
            simp [NoSmallerDelta, differs]
          rw [large]
          by_cases smaller : (pil.imageBytes format (pil.crop frame bbox)).length + 8 <
              (pil.imageBytes format frame).length
          · rw [if_pos smaller, if_neg Bool.false_ne_true]
            exact iff_of_false (by simp) (Nat.not_le_of_gt smaller)
          · rw [if_neg smaller]
            exact iff_of_true ⟨_, rfl⟩ (Nat.le_of_not_gt smaller)

theorem chooseFrames_isSome {lastFrame : Option Frame} {frames : List Frame} :
    (∃ contents, chooseFrames pil options format lastFrame frames = some contents) ↔
      options.useRle = true ∨ options.useDeltas = false ∨
        (lastFrame.toList ++ frames).IsChain (NoSmallerDelta pil format) := by
  induction frames generalizing lastFrame with
  | nil => exact iff_of_true ⟨[], rfl⟩ (.inr (.inr (by cases lastFrame <;> simp)))
  | cons frame frames ih =>
    have both : (∃ contents, chooseFrames pil options format lastFrame (frame :: frames) = some contents) ↔
        (∃ content, chooseFrame pil options format frame lastFrame = some content) ∧
          ∃ contents, chooseFrames pil options format (some frame) frames = some contents := by
      rw [chooseFrames]
      cases chooseFrame pil options format frame lastFrame <;>
        cases chooseFrames pil options format (some frame) frames <;> simp
    have chain : (lastFrame.toList ++ frame :: frames).IsChain (NoSmallerDelta pil format) ↔
        (∀ before, lastFrame = some before → NoSmallerDelta pil format before frame) ∧
          ((some frame).toList ++ frames).IsChain (NoSmallerDelta pil format) := by
      cases lastFrame <;> simp
    rw [both, chooseFrame_isSome, ih, chain]
    tauto

/-! ## Agreement -/

/-- The image is saved and accepted, and every frame is read back: prepared with what was written for it, with
the stream at its data. -/
def Agrees (pil : Imaging Frame) (options : SaveOptions) (format : PixelFormat) (device : Device)
    (frames : List Frame) : Prop :=
  ∃ file contents, save pil options format frames = some file ∧
    chooseFrames pil options format none frames = some contents ∧
    (∀ stale, (validateStream stale).accepts file = true) ∧
    ∀ n content, contents[n]? = some content → ∀ stale position, ∃ info next,
      prepareFrameForStreamRead device stale n file position = (some info, next) ∧
        Recovers content info ∧ (file.drop next).take content.data.length = dataBytes content.data

theorem frames_validate {buffer : List Byte} (stale : Nat → Format) {frameNumbers : List Nat}
    (each : ∀ n ∈ frameNumbers, ∀ position, ∃ next, validateFrame (stale n) n buffer position = (some (), next))
    (position : Nat) : ∃ next, validateFrames stale frameNumbers buffer position = (some (), next) := by
  induction frameNumbers generalizing position with
  | nil => exact ⟨position, rfl⟩
  | cons n frameNumbers ih =>
    obtain ⟨here, later⟩ := List.forall_mem_cons.mp each
    obtain ⟨middle, first⟩ := here position
    obtain ⟨next, rest⟩ := ih later middle
    exact ⟨next, (bind_of_eq first).trans rest⟩

/-- A frame's format can be drawn by the build. -/
def Device.Draws (device : Device) (format : PixelFormat) : Prop :=
  ∀ known, parseFormat format.imageFormatByte = some known → device.bppCapable known.bpp = true

/-- The table has room for a palette of the format, loaded or interpolated. -/
def Device.HasRoom (device : Device) (format : PixelFormat) : Prop :=
  ∀ known, parseFormat format.imageFormatByte = some known → known.bpp ≤ 8 →
    device.tableHolds (paletteEntries known.bpp) = true

theorem agrees_of_chosen {device : Device} {frames : List Frame} {size : Nat × Nat} (nonempty : frames ≠ [])
    (same : ∀ frame ∈ frames, pil.size frame = size) (range : InRange pil options format frames)
    (draws : device.Draws format) (room : device.HasRoom format)
    (converts : ∀ count, device.paletteConvert count = true)
    (chosen : chooseFrames pil options format none frames = some contents) :
    Agrees pil options format device frames := by
  have of := chooseFrames_of range.delay range.size chosen
  have count : contents.length < 2 ^ 16 := by
    rw [chooseFrames_length pil options format chosen]
    exact range.count
  have small := range.small contents chosen
  obtain ⟨graphics, counted⟩ := @saved_graphics size contents count small
  refine ⟨savedFile size contents, contents, save_eq nonempty same range chosen fun content member => (of content member).fits,
    chosen, fun stale => ?_, fun n content here stale position => ?_⟩
  · have read : readGraphicsDescriptor (savedFile size contents) 0 = (some (graphicsOf (savedFile size contents)), 23) :=
      readGraphicsDescriptor_eq_some.mpr ⟨graphics, rfl, rfl⟩
    have each : ∀ n ∈ List.range (frameCount (savedFile size contents)), ∀ position,
        ∃ next, validateFrame (stale n) n (savedFile size contents) position = (some (), next) := by
      intro n member position
      have here := List.getElem?_eq_getElem (counted ▸ List.mem_range.mp member)
      exact frame_validates (of _ (List.mem_of_getElem? here)) (saved_frame count small here) (stale n) position
    obtain ⟨next, validated⟩ := frames_validate stale each 23
    rw [Reader.accepts, validateStream, bind_of_eq read]
    exact congrArg (·.1.isSome) validated
  · obtain ⟨known, parsed, -⟩ := format_known format
    exact frame_prepares (of _ (List.mem_of_getElem? here)) parsed (draws known parsed) (room known parsed) converts
      (saved_frame count small here) stale position

/-- What was prepared has passed through the palette part. -/
theorem room_of_prepared {device : Device} {stale info : DrawInfo} {n position next : Nat} {file : List Byte}
    (prepared : prepareFrameForStreamRead device stale n file position = (some info, next))
    (few : info.frame.format.bpp ≤ 8) : device.tableHolds (paletteEntries info.frame.format.bpp) = true := by
  obtain ⟨_, _, -, rest⟩ := bind_eq_some.mp prepared
  obtain ⟨frameDescriptor, _, -, rest⟩ := bind_eq_some.mp rest
  obtain ⟨-, rest⟩ := bind_require.mp rest
  obtain ⟨palette, _, paletteRead, rest⟩ := bind_eq_some.mp rest
  obtain ⟨delta, _, -, rest⟩ := bind_eq_some.mp rest
  obtain ⟨_, _, -, rest⟩ := bind_eq_some.mp rest
  obtain ⟨rfl, -⟩ := pure_eq_some.mp rest
  dsimp only at few ⊢
  rw [preparePalette] at paletteRead
  split at paletteRead
  · obtain ⟨_, _, loaded, -⟩ := bind_eq_some.mp paletteRead
    obtain ⟨_, _, -, loaded⟩ := bind_eq_some.mp loaded
    obtain ⟨_, _, -, loaded⟩ := bind_eq_some.mp loaded
    exact (bind_require.mp loaded).1
  · have held := (bind_require.mp paletteRead).1
    rwa [Bool.or_eq_true, decide_eq_true_eq, or_iff_right (Nat.not_lt_of_le few)] at held

theorem room_of_agrees {device : Device} {frames : List Frame} (nonempty : frames ≠ [])
    (range : InRange pil options format frames) (agrees : Agrees pil options format device frames) :
    device.HasRoom format := by
  obtain ⟨file, contents, -, chosen, -, prepares⟩ := agrees
  have length := chooseFrames_length pil options format chosen
  cases contents with
  | nil => exact absurd (List.length_eq_zero_iff.mp length.symm) nonempty
  | cons content contents =>
    -- any frame will do
    obtain ⟨info, next, prepared, recovers, -⟩ := prepares 0 content rfl ⟨⟨⟨0, false, false⟩, false, 0, 0⟩, ⟨0, 0, 0, 0⟩, []⟩ 0
    have of := chooseFrames_of range.delay range.size chosen content List.mem_cons_self
    have parsed := recovers.format
    rw [of.named] at parsed
    intro known same few
    obtain rfl : info.frame.format = known := Option.some.inj (parsed.symm.trans same)
    exact room_of_prepared prepared few

end Saved

/-- Saving agrees with reading if and only if no frame is taken as a delta without compression, and the lookup table of
the build has room for the palette. -/
theorem qgf_agrees_iff {Frame : Type} (pil : Imaging Frame) (options : SaveOptions) (format : PixelFormat)
    (device : Device) (draws : device.Draws format) (converts : ∀ count, device.paletteConvert count = true)
    (frames : List Frame) (nonempty : frames ≠ []) (size : Nat × Nat) (same : ∀ frame ∈ frames, pil.size frame = size)
    (range : InRange pil options format frames) :
    Agrees pil options format device frames ↔ Encodable pil options format frames ∧ device.HasRoom format := by
  have encodable : Encodable pil options format frames ↔
      ∃ contents, chooseFrames pil options format none frames = some contents :=
    (@chooseFrames_isSome Frame pil options format none frames).symm
  rw [encodable]
  constructor
  · intro agrees
    refine ⟨?_, room_of_agrees nonempty range agrees⟩
    obtain ⟨file, _, saved, -⟩ := agrees
    by_contra unchosen
    rw [save_raises (Option.eq_none_iff_forall_ne_some.mpr fun contents => not_exists.mp unchosen contents)] at saved
    cases saved
  · rintro ⟨⟨contents, chosen⟩, room⟩
    exact agrees_of_chosen nonempty same range draws room converts chosen

/-- Gray images of one row. -/
def rows : Imaging (List Byte) where
  size row := (row.length, 1)
  duration _ := none
  imageBytes _ row := row.flatMap fun c => [c, c, c]
  paletteEntry _ _ n := (BitVec.ofNat 8 n, BitVec.ofNat 8 n, BitVec.ofNat 8 n)
  hsv888 := fun (_, _, v) => (0, 0, v)
  differenceBox row other :=
    let differs := List.zipWith (· != ·) row other
    let left := differs.findIdx id
    let right := differs.length - differs.reverse.findIdx id
    if wide : left < right then some ⟨left, 0, right, 1, wide, Nat.one_pos⟩ else none
  crop row box := (row.drop box.left).take (box.right - box.left)
  inside := by
    intro row other box differs
    dsimp only at differs
    split at differs
    · cases differs
      have short : (List.zipWith (· != ·) row other).length ≤ row.length := by simp
      dsimp only
      omega
    · cases differs

def oneDot : List (List Byte) := [List.replicate 8 0, 0xFF :: List.replicate 7 0]

def nativeDevice : Device := ⟨true, true, fun _ => true, fun _ => true⟩

theorem oneDot_inRange (options : SaveOptions)
    (small : ∀ contents, chooseFrames rows options .rgb888 none oneDot = some contents → fileSize contents < 2 ^ 31) :
    InRange rows options .rgb888 oneDot where
  size := by decide
  count := by decide
  delay := by decide
  small := small

theorem oneDot_compressed_agrees :
    Agrees rows ⟨true, true⟩ .rgb888 nativeDevice oneDot ↔
      Encodable rows ⟨true, true⟩ .rgb888 oneDot ∧ nativeDevice.HasRoom .rgb888 := by
  have size : (chooseFrames rows ⟨true, true⟩ .rgb888 none oneDot).map fileSize = some 74 := by decide +kernel
  refine qgf_agrees_iff rows ⟨true, true⟩ .rgb888 nativeDevice (fun _ _ => rfl) (fun _ => rfl) oneDot
    (List.cons_ne_nil _ _) (8, 1) (by decide) (oneDot_inRange _ fun contents chosen => ?_)
  rw [chosen] at size
  rw [Option.some.inj size]
  decide

/-- The second image is smaller as a delta, which raises without compression. -/
theorem oneDot_raises :
    InRange rows ⟨true, false⟩ .rgb888 oneDot ∧ save rows ⟨true, false⟩ .rgb888 oneDot = none := by
  have unchosen : chooseFrames rows ⟨true, false⟩ .rgb888 none oneDot = none := by decide +kernel
  refine ⟨oneDot_inRange _ fun contents chosen => ?_, save_raises unchosen⟩
  rw [unchosen] at chosen
  cases chosen

end QmkFirmware.Painter
