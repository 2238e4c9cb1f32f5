import Mathlib.Data.Nat.Bitwise
import Mathlib.Data.Nat.Digits.Lemmas
import QmkFirmware.Foundations.RunLength
import QmkFirmware.Painter.Stream

/-! # The pixel codec

The packing and the run-length encoder of `lib/python/qmk/painter.py`, and the decoders of
`quantum/painter/qp_draw_codec.c`.  Numbers of the Python code are `Nat`; they become bytes when they
are written.
-/

namespace QmkFirmware.Painter

open QmkFirmware.RunLength

/-! ## The encoder -/

/-- The numbers of bits per pixel of palettes and grayscales. -/
inductive BitDepth where
  | one
  | two
  | four
  | eight
deriving DecidableEq

def BitDepth.bits : BitDepth → Nat
  | one => 1
  | two => 2
  | four => 4
  | eight => 8

def BitDepth.pixelsPerByte (depth : BitDepth) : Nat := 8 / depth.bits

/-- One turn of the packing loop of `convert_image_bytes`, where `index` makes a pixel of a byte of the
image: `rescale_byte` for a grayscale, the mask for a palette. -/
def packByte (depth : BitDepth) (index : Nat → Nat) (imageBytes : List Nat) (x : Nat) : Nat :=
  (List.range depth.pixelsPerByte).foldl (fun byte n =>
    match imageBytes[x * depth.pixelsPerByte + n]? with
    | some value => byte ||| (index value <<< (n * depth.bits))
    | none => byte) 0

/-- The part of `convert_image_bytes` that packs an image of at most 8 bits per pixel. -/
def convertImageBytes (depth : BitDepth) (index : Nat → Nat) (imageBytes : List Nat) : List Nat :=
  (List.range ((imageBytes.length + (depth.pixelsPerByte - 1)) / depth.pixelsPerByte)).map
    (packByte depth index imageBytes)

/-- For `IMAGE_FORMAT_PALETTE` a byte of the image is an index into the palette. -/
def paletteIndex (depth : BitDepth) (value : Nat) : Nat := value &&& (2 ^ depth.bits - 1)

/-- The variables of the loop in `compress_bytes_qmk_rle`. -/
structure Rle where
  output : List Nat
  temp : List Nat
  repeating : Bool

/-- `append_range`, as what it appends. -/
def appendRange (range : List Nat) : List Nat := (127 + range.length) :: range

/-- One turn of the loop, with the next byte or, at the end, without one.  The last two entries of
`temp` are read from a buffer of two at least. -/
def rleTurn (s : Rle) (next : Option Nat) : Rle :=
  let atEnd := next.isNone
  let temp := s.temp ++ next.toList
  let last := temp.getLastD 0
  let beforeLast := temp.dropLast.getLastD 0
  if !atEnd ∧ temp.length ≤ 1 then { s with temp := temp }
  else if s.repeating then
    let repeating := last == beforeLast
    if !repeating ∨ temp.length = 128 ∨ atEnd then
      { output := s.output ++ [if atEnd then temp.length else temp.length - 1, temp.headD 0]
        temp := [last]
        repeating := false }
    else { s with temp := temp }
  else if 2 ≤ temp.length ∧ last = beforeLast then
    if 2 < temp.length then
      { output := s.output ++ appendRange (temp.take (temp.length - 2)), temp := [last, last], repeating := true }
    else { s with temp := temp, repeating := true }
  else if temp.length = 128 ∨ atEnd then { output := s.output ++ appendRange temp, temp := [], repeating := false }
  else { s with temp := temp }

def compressBytesQmkRle (bytes : List Nat) : List Nat :=
  ((bytes.map some ++ [none]).foldl rleTurn ⟨[], [], false⟩).output

/-- Python's `bytes`, which takes numbers up to 255 only. -/
def toBytes (data : List Nat) : Option (List Byte) :=
  if ∀ c ∈ data, c < 256 then some (data.map (BitVec.ofNat 8)) else none

/-! ## The decoders -/

inductive RleMode where
  | markerByte
  | repeatingRun
  | nonRepeatingRun
deriving DecidableEq

/-- `qp_internal_byte_input_state_t`. -/
structure ByteInputState where
  srcStream : MemoryStream
  curr : Int
  mode : RleMode
  remain : BitVec 8

inductive Compression where
  | uncompressed
  | compressedRle
deriving DecidableEq

def byteUncompressedDecoder (state : ByteInputState) : Int × ByteInputState :=
  let (curr, srcStream) := state.srcStream.get
  (curr, { state with srcStream := srcStream, curr := curr })

/-- The marker byte of a run and the first byte of it. -/
def readMarker (state : ByteInputState) : ByteInputState :=
  let (marker, srcStream) := state.srcStream.get
  let c := BitVec.ofInt 8 marker
  let (curr, srcStream) := srcStream.get
  if 128 ≤ c then { srcStream := srcStream, curr := curr, mode := .nonRepeatingRun, remain := c - 127 }
  else { srcStream := srcStream, curr := curr, mode := .repeatingRun, remain := c }

def byteRleDecoder (state : ByteInputState) : Int × ByteInputState :=
  let state := if state.mode = .markerByte then readMarker state else state
  let c := BitVec.ofInt 8 state.curr
  let state := { state with remain := state.remain - 1 }
  let state :=
    if 0 < state.remain then
      if state.mode = .nonRepeatingRun then
        let (curr, srcStream) := state.srcStream.get
        { state with srcStream := srcStream, curr := curr }
      else state
    else { state with mode := .markerByte }
  (c.toNat, state)

/-- `qp_internal_prepare_input_state` for a state that holds anything else. -/
def prepareInputState (compression : Compression) (state : ByteInputState) :
    (ByteInputState → Int × ByteInputState) × ByteInputState :=
  match compression with
  | .uncompressed => (byteUncompressedDecoder, state)
  | .compressedRle => (byteRleDecoder, { state with mode := .markerByte, remain := 0 })

section Decode

variable {σ τ : Type} (bits : Nat) (input : σ → Int × σ) (output : Nat → τ → Option τ)

/-- The pixels of one byte. -/
def decodeByte : (loopPixels byteval : Nat) → τ → Option τ
  | 0, _, out => some out
  | loopPixels + 1, byteval, out =>
    (output (byteval &&& ((1 <<< bits) - 1)) out).bind fun out => decodeByte loopPixels (byteval >>> bits) out

def decodeLoop : (fuel remaining : Nat) → σ → τ → Option τ
  | 0, remaining, _, out => if remaining = 0 then some out else none
  | fuel + 1, remaining, s, out =>
    if remaining = 0 then some out
    else
      let (byteval, s) := input s
      if byteval < 0 then none
      else
        let pixelsPerByte := 8 / bits
        let loopPixels := if remaining < pixelsPerByte then remaining else pixelsPerByte
        (decodeByte bits output loopPixels byteval.toNat out).bind fun out =>
          decodeLoop fuel (remaining - loopPixels) s out

/-- `qp_internal_decode_palette`, as what the callback has made of the pixels, if it is true. -/
def decodePalette (pixelCount : Nat) (s : σ) (out : τ) : Option τ :=
  decodeLoop bits input output pixelCount pixelCount s out

end Decode

/-! ## Packing -/

section Packing

variable {depth : BitDepth} {index : Nat → Nat}

theorem pixelsPerByte_pos (depth : BitDepth) : 0 < depth.pixelsPerByte := by
  cases depth <;> decide

theorem bits_mul_pixelsPerByte (depth : BitDepth) : depth.bits * depth.pixelsPerByte = 8 := by
  cases depth <;> rfl

theorem one_lt_base (depth : BitDepth) : 1 < 2 ^ depth.bits := by
  cases depth <;> decide

theorem digits_below {values : List Nat} (below : ∀ value ∈ values, index value < 2 ^ depth.bits) (n : Nat) :
    ∀ digit ∈ (values.take n).map index, digit < 2 ^ depth.bits := by
  intro digit member
  obtain ⟨value, here, rfl⟩ := List.mem_map.mp member
  exact below value (List.mem_of_mem_take here)

/-- The pixels of a byte are its digits. -/
theorem pack_eq_ofDigits (values : List Nat) (below : ∀ value ∈ values, index value < 2 ^ depth.bits) (n : Nat) :
    (List.range n).foldl (fun byte k =>
        match values[k]? with
        | some value => byte ||| (index value <<< (k * depth.bits))
        | none => byte) 0
      = Nat.ofDigits (2 ^ depth.bits) ((values.take n).map index) := by
  induction n with
  | zero => rfl
  | succ n ih =>
    rw [List.range_succ, List.foldl_append, ih, List.foldl_cons, List.foldl_nil]
    cases h : values[n]? with
    | none =>
      have short : values.length ≤ n := List.getElem?_eq_none_iff.mp h
      rw [List.take_of_length_le short, List.take_of_length_le (Nat.le_succ_of_le short)]
    | some value =>
      obtain ⟨inside, rfl⟩ := List.getElem?_eq_some_iff.mp h
      have size : ((values.take n).map index).length = n := by
        rw [List.length_map, List.length_take, Nat.min_eq_left (Nat.le_of_lt inside)]
      have small : Nat.ofDigits (2 ^ depth.bits) ((values.take n).map index) < 2 ^ (depth.bits * n) := by
        have bound := Nat.ofDigits_lt_base_pow_length (one_lt_base depth) (digits_below below n)
        rwa [size, ← Nat.pow_mul] at bound
      dsimp only
      rw [List.take_add_one, h, Option.toList_some, List.map_append, Nat.ofDigits_append, size, ← Nat.pow_mul,
        Nat.mul_comm n, Nat.lor_comm, ← Nat.shiftLeft_add_eq_or_of_lt small, Nat.shiftLeft_eq, Nat.add_comm,
        List.map_singleton, Nat.ofDigits_singleton, Nat.mul_comm (index values[n])]

theorem packByte_eq (imageBytes : List Nat) (below : ∀ value ∈ imageBytes, index value < 2 ^ depth.bits) (x : Nat) :
    packByte depth index imageBytes x
      = Nat.ofDigits (2 ^ depth.bits)
          (((imageBytes.drop (x * depth.pixelsPerByte)).take depth.pixelsPerByte).map index) := by
  have below' : ∀ value ∈ imageBytes.drop (x * depth.pixelsPerByte), index value < 2 ^ depth.bits :=
    fun value member => below value (List.mem_of_mem_drop member)
  rw [← pack_eq_ofDigits _ below' depth.pixelsPerByte]
  unfold packByte
  simp only [List.getElem?_drop]

/-- The first byte holds the first pixels, the other bytes are those of the other pixels. -/
theorem convertImageBytes_cons (imageBytes : List Nat) (some : imageBytes ≠ [])
    (below : ∀ value ∈ imageBytes, index value < 2 ^ depth.bits) :
    convertImageBytes depth index imageBytes
      = Nat.ofDigits (2 ^ depth.bits) ((imageBytes.take depth.pixelsPerByte).map index)
          :: convertImageBytes depth index (imageBytes.drop depth.pixelsPerByte) := by
  have positive := pixelsPerByte_pos depth
  have nonempty : 0 < imageBytes.length := List.length_pos_iff.mpr some
  have count : (imageBytes.length + (depth.pixelsPerByte - 1)) / depth.pixelsPerByte
      = ((imageBytes.drop depth.pixelsPerByte).length + (depth.pixelsPerByte - 1)) / depth.pixelsPerByte + 1 := by
    rw [List.length_drop]
    by_cases long : depth.pixelsPerByte ≤ imageBytes.length
    · rw [← Nat.add_div_right _ positive]
      congr 1
      omega
    · have last : imageBytes.length + (depth.pixelsPerByte - 1) = depth.pixelsPerByte + (imageBytes.length - 1) := by
        omega
      rw [last, Nat.add_div_left _ positive, Nat.div_eq_of_lt (by omega), Nat.div_eq_of_lt (by omega)]
  have below' : ∀ value ∈ imageBytes.drop depth.pixelsPerByte, index value < 2 ^ depth.bits :=
    fun value member => below value (List.mem_of_mem_drop member)
  rw [convertImageBytes, count, List.range_succ_eq_map, List.map_cons, packByte_eq imageBytes below, Nat.zero_mul,
    List.drop_zero, List.map_map]
  congr 1
  unfold convertImageBytes
  apply List.map_congr_left
  intro x _
  rw [Function.comp_apply, packByte_eq imageBytes below, packByte_eq _ below', List.drop_drop, Nat.succ_mul,
    Nat.add_comm]

/-- Packed pixels are bytes. -/
theorem convertImageBytes_lt (imageBytes : List Nat) (below : ∀ value ∈ imageBytes, index value < 2 ^ depth.bits) :
    ∀ c ∈ convertImageBytes depth index imageBytes, c < 256 := by
  intro c member
  obtain ⟨x, -, rfl⟩ := List.mem_map.mp member
  have below' : ∀ value ∈ imageBytes.drop (x * depth.pixelsPerByte), index value < 2 ^ depth.bits :=
    fun value member => below value (List.mem_of_mem_drop member)
  rw [packByte_eq imageBytes below]
  have bound := Nat.ofDigits_lt_base_pow_length (one_lt_base depth) (digits_below below' depth.pixelsPerByte)
  refine Nat.lt_of_lt_of_le bound ?_
  calc (2 ^ depth.bits) ^ (((imageBytes.drop (x * depth.pixelsPerByte)).take depth.pixelsPerByte).map index).length
      ≤ (2 ^ depth.bits) ^ depth.pixelsPerByte := by
        apply Nat.pow_le_pow_right (Nat.lt_of_succ_lt (one_lt_base depth))
        rw [List.length_map]
        exact List.length_take_le _ _
    _ = 256 := by rw [← Nat.pow_mul, bits_mul_pixelsPerByte]

end Packing

/-! ## Unpacking -/

section Unpacking

variable {depth : BitDepth} {σ τ : Type} {input : σ → Int × σ} {output : Nat → τ → Option τ}

/-- The pixels of a byte come back in order. -/
theorem decodeByte_ofDigits (pixels : List Nat) (below : ∀ pixel ∈ pixels, pixel < 2 ^ depth.bits) (out : τ) :
    decodeByte depth.bits output pixels.length (Nat.ofDigits (2 ^ depth.bits) pixels) out
      = pixels.foldlM (fun out pixel => output pixel out) out := by
  induction pixels generalizing out with
  | nil => rfl
  | cons pixel pixels ih =>
    have small := below pixel List.mem_cons_self
    have first : Nat.ofDigits (2 ^ depth.bits) (pixel :: pixels) % 2 ^ depth.bits = pixel := by
      rw [Nat.ofDigits_cons, Nat.add_mul_mod_self_left, Nat.mod_eq_of_lt small]
    have others : Nat.ofDigits (2 ^ depth.bits) (pixel :: pixels) / 2 ^ depth.bits
        = Nat.ofDigits (2 ^ depth.bits) pixels := by
      rw [Nat.ofDigits_cons, Nat.add_mul_div_left _ _ (Nat.lt_of_succ_lt (one_lt_base depth)),
        Nat.div_eq_of_lt small, Nat.zero_add]
    rw [List.length_cons, decodeByte, Nat.one_shiftLeft, Nat.and_two_pow_sub_one_eq_mod, first,
      Nat.shiftRight_eq_div_pow, others, List.foldlM_cons]
    congr 1
    funext out
    exact ih (fun pixel member => below pixel (List.mem_cons_of_mem _ member)) out

/-- A source that yields the packed bytes is decoded to the pixels. -/
theorem decodeLoop_yields {index : Nat → Nat} (fuel : Nat) (imageBytes : List Nat)
    (below : ∀ value ∈ imageBytes, index value < 2 ^ depth.bits) (enough : imageBytes.length ≤ fuel) {s last : σ}
    (yields : Yields input s ((convertImageBytes depth index imageBytes).map Int.ofNat) last) (out : τ) :
    decodeLoop depth.bits input output fuel imageBytes.length s out
      = (imageBytes.map index).foldlM (fun out pixel => output pixel out) out := by
  induction fuel generalizing imageBytes s out with
  | zero =>
    obtain rfl : imageBytes = [] := List.eq_nil_of_length_eq_zero (Nat.le_zero.mp enough)
    rfl
  | succ fuel ih =>
    by_cases none : imageBytes = []
    · subst none
      rfl
    · have nonempty : imageBytes.length ≠ 0 := fun zero => none (List.eq_nil_of_length_eq_zero zero)
      have positive := pixelsPerByte_pos depth
      rw [convertImageBytes_cons imageBytes none below, List.map_cons] at yields
      cases yields with
      | cons call more =>
        have loopPixels : (if imageBytes.length < 8 / depth.bits then imageBytes.length else 8 / depth.bits)
            = ((imageBytes.take depth.pixelsPerByte).map index).length := by
          rw [List.length_map, List.length_take, Nat.min_def]
          unfold BitDepth.pixelsPerByte
          split_ifs <;> omega
        have left : imageBytes.length - ((imageBytes.take depth.pixelsPerByte).map index).length
            = (imageBytes.drop depth.pixelsPerByte).length := by
          rw [List.length_map, List.length_take, List.length_drop]
          omega
        have nonneg (c : Nat) : ¬ Int.ofNat c < 0 := Int.not_lt.mpr (Int.natCast_nonneg c)
        have back (c : Nat) : (Int.ofNat c).toNat = c := rfl
        rw [decodeLoop, if_neg nonempty, call]
        dsimp only
        rw [if_neg (nonneg _), loopPixels, back, decodeByte_ofDigits _ (digits_below below _), left]
        have later (out : τ) := ih (imageBytes.drop depth.pixelsPerByte)
          (fun value member => below value (List.mem_of_mem_drop member))
          (by rw [List.length_drop]; omega) more out
        simp only [later]
        conv_rhs => rw [← List.take_append_drop depth.pixelsPerByte imageBytes, List.map_append, List.foldlM_append]
        rfl

end Unpacking

/-! ## Reading raw bytes and runs -/

/-- How a run is written. -/
def serialise : Run Nat → List Nat
  | .repeated count value => [count, value]
  | .literal values => appendRange values

/-- A run that the marker byte can tell. -/
def Writable : Run Nat → Prop
  | .repeated count value => (1 ≤ count ∧ count ≤ 127) ∧ value < 256
  | .literal values => (1 ≤ values.length ∧ values.length ≤ 128) ∧ ∀ value ∈ values, value < 256

section Reading

variable {state : ByteInputState} {rest : List Byte} {c : Nat}

theorem get_ofNat {s : MemoryStream} (small : c < 256) (h : s.remaining = BitVec.ofNat 8 c :: rest) :
    s.get = (Int.ofNat c, s.skip 1) := by
  rw [MemoryStream.get_of_remaining h, BitVec.toNat_ofNat, Nat.mod_eq_of_lt small]
  rfl

theorem uncompressed_yields (state : ByteInputState) (data : List Nat) (small : ∀ c ∈ data, c < 256)
    (h : state.srcStream.remaining = data.map (BitVec.ofNat 8) ++ rest) :
    ∃ last, Yields byteUncompressedDecoder state (data.map Int.ofNat) last := by
  induction data generalizing state with
  | nil => exact ⟨state, .nil state⟩
  | cons c data ih =>
    have get := get_ofNat (small c List.mem_cons_self) h
    have call : byteUncompressedDecoder state = (Int.ofNat c, ⟨state.srcStream.skip 1, Int.ofNat c, state.mode,
        state.remain⟩) := by
      unfold byteUncompressedDecoder
      rw [get]
    have next := MemoryStream.remaining_next h
    obtain ⟨last, yields⟩ := ih ⟨state.srcStream.skip 1, Int.ofNat c, state.mode, state.remain⟩
      (fun c member => small c (List.mem_cons_of_mem _ member)) next
    exact ⟨last, .cons call yields⟩

/-- Before a marker byte, at the rest of the data. -/
def AtMarker (rest : List Byte) (state : ByteInputState) : Prop :=
  state.mode = .markerByte ∧ state.srcStream.remaining = rest

theorem remain_pred (k : Nat) : BitVec.ofNat 8 (k + 1) - 1 = BitVec.ofNat 8 k := by
  rw [BitVec.ofNat_add]
  exact BitVec.add_sub_cancel _ _

theorem remain_pos {k : Nat} (small : k < 256) : 0 < BitVec.ofNat 8 k ↔ 0 < k := by
  rw [BitVec.lt_def, BitVec.toNat_ofNat, Nat.mod_eq_of_lt small]
  rfl

theorem curr_ofNat (small : c < 256) : (((BitVec.ofInt 8 (Int.ofNat c)).toNat : Nat) : Int) = Int.ofNat c := by
  have value : (BitVec.ofInt 8 (Int.ofNat c)).toNat = c := by
    show (BitVec.ofInt 8 (c : Int)).toNat = c
    rw [BitVec.ofInt_natCast, BitVec.toNat_ofNat, Nat.mod_eq_of_lt small]
  rw [value]
  rfl

/-- The last byte of a run. -/
theorem rle_last (small : c < 256) (mode : state.mode ≠ .markerByte) (curr : state.curr = Int.ofNat c)
    (remain : state.remain = BitVec.ofNat 8 1) :
    byteRleDecoder state = (Int.ofNat c, { state with mode := .markerByte, remain := 0 }) := by
  unfold byteRleDecoder
  dsimp only
  rw [if_neg mode, curr, curr_ofNat small, remain, remain_pred, if_neg (by decide)]
  rfl

/-- A byte of a run that goes on. -/
theorem rle_repeating {k : Nat} (within : k + 1 < 256) (small : c < 256) (mode : state.mode = .repeatingRun)
    (curr : state.curr = Int.ofNat c) (remain : state.remain = BitVec.ofNat 8 (k + 2)) :
    byteRleDecoder state = (Int.ofNat c, { state with remain := BitVec.ofNat 8 (k + 1) }) := by
  have positive : 0 < BitVec.ofNat 8 (k + 1) := (remain_pos within).mpr (Nat.succ_pos k)
  unfold byteRleDecoder
  dsimp only
  rw [if_neg (by rw [mode]; decide), curr, curr_ofNat small, remain, remain_pred, if_pos positive,
    if_neg (by rw [mode]; decide)]

theorem rle_literal {k d : Nat} (within : k + 1 < 256) (small : c < 256) (smallNext : d < 256)
    (mode : state.mode = .nonRepeatingRun) (curr : state.curr = Int.ofNat c)
    (remain : state.remain = BitVec.ofNat 8 (k + 2))
    (next : state.srcStream.remaining = BitVec.ofNat 8 d :: rest) :
    byteRleDecoder state
      = (Int.ofNat c, ⟨state.srcStream.skip 1, Int.ofNat d, .nonRepeatingRun, BitVec.ofNat 8 (k + 1)⟩) := by
  have positive : 0 < BitVec.ofNat 8 (k + 1) := (remain_pos within).mpr (Nat.succ_pos k)
  unfold byteRleDecoder
  dsimp only
  rw [if_neg (by rw [mode]; decide), curr, curr_ofNat small, remain, remain_pred, if_pos positive, if_pos mode,
    get_ofNat smallNext next, mode]

theorem repeated_yields (state : ByteInputState) (count : Nat) (within : count < 127) (small : c < 256)
    (mode : state.mode = .repeatingRun) (curr : state.curr = Int.ofNat c) (remain : state.remain = BitVec.ofNat 8 (count + 1)) :
    Yields byteRleDecoder state ((List.replicate (count + 1) c).map Int.ofNat)
      { state with mode := .markerByte, remain := 0 } := by
  induction count generalizing state with
  | zero => exact .cons (rle_last small (by rw [mode]; decide) curr remain) (.nil _)
  | succ count ih =>
    refine .cons (rle_repeating (by omega) small mode curr remain) ?_
    exact ih { state with remain := BitVec.ofNat 8 (count + 1) } (by omega) mode curr rfl

theorem literal_yields (state : ByteInputState) (values : List Nat) (within : values.length < 128) (small : c < 256)
    (smallRest : ∀ value ∈ values, value < 256) (mode : state.mode = .nonRepeatingRun)
    (curr : state.curr = Int.ofNat c) (remain : state.remain = BitVec.ofNat 8 (values.length + 1))
    (data : state.srcStream.remaining = values.map (BitVec.ofNat 8) ++ rest) :
    ∃ last, Yields byteRleDecoder state ((c :: values).map Int.ofNat) last ∧ AtMarker rest last := by
  induction values generalizing state c with
  | nil => exact ⟨_, .cons (rle_last small (by rw [mode]; decide) curr remain) (.nil _), rfl, data⟩
  | cons value values ih =>
    rw [List.length_cons] at within
    have smallNext := smallRest value List.mem_cons_self
    have call := rle_literal (by omega) small smallNext mode curr remain data
    have next : (state.srcStream.skip 1).remaining = values.map (BitVec.ofNat 8) ++ rest :=
      MemoryStream.remaining_next data
    obtain ⟨last, yields, done⟩ := ih ⟨_, _, _, _⟩ (by omega) smallNext
      (fun value member => smallRest value (List.mem_cons_of_mem _ member)) rfl rfl rfl next
    exact ⟨last, .cons call yields, done⟩

/-- A call before a marker byte reads it first. -/
theorem rle_marker (mode : state.mode = .markerByte) (later : (readMarker state).mode ≠ .markerByte) :
    byteRleDecoder state = byteRleDecoder (readMarker state) := by
  conv_lhs => unfold byteRleDecoder
  conv_rhs => unfold byteRleDecoder
  dsimp only
  rw [if_pos mode, if_neg later]

/-- What a marker byte and the byte after it say. -/
def started (stream : MemoryStream) (marker value : Nat) : ByteInputState :=
  if 128 ≤ marker then ⟨stream, Int.ofNat value, .nonRepeatingRun, BitVec.ofNat 8 (marker - 127)⟩
  else ⟨stream, Int.ofNat value, .repeatingRun, BitVec.ofNat 8 marker⟩

theorem readMarker_eq {marker value : Nat} (smallMarker : marker < 256) (small : value < 256)
    (data : state.srcStream.remaining = BitVec.ofNat 8 marker :: BitVec.ofNat 8 value :: rest) :
    readMarker state = started (state.srcStream.skip 2) marker value := by
  have next : (state.srcStream.skip 1).remaining = BitVec.ofNat 8 value :: rest := MemoryStream.remaining_next data
  have byte : BitVec.ofInt 8 (Int.ofNat marker) = BitVec.ofNat 8 marker := BitVec.ofInt_natCast 8 marker
  have long : (128 : BitVec 8) ≤ BitVec.ofNat 8 marker ↔ 128 ≤ marker := by
    rw [BitVec.le_def, BitVec.toNat_ofNat, Nat.mod_eq_of_lt smallMarker]
    rfl
  unfold readMarker started
  rw [get_ofNat smallMarker data]
  dsimp only
  rw [get_ofNat small next, byte, MemoryStream.skip_skip]
  by_cases high : 128 ≤ marker
  · have left : BitVec.ofNat 8 marker - 127 = BitVec.ofNat 8 (marker - 127) := by
      obtain ⟨more, rfl⟩ := Nat.exists_eq_add_of_le' (Nat.le_of_succ_le high)
      rw [BitVec.ofNat_add, Nat.add_sub_cancel]
      exact BitVec.add_sub_cancel _ _
    rw [if_pos (long.mpr high), if_pos high, left]
  · rw [if_neg (fun least => high (long.mp least)), if_neg high]

theorem remaining_after {s : MemoryStream} {first second : Byte} (data : s.remaining = first :: second :: rest) :
    (s.skip 2).remaining = rest := MemoryStream.remaining_skip [first, second] data

theorem Yields.from_marker {values : List Nat} {last : ByteInputState} (mode : state.mode = .markerByte)
    (later : (readMarker state).mode ≠ .markerByte)
    (yields : Yields byteRleDecoder (readMarker state) (values.map Int.ofNat) last) (some : values ≠ []) :
    Yields byteRleDecoder state (values.map Int.ofNat) last := by
  cases values with
  | nil => exact absurd rfl some
  | cons value values =>
    cases yields with
    | cons call more => exact .cons ((rle_marker mode later).trans call) more

/-- A written run is read back. -/
theorem run_yields {run : Run Nat} (writable : Writable run)
    (here : AtMarker ((serialise run).map (BitVec.ofNat 8) ++ rest) state) :
    ∃ last, Yields byteRleDecoder state (run.expand.map Int.ofNat) last ∧ AtMarker rest last := by
  obtain ⟨mode, data⟩ := here
  cases run with
  | repeated count value =>
    obtain ⟨⟨least, most⟩, small⟩ := writable
    obtain ⟨count, rfl⟩ : ∃ k, count = k + 1 := ⟨count - 1, by omega⟩
    have read := readMarker_eq (by omega) small data
    rw [started, if_neg (by omega)] at read
    have yields := repeated_yields (readMarker state) count (by omega) small (c := value)
      (by rw [read]) (by rw [read]) (by rw [read])
    refine ⟨_, Yields.from_marker mode (by rw [read]; nofun) yields nofun, rfl, ?_⟩
    rw [read]
    exact remaining_after data
  | literal values =>
    obtain ⟨⟨least, most⟩, small⟩ := writable
    cases values with
    | nil => exact absurd least (by decide)
    | cons value values =>
      have smallRest : ∀ value ∈ values, value < 256 := fun value member => small value (List.mem_cons_of_mem _ member)
      have here : value < 256 := small value List.mem_cons_self
      rw [List.length_cons] at most
      have read := readMarker_eq (by rw [List.length_cons]; omega) here data
      rw [started, if_pos (Nat.add_le_add_left least 127)] at read
      obtain ⟨last, yields, done⟩ := literal_yields (readMarker state) values (by omega) here
        smallRest (by rw [read]) (by rw [read]) (by rw [read, List.length_cons, Nat.add_sub_cancel_left])
        (by rw [read]; exact remaining_after data)
      exact ⟨last, Yields.from_marker mode (by rw [read]; nofun) yields nofun, done⟩

end Reading

/-! ## What the encoder writes -/

/-- The last two entries are alike. -/
def EndsInPair (temp : List Nat) : Prop := ∃ front c, temp = front ++ [c, c]

/-- What has been read is written as runs, but for the buffer. -/
structure Encoding (s : Rle) (consumed : List Nat) : Prop where
  written : ∃ runs, s.output = runs.flatMap serialise ∧ (∀ run ∈ runs, Writable run) ∧ expand runs ++ s.temp = consumed
  bytes : ∀ c ∈ s.temp, c < 256
  repeated : s.repeating = true → ∃ count c, s.temp = List.replicate (count + 2) c ∧ count + 2 < 128
  literal : s.repeating = false → s.temp.length < 128 ∧ ¬ EndsInPair s.temp

section Encode

variable {s : Rle} {consumed : List Nat} {c : Nat}

theorem encoding_start : Encoding ⟨[], [], false⟩ [] where
  written := ⟨[], rfl, nofun, rfl⟩
  bytes := nofun
  repeated := nofun
  literal _ := ⟨by decide, fun ⟨front, c, h⟩ => by simp at h⟩

theorem not_endsInPair_singleton (c : Nat) : ¬ EndsInPair [c] := by
  rintro ⟨front, d, h⟩
  have size := congrArg List.length h
  rw [List.length_append] at size
  simp at size

/-- A buffer and one more entry. -/
theorem endsInPair_concat (temp : List Nat) (c : Nat) : EndsInPair (temp ++ [c]) ↔ temp.getLast? = some c := by
  constructor
  · rintro ⟨front, d, h⟩
    have split : temp ++ [c] = (front ++ [d]) ++ [d] := by rw [h]; simp
    obtain ⟨rfl, last⟩ := List.append_inj' split rfl
    cases last
    exact List.getLast?_concat
  · intro last
    obtain ⟨front, rfl⟩ := List.getLast?_eq_some_iff.mp last
    exact ⟨front, c, by simp⟩

theorem expand_written {runs : List (Run Nat)} {temp : List Nat} (run : Run Nat) (rest : List Nat)
    (expands : expand runs ++ temp = consumed) (split : temp ++ [c] = run.expand ++ rest) :
    expand (runs ++ [run]) ++ rest = consumed ++ [c] := by
  rw [expand_concat, List.append_assoc, ← split, ← List.append_assoc, expands]

theorem flatMap_concat {runs : List (Run Nat)} {output : List Nat} (run : Run Nat)
    (h : output = runs.flatMap serialise) : output ++ serialise run = (runs ++ [run]).flatMap serialise := by
  rw [List.flatMap_append, h, List.flatMap_singleton]

theorem writable_concat {runs : List (Run Nat)} {run : Run Nat} (writable : ∀ run ∈ runs, Writable run)
    (last : Writable run) : ∀ run' ∈ runs ++ [run], Writable run' := by
  intro run' member
  rcases List.mem_append.mp member with before | here
  · exact writable run' before
  · rwa [List.mem_singleton.mp here]

theorem bytes_concat {temp : List Nat} (bytes : ∀ e ∈ temp, e < 256) (small : c < 256) :
    ∀ e ∈ temp ++ [c], e < 256 := by
  intro e member
  rcases List.mem_append.mp member with before | here
  · exact bytes e before
  · rwa [List.mem_singleton.mp here]

/-- A turn while a byte is repeated. -/
theorem encoding_repeating (encoding : Encoding s consumed) (small : c < 256) (repeating : s.repeating = true) :
    Encoding (rleTurn s (some c)) (consumed ++ [c]) := by
  obtain ⟨count, d, temp, within⟩ := encoding.repeated repeating
  obtain ⟨runs, output, writable, expands⟩ := encoding.written
  have bytes := bytes_concat encoding.bytes small
  have smallRun : d < 256 := encoding.bytes d (by rw [temp]; exact List.mem_replicate.mpr ⟨nofun, rfl⟩)
  have length : (s.temp ++ [c]).length = count + 3 := by
    rw [temp, List.length_append, List.length_replicate, List.length_singleton]
  have last : (s.temp ++ [c]).getLastD 0 = c := by simp
  have beforeLast : (s.temp ++ [c]).dropLast.getLastD 0 = d := by
    rw [List.dropLast_concat, temp, List.replicate_succ', List.getLastD_concat]
  have head : (s.temp ++ [c]).headD 0 = d := by
    rw [temp]
    rfl
  have flushes : ((!(c == d)) = true ∨ count + 3 = 128 ∨ false = true) ↔ ¬ (c = d ∧ count + 3 ≠ 128) := by
    simp only [Bool.not_eq_true', beq_eq_false_iff_ne, ne_eq, Bool.false_eq_true, or_false]
    tauto
  unfold rleTurn
  dsimp only [Option.toList_some, Option.isNone_some]
  rw [length, last, beforeLast, head, if_neg (by omega), if_pos repeating, if_neg Bool.false_ne_true]
  by_cases goesOn : c = d ∧ count + 3 ≠ 128
  · obtain ⟨rfl, notFull⟩ := id goesOn
    rw [if_neg fun flush => flushes.mp flush goesOn]
    refine ⟨⟨runs, output, writable, ?_⟩, bytes, fun _ => ⟨count + 1, c, ?_, by omega⟩, fun off => ?_⟩
    · rw [← List.append_assoc, expands]
    · rw [temp, ← List.replicate_succ']
    · exact absurd (repeating.symm.trans off) (by decide)
  · rw [if_pos (flushes.mpr goesOn)]
    have ends : s.output ++ [count + 2, d] = (runs ++ [Run.repeated (count + 2) d]).flatMap serialise :=
      flatMap_concat (.repeated (count + 2) d) output
    refine ⟨⟨_, ends, writable_concat writable ⟨⟨by omega, by omega⟩, smallRun⟩, ?_⟩, ?_, nofun,
      fun _ => ⟨Nat.succ_lt_succ (by decide), not_endsInPair_singleton c⟩⟩
    · exact expand_written _ [c] expands (by rw [temp]; rfl)
    · intro e member
      rwa [List.mem_singleton.mp member]

/-- A turn with an entry in the buffer while no byte is repeated. -/
theorem rleTurn_literal (literal : s.repeating = false) (entries : s.temp ≠ []) :
    rleTurn s (some c) =
      if s.temp.getLast? = some c then
        if 2 ≤ s.temp.length then ⟨s.output ++ appendRange s.temp.dropLast, [c, c], true⟩
        else ⟨s.output, s.temp ++ [c], true⟩
      else if s.temp.length + 1 = 128 then ⟨s.output ++ appendRange (s.temp ++ [c]), [], false⟩
      else ⟨s.output, s.temp ++ [c], false⟩ := by
  have least : 0 < s.temp.length := List.length_pos_iff.mpr entries
  have length : (s.temp ++ [c]).length = s.temp.length + 1 := List.length_append
  have last : (s.temp ++ [c]).getLastD 0 = c := List.getLastD_concat ..
  have pairs : 2 ≤ s.temp.length + 1 ∧ c = s.temp.getLastD 0 ↔ s.temp.getLast? = some c := by
    rw [List.getLastD_eq_getLast?, List.getLast?_eq_some_getLast entries, Option.getD_some, Option.some.injEq]
    exact ⟨fun both => both.2.symm, fun same => ⟨by omega, same.symm⟩⟩
  have front : (s.temp ++ [c]).take (s.temp.length + 1 - 2) = s.temp.dropLast := by
    rw [List.dropLast_eq_take, List.take_append_of_le_length (by omega)]
    rfl
  unfold rleTurn
  dsimp only [Option.toList_some, Option.isNone_some]
  rw [length, last, List.dropLast_concat, literal, if_neg fun short => absurd short.2 (by omega),
    if_neg Bool.false_ne_true, front]
  simp only [pairs, Bool.false_eq_true, or_false, Nat.lt_add_one_iff]

/-- A byte like the last one starts a repetition. -/
theorem encoding_pair (encoding : Encoding s consumed) (small : c < 256) (literal : s.repeating = false)
    (pair : s.temp.getLast? = some c) : Encoding (rleTurn s (some c)) (consumed ++ [c]) := by
  obtain ⟨within, -⟩ := encoding.literal literal
  obtain ⟨runs, output, writable, expands⟩ := encoding.written
  obtain ⟨front, temp⟩ := List.getLast?_eq_some_iff.mp pair
  have size : s.temp.length = front.length + 1 := by rw [temp, List.length_append, List.length_singleton]
  rw [rleTurn_literal literal (by rw [temp]; simp), if_pos pair]
  by_cases long : 2 ≤ s.temp.length
  · have smallFront : ∀ e ∈ front, e < 256 :=
      fun e member => encoding.bytes e (by rw [temp]; exact List.mem_append_left _ member)
    have ends : s.output ++ appendRange front = (runs ++ [Run.literal front]).flatMap serialise :=
      flatMap_concat (.literal front) output
    rw [if_pos long, temp, List.dropLast_concat]
    refine ⟨⟨_, ends, writable_concat writable ⟨by omega, smallFront⟩, ?_⟩, ?_, fun _ => ⟨0, c, rfl, by decide⟩, nofun⟩
    · exact expand_written _ [c, c] expands (by rw [temp, List.append_assoc]; rfl)
    · intro e member
      rcases List.mem_pair.mp member with rfl | rfl <;> exact small
  · obtain rfl : front = [] := List.eq_nil_of_length_eq_zero (by omega)
    rw [if_neg long]
    refine ⟨⟨runs, output, writable, ?_⟩, bytes_concat encoding.bytes small, fun _ => ⟨0, c, ?_, by decide⟩, nofun⟩
    · rw [← List.append_assoc, expands]
    · rw [temp]
      rfl

/-- Any other byte joins the stretch. -/
theorem encoding_single (encoding : Encoding s consumed) (small : c < 256) (literal : s.repeating = false)
    (entries : s.temp ≠ []) (other : s.temp.getLast? ≠ some c) :
    Encoding (rleTurn s (some c)) (consumed ++ [c]) := by
  obtain ⟨within, -⟩ := encoding.literal literal
  obtain ⟨runs, output, writable, expands⟩ := encoding.written
  have bytes := bytes_concat encoding.bytes small
  have length : (s.temp ++ [c]).length = s.temp.length + 1 := List.length_append
  have single : ¬ EndsInPair (s.temp ++ [c]) := fun two => other ((endsInPair_concat s.temp c).mp two)
  rw [rleTurn_literal literal entries, if_neg other]
  by_cases full : s.temp.length + 1 = 128
  · have ends : s.output ++ appendRange (s.temp ++ [c])
        = (runs ++ [Run.literal (s.temp ++ [c])]).flatMap serialise := flatMap_concat (.literal (s.temp ++ [c])) output
    rw [if_pos full]
    refine ⟨⟨_, ends, writable_concat writable ⟨by omega, bytes⟩, ?_⟩, nofun, nofun, fun _ => ⟨Nat.succ_pos 127, ?_⟩⟩
    · exact expand_written _ [] expands (List.append_nil _).symm
    · exact (encoding_start.literal rfl).2
  · rw [if_neg full]
    refine ⟨⟨runs, output, writable, ?_⟩, bytes, nofun, fun _ => ⟨?_, single⟩⟩
    · rw [← List.append_assoc, expands]
    · rw [length]
      omega

/-- The first byte of a buffer. -/
theorem encoding_first (encoding : Encoding s consumed) (small : c < 256) (literal : s.repeating = false)
    (first : s.temp = []) : Encoding (rleTurn s (some c)) (consumed ++ [c]) := by
  obtain ⟨runs, output, writable, expands⟩ := encoding.written
  have turn : rleTurn s (some c) = { s with temp := [c] } := by
    unfold rleTurn
    dsimp only [Option.toList_some, Option.isNone_some]
    rw [first, if_pos ⟨rfl, Nat.le_refl 1⟩]
    rfl
  rw [turn]
  refine ⟨⟨runs, output, writable, ?_⟩, ?_, fun on => ?_, fun _ => ⟨Nat.succ_lt_succ (by decide),
    not_endsInPair_singleton c⟩⟩
  · rw [← expands, first, List.append_nil]
  · intro e member
    rwa [List.mem_singleton.mp member]
  · exact absurd (literal.symm.trans on) (by decide)

theorem encoding_turn (encoding : Encoding s consumed) (small : c < 256) :
    Encoding (rleTurn s (some c)) (consumed ++ [c]) := by
  cases repeating : s.repeating with
  | true => exact encoding_repeating encoding small repeating
  | false =>
    by_cases first : s.temp = []
    · exact encoding_first encoding small repeating first
    · by_cases pair : s.temp.getLast? = some c
      · exact encoding_pair encoding small repeating pair
      · exact encoding_single encoding small repeating first pair

/-- The last turn writes what is in the buffer, or a marker byte without a run. -/
theorem encoding_end (encoding : Encoding s consumed) :
    ∃ runs trailer, (rleTurn s none).output = runs.flatMap serialise ++ trailer ∧
      (∀ run ∈ runs, Writable run) ∧ expand runs = consumed ∧ (trailer = [] ∨ trailer = [127]) := by
  obtain ⟨runs, output, writable, expands⟩ := encoding.written
  unfold rleTurn
  dsimp only [Option.toList_none, Option.isNone_none]
  rw [List.append_nil, if_neg fun early => Bool.false_ne_true early.1]
  cases repeating : s.repeating with
  | true =>
    obtain ⟨count, d, temp, within⟩ := encoding.repeated repeating
    have smallRun : d < 256 := encoding.bytes d (by rw [temp]; exact List.mem_replicate.mpr ⟨nofun, rfl⟩)
    have ends : s.output ++ [count + 2, d] = (runs ++ [Run.repeated (count + 2) d]).flatMap serialise :=
      flatMap_concat (.repeated (count + 2) d) output
    rw [if_pos rfl, if_pos (.inr (.inr rfl)), if_pos rfl, temp, List.length_replicate]
    refine ⟨runs ++ [Run.repeated (count + 2) d], [], ?_,
      writable_concat writable ⟨⟨by omega, by omega⟩, smallRun⟩, ?_, .inl rfl⟩
    · rw [List.append_nil]
      exact ends
    · rw [expand_concat, ← expands, temp]
      rfl
  | false =>
    obtain ⟨within, single⟩ := encoding.literal repeating
    have alone : ¬ (2 ≤ s.temp.length ∧ s.temp.getLastD 0 = s.temp.dropLast.getLastD 0) := by
      rintro ⟨two, pair⟩
      rcases List.eq_nil_or_concat' s.temp with none | ⟨front, c, temp⟩
      · rw [none] at two
        exact absurd two (by decide)
      · rw [temp, List.length_append, List.length_singleton] at two
        rw [temp, List.getLastD_concat, List.dropLast_concat] at pair
        rw [temp, endsInPair_concat] at single
        have some : front ≠ [] := List.length_pos_iff.mp (Nat.le_of_succ_le_succ two)
        exact single (by rw [pair, List.getLastD_eq_getLast?, List.getLast?_eq_some_getLast some, Option.getD_some])
    rw [if_neg Bool.false_ne_true, if_neg alone, if_pos (.inr rfl)]
    by_cases empty : s.temp = []
    · refine ⟨runs, [127], ?_, writable, ?_, .inr rfl⟩
      · rw [empty, output]
        rfl
      · rw [← expands, empty, List.append_nil]
    · have some : 1 ≤ s.temp.length := List.length_pos_iff.mpr empty
      have ends : s.output ++ appendRange s.temp = (runs ++ [Run.literal s.temp]).flatMap serialise :=
        flatMap_concat (.literal s.temp) output
      refine ⟨runs ++ [Run.literal s.temp], [], ?_,
        writable_concat writable ⟨⟨some, by omega⟩, encoding.bytes⟩, ?_, .inl rfl⟩
      · rw [List.append_nil]
        exact ends
      · rw [expand_concat, ← expands]
        rfl

/-- The encoder writes runs that expand to the bytes. -/
theorem compress_runs (bytes : List Nat) (small : ∀ c ∈ bytes, c < 256) :
    ∃ runs trailer, compressBytesQmkRle bytes = runs.flatMap serialise ++ trailer ∧
      (∀ run ∈ runs, Writable run) ∧ expand runs = bytes ∧ (trailer = [] ∨ trailer = [127]) := by
  have read : Encoding ((bytes.map some).foldl rleTurn ⟨[], [], false⟩) bytes := by
    induction bytes using List.reverseRecOn with
    | nil => exact encoding_start
    | append_singleton bytes c ih =>
      rw [List.map_append, List.foldl_append]
      refine encoding_turn (ih fun c member => small c (List.mem_append_left _ member)) ?_
      exact small c (List.mem_append_right _ (List.mem_singleton.mpr rfl))
  unfold compressBytesQmkRle
  rw [List.foldl_append]
  exact encoding_end read

theorem serialise_lt {run : Run Nat} (writable : Writable run) : ∀ c ∈ serialise run, c < 256 := by
  intro c member
  cases run with
  | repeated count value =>
    rcases List.mem_pair.mp member with rfl | rfl
    · exact Nat.lt_of_le_of_lt writable.1.2 (by decide)
    · exact writable.2
  | literal values =>
    rcases List.mem_cons.mp member with rfl | here
    · exact Nat.lt_succ_of_le (Nat.add_le_add_left writable.1.2 127)
    · exact writable.2 c here

end Encode

/-! ## The round trip -/

/-- The bytes of a frame, with or without compression. -/
def imageData (compression : Compression) (bytes : List Nat) : List Nat :=
  match compression with
  | .uncompressed => bytes
  | .compressedRle => compressBytesQmkRle bytes

theorem imageData_lt (compression : Compression) {bytes : List Nat} (small : ∀ c ∈ bytes, c < 256) :
    ∀ c ∈ imageData compression bytes, c < 256 := by
  cases compression with
  | uncompressed => exact small
  | compressedRle =>
    obtain ⟨runs, trailer, output, writable, -, end'⟩ := compress_runs bytes small
    intro c member
    rw [imageData, output] at member
    rcases List.mem_append.mp member with before | last
    · obtain ⟨run, here, member⟩ := List.mem_flatMap.mp before
      exact serialise_lt (writable run here) c member
    · rcases end' with rfl | rfl
      · exact absurd last List.not_mem_nil
      · rw [List.mem_singleton.mp last]
        decide

/-- The runs are read back one after the other. -/
theorem runs_yield {runs : List (Run Nat)} {rest : List Byte} {state : ByteInputState}
    (writable : ∀ run ∈ runs, Writable run)
    (here : AtMarker ((runs.flatMap serialise).map (BitVec.ofNat 8) ++ rest) state) :
    ∃ last, Yields byteRleDecoder state ((expand runs).map Int.ofNat) last := by
  induction runs generalizing state with
  | nil => exact ⟨state, .nil state⟩
  | cons run runs ih =>
    rw [List.flatMap_cons, List.map_append, List.append_assoc] at here
    obtain ⟨next, yields, later⟩ := run_yields (writable run List.mem_cons_self) here
    obtain ⟨last, more⟩ := ih (fun run member => writable run (List.mem_cons_of_mem _ member)) later
    rw [expand_cons, List.map_append]
    exact ⟨last, yields.append more⟩

theorem imageData_yields (compression : Compression) {bytes : List Nat} (small : ∀ c ∈ bytes, c < 256)
    {rest : List Byte} {state : ByteInputState}
    (h : state.srcStream.remaining = (imageData compression bytes).map (BitVec.ofNat 8) ++ rest) :
    ∃ last, Yields (prepareInputState compression state).1 (prepareInputState compression state).2
      (bytes.map Int.ofNat) last := by
  cases compression with
  | uncompressed => exact uncompressed_yields state bytes small h
  | compressedRle =>
    obtain ⟨runs, trailer, output, writable, rfl, -⟩ := compress_runs bytes small
    rw [imageData, output, List.map_append, List.append_assoc] at h
    exact runs_yield writable ⟨rfl, h⟩

/-- Decoding calls the output with the pixels of the image in their order, for as long as it succeeds. -/
theorem decode_imageData {depth : BitDepth} {index : Nat → Nat} {τ : Type} (compression : Compression)
    (imageBytes : List Nat) (below : ∀ value ∈ imageBytes, index value < 2 ^ depth.bits) (rest : List Byte)
    (state : ByteInputState)
    (h : state.srcStream.remaining
      = (imageData compression (convertImageBytes depth index imageBytes)).map (BitVec.ofNat 8) ++ rest)
    (output : Nat → τ → Option τ) (out : τ) :
    decodePalette depth.bits (prepareInputState compression state).1 output imageBytes.length
        (prepareInputState compression state).2 out
      = (imageBytes.map index).foldlM (fun out pixel => output pixel out) out := by
  obtain ⟨last, yields⟩ := imageData_yields compression (convertImageBytes_lt imageBytes below) h
  exact decodeLoop_yields imageBytes.length imageBytes below (Nat.le_refl _) yields out

theorem paletteIndex_eq (depth : BitDepth) (pixel : Fin (2 ^ depth.bits)) : paletteIndex depth pixel = pixel := by
  rw [paletteIndex, Nat.and_two_pow_sub_one_eq_mod, Nat.mod_eq_of_lt pixel.isLt]

/-- What is written of packed pixels, raw or compressed, is decoded to the same pixels, wherever the
data stand in a stream and whatever the state of the decoder was before. -/
theorem pixels_roundTrip (depth : BitDepth) (compression : Compression) (pixels : List (Fin (2 ^ depth.bits))) :
    ∃ data, toBytes (imageData compression
        (convertImageBytes depth (paletteIndex depth) (pixels.map Fin.val))) = some data ∧
      ∀ (τ : Type) (output : Nat → τ → Option τ) (out : τ) (before rest : List Byte) (curr : Int) (mode : RleMode)
        (remain : BitVec 8),
        let start := prepareInputState compression ⟨⟨before ++ data ++ rest, before.length⟩, curr, mode, remain⟩
        decodePalette depth.bits start.1 output pixels.length start.2 out
          = (pixels.map Fin.val).foldlM (fun out pixel => output pixel out) out := by
  have index (value : Nat) (member : value ∈ pixels.map Fin.val) : paletteIndex depth value = value := by
    obtain ⟨pixel, -, rfl⟩ := List.mem_map.mp member
    exact paletteIndex_eq depth pixel
  have below : ∀ value ∈ pixels.map Fin.val, paletteIndex depth value < 2 ^ depth.bits := by
    intro value member
    rw [index value member]
    obtain ⟨pixel, -, rfl⟩ := List.mem_map.mp member
    exact pixel.isLt
  refine ⟨_, if_pos (imageData_lt compression (convertImageBytes_lt _ below)), ?_⟩
  intro τ output out before rest curr mode remain
  have same : (pixels.map Fin.val).map (paletteIndex depth) = pixels.map Fin.val := by
    conv_rhs => rw [← List.map_id (pixels.map Fin.val)]
    exact List.map_congr_left index
  have decoded := decode_imageData compression (pixels.map Fin.val) below rest
    ⟨⟨before ++ (imageData compression (convertImageBytes depth (paletteIndex depth)
      (pixels.map Fin.val))).map (BitVec.ofNat 8) ++ rest, before.length⟩, curr, mode, remain⟩
    (by rw [MemoryStream.remaining, List.append_assoc, List.drop_left]) output out
  rwa [same, List.length_map] at decoded

end QmkFirmware.Painter
