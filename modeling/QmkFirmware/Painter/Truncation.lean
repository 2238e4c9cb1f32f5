import QmkFirmware.Painter.Codec

/-! # Truncated image data

The end of a stream is a negative value.  `qp_internal_decode_palette` and `qp_internal_send_bytes` stop at it, and
the decoder of raw bytes passes it on.  The decoder of runs stores what it reads as bytes, so that the end of the
stream becomes the byte `0xFF`, and nothing stops.
-/

namespace QmkFirmware.Painter

open QmkFirmware.RunLength

/-! ## Sending bytes -/

section Send

variable {σ τ : Type} (input : σ → Int × σ) (output : Nat → τ → Option τ)

/-- `qp_internal_send_bytes`, as what the callback has made of the bytes, if it is true. -/
def sendBytes : (remaining : Nat) → σ → τ → Option τ
  | 0, _, out => some out
  | remaining + 1, s, out =>
    let (byteval, s) := input s
    if byteval < 0 then none
    else (output byteval.toNat out).bind fun out => sendBytes remaining s out

end Send

/-! ## What the data say -/

/-- Where a reader of runs stands; inside a run, with the number of bytes left but one. -/
inductive RunPlace where
  | marker
  | repeated (value : Byte) (left : Nat)
  | literal (left : Nat)

def RunPlace.afterRepeated (value : Byte) : Nat → RunPlace
  | 0 => .marker
  | left + 1 => .repeated value left

def RunPlace.afterLiteral : Nat → RunPlace
  | 0 => .marker
  | left + 1 => .literal left

/-- The bytes of a run behind its first one.  A repeated run with marker 0 is as long as one with 256. -/
def literalLeft (marker : Byte) : Nat := marker.toNat - 128

def repeatedLeft (marker : Byte) : Nat := (marker - 1).toNat

/-- The next byte, with the place and the data behind it. -/
def nextByte : RunPlace → List Byte → Option (Byte × RunPlace × List Byte)
  | .marker, marker :: value :: data =>
    if 128 ≤ marker then some (value, .afterLiteral (literalLeft marker), data)
    else some (value, .afterRepeated value (repeatedLeft marker), data)
  | .repeated value left, data => some (value, .afterRepeated value left, data)
  | .literal left, value :: data => some (value, .afterLiteral left, data)
  | _, _ => none

/-- The next bytes, if the data hold so many. -/
def runBytes : Nat → RunPlace → List Byte → Option (List Byte)
  | 0, _, _ => some []
  | count + 1, place, data =>
    (nextByte place data).bind fun next => (runBytes count next.2.1 next.2.2).map (next.1 :: ·)

/-- The first bytes that the data encode; without them the data are truncated. -/
def provided (compression : Compression) (count : Nat) (data : List Byte) : Option (List Byte) :=
  match compression with
  | .uncompressed => if count ≤ data.length then some (data.take count) else none
  | .compressedRle => runBytes count .marker data

/-- The number of bytes that hold the pixels. -/
def byteCount (depth : BitDepth) (pixelCount : Nat) : Nat :=
  (pixelCount + (depth.pixelsPerByte - 1)) / depth.pixelsPerByte

def unpackByte (bits : Nat) : Nat → Nat → List Nat
  | 0, _ => []
  | count + 1, byte => (byte &&& ((1 <<< bits) - 1)) :: unpackByte bits count (byte >>> bits)

/-- The pixels in the bytes. -/
def pixelsOf (depth : BitDepth) : Nat → List Nat → List Nat
  | _, [] => []
  | count, byte :: bytes =>
    unpackByte depth.bits (min count depth.pixelsPerByte) byte ++ pixelsOf depth (count - depth.pixelsPerByte) bytes

def values (bytes : List Byte) : List Nat := bytes.map BitVec.toNat

/-! ## The loops over a source -/

section Loops

variable {depth : BitDepth} {σ τ : Type} {input : σ → Int × σ} {output : Nat → τ → Option τ}

theorem decodeByte_eq (bits count byte : Nat) (out : τ) :
    decodeByte bits output count byte out = (unpackByte bits count byte).foldlM (fun out pixel => output pixel out) out := by
  induction count generalizing byte out with
  | zero => rfl
  | succ count ih =>
    rw [decodeByte, unpackByte, List.foldlM_cons]
    simp only [ih]
    rfl

theorem byteCount_zero (depth : BitDepth) : byteCount depth 0 = 0 := by
  cases depth <;> rfl

theorem byteCount_succ (depth : BitDepth) (count : Nat) :
    byteCount depth (count + 1) = byteCount depth (count + 1 - depth.pixelsPerByte) + 1 := by
  unfold byteCount
  cases depth <;> simp only [BitDepth.pixelsPerByte, BitDepth.bits] <;> omega

/-- One turn of the loop takes one byte and its pixels. -/
theorem decodeLoop_turn (fuel count : Nat) (s : σ) (out : τ) :
    decodeLoop depth.bits input output (fuel + 1) (count + 1) s out =
      if (input s).1 < 0 then none
      else ((unpackByte depth.bits (min (count + 1) depth.pixelsPerByte) (input s).1.toNat).foldlM
          (fun out pixel => output pixel out) out).bind fun out =>
        decodeLoop depth.bits input output fuel (count + 1 - depth.pixelsPerByte) (input s).2 out := by
  have taken : (if count + 1 < 8 / depth.bits then count + 1 else 8 / depth.bits) = min (count + 1) depth.pixelsPerByte := by
    rw [BitDepth.pixelsPerByte, Nat.min_def]
    split_ifs <;> omega
  have left : count + 1 - min (count + 1) depth.pixelsPerByte = count + 1 - depth.pixelsPerByte := by omega
  rw [decodeLoop, if_neg count.succ_ne_zero]
  dsimp only
  rw [taken, left, decodeByte_eq]

/-- A source that yields enough bytes is decoded to their pixels. -/
theorem decodeLoop_bytes {fuel count : Nat} (enough : count ≤ fuel) {bytes : List Nat}
    (length : bytes.length = byteCount depth count) {s last : σ} (yields : Yields input s (bytes.map Int.ofNat) last)
    (out : τ) :
    decodeLoop depth.bits input output fuel count s out =
      (pixelsOf depth count bytes).foldlM (fun out pixel => output pixel out) out := by
  induction fuel generalizing count bytes s out with
  | zero =>
    obtain rfl := Nat.le_zero.mp enough
    rw [byteCount_zero, List.length_eq_zero_iff] at length
    subst length
    rfl
  | succ fuel ih =>
    cases count with
    | zero =>
      rw [byteCount_zero, List.length_eq_zero_iff] at length
      subst length
      rfl
    | succ count =>
      have positive := pixelsPerByte_pos depth
      cases bytes with
      | nil =>
        rw [byteCount_succ] at length
        cases length
      | cons byte bytes =>
        cases yields with
        | cons call more =>
          have others : bytes.length = byteCount depth (count + 1 - depth.pixelsPerByte) := by
            rw [byteCount_succ] at length
            exact Nat.succ.inj length
          have present : ¬Int.ofNat byte < 0 := Int.not_lt.mpr (Int.natCast_nonneg byte)
          rw [decodeLoop_turn, call, pixelsOf, List.foldlM_append]
          dsimp only
          rw [if_neg present]
          simp only [ih (by omega) others more]
          rfl

/-- A loop that ends well has got a byte from its source in every turn. -/
theorem decodeLoop_some {fuel count : Nat} {s : σ} {out result : τ}
    (decoded : decodeLoop depth.bits input output fuel count s out = some result) :
    ∃ (bytes : List Nat) (last : σ), bytes.length = byteCount depth count ∧ Yields input s (bytes.map Int.ofNat) last := by
  induction fuel generalizing count s out with
  | zero =>
    cases count with
    | zero => exact ⟨[], s, (byteCount_zero depth).symm, .nil s⟩
    | succ count => cases decoded
  | succ fuel ih =>
    cases count with
    | zero => exact ⟨[], s, (byteCount_zero depth).symm, .nil s⟩
    | succ count =>
      rw [decodeLoop_turn] at decoded
      split at decoded
      · cases decoded
      · next present =>
        obtain ⟨middle, -, rest⟩ := Option.bind_eq_some_iff.mp decoded
        obtain ⟨bytes, last, length, yields⟩ := ih rest
        refine ⟨(input s).1.toNat :: bytes, last, ?_, .cons ?_ yields⟩
        · rw [List.length_cons, length, byteCount_succ]
        · exact Prod.ext (Int.toNat_of_nonneg (Int.not_lt.mp present)).symm rfl

theorem sendBytes_bytes {bytes : List Nat} {s last : σ} (yields : Yields input s (bytes.map Int.ofNat) last) (out : τ) :
    sendBytes input output bytes.length s out = bytes.foldlM (fun out byte => output byte out) out := by
  induction bytes generalizing s out with
  | nil => rfl
  | cons byte bytes ih =>
    cases yields with
    | cons call more =>
      have present : ¬Int.ofNat byte < 0 := Int.not_lt.mpr (Int.natCast_nonneg byte)
      rw [List.length_cons, sendBytes, call, List.foldlM_cons]
      dsimp only
      rw [if_neg present]
      simp only [ih more]
      rfl

theorem sendBytes_some {count : Nat} {s : σ} {out result : τ} (sent : sendBytes input output count s out = some result) :
    ∃ (bytes : List Nat) (last : σ), bytes.length = count ∧ Yields input s (bytes.map Int.ofNat) last := by
  induction count generalizing s out with
  | zero => exact ⟨[], s, rfl, .nil s⟩
  | succ count ih =>
    rw [sendBytes] at sent
    dsimp only at sent
    split at sent
    · cases sent
    · next present =>
      obtain ⟨middle, -, rest⟩ := Option.bind_eq_some_iff.mp sent
      obtain ⟨bytes, last, length, yields⟩ := ih rest
      refine ⟨(input s).1.toNat :: bytes, last, by rw [List.length_cons, length], .cons ?_ yields⟩
      exact Prod.ext (Int.toNat_of_nonneg (Int.not_lt.mp present)).symm rfl

end Loops

/-! ## Raw bytes -/

section Reading

variable {state : ByteInputState} {data : List Byte}

theorem values_lt (bytes : List Byte) : ∀ c ∈ values bytes, c < 256 := by
  intro c member
  obtain ⟨byte, -, rfl⟩ := List.mem_map.mp member
  exact byte.isLt

theorem ofNat_values (bytes : List Byte) : (values bytes).map (BitVec.ofNat 8) = bytes := by
  simp [values, Function.comp_def]

/-- What the decoder of raw bytes yields without a negative value is in the stream. -/
theorem uncompressed_present {bytes : List Nat} {last : ByteInputState}
    (yields : Yields byteUncompressedDecoder state (bytes.map Int.ofNat) last) :
    bytes.length ≤ state.srcStream.remaining.length := by
  induction bytes generalizing state with
  | nil => exact Nat.zero_le _
  | cons byte bytes ih =>
    cases yields with
    | cons call more =>
      cases here : state.srcStream.remaining with
      | nil =>
        -- the end of the stream is negative
        rw [byteUncompressedDecoder, MemoryStream.get_of_end here] at call
        cases congrArg Prod.fst call
      | cons c rest =>
        rw [byteUncompressedDecoder, MemoryStream.get_of_remaining here] at call
        obtain rfl := congrArg Prod.snd call
        have later := ih more
        rw [MemoryStream.remaining_next here] at later
        exact Nat.succ_le_succ later

/-! ## Runs -/

/-- The value that the decoder of runs has read ahead. -/
def peeked (data : List Byte) : Int := data.head?.elim (-1) fun c => c.toNat

theorem get_peeked {s : MemoryStream} (here : s.remaining = data) :
    s.get.1 = peeked data ∧ s.get.2.remaining = data.tail := by
  cases data with
  | nil =>
    rw [MemoryStream.get_of_end here]
    exact ⟨rfl, here⟩
  | cons c data =>
    rw [MemoryStream.get_of_remaining here]
    exact ⟨rfl, MemoryStream.remaining_next here⟩

/-- The decoder stands at a place in front of the data; inside a literal run it is one byte ahead. -/
def Stands (state : ByteInputState) (data : List Byte) : RunPlace → Prop
  | .marker => state.mode = .markerByte ∧ state.srcStream.remaining = data
  | .repeated value left => state.mode = .repeatingRun ∧ left < 256 ∧ state.remain = BitVec.ofNat 8 (left + 1) ∧
      state.curr = Int.ofNat value.toNat ∧ state.srcStream.remaining = data
  | .literal left => state.mode = .nonRepeatingRun ∧ left < 128 ∧ state.remain = BitVec.ofNat 8 (left + 1) ∧
      state.curr = peeked data ∧ state.srcStream.remaining = data.tail

/-- A byte of a literal run that goes on, whether or not the stream has another byte. -/
theorem rle_ahead {c k : Nat} (within : k + 1 < 256) (small : c < 256) (mode : state.mode = .nonRepeatingRun)
    (curr : state.curr = Int.ofNat c) (remain : state.remain = BitVec.ofNat 8 (k + 2)) :
    byteRleDecoder state =
      (Int.ofNat c, ⟨state.srcStream.get.2, state.srcStream.get.1, .nonRepeatingRun, BitVec.ofNat 8 (k + 1)⟩) := by
  have positive : 0 < BitVec.ofNat 8 (k + 1) := (remain_pos within).mpr (Nat.succ_pos k)
  unfold byteRleDecoder
  dsimp only
  rw [if_neg (by rw [mode]; decide), curr, curr_ofNat small, remain, remain_pred, if_pos positive, if_pos mode, mode]

theorem stands_repeated {value : Byte} {left : Nat} (stands : Stands state data (.repeated value left)) :
    ∃ next, byteRleDecoder state = (Int.ofNat value.toNat, next) ∧ Stands next data (.afterRepeated value left) := by
  obtain ⟨mode, small, remain, curr, rest⟩ := stands
  cases left with
  | zero => exact ⟨_, rle_last value.isLt (by rw [mode]; decide) curr remain, rfl, rest⟩
  | succ left => exact ⟨_, rle_repeating small value.isLt mode curr remain, mode, by omega, rfl, curr, rest⟩

theorem stands_literal {value : Byte} {left : Nat} (stands : Stands state (value :: data) (.literal left)) :
    ∃ next, byteRleDecoder state = (Int.ofNat value.toNat, next) ∧ Stands next data (.afterLiteral left) := by
  obtain ⟨mode, small, remain, curr, rest⟩ := stands
  cases left with
  | zero => exact ⟨_, rle_last value.isLt (by rw [mode]; decide) curr remain, rfl, rest⟩
  | succ left =>
    have ahead := get_peeked rest
    exact ⟨_, rle_ahead (by omega) value.isLt mode curr remain, rfl, by omega, rfl, ahead.1, ahead.2⟩

/-- The marker and the byte behind it lead into a run. -/
theorem stands_marker {marker value : Byte} (stands : Stands state (marker :: value :: data) .marker) :
    (readMarker state).mode ≠ .markerByte ∧
      (128 ≤ marker → Stands (readMarker state) (value :: data) (.literal (literalLeft marker))) ∧
      (¬128 ≤ marker → Stands (readMarker state) data (.repeated value (repeatedLeft marker))) := by
  obtain ⟨mode, rest⟩ := stands
  have byte : BitVec.ofInt 8 (marker.toNat : Int) = marker := by
    rw [BitVec.ofInt_natCast, BitVec.ofNat_toNat, BitVec.setWidth_eq]
  have behind := MemoryStream.remaining_next rest
  unfold readMarker
  rw [MemoryStream.get_of_remaining rest]
  dsimp only
  rw [MemoryStream.get_of_remaining behind, byte]
  dsimp only
  by_cases long : 128 ≤ marker
  · have least : 128 ≤ marker.toNat := long
    have small := marker.isLt
    rw [if_pos long]
    refine ⟨nofun, fun _ => ?_, fun short => absurd long short⟩
    unfold literalLeft
    refine ⟨rfl, by omega, ?_, rfl, MemoryStream.remaining_next behind⟩
    apply BitVec.eq_of_toNat_eq
    rw [BitVec.toNat_sub, BitVec.toNat_ofNat]
    show (2 ^ 8 - 127 + marker.toNat) % 2 ^ 8 = _
    omega
  · rw [if_neg long]
    refine ⟨nofun, fun high => absurd high long, fun _ => ?_⟩
    unfold repeatedLeft
    refine ⟨rfl, (marker - 1).isLt, ?_, rfl, MemoryStream.remaining_next behind⟩
    rw [BitVec.ofNat_add, BitVec.ofNat_toNat, BitVec.setWidth_eq]
    exact (BitVec.sub_add_cancel marker 1).symm

/-- As long as the data go on, the decoder returns the next byte. -/
theorem stands_next {place : RunPlace} (stands : Stands state data place) {next : Byte × RunPlace × List Byte}
    (there : nextByte place data = some next) :
    ∃ later, byteRleDecoder state = (Int.ofNat next.1.toNat, later) ∧ Stands later next.2.2 next.2.1 := by
  cases place with
  | marker =>
    cases data with
    | nil => simp [nextByte] at there
    | cons marker data =>
      cases data with
      | nil => simp [nextByte] at there
      | cons value data =>
        obtain ⟨inside, literal, repeated⟩ := stands_marker stands
        rw [rle_marker stands.1 inside]
        rw [nextByte] at there
        by_cases long : 128 ≤ marker
        · have run := literal long
          rw [if_pos long] at there
          generalize literalLeft marker = left at run there
          cases there
          exact stands_literal run
        · have run := repeated long
          rw [if_neg long] at there
          generalize repeatedLeft marker = left at run there
          cases there
          exact stands_repeated run
  | repeated value left =>
    cases there
    exact stands_repeated stands
  | literal left =>
    cases data with
    | nil => simp [nextByte] at there
    | cons value data =>
      cases there
      exact stands_literal stands

theorem runBytes_yields {count : Nat} {place : RunPlace} (stands : Stands state data place) {bytes : List Byte}
    (there : runBytes count place data = some bytes) :
    ∃ last, Yields byteRleDecoder state ((values bytes).map Int.ofNat) last := by
  induction count generalizing state data place bytes with
  | zero =>
    cases there
    exact ⟨state, .nil state⟩
  | succ count ih =>
    rw [runBytes, Option.bind_eq_some_iff] at there
    obtain ⟨next, first, rest⟩ := there
    obtain ⟨others, more, rfl⟩ := Option.map_eq_some_iff.mp rest
    obtain ⟨later, call, standsLater⟩ := stands_next stands first
    obtain ⟨last, yields⟩ := ih standsLater more
    exact ⟨last, .cons call yields⟩

theorem runBytes_length {count : Nat} {place : RunPlace} {bytes : List Byte}
    (there : runBytes count place data = some bytes) : bytes.length = count := by
  induction count generalizing data place bytes with
  | zero =>
    cases there
    rfl
  | succ count ih =>
    rw [runBytes, Option.bind_eq_some_iff] at there
    obtain ⟨next, -, rest⟩ := there
    obtain ⟨others, more, rfl⟩ := Option.map_eq_some_iff.mp rest
    rw [List.length_cons, ih more]

/-- Whatever the stream holds, the decoder of runs does not return a negative value. -/
theorem rle_nonneg (state : ByteInputState) : ¬(byteRleDecoder state).1 < 0 := by
  rw [byteRleDecoder]
  exact Int.not_lt.mpr (Int.natCast_nonneg _)

/-! ## Both schemes -/

variable {compression : Compression} {count : Nat}

theorem provided_length {bytes : List Byte} (there : provided compression count data = some bytes) :
    bytes.length = count := by
  cases compression with
  | uncompressed =>
    rw [provided] at there
    split at there
    · next enough =>
      cases there
      exact List.length_take_of_le enough
    · cases there
  | compressedRle => exact runBytes_length there

/-- Complete data are decoded. -/
theorem provided_yields {bytes : List Byte} (state : ByteInputState)
    (there : provided compression count state.srcStream.remaining = some bytes) :
    ∃ last, Yields (prepareInputState compression state).1 (prepareInputState compression state).2
      ((values bytes).map Int.ofNat) last := by
  cases compression with
  | uncompressed =>
    rw [provided] at there
    split at there
    · cases there
      have split : state.srcStream.remaining = (values (state.srcStream.remaining.take count)).map (BitVec.ofNat 8) ++
          state.srcStream.remaining.drop count := by
        rw [ofNat_values, List.take_append_drop]
      exact uncompressed_yields state _ (values_lt _) split
    · cases there
  | compressedRle =>
    have stands : Stands { state with mode := .markerByte, remain := 0 } state.srcStream.remaining .marker := ⟨rfl, rfl⟩
    exact runBytes_yields stands there

end Reading

/-! ## What is reported -/

/-- A true result of `qp_internal_decode_palette` means that all pixels come from bytes of the stream. -/
def DecodeReports (compression : Compression) (depth : BitDepth) (pixelCount : Nat) (state : ByteInputState) : Prop :=
  ∀ (τ : Type) (output : Nat → τ → Option τ) (out result : τ),
    decodePalette depth.bits (prepareInputState compression state).1 output pixelCount
        (prepareInputState compression state).2 out = some result →
      ∃ bytes, provided compression (byteCount depth pixelCount) state.srcStream.remaining = some bytes ∧
        (pixelsOf depth pixelCount (values bytes)).foldlM (fun out pixel => output pixel out) out = some result

/-- A true result of `qp_internal_send_bytes` means that all bytes come from the stream. -/
def SendReports (compression : Compression) (count : Nat) (state : ByteInputState) : Prop :=
  ∀ (τ : Type) (output : Nat → τ → Option τ) (out result : τ),
    sendBytes (prepareInputState compression state).1 output count (prepareInputState compression state).2 out = some result →
      ∃ bytes, provided compression count state.srcStream.remaining = some bytes ∧
        (values bytes).foldlM (fun out byte => output byte out) out = some result

section Reports

variable {compression : Compression} {depth : BitDepth} {pixelCount count : Nat} {state : ByteInputState}

theorem DecodeReports.of_provided (there : (provided compression (byteCount depth pixelCount) state.srcStream.remaining).isSome) :
    DecodeReports compression depth pixelCount state := by
  intro τ output out result decoded
  obtain ⟨bytes, here⟩ := Option.isSome_iff_exists.mp there
  obtain ⟨last, yields⟩ := provided_yields state here
  have length : (values bytes).length = byteCount depth pixelCount := by
    rw [values, List.length_map, provided_length here]
  rw [decodePalette, decodeLoop_bytes (Nat.le_refl _) length yields] at decoded
  exact ⟨bytes, here, decoded⟩

theorem SendReports.of_provided (there : (provided compression count state.srcStream.remaining).isSome) :
    SendReports compression count state := by
  intro τ output out result sent
  obtain ⟨bytes, here⟩ := Option.isSome_iff_exists.mp there
  obtain ⟨last, yields⟩ := provided_yields state here
  have length : (values bytes).length = count := by
    rw [values, List.length_map, provided_length here]
  rw [← length, sendBytes_bytes yields] at sent
  exact ⟨bytes, here, sent⟩

/-- Raw bytes that are not there end the loop. -/
theorem provided_uncompressed {bytes : List Nat} {last : ByteInputState}
    (yields : Yields byteUncompressedDecoder state (bytes.map Int.ofNat) last) :
    (provided .uncompressed bytes.length state.srcStream.remaining).isSome := by
  rw [provided, if_pos (uncompressed_present yields)]
  rfl

/-- The decoder of runs never ends a loop whose output succeeds. -/
theorem decodeLoop_rle {fuel : Nat} (enough : pixelCount ≤ fuel) (state : ByteInputState) :
    decodeLoop depth.bits byteRleDecoder (fun _ (_ : Unit) => some ()) fuel pixelCount state () = some () := by
  have accepted (pixels : List Nat) : pixels.foldlM (fun (_ : Unit) _ => some ()) () = some () := by
    induction pixels with
    | nil => rfl
    | cons pixel pixels ih => exact ih
  induction fuel generalizing pixelCount state with
  | zero =>
    obtain rfl := Nat.le_zero.mp enough
    rfl
  | succ fuel ih =>
    cases pixelCount with
    | zero => rfl
    | succ count =>
      have positive := pixelsPerByte_pos depth
      rw [decodeLoop_turn, if_neg (rle_nonneg state), accepted, Option.bind_some]
      exact ih (by omega) _

theorem sendBytes_rle (count : Nat) (state : ByteInputState) :
    sendBytes byteRleDecoder (fun _ (_ : Unit) => some ()) count state () = some () := by
  induction count generalizing state with
  | zero => rfl
  | succ count ih =>
    rw [sendBytes]
    dsimp only
    rw [if_neg (rle_nonneg state), Option.bind_some]
    exact ih _

end Reports

/-- Truncated data are reported exactly for raw bytes. -/
theorem truncation_reported_iff (compression : Compression) (depth : BitDepth) (pixelCount count : Nat)
    (state : ByteInputState) :
    (DecodeReports compression depth pixelCount state ↔ compression = .uncompressed ∨
        (provided compression (byteCount depth pixelCount) state.srcStream.remaining).isSome) ∧
      (SendReports compression count state ↔ compression = .uncompressed ∨
        (provided compression count state.srcStream.remaining).isSome) := by
  constructor
  · constructor
    · intro reports
      cases compression with
      | uncompressed => exact .inl rfl
      | compressedRle =>
        -- nothing stops the loop over an output that takes everything
        obtain ⟨bytes, here, -⟩ := reports Unit (fun _ _ => some ()) () () (decodeLoop_rle (Nat.le_refl _) _)
        exact .inr (Option.isSome_of_mem here)
    · rintro (rfl | there)
      · intro τ output out result decoded
        obtain ⟨bytes, last, length, yields⟩ := decodeLoop_some decoded
        have there := provided_uncompressed yields
        rw [length] at there
        exact DecodeReports.of_provided there τ output out result decoded
      · exact DecodeReports.of_provided there
  · constructor
    · intro reports
      cases compression with
      | uncompressed => exact .inl rfl
      | compressedRle =>
        obtain ⟨bytes, here, -⟩ := reports Unit (fun _ _ => some ()) () () (sendBytes_rle _ _)
        exact .inr (Option.isSome_of_mem here)
    · rintro (rfl | there)
      · intro τ output out result sent
        obtain ⟨bytes, last, length, yields⟩ := sendBytes_some sent
        have there := provided_uncompressed yields
        rw [length] at there
        exact SendReports.of_provided there τ output out result sent
      · exact SendReports.of_provided there

/-- An empty stream is decoded to a pixel. -/
theorem emptyRuns_not_reported :
    ¬DecodeReports .compressedRle .one 1 ⟨⟨[], 0⟩, 0, .markerByte, 0⟩ := by
  intro reports
  obtain ⟨bytes, here, -⟩ := reports Unit (fun _ _ => some ()) () () rfl
  cases here

end QmkFirmware.Painter
