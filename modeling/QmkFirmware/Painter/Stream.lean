import Mathlib.Data.List.Basic
import Mathlib.Tactic.Linarith

/-! # Memory streams

`quantum/painter/qp_stream.c` for memory streams.  The flag `is_eof` is left out, which nothing
reads here.
-/

namespace QmkFirmware.Painter

abbrev Byte := BitVec 8

/-- `qp_memory_stream_t`: its length is that of the buffer. -/
structure MemoryStream where
  buffer : List Byte
  position : Nat
deriving DecidableEq

namespace MemoryStream

/-- The bytes from the position on. -/
def remaining (s : MemoryStream) : List Byte := s.buffer.drop s.position

/-- `STREAM_EOF` is -1. -/
def get (s : MemoryStream) : Int × MemoryStream :=
  match s.buffer[s.position]? with
  | some c => (c.toNat, { s with position := s.position + 1 })
  | none => (-1, s)

inductive Origin where
  | seekSet
  | seekCur
  | seekEnd

/-- `mem_seek`, with whether it succeeded. -/
def seek (s : MemoryStream) (offset : Int) (origin : Origin) : Bool × MemoryStream :=
  let position : Int :=
    match origin with
    | .seekSet => offset
    | .seekCur => s.position + offset
    | .seekEnd => s.buffer.length + offset
  if position < 0 then (false, s)
  else if s.buffer.length < position then (false, s)
  else (true, { s with position := position.toNat })

/-- `qp_stream_read_impl` for one member, with the bytes it has read. -/
def read : (size : Nat) → MemoryStream → List Byte × MemoryStream
  | 0, s => ([], s)
  | size + 1, s =>
    let (c, s) := s.get
    if c < 0 then ([], s)
    else
      let (bytes, s) := s.read size
      (BitVec.ofInt 8 c :: bytes, s)

/-- The stream after `count` bytes. -/
def skip (s : MemoryStream) (count : Nat) : MemoryStream := { s with position := s.position + count }

/-! ## What is read -/

variable {s : MemoryStream} {c : Byte} {rest : List Byte}

theorem get_of_remaining (h : s.remaining = c :: rest) :
    s.get = ((c.toNat : Int), s.skip 1) := by
  have here : s.buffer[s.position]? = some c := by
    rw [← List.head?_drop, ← remaining, h, List.head?_cons]
  unfold get
  rw [here]
  rfl

theorem get_of_end (h : s.remaining = []) : s.get = (-1, s) := by
  have past : s.buffer[s.position]? = none := by
    rw [← List.head?_drop, ← remaining, h, List.head?_nil]
  unfold get
  rw [past]

theorem remaining_skip (first : List Byte) (h : s.remaining = first ++ rest) :
    (s.skip first.length).remaining = rest := by
  unfold remaining skip at *
  dsimp only
  rw [← List.drop_drop, h, List.drop_left]

theorem remaining_next (h : s.remaining = c :: rest) : (s.skip 1).remaining = rest :=
  remaining_skip [c] h

@[simp] theorem skip_skip (s : MemoryStream) (first second : Nat) :
    (s.skip first).skip second = s.skip (first + second) := by
  simp [skip, Nat.add_assoc]

/-- Reading takes what is there, up to the size. -/
theorem read_eq (size : Nat) (s : MemoryStream) :
    s.read size = (s.remaining.take size, s.skip (s.remaining.take size).length) := by
  induction size generalizing s with
  | zero => rfl
  | succ size ih =>
    cases h : s.remaining with
    | nil =>
      rw [read, get_of_end h]
      rfl
    | cons c rest =>
      have next := remaining_next h
      have value : BitVec.ofInt 8 (c.toNat : Int) = c := by
        rw [BitVec.ofInt_natCast, BitVec.ofNat_toNat, BitVec.setWidth_eq]
      rw [read, get_of_remaining h]
      dsimp only
      rw [if_neg (Int.not_lt.mpr (Int.natCast_nonneg _)), ih, next, value, skip_skip, List.take_succ_cons,
        List.length_cons, Nat.add_comm 1]

end MemoryStream

end QmkFirmware.Painter
