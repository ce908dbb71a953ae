/-
  DeskHop.Core.Reads — reads of a buffer that fail past its end.

  The parsers' own reads (`byteAt` and what is built on it) yield 0 there, which would
  hide such a read. Proved: a read that stays inside yields what the parsers read.
-/

import DeskHop.Core.Bytes

namespace DeskHop

def readByte (b : List Byte) (i : Nat) : Option Byte := b[i]?

/-- `n` bytes from `off` on, one after another. -/
def readBytes (b : List Byte) (off : Nat) : Nat → Option (List Byte)
  | 0 => some []
  | n + 1 => do
    let x ← readByte b off
    let xs ← readBytes b (off + 1) n
    return x :: xs

def read16 (b : List Byte) (off : Nat) : Option UInt16 := (readBytes b off 2).map (get16 · 0)

def read32 (b : List Byte) (off : Nat) : Option UInt32 := (readBytes b off 4).map (get32 · 0)

def read64 (b : List Byte) (off : Nat) : Option UInt64 := (readBytes b off 8).map (get64 · 0)

/-- `memcpy` of `n` bytes, all of which the buffer has. -/
def readSlice (b : List Byte) (off n : Nat) : Option (Bytes n) := (readBytes b off n).map (slice · 0 n)

variable {b : List Byte} {off n : Nat}

theorem readByte_inside (h : off < b.length) : readByte b off = some (byteAt b off) := by
  rw [readByte, byteAt, List.getD_eq_getElem?_getD, List.getElem?_eq_getElem h]
  rfl

theorem readByte_past (h : b.length ≤ off) : readByte b off = none := List.getElem?_eq_none h

theorem readBytes_inside (h : off + n ≤ b.length) : readBytes b off n = some ((b.drop off).take n) := by
  induction n generalizing off with
  | zero => rfl
  | succ n ih =>
    have hlt : off < b.length := by omega
    rw [readBytes, readByte, List.getElem?_eq_getElem hlt, ih (by omega), List.drop_eq_getElem_cons hlt, List.take_succ_cons]
    rfl

/-- What the first `n` bytes from `off` on say is what is read at `off`. -/
theorem byteAt_take_drop {i : Nat} (hi : i < n) : byteAt ((b.drop off).take n) i = byteAt b (off + i) := by
  simp only [byteAt, List.getD_eq_getElem?_getD, List.getElem?_take_of_lt hi, List.getElem?_drop]

theorem read16_inside (h : off + 2 ≤ b.length) : read16 b off = some (get16 b off) := by
  rw [read16, readBytes_inside h, Option.map_some, get16, byteAt_take_drop (by omega), byteAt_take_drop (by omega)]
  rfl

theorem read32_inside (h : off + 4 ≤ b.length) : read32 b off = some (get32 b off) := by
  rw [read32, readBytes_inside h, Option.map_some]
  refine congrArg some (List.foldl_ext _ _ 0 fun v i hi => ?_)
  rw [Nat.zero_add, byteAt_take_drop (List.mem_range.mp hi)]

theorem read64_inside (h : off + 8 ≤ b.length) : read64 b off = some (get64 b off) := by
  rw [read64, readBytes_inside h, Option.map_some]
  refine congrArg some (List.foldl_ext _ _ 0 fun v i hi => ?_)
  rw [Nat.zero_add, byteAt_take_drop (List.mem_range.mp hi)]

theorem readSlice_inside (h : off + n ≤ b.length) : readSlice b off n = some (slice b off n) := by
  rw [readSlice, readBytes_inside h, Option.map_some]
  refine congrArg some (Bytes.ext_byteAt fun i hi => ?_)
  show byteAt ((((b.drop off).take n).drop 0).takeD n 0) i = byteAt ((b.drop off).takeD n 0) i
  rw [byteAt_takeD _ _ _ hi, byteAt_takeD _ _ _ hi, List.drop_zero, byteAt_take_drop hi]
  rw [byteAt, byteAt, List.getD_eq_getElem?_getD, List.getD_eq_getElem?_getD, List.getElem?_drop]

end DeskHop
