/-
  DeskHop.Core.Bytes — little-endian fields of a byte buffer.

  The same `put16`/`get16`, `put32`/`get32` and `put64`/`get64` stand in every file of
  `core/src` that reads or writes a payload. A buffer is a list of bytes; `byteAt` reads
  it, with 0 past the end, which no caller reads. A fixed-size array carries its length
  (`Bytes`).
-/

import Mathlib.Data.UInt
import Mathlib.Data.List.TakeDrop

namespace DeskHop

abbrev Byte := UInt8

/-- A C array of `n` bytes. -/
abbrev Bytes (n : Nat) := { l : List Byte // l.length = n }

def Bytes.zero (n : Nat) : Bytes n := ⟨List.replicate n 0, List.length_replicate⟩

instance (n : Nat) : Inhabited (Bytes n) := ⟨Bytes.zero n⟩

def byteAt (b : List Byte) (i : Nat) : Byte := b.getD i 0

/-- `memcpy` of `n` bytes from `b`, starting at `off`. -/
def slice (b : List Byte) (off n : Nat) : Bytes n := ⟨(b.drop off).takeD n 0, List.takeD_length _ _ _⟩

def put16 (v : UInt16) : List Byte := [(v &&& 0xFF).toUInt8, (v >>> 8).toUInt8]

def get16 (b : List Byte) (off : Nat) : UInt16 := (byteAt b off).toUInt16 ||| (byteAt b (off + 1)).toUInt16 <<< 8

def put32 (v : UInt32) : List Byte := (List.range 4).map fun i => (v >>> (8 * UInt32.ofNat i)).toUInt8

def get32 (b : List Byte) (off : Nat) : UInt32 :=
  (List.range 4).foldl (fun v i => v ||| (byteAt b (off + i)).toUInt32 <<< (8 * UInt32.ofNat i)) 0

def put64 (v : UInt64) : List Byte := (List.range 8).map fun i => (v >>> (8 * UInt64.ofNat i)).toUInt8

def get64 (b : List Byte) (off : Nat) : UInt64 :=
  (List.range 8).foldl (fun v i => v ||| (byteAt b (off + i)).toUInt64 <<< (8 * UInt64.ofNat i)) 0

/-! ## A field reads back what was put -/

/-- The low byte of a word keeps the low bits. -/
theorem getElem_low_byte {w : Nat} (x : BitVec w) (hw : 8 < w) {i : Nat} (hi : i < w) :
    (x % BitVec.ofNat w 256)[i] = (decide (i < 8) && x[i]) := by
  have h256 : 256 % 2 ^ w = 2 ^ 8 := Nat.mod_eq_of_lt (Nat.pow_lt_pow_right (a := 2) (by decide) hw)
  rw [BitVec.getElem_eq_testBit_toNat, BitVec.toNat_umod, BitVec.toNat_ofNat, h256, Nat.testBit_mod_two_pow,
    BitVec.getElem_eq_testBit_toNat]

theorem get16_put16 (v : UInt16) (r : List Byte) : get16 (put16 v ++ r) 0 = v := by
  have hmask : ∀ j : Fin 16, (255#16)[j.val] = decide (j.val < 8) := by decide
  apply UInt16.toBitVec_inj.mp
  ext i hi
  have hi8 : (255#16)[i] = decide (i < 8) := hmask ⟨i, hi⟩
  simp [get16, put16, byteAt, getElem_low_byte, hi8]
  by_cases h : i < 8
  · simp [h]
  · have : 8 + (i - 8) = i := by omega
    simp [h, this, hi]
    omega

theorem put16_get16 (a b : Byte) (r : List Byte) : put16 (get16 (a :: b :: r) 0) = [a, b] := by
  have hmask : ∀ j : Fin 8, (255#8)[j.val] = true := by decide
  have h1 : (get16 (a :: b :: r) 0 &&& 0xFF).toUInt8 = a := by
    apply UInt8.toBitVec_inj.mp
    ext i hi
    have hi8 : (255#8)[i] = true := hmask ⟨i, hi⟩
    simp [get16, byteAt, hi8]
  have h2 : (get16 (a :: b :: r) 0 >>> 8).toUInt8 = b := by
    apply UInt8.toBitVec_inj.mp
    ext i hi
    simp [get16, byteAt]
    grind
  rw [put16, h1, h2]

theorem get32_put32 (v : UInt32) (r : List Byte) : get32 (put32 v ++ r) 0 = v := by
  apply UInt32.toBitVec_inj.mp
  ext i hi
  simp [get32, put32, byteAt, List.range_succ, getElem_low_byte]
  grind

theorem get64_put64 (v : UInt64) (r : List Byte) : get64 (put64 v ++ r) 0 = v := by
  apply UInt64.toBitVec_inj.mp
  ext i hi
  simp [get64, put64, byteAt, List.range_succ, getElem_low_byte]
  grind

theorem length_put64 (v : UInt64) : (put64 v).length = 8 := by simp [put64]

theorem byteAt_append_add (l r : List Byte) (i : Nat) : byteAt (l ++ r) (l.length + i) = byteAt r i := by
  rw [byteAt, byteAt, List.getD_eq_getElem?_getD, List.getD_eq_getElem?_getD,
    List.getElem?_append_right (Nat.le_add_right _ _), Nat.add_sub_cancel_left]

theorem get16_append_add (l r : List Byte) (off : Nat) : get16 (l ++ r) (l.length + off) = get16 r off := by
  simp only [get16, Nat.add_assoc, byteAt_append_add]

theorem get32_append_add (l r : List Byte) (off : Nat) : get32 (l ++ r) (l.length + off) = get32 r off := by
  simp only [get32, Nat.add_assoc, byteAt_append_add]

theorem get64_append_add (l r : List Byte) (off : Nat) : get64 (l ++ r) (l.length + off) = get64 r off := by
  simp only [get64, Nat.add_assoc, byteAt_append_add]

/-! ## Slices -/

theorem slice_append (l : List Byte) {n : Nat} (x : Bytes n) (r : List Byte) : slice (l ++ x.val ++ r) l.length n = x := by
  apply Subtype.ext
  show ((l ++ x.val ++ r).drop l.length).takeD n 0 = x.val
  rw [List.append_assoc, List.drop_left, List.takeD_left' x.property]

theorem byteAt_takeD (l : List Byte) (n i : Nat) (hi : i < n) : byteAt (l.takeD n 0) i = byteAt l i := by
  induction n generalizing l i with
  | zero => omega
  | succ n ih =>
    cases i with
    | zero => cases l <;> rfl
    | succ i =>
      cases l with
      | nil => exact (ih [] i (by omega)).trans rfl
      | cons b l => exact ih l i (by omega)

theorem Bytes.ext_byteAt {n : Nat} {x y : Bytes n} (h : ∀ i < n, byteAt x.val i = byteAt y.val i) : x = y := by
  apply Subtype.ext
  refine List.ext_getElem (x.property.trans y.property.symm) fun i hx hy => ?_
  have := h i (x.property ▸ hx)
  simpa [byteAt, List.getD_eq_getElem?_getD, hx, hy] using this

end DeskHop
