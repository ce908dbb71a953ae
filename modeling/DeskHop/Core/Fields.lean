/-
  DeskHop.Core.Fields — what the little-endian reads and writes of `core/src` are as
  numbers, and as fields of a message.

  Proved: eight bytes are read as the number they are in base 256 (`toNat_get64`), and a
  byte, a word of 16 or 64 bits and an array are fields, as the code writes and reads
  them (`byteField`, `field16`, `field64`, `bytesField`).
-/

import DeskHop.Core.Bytes
import DeskHop.Lib.Codec
import Mathlib.Data.Nat.Digits.Defs

namespace DeskHop

open DeskHop.Lib

/-! ## The number that bytes are -/

/-- The least significant first. -/
def littleEndian (bs : List Byte) : Nat := Nat.ofDigits 256 (bs.map UInt8.toNat)

theorem littleEndian_append (xs ys : List Byte) :
    littleEndian (xs ++ ys) = littleEndian xs + 256 ^ xs.length * littleEndian ys := by
  rw [littleEndian, List.map_append, Nat.ofDigits_append, List.length_map]
  rfl

theorem littleEndian_singleton (x : Byte) : littleEndian [x] = x.toNat := Nat.ofDigits_singleton ..

theorem littleEndian_zeros (n : Nat) : littleEndian (List.replicate n 0) = 0 := by
  rw [littleEndian, List.map_replicate]
  exact Nat.ofDigits_replicate_zero

theorem toNat_digit (bs : List Byte) : ∀ d ∈ bs.map UInt8.toNat, d < 256 := by
  intro d hd
  obtain ⟨x, -, rfl⟩ := List.mem_map.mp hd
  exact x.toNat_lt

theorem littleEndian_lt (bs : List Byte) : littleEndian bs < 256 ^ bs.length := by
  have h := Nat.ofDigits_lt_base_pow_length (by decide) (toNat_digit bs)
  rwa [List.length_map] at h

/-- As many bytes that are the same number are the same bytes. -/
theorem littleEndian_inj {xs ys : List Byte} (hlen : xs.length = ys.length) (h : littleEndian xs = littleEndian ys) :
    xs = ys := by
  have hdigits : xs.map UInt8.toNat = ys.map UInt8.toNat :=
    Nat.ofDigits_inj_of_len_eq (by decide) (by rw [List.length_map, List.length_map, hlen]) (toNat_digit xs)
      (toNat_digit ys) h
  exact List.map_injective_iff.mpr (fun _ _ => UInt8.toNat_inj.mp) hdigits

/-! ## Reading a word byte by byte -/

/-- A byte shifted to its place. -/
theorem toNat_shifted (x : Byte) {i : Nat} (hi : i < 8) :
    (x.toUInt64 <<< (8 * UInt64.ofNat i)).toNat = 256 ^ i * x.toNat := by
  have hshift : (8 * UInt64.ofNat i).toNat % 64 = 8 * i := by
    rw [UInt64.toNat_mul, UInt64.toNat_ofNat']
    simp only [UInt64.reduceToNat]
    omega
  have hx := x.toNat_lt
  have hpow : 256 ^ i = 2 ^ (8 * i) := by rw [Nat.pow_mul]
  have hsmall : 2 ^ (8 * i) * x.toNat < 2 ^ 64 := by
    calc 2 ^ (8 * i) * x.toNat < 2 ^ (8 * i) * 2 ^ 8 := Nat.mul_lt_mul_of_pos_left hx (Nat.two_pow_pos _)
      _ = 2 ^ (8 * i + 8) := (Nat.pow_add ..).symm
      _ ≤ 2 ^ 64 := Nat.pow_le_pow_right (by decide) (by omega)
  rw [UInt64.toNat_shiftLeft, hshift, UInt8.toNat_toUInt64, Nat.shiftLeft_eq, Nat.mul_comm, Nat.mod_eq_of_lt hsmall, hpow]

/-- The loop that every read of a word is: the bytes so far are below the next one. -/
theorem toNat_foldl_or (f : Nat → Byte) {n : Nat} (hn : n ≤ 8) (v : UInt64) :
    ((List.range n).foldl (fun v i => v ||| (f i).toUInt64 <<< (8 * UInt64.ofNat i)) v).toNat =
      v.toNat ||| littleEndian ((List.range n).map f) := by
  induction n with
  | zero => exact (Nat.or_zero _).symm
  | succ n ih =>
    have hlow : littleEndian ((List.range n).map f) < 2 ^ (8 * n) := by
      have h := littleEndian_lt ((List.range n).map f)
      rwa [List.length_map, List.length_range, show 256 = 2 ^ 8 from rfl, ← Nat.pow_mul] at h
    have hpow : 256 ^ n = 2 ^ (8 * n) := by rw [Nat.pow_mul]
    have hnext : littleEndian ((List.range (n + 1)).map f) =
        littleEndian ((List.range n).map f) ||| 256 ^ n * (f n).toNat := by
      rw [List.range_succ, List.map_append, List.map_singleton, littleEndian_append, littleEndian_singleton,
        List.length_map, List.length_range, Nat.add_comm, hpow, Nat.two_pow_add_eq_or_of_lt hlow, Nat.or_comm]
    rw [List.range_succ, List.foldl_append, List.foldl_cons, List.foldl_nil, UInt64.toNat_or, ih (by omega),
      toNat_shifted _ (by omega), Nat.or_assoc, ← hnext, List.range_succ]

theorem map_byteAt (b : List Byte) (off : Nat) {n : Nat} (h : off + n ≤ b.length) :
    (List.range n).map (fun i => byteAt b (off + i)) = (b.drop off).take n := by
  refine List.ext_getElem (by simp; omega) fun i hi hi' => ?_
  rw [List.length_map, List.length_range] at hi
  simp [byteAt, List.getD_eq_getElem?_getD, show off + i < b.length by omega]

theorem toNat_get64 {b : List Byte} {off : Nat} (h : off + 8 ≤ b.length) :
    (get64 b off).toNat = littleEndian ((b.drop off).take 8) := by
  rw [get64, toNat_foldl_or _ (by decide), map_byteAt b off h]
  exact Nat.zero_or _

/-! ## Fields -/

theorem byteField : Field 1 (fun x : Byte => [x]) byteAt where
  length_put _ := rfl
  get_put x l r := by
    rw [List.append_assoc]
    exact byteAt_append_add l ([x] ++ r) 0
  put_get {b off} h := by
    have h1 := map_byteAt b off h
    rwa [List.range_one, List.map_singleton] at h1

theorem length_put16 (v : UInt16) : (put16 v).length = 2 := rfl

theorem field16 : Field 2 put16 get16 where
  length_put := length_put16
  get_put v l r := by
    rw [List.append_assoc]
    exact (get16_append_add l (put16 v ++ r) 0).trans (get16_put16 v r)
  put_get {b off} h := by
    have htwo : [byteAt b off, byteAt b (off + 1)] = (b.drop off).take 2 := map_byteAt b off h
    have hread : get16 b off = get16 (byteAt b off :: byteAt b (off + 1) :: []) 0 := rfl
    rw [hread, put16_get16, htwo]

theorem field64 : Field 8 put64 get64 where
  length_put := length_put64
  get_put v l r := by
    rw [List.append_assoc]
    exact (get64_append_add l (put64 v ++ r) 0).trans (get64_put64 v r)
  put_get {b off} h := by
    have hlen : ((b.drop off).take 8).length = 8 := by rw [List.length_take, List.length_drop]; omega
    refine littleEndian_inj ((length_put64 _).trans hlen.symm) ?_
    have hback : (get64 (put64 (get64 b off)) 0).toNat = littleEndian (put64 (get64 b off)) :=
      toNat_get64 (by rw [length_put64])
    have hput := get64_put64 (get64 b off) []
    rw [List.append_nil] at hput
    rw [← hback, hput, toNat_get64 h]

theorem bytesField (n : Nat) : Field n (fun x : Bytes n => x.val) (fun b off => slice b off n) where
  length_put x := x.property
  get_put x l r := slice_append l x r
  put_get {b off} h := List.takeD_eq_take 0 (by rw [List.length_drop]; omega)

end DeskHop
