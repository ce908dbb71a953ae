/-
  DeskHop.Wire.Integrity — the two integrity fields of a frame: SipHash-2-4
  (`core/src/siphash.c`) and CRC-16/CCITT-FALSE (`core/src/crc16.c`).
-/

import DeskHop.Core.Bytes

namespace DeskHop.Wire

/-- A chain key: `DHP_SIPHASH_KEY_BYTES` bytes. -/
abbrev Key := Bytes 16

/-! ## SipHash -/

structure Sip where
  v0 : UInt64
  v1 : UInt64
  v2 : UInt64
  v3 : UInt64
  deriving DecidableEq, Repr

def rotl64 (x b : UInt64) : UInt64 := x <<< b ||| x >>> (64 - b)

def sipRound (s : Sip) : Sip :=
  let v0 := s.v0 + s.v1
  let v1 := rotl64 s.v1 13
  let v1 := v1 ^^^ v0
  let v0 := rotl64 v0 32
  let v2 := s.v2 + s.v3
  let v3 := rotl64 s.v3 16
  let v3 := v3 ^^^ v2
  let v0 := v0 + v3
  let v3 := rotl64 v3 21
  let v3 := v3 ^^^ v0
  let v2 := v2 + v1
  let v1 := rotl64 v1 17
  let v1 := v1 ^^^ v2
  let v2 := rotl64 v2 32
  ⟨v0, v1, v2, v3⟩

/-- One word of input, between two rounds. -/
def sipAbsorb (s : Sip) (m : UInt64) : Sip :=
  let s := sipRound (sipRound { s with v3 := s.v3 ^^^ m })
  { s with v0 := s.v0 ^^^ m }

/-- The last word: the bytes left over, and the length mod 256 on top. -/
def sipLast (input : List Byte) : UInt64 :=
  let blocks := input.length / 8 * 8
  (List.range (input.length % 8)).foldl
    (fun b i => b ||| (byteAt input (blocks + i)).toUInt64 <<< (8 * UInt64.ofNat i)) (UInt64.ofNat input.length <<< 56)

def siphash24 (input : List Byte) (key : Key) : UInt64 :=
  let k0 := get64 key.val 0
  let k1 := get64 key.val 8
  let s : Sip := ⟨0x736f6d6570736575 ^^^ k0, 0x646f72616e646f6d ^^^ k1, 0x6c7967656e657261 ^^^ k0,
    0x7465646279746573 ^^^ k1⟩
  let s := (List.range (input.length / 8)).foldl (fun s i => sipAbsorb s (get64 input (8 * i))) s
  let s := sipAbsorb s (sipLast input)
  let s := sipRound (sipRound (sipRound (sipRound { s with v2 := s.v2 ^^^ 0xff })))
  s.v0 ^^^ s.v1 ^^^ s.v2 ^^^ s.v3

example : siphash24 [0, 1, 2, 3, 4, 5, 6, 7, 8] ⟨(List.range 16).map UInt8.ofNat, rfl⟩ = 0x9e0082df0ba9e4b0 := by
  decide +kernel

/-- `dhp_ct_equal` of two buffers, read up to `len`. -/
def ctEqual (a b : List Byte) (len : Nat) : Bool :=
  (List.range len).foldl (fun diff i => diff ||| byteAt a i ^^^ byteAt b i) 0 == 0

theorem foldl_or_eq_zero (f : Nat → Byte) (l : List Nat) (d : Byte) :
    l.foldl (fun diff i => diff ||| f i) d = 0 ↔ d = 0 ∧ ∀ i ∈ l, f i = 0 := by
  induction l generalizing d with
  | nil => simp
  | cons i l ih =>
    rw [List.foldl_cons, ih, UInt8.or_eq_zero_iff, List.forall_mem_cons, and_assoc]

theorem ctEqual_iff {a b : List Byte} {len : Nat} : ctEqual a b len = true ↔ ∀ i < len, byteAt a i = byteAt b i := by
  rw [ctEqual, beq_iff_eq, foldl_or_eq_zero]
  simp

/-- A comparison at an offset is one of the slice there. -/
theorem ctEqual_slice {b : List Byte} {off n : Nat} {x : Bytes n} :
    ctEqual (b.drop off) x.val n = true ↔ slice b off n = x := by
  rw [ctEqual_iff]
  constructor
  · intro h
    exact Bytes.ext_byteAt fun i hi => (byteAt_takeD _ n i hi).trans (h i hi)
  · rintro rfl i hi
    exact (byteAt_takeD _ n i hi).symm

/-! ## CRC-16 -/

def crc16Init : UInt16 := 0xFFFF

def crc16Bit (crc : UInt16) : UInt16 := if crc &&& 0x8000 ≠ 0 then crc <<< 1 ^^^ 0x1021 else crc <<< 1

def crc16Byte (crc : UInt16) (b : Byte) : UInt16 := Nat.iterate crc16Bit 8 (crc ^^^ b.toUInt16 <<< 8)

def crc16Update (crc : UInt16) (data : List Byte) : UInt16 := data.foldl crc16Byte crc

def crc16 (data : List Byte) : UInt16 := crc16Update crc16Init data

end DeskHop.Wire
