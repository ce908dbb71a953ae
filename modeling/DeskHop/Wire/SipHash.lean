/-
  DeskHop.Wire.SipHash — SipHash-c-d over a padded message, and the code's loop over the
  message where it lies (`core/src/siphash.c`).

  The abstract function (`sipHash`) pads first: zero bytes, and one with the length mod
  256, up to a multiple of eight. It absorbs the words that makes with `c` rounds each and
  finishes with `d`, in words of 64 bits with rotations. The code (`siphash24`) reads whole
  words from the buffer, builds its last word by hand, and rotates by two shifts.

  Proved: one of the code's rounds is one of the specified ones (`sipRound_words`), its
  last word is the last of the padded message (`sipLast_word`), and so the two agree on
  every message and key (`siphash24_padded`).
-/

import DeskHop.Core.Fields
import DeskHop.Lib.Blocks
import DeskHop.Wire.Integrity
import Mathlib.Logic.Function.Iterate

namespace DeskHop.Wire

open DeskHop.Lib

/-! ## What is specified -/

structure SipWords where
  v0 : BitVec 64
  v1 : BitVec 64
  v2 : BitVec 64
  v3 : BitVec 64

namespace SipWords

/-- Two halves, each of two additions, two rotations and two xors side by side, and a
    rotation by half a word. -/
def round (s : SipWords) : SipWords :=
  let a0 := s.v0 + s.v1
  let a2 := s.v2 + s.v3
  let a1 := s.v1.rotateLeft 13 ^^^ a0
  let a3 := s.v3.rotateLeft 16 ^^^ a2
  let b2 := a2 + a1
  let b0 := a0.rotateLeft 32 + a3
  let b1 := a1.rotateLeft 17 ^^^ b2
  let b3 := a3.rotateLeft 21 ^^^ b0
  ⟨b0, b1, b2.rotateLeft 32, b3⟩

def init (k0 k1 : BitVec 64) : SipWords :=
  ⟨k0 ^^^ 0x736f6d6570736575, k1 ^^^ 0x646f72616e646f6d, k0 ^^^ 0x6c7967656e657261, k1 ^^^ 0x7465646279746573⟩

def absorb (c : Nat) (s : SipWords) (m : BitVec 64) : SipWords :=
  let s := round^[c] { s with v3 := s.v3 ^^^ m }
  { s with v0 := s.v0 ^^^ m }

def finish (d : Nat) (s : SipWords) : BitVec 64 :=
  let s := round^[d] { s with v2 := s.v2 ^^^ 0xff }
  s.v0 ^^^ s.v1 ^^^ s.v2 ^^^ s.v3

end SipWords

/-- The word that eight bytes are. -/
def sipWord (bs : List Byte) : BitVec 64 := BitVec.ofNat 64 (littleEndian bs)

/-- What goes behind a message of that length. -/
def sipPadding (len : Nat) : List Byte := List.replicate (7 - len % 8) 0 ++ [UInt8.ofNat (len % 256)]

def sipHash (c d : Nat) (key : Key) (input : List Byte) : BitVec 64 :=
  let padded := input ++ sipPadding input.length
  let words := (blocks 8 (padded.length / 8) padded).map sipWord
  (words.foldl (SipWords.absorb c) (.init (sipWord (key.val.take 8)) (sipWord (key.val.drop 8)))).finish d

example : sipHash 2 4 ⟨(List.range 16).map UInt8.ofNat, rfl⟩ [0, 1, 2, 3, 4, 5, 6, 7] = 0x93f5f5799a932462 := by
  decide +kernel

/-- The padding ends a word. -/
theorem length_sipPadding (len : Nat) : len % 8 + (sipPadding len).length = 8 := by
  simp only [sipPadding, List.length_append, List.length_replicate, List.length_singleton]
  omega

/-! ## One step of the code is one step of the specification -/

def Sip.words (s : Sip) : SipWords := ⟨s.v0.toBitVec, s.v1.toBitVec, s.v2.toBitVec, s.v3.toBitVec⟩

theorem rotl64_word (x b : UInt64) (hpos : 0 < b.toNat) (hlt : b.toNat < 64) :
    (rotl64 x b).toBitVec = x.toBitVec.rotateLeft b.toNat := by
  have hleft : (b.toBitVec % 64#64).toNat = b.toNat := Nat.mod_eq_of_lt hlt
  have hright : ((64 - b).toBitVec % 64#64).toNat = 64 - b.toNat := by
    have hle : b ≤ 64 := UInt64.le_iff_toNat_le.mpr (Nat.le_of_lt hlt)
    have hsub : (64 - b).toBitVec.toNat = 64 - b.toNat := UInt64.toNat_sub_of_le _ _ hle
    rw [BitVec.toNat_umod, hsub]
    exact Nat.mod_eq_of_lt (show 64 - b.toNat < 64 by omega)
  rw [rotl64, UInt64.toBitVec_or, UInt64.toBitVec_shiftLeft, UInt64.toBitVec_shiftRight, BitVec.rotateLeft_def,
    Nat.mod_eq_of_lt hlt]
  show x.toBitVec <<< (b.toBitVec % 64#64).toNat ||| x.toBitVec >>> ((64 - b).toBitVec % 64#64).toNat = _
  rw [hleft, hright]

/-- The code interleaves the halves; neither reads what the other writes meanwhile. -/
theorem sipRound_words (s : Sip) : (sipRound s).words = s.words.round := by
  have h13 (x : UInt64) : (rotl64 x 13).toBitVec = x.toBitVec.rotateLeft 13 := rotl64_word x 13 (by decide) (by decide)
  have h16 (x : UInt64) : (rotl64 x 16).toBitVec = x.toBitVec.rotateLeft 16 := rotl64_word x 16 (by decide) (by decide)
  have h17 (x : UInt64) : (rotl64 x 17).toBitVec = x.toBitVec.rotateLeft 17 := rotl64_word x 17 (by decide) (by decide)
  have h21 (x : UInt64) : (rotl64 x 21).toBitVec = x.toBitVec.rotateLeft 21 := rotl64_word x 21 (by decide) (by decide)
  have h32 (x : UInt64) : (rotl64 x 32).toBitVec = x.toBitVec.rotateLeft 32 := rotl64_word x 32 (by decide) (by decide)
  simp only [sipRound, Sip.words, SipWords.round, UInt64.toBitVec_add, UInt64.toBitVec_xor, h13, h16, h17, h21, h32]

theorem sipAbsorb_words (s : Sip) (m : UInt64) : (sipAbsorb s m).words = s.words.absorb 2 m.toBitVec := by
  have hin : (Sip.words { s with v3 := s.v3 ^^^ m }) = { s.words with v3 := s.words.v3 ^^^ m.toBitVec } := rfl
  have hrounds : (sipRound (sipRound { s with v3 := s.v3 ^^^ m })).words =
      SipWords.round^[2] { s.words with v3 := s.words.v3 ^^^ m.toBitVec } := by
    rw [sipRound_words, sipRound_words, hin]
    rfl
  rw [SipWords.absorb, ← hrounds]
  rfl

/-- The four rounds at the end. -/
theorem sipFinish_words (s : Sip) :
    let t := sipRound (sipRound (sipRound (sipRound { s with v2 := s.v2 ^^^ 0xff })))
    (t.v0 ^^^ t.v1 ^^^ t.v2 ^^^ t.v3).toBitVec = s.words.finish 4 := by
  intro t
  have hin : (Sip.words { s with v2 := s.v2 ^^^ 0xff }) = { s.words with v2 := s.words.v2 ^^^ 0xff } := rfl
  have hrounds : t.words = SipWords.round^[4] { s.words with v2 := s.words.v2 ^^^ 0xff } := by
    rw [sipRound_words, sipRound_words, sipRound_words, sipRound_words, hin]
    rfl
  rw [SipWords.finish, ← hrounds]
  rfl

/-! ## The words the code reads are those of the padded message -/

theorem get64_word {b : List Byte} {off : Nat} (h : off + 8 ≤ b.length) :
    (get64 b off).toBitVec = sipWord ((b.drop off).take 8) := by
  apply BitVec.eq_of_toNat_eq
  have hlt : littleEndian ((b.drop off).take 8) < 2 ^ 64 := by
    rw [← toNat_get64 h]
    exact (get64 b off).toNat_lt
  rw [sipWord, BitVec.toNat_ofNat, Nat.mod_eq_of_lt hlt]
  exact toNat_get64 h

/-- What is left over, its padding, and the length on top. -/
theorem littleEndian_last (rest : List Byte) (len : Nat) (h : rest.length = len % 8) :
    littleEndian (rest ++ sipPadding len) = 2 ^ 56 * (len % 256) + littleEndian rest := by
  have htop : rest.length + (7 - len % 8) = 7 := by omega
  have hbyte : (UInt8.ofNat (len % 256)).toNat = len % 256 := by
    rw [UInt8.toNat_ofNat']
    omega
  rw [sipPadding, ← List.append_assoc, littleEndian_append, littleEndian_append, littleEndian_zeros,
    littleEndian_singleton, List.length_append, List.length_replicate, htop, hbyte]
  omega

theorem sipLast_word (input : List Byte) :
    (sipLast input).toBitVec = sipWord (input.drop (8 * (input.length / 8)) ++ sipPadding input.length) := by
  have hrest : (input.drop (8 * (input.length / 8))).length = input.length % 8 := by
    rw [List.length_drop]
    omega
  have hread : (List.range (input.length % 8)).map (fun i => byteAt input (input.length / 8 * 8 + i)) =
      input.drop (8 * (input.length / 8)) := by
    rw [map_byteAt _ _ (by omega), Nat.mul_comm, List.take_of_length_le (by omega)]
  have hlow : littleEndian (input.drop (8 * (input.length / 8))) < 2 ^ 56 := by
    calc littleEndian _ < 256 ^ (input.length % 8) := hrest ▸ littleEndian_lt _
      _ ≤ 256 ^ 7 := Nat.pow_le_pow_right (by decide) (by omega)
  -- only the lowest byte of the length stays in the word
  have htop : (UInt64.ofNat input.length <<< 56).toNat = 2 ^ 56 * (input.length % 256) := by
    rw [UInt64.toNat_shiftLeft, UInt64.toNat_ofNat']
    simp only [UInt64.reduceToNat, Nat.reduceMod, Nat.shiftLeft_eq]
    omega
  apply BitVec.eq_of_toNat_eq
  rw [sipWord, BitVec.toNat_ofNat, littleEndian_last _ _ hrest, Nat.mod_eq_of_lt (by omega)]
  show (sipLast input).toNat = _
  rw [sipLast, toNat_foldl_or _ (by omega), hread, htop, ← Nat.two_pow_add_eq_or_of_lt hlow]

/-! ## The whole -/

/-- The code's loop over the whole words. -/
theorem siphash24_loop (input : List Byte) (s : Sip) :
    ((List.range (input.length / 8)).foldl (fun s i => sipAbsorb s (get64 input (8 * i))) s).words =
      (blocks 8 (input.length / 8) input).foldl (fun s b => s.absorb 2 (sipWord b)) s.words := by
  rw [blocks_eq_map, List.foldl_map]
  have hinside : ∀ i ∈ List.range (input.length / 8), 8 * i + 8 ≤ input.length := by
    intro i hi
    have := List.mem_range.mp hi
    omega
  generalize List.range (input.length / 8) = l at hinside ⊢
  induction l generalizing s with
  | nil => rfl
  | cons i l ih =>
    obtain ⟨hi, hl⟩ := List.forall_mem_cons.mp hinside
    rw [List.foldl_cons, List.foldl_cons, ih _ hl, sipAbsorb_words, get64_word hi]

/-- For every message, of whatever length, and every key. -/
theorem siphash24_padded (input : List Byte) (key : Key) : (siphash24 input key).toBitVec = sipHash 2 4 key input := by
  have hk0 : (get64 key.val 0).toBitVec = sipWord (key.val.take 8) :=
    get64_word (by rw [key.property]; decide)
  have hk1 : (get64 key.val 8).toBitVec = sipWord (key.val.drop 8) := by
    rw [get64_word (by rw [key.property]), List.take_of_length_le (by rw [List.length_drop, key.property])]
  have hinit : Sip.words ⟨0x736f6d6570736575 ^^^ get64 key.val 0, 0x646f72616e646f6d ^^^ get64 key.val 8,
      0x6c7967656e657261 ^^^ get64 key.val 0, 0x7465646279746573 ^^^ get64 key.val 8⟩ =
        .init (sipWord (key.val.take 8)) (sipWord (key.val.drop 8)) := by
    simp only [Sip.words, SipWords.init, UInt64.toBitVec_xor, hk0, hk1, BitVec.xor_comm (sipWord _)]
    rfl
  -- the padded message is its own whole words, and one word more
  have hpadded := foldl_blocks_padded (fun s b => SipWords.absorb 2 s (sipWord b))
    (.init (sipWord (key.val.take 8)) (sipWord (key.val.drop 8))) input (by decide) (length_sipPadding input.length)
  rw [sipHash, List.foldl_map, hpadded, ← sipLast_word, ← hinit, ← siphash24_loop, ← sipAbsorb_words,
    ← sipFinish_words]
  rfl

end DeskHop.Wire
