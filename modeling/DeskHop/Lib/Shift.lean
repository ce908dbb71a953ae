/-
  DeskHop.Lib.Shift — shift registers with feedback, of any width, and what they tell
  apart.

  A register moves one bit to the left and feeds `poly` back when a bit falls out. That is
  linear (`shift_xor`), and loses nothing where the feedback reaches the lowest bit
  (`shift_injective`). Whatever takes its inputs one after another and loses no state on
  any of them keeps two states apart for good (`foldl_injective`).
-/

import Mathlib.Logic.Function.Iterate

namespace DeskHop.Lib

section shift

variable {w : Nat} (poly : BitVec w)

def shift (s : BitVec w) : BitVec w := if s.msb then s <<< 1 ^^^ poly else s <<< 1

theorem shift_xor (s t : BitVec w) : shift poly (s ^^^ t) = shift poly s ^^^ shift poly t := by
  have hmove : (s ^^^ t) <<< 1 = s <<< 1 ^^^ t <<< 1 := BitVec.shiftLeft_xor_distrib s t 1
  simp only [shift, BitVec.msb_xor, hmove]
  cases s.msb with
  | false =>
    cases t.msb with
    | false => rfl
    | true => exact BitVec.xor_assoc ..
  | true =>
    cases t.msb with
    | false =>
      show s <<< 1 ^^^ t <<< 1 ^^^ poly = s <<< 1 ^^^ poly ^^^ t <<< 1
      rw [BitVec.xor_assoc, BitVec.xor_comm (t <<< 1), ← BitVec.xor_assoc]
    | true =>
      show s <<< 1 ^^^ t <<< 1 = s <<< 1 ^^^ poly ^^^ (t <<< 1 ^^^ poly)
      rw [BitVec.xor_comm (t <<< 1) poly, BitVec.xor_assoc, ← BitVec.xor_assoc poly poly, BitVec.xor_self,
        BitVec.zero_xor]

theorem shift_iterate_xor (k : Nat) (s t : BitVec w) :
    (shift poly)^[k] (s ^^^ t) = (shift poly)^[k] s ^^^ (shift poly)^[k] t := by
  induction k generalizing s t with
  | zero => rfl
  | succ k ih =>
    simp only [Function.iterate_succ_apply, shift_xor, ih]

variable {poly}

/-- Only zero is shifted to zero. -/
theorem shift_eq_zero (hpoly : poly.getLsbD 0 = true) {s : BitVec w} (h : shift poly s = 0#w) : s = 0#w := by
  have hmsb : s.msb = false := by
    cases hm : s.msb with
    | false => rfl
    | true =>
      -- the feedback would show in the lowest bit
      rw [shift, if_pos hm] at h
      have hlow := congrArg (BitVec.getLsbD · 0) h
      simp only [BitVec.getLsbD_xor, BitVec.getLsbD_shiftLeft, hpoly, BitVec.getLsbD_zero] at hlow
      simp at hlow
  rw [shift, hmsb, if_neg Bool.false_ne_true] at h
  refine BitVec.eq_of_getLsbD_eq fun i hi => ?_
  by_cases hlast : i + 1 = w
  · rw [BitVec.msb_eq_getLsbD_last, show w - 1 = i by omega] at hmsb
    rw [hmsb, BitVec.getLsbD_zero]
  · have hnext := congrArg (BitVec.getLsbD · (i + 1)) h
    simp only [BitVec.getLsbD_shiftLeft, BitVec.getLsbD_zero] at hnext
    simpa [show i + 1 < w by omega] using hnext

theorem shift_injective (hpoly : poly.getLsbD 0 = true) : Function.Injective (shift poly) := by
  intro s t h
  refine BitVec.xor_eq_zero_iff.mp (shift_eq_zero hpoly ?_)
  rw [shift_xor, h, BitVec.xor_self]

theorem shift_iterate_injective (hpoly : poly.getLsbD 0 = true) (k : Nat) : Function.Injective (shift poly)^[k] :=
  (shift_injective hpoly).iterate k

end shift

universe u v

/-- Two states that take the same inputs stay apart. -/
theorem foldl_injective {σ : Type u} {ι : Type v} {step : σ → ι → σ} (hstep : ∀ b, Function.Injective fun s => step s b)
    (bs : List ι) : Function.Injective fun s => bs.foldl step s := by
  induction bs with
  | nil => exact fun _ _ h => h
  | cons b bs ih => exact fun s t h => hstep b (ih h)

end DeskHop.Lib
