/-
  DeskHop.Lib.Blocks — a list taken in blocks of one length, and what absorbs them.

  `blocks` takes so many blocks off the front of a list. Proved: they are the list's
  slices at the multiples of the length (`blocks_eq_map`), and a list padded to whole
  blocks is absorbed as its own whole blocks and then one last block, made of what is
  left over and the padding (`foldl_blocks_padded`).
-/

import Mathlib.Data.List.TakeDrop

namespace DeskHop.Lib

universe u v

variable {α : Type u} {σ : Type v} (n : Nat)

def blocks : Nat → List α → List (List α)
  | 0, _ => []
  | k + 1, l => l.take n :: blocks k (l.drop n)

theorem blocks_eq_map (k : Nat) (l : List α) : blocks n k l = (List.range k).map fun i => (l.drop (n * i)).take n := by
  induction k generalizing l with
  | zero => rfl
  | succ k ih =>
    rw [blocks, ih, List.range_succ_eq_map, List.map_cons, List.map_map, Nat.mul_zero, List.drop_zero]
    congr 2
    funext i
    simp only [Function.comp_apply, List.drop_drop, Nat.mul_succ, Nat.add_comm]

/-- What lies past the blocks is not looked at. -/
theorem blocks_append {k : Nat} {l : List α} (h : n * k ≤ l.length) (r : List α) :
    blocks n k (l ++ r) = blocks n k l := by
  induction k generalizing l with
  | zero => rfl
  | succ k ih =>
    rw [Nat.mul_succ] at h
    have hrest : n * k ≤ (l.drop n).length := by rw [List.length_drop]; omega
    rw [blocks, blocks, List.take_append_of_le_length (by omega), List.drop_append_of_le_length (by omega), ih hrest]

/-- The last block, apart from those before it. -/
theorem blocks_succ (k : Nat) (l : List α) : blocks n (k + 1) l = blocks n k l ++ [(l.drop (n * k)).take n] := by
  rw [blocks_eq_map, blocks_eq_map, List.range_succ, List.map_append, List.map_singleton]

variable {n}

theorem foldl_blocks_padded (f : σ → List α → σ) (s : σ) (l : List α) {pad : List α} (hn : 0 < n)
    (hpad : l.length % n + pad.length = n) :
    (blocks n ((l ++ pad).length / n) (l ++ pad)).foldl f s =
      f ((blocks n (l.length / n) l).foldl f s) (l.drop (n * (l.length / n)) ++ pad) := by
  have hdiv := Nat.div_add_mod l.length n
  have hcount : (l ++ pad).length / n = l.length / n + 1 := by
    have htotal : (l ++ pad).length = n * (l.length / n + 1) := by
      rw [List.length_append, Nat.mul_succ]
      omega
    rw [htotal, Nat.mul_div_cancel_left _ hn]
  have hwhole : n * (l.length / n) ≤ l.length := by omega
  have hlast : (l.drop (n * (l.length / n)) ++ pad).length = n := by
    rw [List.length_append, List.length_drop]
    omega
  rw [hcount, blocks_succ, blocks_append n hwhole, List.foldl_append, List.foldl_cons, List.foldl_nil,
    List.drop_append_of_le_length hwhole, List.take_of_length_le (Nat.le_of_eq hlast)]

end DeskHop.Lib
