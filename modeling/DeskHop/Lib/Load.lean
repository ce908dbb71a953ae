/-
  DeskHop.Lib.Load — what the messages of a network weigh.

  There is one first-in-first-out lane for each place of a finite type. A message has a
  weight, and the network the sum of the weights of all that is on its lanes (`load`).

  Proved: putting messages on a lane adds their weights (`load_enqueue`), taking the front
  of one takes its weight away (`load_dequeue`), and lanes that have lost messages from
  their fronts weigh no more (`load_le_of_suffix`). So what a message may still cost, as
  its weight, bounds what a run can spend, whatever the lanes are joined to.
-/

import Mathlib.Algebra.BigOperators.Group.Finset.Piecewise
import Mathlib.Algebra.GroupWithZero.Nat
import Mathlib.Algebra.Order.BigOperators.Group.Finset

namespace DeskHop.Lib

universe u v

variable {K : Type u} {M : Type v} [Fintype K]

/-- The weight of all that is on the lanes. -/
def load (cost : M → Nat) (w : K → List M) : Nat := Finset.univ.sum fun k => ((w k).map cost).sum

variable (cost : M → Nat) (w : K → List M)

theorem load_nil (h : ∀ k, w k = []) : load cost w = 0 :=
  Finset.sum_eq_zero fun k _ => by rw [h k]; rfl

/-- Lanes have lost messages from their fronts. -/
theorem load_le_of_suffix {w w' : K → List M} (h : ∀ k, w' k <:+ w k) : load cost w' ≤ load cost w := by
  refine Finset.sum_le_sum fun k _ => ?_
  obtain ⟨lost, hl⟩ := h k
  rw [← hl, List.map_append, List.sum_append]
  exact Nat.le_add_left _ _

variable [DecidableEq K]

/-- One lane is replaced. -/
theorem load_update (k : K) (ms : List M) :
    load cost (Function.update w k ms) + ((w k).map cost).sum = load cost w + (ms.map cost).sum := by
  have hrest : (Finset.univ.erase k).sum (fun j => ((Function.update w k ms j).map cost).sum) =
      (Finset.univ.erase k).sum fun j => ((w j).map cost).sum :=
    Finset.sum_congr rfl fun j hj => by rw [Function.update_of_ne (Finset.ne_of_mem_erase hj)]
  have hnew := Finset.add_sum_erase Finset.univ (fun j => ((Function.update w k ms j).map cost).sum) (Finset.mem_univ k)
  have hold := Finset.add_sum_erase Finset.univ (fun j => ((w j).map cost).sum) (Finset.mem_univ k)
  simp only [Function.update_self] at hnew
  rw [hrest] at hnew
  simp only [load]
  omega

/-- A message is put at the end of a lane. -/
theorem load_enqueue (k : K) (m : M) : load cost (Function.update w k (w k ++ [m])) = load cost w + cost m := by
  have h := load_update cost w k (w k ++ [m])
  simp only [List.map_append, List.sum_append, List.map_cons, List.map_nil, List.sum_singleton] at h
  omega

/-- The front of a lane is taken. -/
theorem load_dequeue {k : K} {m : M} {rest : List M} (h : w k = m :: rest) :
    load cost (Function.update w k rest) + cost m = load cost w := by
  have hup := load_update cost w k rest
  rw [h, List.map_cons, List.sum_cons] at hup
  omega

end DeskHop.Lib
