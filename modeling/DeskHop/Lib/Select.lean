/-
  DeskHop.Lib.Select — the least of a list by a key, and the next above one.

  One pass over a list in any order finds its least element, and over those above a given
  one the next. Proved against the list in order: the least is the head of it
  (`argmin_of_sorted`), the next is the one that follows (`argmin_above`).
-/

import Mathlib.Data.List.MinMax
import Mathlib.Order.Basic

namespace DeskHop.Lib

universe u v

variable {α : Type u} {β : Type v} [LinearOrder β] {f : α → β} {l m : List α}

theorem argmin_of_sorted (hp : m.Perm l) (hs : l.Pairwise fun a b => f a < f b) : m.argmin f = l.head? := by
  cases l with
  | nil =>
    rw [hp.eq_nil]
    rfl
  | cons a t =>
    cases hmin : m.argmin f with
    | none =>
      rw [List.argmin_eq_none.mp hmin] at hp
      exact absurd hp.symm.eq_nil (List.cons_ne_nil a t)
    | some b =>
      have hb : b ∈ m := List.argmin_mem (Option.mem_def.mpr hmin)
      have hle : f b ≤ f a := List.le_of_mem_argmin (hp.mem_iff.mpr List.mem_cons_self) (Option.mem_def.mpr hmin)
      rcases List.mem_cons.mp (hp.mem_iff.mp hb) with rfl | ht
      · rfl
      · exact absurd ((List.pairwise_cons.mp hs).1 b ht) (not_lt.mpr hle)

/-- What lies above an element of a list in order is what follows it. -/
theorem filter_above (hs : l.Pairwise fun a b => f a < f b) {j : Nat} {a : α} (ha : l[j]? = some a) :
    l.filter (fun x => decide (f a < f x)) = l.drop (j + 1) := by
  induction l generalizing j with
  | nil => cases ha
  | cons b t ih =>
    obtain ⟨hb, ht⟩ := List.pairwise_cons.mp hs
    cases j with
    | zero =>
      obtain rfl : b = a := by simpa using ha
      rw [List.filter_cons, if_neg (by simp), List.drop_succ_cons, List.drop_zero]
      exact List.filter_eq_self.mpr fun x hx => decide_eq_true (hb x hx)
    | succ j =>
      have ha : t[j]? = some a := by simpa using ha
      have hlt : f b < f a := hb a (List.mem_of_getElem? ha)
      rw [List.filter_cons, if_neg (by simpa using hlt.le), List.drop_succ_cons]
      exact ih ht ha

theorem argmin_above (hp : m.Perm l) (hs : l.Pairwise fun a b => f a < f b) {j : Nat} {a : α} (ha : l[j]? = some a) :
    (m.filter fun x => decide (f a < f x)).argmin f = l[j + 1]? := by
  have hperm := hp.filter fun x => decide (f a < f x)
  rw [filter_above hs ha] at hperm
  rw [argmin_of_sorted hperm (hs.sublist (List.drop_sublist _ _)), List.head?_drop]

end DeskHop.Lib
