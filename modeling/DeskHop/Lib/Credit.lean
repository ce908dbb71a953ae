/-
  DeskHop.Lib.Credit — a log in which whatever is spent has been earned.

  `Unspent`: something has been earned, and nothing since clears it. Where each entry that
  spends finds something unspent before it, and clears it, no more is spent than was
  earned (`countP_spend_le`).
-/

import DeskHop.Lib.History

namespace DeskHop.Lib

universe u

variable {α : Type u} {earn spend clears : α → Bool} {l : List α}

def Unspent (earn clears : α → Bool) (l : List α) : Prop :=
  ∃ before a mid, l = before ++ a :: mid ∧ earn a = true ∧ ∀ x ∈ mid, clears x = false

theorem unspent_earn (l : List α) {a : α} (ha : earn a = true) : Unspent earn clears (l ++ [a]) :=
  ⟨l, a, [], rfl, ha, fun _ hx => absurd hx List.not_mem_nil⟩

theorem Unspent.snoc (h : Unspent earn clears l) {a : α} (ha : clears a = false) : Unspent earn clears (l ++ [a]) := by
  obtain ⟨before, b, mid, rfl, hb, hmid⟩ := h
  refine ⟨before, b, mid ++ [a], by simp, hb, fun x hx => ?_⟩
  rcases List.mem_append.mp hx with hx | hx
  · exact hmid x hx
  · rw [List.mem_singleton.mp hx, ha]

/-- Each entry that spends finds something unspent. -/
def Earned (earn spend clears : α → Bool) : List α → Prop :=
  Each fun pre x => spend x = true → Unspent earn clears pre

theorem Each.prefix {P : List α → α → Prop} {pre post : List α} (h : Each P (pre ++ post)) : Each P pre :=
  fun pre' x post' hl => h pre' x (post' ++ post) (by rw [hl, List.append_assoc, List.cons_append])

theorem countP_spend_le (hclears : ∀ a, spend a = true → clears a = true) (hearn : ∀ a, spend a = true → earn a = false)
    (h : Earned earn spend clears l) : l.countP spend ≤ l.countP earn := by
  induction hn : l.length using Nat.strongRecOn generalizing l with
  | ind n ih =>
    rcases List.eq_nil_or_concat l with rfl | ⟨init, a, rfl⟩
    · exact Nat.le_refl 0
    rw [List.concat_eq_append] at h hn ⊢
    have hinit : init.length < n := by
      rw [← hn, List.length_append]
      exact Nat.lt_add_one _
    obtain ⟨hrest, ha⟩ := each_snoc.mp h
    rw [List.countP_append, List.countP_append]
    cases hspend : spend a with
    | false =>
      have := ih _ hinit hrest rfl
      rw [List.countP_singleton, hspend]
      exact Nat.le_trans this (Nat.le_add_right _ _)
    | true =>
      -- what it spends was earned after everything before that was spent
      obtain ⟨before, b, mid, rfl, hb, hmid⟩ := ha hspend
      have hbefore := ih before.length (by rw [List.length_append, List.length_cons] at hinit; omega) hrest.prefix rfl
      have hnone : mid.countP spend = 0 := List.countP_eq_zero.mpr fun x hx hs => by
        have := hclears x hs
        rw [hmid x hx] at this
        cases this
      have hbspend : ¬ spend b = true := fun hs => by
        have := hearn b hs
        rw [hb] at this
        cases this
      rw [List.countP_append, List.countP_append, List.countP_cons_of_neg hbspend, List.countP_cons_of_pos hb, hnone,
        List.countP_singleton, if_pos hspend]
      omega

end DeskHop.Lib
