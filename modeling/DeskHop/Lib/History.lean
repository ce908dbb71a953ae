/-
  DeskHop.Lib.History — a log whose entries are judged by what came before them.

  `Each P l`: every entry of `l` satisfies `P` with the entries before it. A log that
  grows by one entry keeps the judgement of the old ones (`each_snoc`), so an invariant
  about a log is kept by judging each new entry as it is appended. `Ever P l`: some entry
  satisfies `P` with the entries before it.
-/

import Mathlib.Data.List.Basic

namespace DeskHop.Lib

universe u

variable {α : Type u}

def Each (P : List α → α → Prop) (l : List α) : Prop := ∀ pre x post, l = pre ++ x :: post → P pre x

theorem each_nil (P : List α → α → Prop) : Each P [] := by
  intro pre x post h
  exact absurd h.symm (List.append_ne_nil_of_right_ne_nil _ (List.cons_ne_nil _ _))

theorem each_snoc {P : List α → α → Prop} {l : List α} {x : α} : Each P (l ++ [x]) ↔ Each P l ∧ P l x := by
  constructor
  · intro h
    refine ⟨fun pre y post hl => h pre y (post ++ [x]) ?_, h l x [] rfl⟩
    rw [hl, List.append_assoc, List.cons_append]
  · rintro ⟨hl, hx⟩ pre y post heq
    rcases List.eq_nil_or_concat post with rfl | ⟨post', z, rfl⟩
    · obtain ⟨rfl, hxy⟩ := List.append_inj' heq rfl
      cases hxy
      exact hx
    · rw [List.concat_eq_append, ← List.cons_append, ← List.append_assoc] at heq
      exact hl pre y post' (List.append_inj' heq rfl).1

theorem Each.mono {P Q : List α → α → Prop} {l : List α} (h : Each P l) (hPQ : ∀ pre x, P pre x → Q pre x) :
    Each Q l := fun pre x post hl => hPQ pre x (h pre x post hl)

def Ever (P : List α → α → Prop) (l : List α) : Prop := ∃ pre x post, l = pre ++ x :: post ∧ P pre x

theorem ever_snoc {P : List α → α → Prop} {l : List α} {x : α} : Ever P (l ++ [x]) ↔ Ever P l ∨ P l x := by
  have hnot (m : List α) : Ever P m ↔ ¬ Each (fun pre y => ¬ P pre y) m := by
    simp only [Ever, Each, not_forall, not_not, exists_prop]
  rw [hnot, hnot, each_snoc, not_and_or, not_not]

end DeskHop.Lib
