/-
  DeskHop.Lib.Fair — runs that go on for ever, and what they come to.

  A `Trace` is an unending run of a deterministic system under guarded events. What it
  comes to is shown on a picture of its states: each picture has a rank, and there is
  always a kind of event that helps. If no event raises the rank, one that helps lowers it,
  and an event that leaves the rank alone leaves alone what helps, then a run in which
  whatever helps keeps happening reaches its goal (`Trace.arrives`).
-/

import Mathlib.Order.WellFounded

namespace DeskHop.Lib

universe u v w x

variable {σ : Type u} {ε : Type v}

structure Trace (ok : σ → ε → Prop) (step : σ → ε → σ) where
  state : Nat → σ
  event : Nat → ε
  admitted : ∀ n, ok (state n) (event n)
  next : ∀ n, state (n + 1) = step (state n) (event n)

namespace Trace

variable {ok : σ → ε → Prop} {step : σ → ε → σ}

/-- Events of this kind keep happening. -/
def Keeps (r : Trace ok step) (kind : ε → Prop) : Prop := ∀ n, ∃ m, n ≤ m ∧ kind (r.event m)

theorem inv (r : Trace ok step) {I : σ → Prop} (hs : ∀ s e, I s → ok s e → I (step s e)) (h0 : I (r.state 0)) (n : Nat) :
    I (r.state n) := by
  induction n with
  | zero => exact h0
  | succ n ih =>
    rw [r.next n]
    exact hs _ _ ih (r.admitted n)

variable {γ : Type w} {α : Type x} [Preorder α] {pictures : σ → γ → Prop} {rank : γ → α} {helps : γ → ε → Prop}
  {goal : σ → Prop}

/-- What an event does to a picture: the goal, a lower rank, or nothing that matters. -/
def Nears (pictures : σ → γ → Prop) (rank : γ → α) (helps : γ → ε → Prop) (goal : σ → Prop) (g : γ) (e : ε) (s' : σ) :
    Prop :=
  goal s' ∨ ∃ g', pictures s' g' ∧ (rank g' < rank g ∨ ¬ helps g e ∧ rank g' = rank g ∧ helps g' = helps g)

/-- Until something that helps happens, nothing changes that matters; then the rank falls. -/
theorem falls (r : Trace ok step)
    (hnears : ∀ s e g, pictures s g → ok s e → Nears pictures rank helps goal g e (step s e)) {n m : Nat} {g : γ}
    (hg : pictures (r.state n) g) (hle : n ≤ m) (hm : helps g (r.event m)) :
    ∃ k, n ≤ k ∧ (goal (r.state k) ∨ ∃ g', pictures (r.state k) g' ∧ rank g' < rank g) := by
  obtain ⟨d, rfl⟩ := Nat.exists_eq_add_of_le hle
  clear hle
  induction d generalizing n g with
  | zero =>
    have hnear := hnears _ _ g hg (r.admitted n)
    rw [← r.next] at hnear
    rcases hnear with hgoal | ⟨g', hg', hlt | ⟨hno, -⟩⟩
    · exact ⟨n + 1, Nat.le_succ n, Or.inl hgoal⟩
    · exact ⟨n + 1, Nat.le_succ n, Or.inr ⟨g', hg', hlt⟩⟩
    · exact absurd hm hno
  | succ d ih =>
    have hnear := hnears _ _ g hg (r.admitted n)
    rw [← r.next] at hnear
    rcases hnear with hgoal | ⟨g', hg', hlt | ⟨-, hrank, hsame⟩⟩
    · exact ⟨n + 1, Nat.le_succ n, Or.inl hgoal⟩
    · exact ⟨n + 1, Nat.le_succ n, Or.inr ⟨g', hg', hlt⟩⟩
    · rw [← hsame, show n + (d + 1) = n + 1 + d by omega] at hm
      obtain ⟨k, hk, hend⟩ := ih hg' hm
      rw [hrank] at hend
      exact ⟨k, by omega, hend⟩

/-- A run in which whatever helps keeps happening reaches its goal. -/
theorem arrives [WellFoundedLT α] (r : Trace ok step)
    (hnears : ∀ s e g, pictures s g → ok s e → Nears pictures rank helps goal g e (step s e))
    (hkeeps : ∀ g, r.Keeps (helps g)) {n : Nat} {g : γ} (hg : pictures (r.state n) g) :
    ∃ m, n ≤ m ∧ goal (r.state m) := by
  induction ha : rank g using WellFoundedLT.induction generalizing n g with
  | ind a ih =>
    obtain ⟨m, hle, hm⟩ := hkeeps g n
    obtain ⟨k, hk, hgoal | ⟨g', hg', hlt⟩⟩ := r.falls hnears hg hle hm
    · exact ⟨k, hk, hgoal⟩
    · obtain ⟨j, hj, hgoal⟩ := ih (rank g') (ha ▸ hlt) hg' rfl
      exact ⟨j, by omega, hgoal⟩

end Trace

end DeskHop.Lib
