/-
  DeskHop.Lib.Outputs — what a machine answers along a run.

  `step` answers each event. When a relation of states is kept by an event on one side
  and its translation on the other, and the two answers are the same, every run answers
  what its translation does, step by step (`outputs_twin`).
-/

import Mathlib.Data.List.Basic

namespace DeskHop.Lib

universe u v w

variable {σ : Type u} {ε : Type v} {ω : Type w}

/-- The answers to the events, one after another. -/
def outputs (step : σ → ε → σ × ω) : σ → List ε → List ω
  | _, [] => []
  | s, e :: es => (step s e).2 :: outputs step (step s e).1 es

theorem outputs_twin {R : σ → σ → Prop} {step : σ → ε → σ × ω} {g : ε → ε}
    (hR : ∀ s t e, R s t → R (step s e).1 (step t (g e)).1 ∧ (step t (g e)).2 = (step s e).2) {s t : σ} (h : R s t)
    (es : List ε) : outputs step t (es.map g) = outputs step s es := by
  induction es generalizing s t with
  | nil => rfl
  | cons e es ih =>
    obtain ⟨hkept, hsame⟩ := hR s t e h
    rw [List.map_cons, outputs, outputs, hsame, ih hkept]

/-- Two machines that branch on the same thing stay related if they do on either branch. -/
theorem ite_twin {R : σ → σ → Prop} {P Q : Prop} [Decidable P] [Decidable Q] (hpq : Q ↔ P) {x y x' y' : σ}
    (hx : P → R x x') (hy : ¬P → R y y') : R (if P then x else y) (if Q then x' else y') := by
  by_cases hp : P
  · rw [if_pos hp, if_pos (hpq.mpr hp)]
    exact hx hp
  · rw [if_neg hp, if_neg (mt hpq.mp hp)]
    exact hy hp

end DeskHop.Lib
