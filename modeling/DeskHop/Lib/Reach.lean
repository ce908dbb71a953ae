/-
  DeskHop.Lib.Reach — the states a deterministic system reaches under guarded events.

  `Reach init ok step` holds of the initial states and of what `step` makes of a
  reached state under an event that `ok` admits there. One induction serves every
  invariant (`Reach.inv`), and a list of events admitted one after another is a run
  (`Reach.run`).
-/

import Mathlib.Logic.Relation

namespace DeskHop.Lib

universe u v w

inductive Reach {σ : Type u} {ε : Type v} (init : σ → Prop) (ok : σ → ε → Prop) (step : σ → ε → σ) : σ → Prop
  | init {s : σ} : init s → Reach init ok step s
  | step {s : σ} (e : ε) : Reach init ok step s → ok s e → Reach init ok step (step s e)

namespace Reach

variable {σ : Type u} {ε : Type v} {init : σ → Prop} {ok : σ → ε → Prop} {step : σ → ε → σ}

/-- An invariant of the initial states that every admitted step preserves holds of
    every reached state. -/
theorem inv {I : σ → Prop} (h0 : ∀ s, init s → I s) (hs : ∀ s e, I s → ok s e → I (step s e)) {s : σ}
    (h : Reach init ok step s) : I s := by
  induction h with
  | init hi => exact h0 _ hi
  | step e _ ho ih => exact hs _ e ih ho

/-- Each event of the list is admitted where it happens. -/
def Admitted (ok : σ → ε → Prop) (step : σ → ε → σ) : σ → List ε → Prop
  | _, [] => True
  | s, e :: es => ok s e ∧ Admitted ok step (step s e) es

instance decidableAdmitted [∀ s e, Decidable (ok s e)] : ∀ (s : σ) (es : List ε), Decidable (Admitted ok step s es)
  | _, [] => isTrue trivial
  | s, e :: es => @instDecidableAnd _ _ _ (decidableAdmitted (step s e) es)

/-- A run of admitted events ends in a reached state. -/
theorem run {s : σ} (h : Reach init ok step s) (es : List ε) (ha : Admitted ok step s es) :
    Reach init ok step (es.foldl step s) := by
  induction es generalizing s with
  | nil => exact h
  | cons e es ih => exact ih (h.step e ha.1) ha.2

/-- Where every event is admitted, every list of them is a run. -/
theorem run_free (hok : ∀ s e, ok s e) {s : σ} (h : Reach init ok step s) (es : List ε) :
    Reach init ok step (es.foldl step s) := by
  induction es generalizing s with
  | nil => exact h
  | cons e es ih => exact ih (h.step e (hok s e))

end Reach

end DeskHop.Lib
