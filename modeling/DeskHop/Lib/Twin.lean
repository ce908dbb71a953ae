/-
  DeskHop.Lib.Twin — two runs that differ in events an observer does not see.

  `g` tells what is seen of an event. When an unseen event on either side keeps a relation
  of states, and so do two events that look the same, every two runs whose events look
  the same keep it (`foldl_twin`).
-/

import Mathlib.Data.List.Basic

namespace DeskHop.Lib

universe u v w

variable {σ : Type u} {ε : Type v} {β : Type w} {R : σ → σ → Prop} {f : σ → ε → σ} {g : ε → Option β}

theorem foldl_unseen (hr : ∀ s t e, g e = none → R s t → R s (f t e)) {l : List ε} (h : l.filterMap g = []) {s t : σ}
    (hst : R s t) : R s (l.foldl f t) := by
  induction l generalizing t with
  | nil => exact hst
  | cons e l ih =>
    cases he : g e with
    | none =>
      rw [List.filterMap_cons_none he] at h
      exact ih h (hr s t e he hst)
    | some b =>
      rw [List.filterMap_cons_some he] at h
      cases h

theorem foldl_twin (hl : ∀ s t e, g e = none → R s t → R (f s e) t) (hr : ∀ s t e, g e = none → R s t → R s (f t e))
    (hb : ∀ s t e e', g e = g e' → (g e).isSome = true → R s t → R (f s e) (f t e')) {l l' : List ε}
    (h : l.filterMap g = l'.filterMap g) {s t : σ} (hst : R s t) : R (l.foldl f s) (l'.foldl f t) := by
  induction l generalizing l' s t with
  | nil => exact foldl_unseen hr h.symm hst
  | cons e l ih =>
    cases he : g e with
    | none =>
      rw [List.filterMap_cons_none he] at h
      exact ih h (hl s t e he hst)
    | some b =>
      -- the other run has unseen events to make before it comes to one that looks like this
      rw [List.filterMap_cons_some he] at h
      induction l' generalizing t with
      | nil => cases h
      | cons e' l' ih' =>
        cases he' : g e' with
        | none =>
          rw [List.filterMap_cons_none he'] at h
          exact ih' (hr s t e' he' hst) h
        | some b' =>
          rw [List.filterMap_cons_some he'] at h
          obtain ⟨rfl, htail⟩ := List.cons.inj h
          exact ih htail (hb s t e e' (he.trans he'.symm) (by rw [he]; rfl) hst)

end DeskHop.Lib
