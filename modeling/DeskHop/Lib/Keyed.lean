/-
  DeskHop.Lib.Keyed — a table that is a function from places to entries, some of them in
  use and each under a key.

  Among the places of one kind no two entries in use share a key (`KeysApart`): an update
  keeps that if what it puts in place is out of use, is what was there, or has a key that
  nobody else has. How many entries are in use changes with the one entry (`countP_update`).
-/

import Mathlib.Data.List.Nodup
import Mathlib.Logic.Function.Basic

namespace DeskHop.Lib

universe u v w

variable {ι : Type u} {β : Type v} {κ : Type w}

/-- Among the places `P` no two entries in use are under one key. -/
def KeysApart (P : ι → Prop) (used : β → Prop) (key : β → κ) (t : ι → β) : Prop :=
  ∀ i j, P i → P j → used (t i) → used (t j) → key (t i) = key (t j) → i = j

/-- What is in use was in use, under the same key. -/
theorem KeysApart.mono {P : ι → Prop} {used : β → Prop} {key : β → κ} {t t' : ι → β} (h : KeysApart P used key t)
    (hsub : ∀ i, P i → used (t' i) → used (t i) ∧ key (t' i) = key (t i)) : KeysApart P used key t' := by
  intro i j hi hj hui huj hk
  obtain ⟨hui, hki⟩ := hsub i hi hui
  obtain ⟨huj, hkj⟩ := hsub j hj huj
  exact h i j hi hj hui huj (hki.symm.trans (hk.trans hkj))

section apart

variable [DecidableEq ι] {P : ι → Prop} {used : β → Prop} {key : β → κ} {t : ι → β} {i : ι} {b : β}

theorem KeysApart.update (h : KeysApart P used key t)
    (hb : P i → used b → used (t i) ∧ key b = key (t i) ∨ ∀ j, P j → used (t j) → key (t j) ≠ key b) :
    KeysApart P used key (Function.update t i b) := by
  -- what the new entry shares with another place, the old one shared
  have hnew (j : ι) (hj : j ≠ i) (hPi : P i) (hPj : P j) (hub : used b) (huj : used (t j)) : key b ≠ key (t j) := by
    intro hk
    rcases hb hPi hub with ⟨hui, hsame⟩ | hfresh
    · exact hj (h i j hPi hPj hui huj (hsame.symm.trans hk)).symm
    · exact hfresh j hPj huj hk.symm
  intro j k hj hk huj huk hkey
  by_cases hji : j = i
  · by_cases hki : k = i
    · rw [hji, hki]
    · subst hji
      rw [Function.update_self] at huj hkey
      rw [Function.update_of_ne hki] at huk hkey
      exact absurd hkey (hnew k hki hj hk huj huk)
  · by_cases hki : k = i
    · subst hki
      rw [Function.update_self] at huk hkey
      rw [Function.update_of_ne hji] at huj hkey
      exact absurd hkey.symm (hnew j hji hk hj huk huj)
    · rw [Function.update_of_ne hji] at huj hkey
      rw [Function.update_of_ne hki] at huk hkey
      exact h j k hj hk huj huk hkey

end apart

section count

variable [DecidableEq ι] (used : β → Bool) (t : ι → β) (i : ι) (b : β)

theorem countP_update_notMem {l : List ι} (hi : i ∉ l) :
    l.countP (fun j => used (Function.update t i b j)) = l.countP fun j => used (t j) := by
  apply List.countP_congr
  intro j hj
  have hji : j ≠ i := fun h => hi (h ▸ hj)
  rw [Function.update_of_ne hji]

/-- One entry replaced among those counted. -/
theorem countP_update {l : List ι} (hl : l.Nodup) (hi : i ∈ l) :
    l.countP (fun j => used (Function.update t i b j)) + (if used (t i) then 1 else 0) =
      l.countP (fun j => used (t j)) + if used b then 1 else 0 := by
  induction l with
  | nil => cases hi
  | cons k l ih =>
    obtain ⟨hk, hl⟩ := List.nodup_cons.mp hl
    rw [List.countP_cons, List.countP_cons]
    by_cases hki : k = i
    · subst hki
      rw [countP_update_notMem used t k b hk, Function.update_self]
      omega
    · have hrest := ih hl ((List.mem_cons.mp hi).resolve_left fun h => hki h.symm)
      rw [Function.update_of_ne hki]
      omega

end count

end DeskHop.Lib
