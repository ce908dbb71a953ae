/-
  DeskHop.Lib.Alike — two tables alike slot by slot.

  A relation of entries that agree on use and key (`Slots.Matching`) carries over to
  lookups, updates, claims and folds of two tables whose slots it relates
  (`Slots.Alike`).
-/

import DeskHop.Lib.Slots
import Mathlib.Data.List.Forall2
import Mathlib.Data.Option.Basic

namespace DeskHop.Lib

universe u v w

section Lists

variable {α : Type u} {β : Type w} {R : α → α → Prop} {l l' : List α}

theorem forall₂_updFirst {p q : α → Bool} {f g : α → α} (hp : ∀ a b, R a b → q b = p a)
    (hf : ∀ a b, R a b → p a = true → R (f a) (g b)) (h : List.Forall₂ R l l') :
    List.Forall₂ R (updFirst p f l) (updFirst q g l') := by
  induction h with
  | nil => exact .nil
  | @cons a b l l' hab hl ih =>
    simp only [updFirst, hp a b hab]
    split
    · rename_i hpa
      exact .cons (hf a b hab hpa) hl
    · exact .cons hab ih

theorem forall₂_find? {p q : α → Bool} (hp : ∀ a b, R a b → q b = p a) (h : List.Forall₂ R l l') :
    Option.Rel R (l.find? p) (l'.find? q) := by
  induction h with
  | nil => exact .none
  | @cons a b l l' hab hl ih =>
    simp only [List.find?_cons, hp a b hab]
    cases p a with
    | true => exact .some hab
    | false => exact ih

theorem forall₂_any {p q : α → Bool} (hp : ∀ a b, R a b → q b = p a) (h : List.Forall₂ R l l') : l'.any q = l.any p := by
  induction h with
  | nil => rfl
  | @cons a b l l' hab hl ih => rw [List.any_cons, List.any_cons, hp a b hab, ih]

theorem forall₂_foldl {step step' : β → α → β} (hs : ∀ x a b, R a b → step' x b = step x a) (h : List.Forall₂ R l l')
    (x : β) : l'.foldl step' x = l.foldl step x := by
  induction h generalizing x with
  | nil => rfl
  | @cons a b l l' hab hl ih => rw [List.foldl_cons, List.foldl_cons, hs x a b hab, ih]

theorem forall₂_map_eq {f g : α → β} (hf : ∀ a b, R a b → g b = f a) (h : List.Forall₂ R l l') : l'.map g = l.map f := by
  induction h with
  | nil => rfl
  | @cons a b l l' hab hl ih => rw [List.map_cons, List.map_cons, hf a b hab, ih]

end Lists

namespace Slots

variable {α : Type u} {κ : Type v} [DecidableEq κ] [Slotted α κ] {n : Nat}

open Slotted

/-- The two entries agree on use and key. -/
def Matching (R : α → α → Prop) : Prop := ∀ a b, R a b → used b = used a ∧ key b = key a

def Alike (R : α → α → Prop) (t t' : Slots α n) : Prop := List.Forall₂ R t.cells t'.cells

variable {R : α → α → Prop} {t t' : Slots α n}

theorem Matching.holds (hR : Matching R) (k : κ) (a b : α) (h : R a b) : Slots.holds k b = Slots.holds k a := by
  rw [Slots.holds, Slots.holds, (hR a b h).1, (hR a b h).2]

omit [DecidableEq κ] [Slotted α κ] in
theorem alike_replicate {a b : α} (h : R a b) : Alike R (replicate n a) (replicate n b) := by
  unfold Alike replicate
  induction n with
  | zero => exact .nil
  | succ n ih => exact .cons h ih

theorem Alike.find? (h : Alike R t t') (hR : Matching R) (k : κ) : Option.Rel R (t.find? k) (t'.find? k) :=
  forall₂_find? (fun a b hab => hR.holds k a b hab) h

theorem Alike.modify (h : Alike R t t') (hR : Matching R) (k : κ) {f g : α → α}
    (hf : ∀ a b, R a b → used a = true → key a = k → R (f a) (g b)) : Alike R (t.modify k f) (t'.modify k g) :=
  forall₂_updFirst (fun a b hab => hR.holds k a b hab)
    (fun a b hab ha => hf a b hab (holds_iff.mp ha).1 (holds_iff.mp ha).2) h

omit [DecidableEq κ] [Slotted α κ] in
theorem Alike.map (h : Alike R t t') {f g : α → α} (hf : ∀ a b, R a b → R (f a) (g b)) : Alike R (t.map f) (t'.map g) :=
  List.forall₂_map_left_iff.mpr (List.forall₂_map_right_iff.mpr (List.Forall₂.imp (fun a b => hf a b) h))

omit [DecidableEq κ] [Slotted α κ] in
/-- Blind to what sets two entries apart, a map makes the tables one. -/
theorem Alike.map_eq (h : Alike R t t') {f : α → α} (hf : ∀ a b, R a b → f b = f a) : t'.map f = t.map f := by
  have hcells : t'.cells.map f = t.cells.map f := forall₂_map_eq hf h
  simp only [Slots.map, hcells]

omit [DecidableEq κ] in
/-- Both have room, or neither has. -/
theorem Alike.claim (h : Alike R t t') (hR : Matching R) {a b : α} (hab : R a b) :
    Option.Rel (Alike R) (t.claim a) (t'.claim b) := by
  have hfree : ∀ x y : α, R x y → (!used y) = (!used x) := fun x y hxy => by rw [(hR x y hxy).1]
  unfold Slots.claim
  rw [forall₂_any hfree h]
  split
  · exact .some (forall₂_updFirst hfree (fun _ _ _ _ => hab) h)
  · exact .none

/-- To claim a slot and then to change what was put there is to put the changed entry
    there at once. -/
theorem claim_modify {t t1 : Slots α n} {a : α} (h : t.claim a = some t1) (hu : used a = true) (hn : t.find? (key a) = none)
    (f : α → α) : t.claim (f a) = some (t1.modify (key a) f) := by
  have haux : ∀ l : List α, l.any (fun b => !used b) = true → l.find? (Slots.holds (key a)) = none →
      updFirst (Slots.holds (key a)) f (updFirst (fun b => !used b) (fun _ => a) l) =
        updFirst (fun b => !used b) (fun _ => f a) l := by
    intro l
    induction l with
    | nil => intro _ _; rfl
    | cons x xs ih =>
      intro hany hfind
      rw [List.find?_cons] at hfind
      simp only [updFirst]
      cases hx : used x with
      | false => simp [updFirst, Slots.holds, hu]
      | true =>
        split at hfind
        · cases hfind
        · rename_i hk
          simp only [Bool.not_true, Bool.false_eq_true, if_false, updFirst, hk]
          rw [ih (by simpa [hx] using hany) hfind]
  unfold Slots.claim at h ⊢
  split at h
  · rename_i hany
    cases h
    rw [if_pos hany]
    refine congrArg some ?_
    simp only [Slots.modify, haux _ hany hn]
  · cases h

/-- What is put there first is never seen before it is changed. -/
theorem ensure_modify_none {t : Slots α n} {a : α} (hu : used a = true) (hn : t.find? (key a) = none) (f : α → α) :
    ((t.ensure a).map (·.2)).map (fun t => t.modify (key a) f) = t.claim (f a) := by
  have hclaim : t.ensure a = (t.claim a).map fun t' => (a, t') := by
    unfold Slots.ensure
    rw [hn]
  rw [hclaim]
  cases hc : t.claim a with
  | some t' => exact (claim_modify hc hu hn f).symm
  | none =>
    unfold Slots.claim at hc ⊢
    split at hc
    · cases hc
    · rename_i hfull
      rw [if_neg hfull]
      rfl

/-- The entry under a key, found or put there, is changed in both tables, or neither has
    room for it. -/
theorem Alike.ensure_modify (h : Alike R t t') (hR : Matching R) {a : α} (hu : used a = true) {f g : α → α}
    (hnew : R (f a) (g a)) (hf : ∀ x y, R x y → used x = true → key x = key a → R (f x) (g y)) :
    Option.Rel (Alike R) (((t.ensure a).map (·.2)).map fun t => t.modify (key a) f)
      (((t'.ensure a).map (·.2)).map fun t => t.modify (key a) g) := by
  have hfound := h.find? hR (key a)
  cases ht : t.find? (key a) with
  | some x =>
    rw [ht] at hfound
    cases ht' : t'.find? (key a) with
    | none =>
      rw [ht'] at hfound
      cases hfound
    | some y =>
      rw [ensure_of_find ht, ensure_of_find ht']
      exact .some (h.modify hR (key a) hf)
  | none =>
    rw [ht] at hfound
    cases ht' : t'.find? (key a) with
    | some y =>
      rw [ht'] at hfound
      cases hfound
    | none =>
      rw [ensure_modify_none hu ht, ensure_modify_none hu ht']
      exact h.claim hR hnew

end Slots

end DeskHop.Lib
