/-
  DeskHop.Lib.Codec — message formats of a fixed width, put together from fields.

  A field is written as so many symbols and read at an offset (`Field`). Two fields one
  behind the other are a field (`Field.pair`), and so is a field seen through a bijection
  (`Field.map`). A message checks the length, and a tag where it has one, before it reads
  (`Field.codec`, `Field.tagged`); what such a message keeps is a `Codec`.
-/

import Mathlib.Logic.Equiv.Defs

namespace DeskHop.Lib

universe u v w

variable {σ : Type u} {α : Type v} {β : Type w}

/-! ## Fields -/

/-- `put` writes `width` symbols, and `get` reads them at any offset. -/
structure Field (width : Nat) (put : α → List σ) (get : List σ → Nat → α) : Prop where
  length_put (a : α) : (put a).length = width
  get_put (a : α) (l r : List σ) : get (l ++ put a ++ r) l.length = a
  put_get {b : List σ} {off : Nat} (h : off + width ≤ b.length) : put (get b off) = (b.drop off).take width

section fields

variable {m n : Nat} {put : α → List σ} {get : List σ → Nat → α} {put' : β → List σ} {get' : List σ → Nat → β}

/-- What stands behind a field is not read. -/
theorem Field.get_append (h : Field n put get) {b : List σ} {off : Nat} (hb : off + n ≤ b.length) (r : List σ) :
    get (b ++ r) off = get b off := by
  have hlen : (b.take off).length = off := List.length_take_of_le (by omega)
  have hb' : b.take off ++ put (get b off) ++ b.drop (off + n) = b := by
    rw [h.put_get hb, List.append_assoc, ← List.drop_drop, List.take_append_drop, List.take_append_drop]
  calc get (b ++ r) off
      = get (b.take off ++ put (get b off) ++ (b.drop (off + n) ++ r)) (b.take off).length := by
        rw [← List.append_assoc, hb', hlen]
    _ = get b off := h.get_put _ _ _

/-- The last field of a message. -/
theorem Field.get_last (h : Field n put get) (a : α) (l : List σ) : get (l ++ put a) l.length = a := by
  have hget := h.get_put a l []
  rwa [List.append_nil] at hget

/-- What is written tells the values apart. -/
theorem Field.put_inj (h : Field n put get) {a a' : α} (heq : put a = put a') : a = a' := by
  have hget := h.get_put a [] []
  rw [heq] at hget
  exact hget.symm.trans (h.get_put a' [] [])

theorem Field.pair (h : Field m put get) (h' : Field n put' get') :
    Field (m + n) (fun p : α × β => put p.1 ++ put' p.2) (fun b off => (get b off, get' b (off + m))) where
  length_put p := by rw [List.length_append, h.length_put, h'.length_put]
  get_put p l r := by
    have hlen : (l ++ put p.1).length = l.length + m := by rw [List.length_append, h.length_put]
    have hleft := h.get_put p.1 l (put' p.2 ++ r)
    have hright := h'.get_put p.2 (l ++ put p.1) r
    rw [hlen] at hright
    simp only [List.append_assoc] at hleft hright ⊢
    rw [hleft, hright]
  put_get hb := by
    rw [h.put_get (by omega), h'.put_get (by omega), List.take_add, List.drop_drop]

theorem Field.map (h : Field n put get) (e : α ≃ β) :
    Field n (fun c => put (e.symm c)) (fun b off => e (get b off)) where
  length_put c := h.length_put _
  get_put c l r := by rw [h.get_put, e.apply_symm_apply]
  put_get hb := by rw [e.symm_apply_apply, h.put_get hb]

/-- The field of no symbols. -/
theorem Field.unit : Field 0 (fun _ : Unit => ([] : List σ)) (fun _ _ => ()) where
  length_put _ := rfl
  get_put _ _ _ := rfl
  put_get _ := (List.take_zero ..).symm

end fields

/-! ## Messages -/

/-- A message of `width` symbols, taken from a longer buffer as from one of just that length.
    `kind` is what else its reader asks for. -/
structure Codec (width : Nat) (kind : List σ → Prop) (pack : α → List σ) (unpack : List σ → Option α) : Prop where
  length_pack (a : α) : (pack a).length = width
  unpack_pack (a : α) : unpack (pack a) = some a
  pack_unpack {b : List σ} {a : α} (hb : b.length = width) (h : unpack b = some a) : pack a = b
  unpack_longer {b : List σ} (hb : b.length = width) (r : List σ) : unpack (b ++ r) = unpack b
  unpack_short {b : List σ} (hb : b.length < width) : unpack b = none
  accepts {b : List σ} (hb : width ≤ b.length) : (unpack b).isSome ↔ kind b

section messages

variable {m n : Nat} {put : α → List σ} {get : List σ → Nat → α} {tagPut : β → List σ} {tagGet : List σ → Nat → β}

/-- A tag, and then a field. -/
theorem Field.tagged [DecidableEq β] (ht : Field m tagPut tagGet) (tag : β) (h : Field n put get) :
    Codec (m + n) (fun b => tagGet b 0 = tag) (fun a => tagPut tag ++ put a)
      (fun b => if b.length < m + n ∨ tagGet b 0 ≠ tag then none else some (get b m)) where
  length_pack a := by rw [List.length_append, ht.length_put, h.length_put]
  unpack_pack a := by
    have hlen : (tagPut tag ++ put a).length = m + n := by rw [List.length_append, ht.length_put, h.length_put]
    have htag : tagGet (tagPut tag ++ put a) 0 = tag := ht.get_put tag [] (put a)
    have hget := h.get_last a (tagPut tag)
    rw [ht.length_put] at hget
    rw [if_neg (by simp [hlen, htag]), hget]
  pack_unpack {b a} hb hu := by
    by_cases hk : tagGet b 0 = tag
    · rw [if_neg (by simp [hb, hk])] at hu
      cases hu
      have hfirst : tagPut (tagGet b 0) = (b.drop 0).take m := ht.put_get (by omega)
      rw [hk, List.drop_zero] at hfirst
      rw [hfirst, h.put_get (by omega), ← List.take_add, ← hb, List.take_length]
    · rw [if_pos (Or.inr hk)] at hu
      cases hu
  unpack_longer {b} hb r := by
    have hlen : ¬ (b ++ r).length < m + n := by rw [List.length_append]; omega
    rw [ht.get_append (by omega), h.get_append (by omega)]
    simp only [hlen, hb, Nat.lt_irrefl]
  unpack_short hb := if_pos (Or.inl hb)
  accepts {b} hb := by
    by_cases hk : tagGet b 0 = tag
    · simp [Nat.not_lt.mpr hb, hk]
    · simp [hk]

/-- A field alone: its reader asks for the length and for nothing else. -/
theorem Field.codec (h : Field n put get) :
    Codec n (fun _ => True) put (fun b => if b.length < n then none else some (get b 0)) := by
  simpa using Field.tagged Field.unit () h

end messages

end DeskHop.Lib
