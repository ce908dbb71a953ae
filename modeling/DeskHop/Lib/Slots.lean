/-
  DeskHop.Lib.Slots — a table of a fixed number of slots, each free or holding an
  entry under a key.

  A lookup answers the first slot in use under the key. A table grows only by
  claiming its first free slot, and shrinks only by a slot being marked free; no
  entry ever moves. The number of slots is part of the type, so an index answered by
  a lookup is always inside the table.

  Proved: what each operation does to a later lookup, of the same key and of another
  (`find?_modify_self`, `find?_modify_ne`, `find?_claim_self`, `find?_claim_ne`,
  `find?_map`), and which entries it can leave behind (`mem_modify`, `mem_claim`).
-/

import Mathlib.Data.List.Basic

namespace DeskHop.Lib

universe u v

/-- An entry knows whether its slot is in use, and under which key. -/
class Slotted (α : Type u) (κ : outParam (Type v)) where
  used : α → Bool
  key : α → κ

structure Slots (α : Type u) (n : Nat) where
  cells : List α
  size : cells.length = n
  deriving DecidableEq

/-- Apply `f` to the first element `p` holds of. -/
def updFirst {α : Type u} (p : α → Bool) (f : α → α) : List α → List α
  | [] => []
  | x :: xs => if p x then f x :: xs else x :: updFirst p f xs

@[simp] theorem length_updFirst {α : Type u} (p : α → Bool) (f : α → α) (l : List α) :
    (updFirst p f l).length = l.length := by
  induction l with
  | nil => rfl
  | cons x xs ih => simp only [updFirst]; split <;> simp [ih]

theorem mem_updFirst {α : Type u} {p : α → Bool} {f : α → α} {l : List α} {b : α} (h : b ∈ updFirst p f l) :
    b ∈ l ∨ ∃ a ∈ l, p a = true ∧ b = f a := by
  induction l with
  | nil => cases h
  | cons x xs ih =>
    simp only [updFirst] at h
    split at h
    · rename_i hx
      rcases List.mem_cons.mp h with rfl | h
      · exact Or.inr ⟨x, List.mem_cons_self, hx, rfl⟩
      · exact Or.inl (List.mem_cons_of_mem _ h)
    · rcases List.mem_cons.mp h with rfl | h
      · exact Or.inl List.mem_cons_self
      · rcases ih h with h | ⟨a, ha, hp, rfl⟩
        · exact Or.inl (List.mem_cons_of_mem _ h)
        · exact Or.inr ⟨a, List.mem_cons_of_mem _ ha, hp, rfl⟩

/-- The first hit of `q` after an update of the first hit of `p`, when the update
    neither makes nor breaks a hit of `q`. -/
theorem find?_updFirst_of_iff {α : Type u} {p q : α → Bool} {f : α → α} (hf : ∀ a, p a = true → q (f a) = q a)
    (hd : ∀ a, p a = true → q a = false) (l : List α) : (updFirst p f l).find? q = l.find? q := by
  induction l with
  | nil => rfl
  | cons x xs ih =>
    simp only [updFirst]
    split
    · rename_i hx
      simp [hf x hx, hd x hx]
    · simp [List.find?_cons, ih]

theorem find?_updFirst_self {α : Type u} {p : α → Bool} {f : α → α} (hf : ∀ a, p a = true → p (f a) = true)
    (l : List α) : (updFirst p f l).find? p = (l.find? p).map f := by
  induction l with
  | nil => rfl
  | cons x xs ih =>
    simp only [updFirst]
    split
    · rename_i hx
      simp [hx, hf x hx]
    · rename_i hx
      simp [hx, ih]

namespace Slots

variable {α : Type u} {κ : Type v} [DecidableEq κ] [Slotted α κ] {n : Nat}

open Slotted

def holds (k : κ) (a : α) : Bool := used a && key a == k

omit [DecidableEq κ] in
theorem holds_iff [DecidableEq κ] {k : κ} {a : α} : holds k a = true ↔ used a = true ∧ key a = k := by
  simp [holds]

/-- Every slot holds the same entry. -/
def replicate (n : Nat) (a : α) : Slots α n := ⟨List.replicate n a, List.length_replicate⟩

def find? (t : Slots α n) (k : κ) : Option α := t.cells.find? (holds k)

def index? (t : Slots α n) (k : κ) : Option Nat := t.cells.findIdx? (holds k)

/-- Update the entry under `k`, if there is one. -/
def modify (t : Slots α n) (k : κ) (f : α → α) : Slots α n :=
  ⟨updFirst (holds k) f t.cells, by rw [length_updFirst, t.size]⟩

/-- Put `a` in the first free slot, if there is one. -/
def claim (t : Slots α n) (a : α) : Option (Slots α n) :=
  if t.cells.any (fun b => !used b) then
    some ⟨updFirst (fun b => !used b) (fun _ => a) t.cells, by rw [length_updFirst, t.size]⟩
  else none

/-- The entry under the key of `a`: the one there is, or `a` in the first free slot. -/
def ensure (t : Slots α n) (a : α) : Option (α × Slots α n) :=
  match t.find? (key a) with
  | some b => some (b, t)
  | none => (t.claim a).map fun t' => (a, t')

def map (t : Slots α n) (f : α → α) : Slots α n := ⟨t.cells.map f, by rw [List.length_map, t.size]⟩

/-! ## Lookups -/

theorem find?_some {t : Slots α n} {k : κ} {a : α} (h : t.find? k = some a) :
    a ∈ t.cells ∧ used a = true ∧ key a = k :=
  ⟨List.mem_of_find?_eq_some h, holds_iff.mp (List.find?_some h)⟩

theorem find?_none {t : Slots α n} {k : κ} (h : t.find? k = none) {a : α} (ha : a ∈ t.cells) (hu : used a = true) :
    key a ≠ k := fun hk => by
  have := List.find?_eq_none.mp h a ha
  exact this (holds_iff.mpr ⟨hu, hk⟩)

theorem find?_isSome_of_mem {t : Slots α n} {a : α} (ha : a ∈ t.cells) (hu : used a = true) :
    (t.find? (key a)).isSome = true := by
  cases h : t.find? (key a) with
  | some b => rfl
  | none => exact absurd rfl (find?_none h ha hu)

theorem find?_modify_self (t : Slots α n) (k : κ) (f : α → α)
    (hf : ∀ a, used a = true → key a = k → used (f a) = true ∧ key (f a) = k) :
    (t.modify k f).find? k = (t.find? k).map f :=
  find?_updFirst_self (fun a ha => holds_iff.mpr (hf a (holds_iff.mp ha).1 (holds_iff.mp ha).2)) t.cells

theorem find?_modify_ne (t : Slots α n) {k k' : κ} (hk : k' ≠ k) (f : α → α)
    (hf : ∀ a, used a = true → key a = k → used (f a) = true → key (f a) = k) :
    (t.modify k f).find? k' = t.find? k' := by
  have hno : ∀ a : α, holds k a = true → holds k' a = false := fun a ha =>
    Bool.eq_false_iff.mpr fun h => hk ((holds_iff.mp h).2.symm.trans (holds_iff.mp ha).2)
  refine find?_updFirst_of_iff (fun a ha => ?_) hno t.cells
  rw [hno a ha]
  refine Bool.eq_false_iff.mpr fun h => ?_
  obtain ⟨hu, hka⟩ := holds_iff.mp h
  exact hk (hka.symm.trans (hf a (holds_iff.mp ha).1 (holds_iff.mp ha).2 hu))

theorem mem_modify {t : Slots α n} {k : κ} {f : α → α} {b : α} (h : b ∈ (t.modify k f).cells) :
    b ∈ t.cells ∨ ∃ a ∈ t.cells, used a = true ∧ key a = k ∧ b = f a := by
  rcases mem_updFirst h with h | ⟨a, ha, hp, rfl⟩
  · exact Or.inl h
  · exact Or.inr ⟨a, ha, (holds_iff.mp hp).1, (holds_iff.mp hp).2, rfl⟩

omit [DecidableEq κ] in
theorem mem_claim {t t' : Slots α n} {a b : α} (h : t.claim a = some t') (hb : b ∈ t'.cells) : b ∈ t.cells ∨ b = a := by
  unfold claim at h
  split at h
  · cases h
    rcases mem_updFirst hb with hb | ⟨_, _, _, rfl⟩
    · exact Or.inl hb
    · exact Or.inr rfl
  · cases h

theorem find?_claim_ne {t t' : Slots α n} {a : α} (h : t.claim a = some t') {k : κ} (hk : k ≠ key a) :
    t'.find? k = t.find? k := by
  unfold claim at h
  split at h
  · cases h
    have hfree : ∀ b : α, (!used b) = true → holds k b = false := fun b hb => by
      simp only [Bool.not_eq_true'] at hb; simp [holds, hb]
    have ha : holds k a = false := Bool.eq_false_iff.mpr fun h => hk (holds_iff.mp h).2.symm
    exact find?_updFirst_of_iff (fun b hb => by rw [ha, hfree b hb]) hfree t.cells
  · cases h

theorem find?_claim_self {t t' : Slots α n} {a : α} (h : t.claim a = some t') (hu : used a = true)
    (hn : t.find? (key a) = none) : t'.find? (key a) = some a := by
  have haux : ∀ l : List α, l.any (fun b => !used b) = true → l.find? (holds (key a)) = none →
      (updFirst (fun b => !used b) (fun _ => a) l).find? (holds (key a)) = some a := by
    intro l
    induction l with
    | nil => intro hany _; simp at hany
    | cons x xs ih =>
      intro hany hfind
      simp only [updFirst]
      split
      · simp [holds, hu]
      · rename_i hx
        rw [List.find?_cons] at hfind ⊢
        split at hfind
        · cases hfind
        · refine ih ?_ hfind
          simpa [hx] using hany
  unfold claim at h
  split at h
  · cases h; exact haux _ ‹_› hn
  · cases h

theorem ensure_of_find {t : Slots α n} {a b : α} (h : t.find? (key a) = some b) : t.ensure a = some (b, t) := by
  simp [ensure, h]

theorem ensure_cases {t t' : Slots α n} {a b : α} (h : t.ensure a = some (b, t')) :
    (t.find? (key a) = some b ∧ t' = t) ∨ (t.find? (key a) = none ∧ b = a ∧ t.claim a = some t') := by
  unfold ensure at h
  split at h
  · rename_i hf
    cases h
    exact Or.inl ⟨hf, rfl⟩
  · rename_i hf
    obtain ⟨t'', hc, he⟩ := Option.map_eq_some_iff.mp h
    cases he
    exact Or.inr ⟨hf, rfl, hc⟩

theorem find?_ensure_self {t t' : Slots α n} {a b : α} (h : t.ensure a = some (b, t')) (hu : used a = true) :
    t'.find? (key a) = some b := by
  rcases ensure_cases h with ⟨hf, rfl⟩ | ⟨hf, rfl, hc⟩
  · exact hf
  · exact find?_claim_self hc hu hf

theorem find?_ensure_ne {t t' : Slots α n} {a b : α} (h : t.ensure a = some (b, t')) {k : κ} (hk : k ≠ key a) :
    t'.find? k = t.find? k := by
  rcases ensure_cases h with ⟨_, rfl⟩ | ⟨_, rfl, hc⟩
  · rfl
  · exact find?_claim_ne hc hk

theorem mem_ensure {t t' : Slots α n} {a b c : α} (h : t.ensure a = some (b, t')) (hc : c ∈ t'.cells) :
    c ∈ t.cells ∨ c = a := by
  rcases ensure_cases h with ⟨_, rfl⟩ | ⟨_, rfl, hcl⟩
  · exact Or.inl hc
  · exact mem_claim hcl hc

/-- A map that makes no new holder of `k` keeps the entry found there, if it is still
    one. -/
theorem find?_map {t : Slots α n} {k : κ} {f : α → α} (hf : ∀ a, holds k (f a) = true → holds k a = true) {a : α}
    (h : t.find? k = some a) (ha : holds k (f a) = true) : (t.map f).find? k = some (f a) := by
  obtain ⟨h1, h2⟩ := t
  simp only [find?, map] at h ⊢
  clear h2
  induction h1 with
  | nil => cases h
  | cons x xs ih =>
    rw [List.find?_cons] at h
    rw [List.map_cons, List.find?_cons]
    split at h
    · cases h; simp [ha]
    · rename_i hx
      have : holds k (f x) = false := Bool.eq_false_iff.mpr fun h' => by rw [hf x h'] at hx; cases hx
      simp only [this]
      exact ih h

theorem find?_replicate_none {a : α} (ha : used a = false) (k : κ) : (replicate n a).find? k = none := by
  refine List.find?_eq_none.mpr fun b hb => ?_
  obtain rfl : b = a := (List.mem_replicate.mp hb).2
  simp [holds, ha]

/-! ## Indices -/

theorem index?_lt {t : Slots α n} {k : κ} {i : Nat} (h : t.index? k = some i) : i < n := by
  have := (List.findIdx?_eq_some_iff_getElem.mp h).1
  rw [← t.size]; exact this

/-- Two keys are never found in the same slot. -/
theorem index?_inj {t : Slots α n} {k k' : κ} {i : Nat} (h : t.index? k = some i) (h' : t.index? k' = some i) :
    k = k' := by
  obtain ⟨hi, hk, _⟩ := List.findIdx?_eq_some_iff_getElem.mp h
  obtain ⟨_, hk', _⟩ := List.findIdx?_eq_some_iff_getElem.mp h'
  exact (holds_iff.mp hk).2.symm.trans (holds_iff.mp hk').2

theorem findIdx?_updFirst {p q : α → Bool} {f : α → α} (hf : ∀ a, p a = true → q (f a) = q a) (l : List α) :
    (updFirst p f l).findIdx? q = l.findIdx? q := by
  induction l with
  | nil => rfl
  | cons x xs ih =>
    simp only [updFirst]
    split
    · rename_i hx
      simp only [List.findIdx?_cons, hf x hx]
    · simp only [List.findIdx?_cons, ih]

/-- An update that keeps keys moves nothing. -/
theorem index?_modify (t : Slots α n) (k k' : κ) {f : α → α} (hf : ∀ a, used (f a) = used a ∧ key (f a) = key a) :
    (t.modify k f).index? k' = t.index? k' :=
  findIdx?_updFirst (fun a _ => by rw [holds, holds, (hf a).1, (hf a).2]) t.cells

/-- A key that was found stays in its slot when another is given one. -/
theorem index?_ensure {t t' : Slots α n} {a b : α} {k : κ} {i : Nat} (h : t.ensure a = some (b, t'))
    (hi : t.index? k = some i) : t'.index? k = some i := by
  rcases ensure_cases h with ⟨_, rfl⟩ | ⟨hf, rfl, hc⟩
  · exact hi
  · have hk : key b ≠ k := by
      rintro rfl
      obtain ⟨hlt, hh, _⟩ := List.findIdx?_eq_some_iff_getElem.mp hi
      exact List.find?_eq_none.mp hf _ (List.getElem_mem hlt) hh
    unfold claim at hc
    split at hc
    · cases hc
      refine (findIdx?_updFirst (fun c hfree => ?_) t.cells).trans hi
      simp only [Bool.not_eq_true'] at hfree
      simp [holds, hfree, hk]
    · cases hc

theorem index?_of_find {t : Slots α n} {k : κ} {a : α} (h : t.find? k = some a) : ∃ i, t.index? k = some i := by
  have hsome : (t.cells.find? (holds k)).isSome = true := by
    rw [show t.cells.find? (holds k) = some a from h]
    rfl
  refine Option.isSome_iff_exists.mp ?_
  rw [index?, List.findIdx?_isSome]
  obtain ⟨b, hb, hbk⟩ := List.find?_isSome.mp hsome
  exact List.any_eq_true.mpr ⟨b, hb, hbk⟩

/-! ## No key twice -/

/-- No two slots in use share a key. -/
def Unique (t : Slots α n) : Prop := t.cells.Pairwise fun a b => used a = true → used b = true → key a ≠ key b

omit [DecidableEq κ] in
theorem unique_replicate {a : α} (ha : used a = false) : (replicate n a).Unique := by
  refine List.pairwise_of_forall_mem_list fun b hb c _ hu _ => ?_
  obtain rfl : b = a := (List.mem_replicate.mp hb).2
  rw [ha] at hu; cases hu

/-- Every entry in use is the one a lookup of its key answers. -/
theorem Unique.find?_of_mem {t : Slots α n} (h : t.Unique) {a : α} (ha : a ∈ t.cells) (hu : used a = true) :
    t.find? (key a) = some a := by
  obtain ⟨l, hl⟩ := t
  simp only [Unique, find?] at h ha ⊢
  clear hl
  induction l with
  | nil => cases ha
  | cons x xs ih =>
    rw [List.pairwise_cons] at h
    rw [List.find?_cons]
    rcases List.mem_cons.mp ha with rfl | ha
    · simp [holds, hu]
    · split
      · rename_i hx
        obtain ⟨hux, hkx⟩ := holds_iff.mp hx
        exact absurd hkx (h.1 a ha hux hu)
      · exact ih h.2 ha

omit [DecidableEq κ] in
theorem Unique.map {t : Slots α n} (h : t.Unique) {f : α → α}
    (hf : ∀ a, used (f a) = true → used a = true ∧ key (f a) = key a) : (t.map f).Unique := by
  refine List.pairwise_map.mpr (h.imp fun {a b} hab ha hb => ?_)
  obtain ⟨hua, hka⟩ := hf a ha
  obtain ⟨hub, hkb⟩ := hf b hb
  rw [hka, hkb]
  exact hab hua hub

/-- The slots before and after an update of the first hit are related as before, when
    the updated slot relates to every slot as the hit did. -/
theorem pairwise_updFirst {p : α → Bool} {f : α → α} {R : α → α → Prop} {l : List α} (h : l.Pairwise R)
    (hl : ∀ a ∈ l, ∀ b ∈ l, p b = true → R a b → R a (f b)) (hr : ∀ a ∈ l, ∀ b ∈ l, p a = true → R a b → R (f a) b) :
    (updFirst p f l).Pairwise R := by
  induction l with
  | nil => exact .nil
  | cons x xs ih =>
    rw [List.pairwise_cons] at h
    simp only [updFirst]
    split
    · rename_i hx
      exact List.pairwise_cons.mpr ⟨fun b hb => hr x List.mem_cons_self b (List.mem_cons_of_mem _ hb) hx (h.1 b hb), h.2⟩
    · refine List.pairwise_cons.mpr ⟨fun b hb => ?_, ih h.2
        (fun a ha b hb => hl a (List.mem_cons_of_mem _ ha) b (List.mem_cons_of_mem _ hb))
        (fun a ha b hb => hr a (List.mem_cons_of_mem _ ha) b (List.mem_cons_of_mem _ hb))⟩
      rcases mem_updFirst hb with hb | ⟨a, ha, hp, rfl⟩
      · exact h.1 b hb
      · exact hl x List.mem_cons_self a (List.mem_cons_of_mem _ ha) hp (h.1 a ha)

theorem Unique.modify {t : Slots α n} (h : t.Unique) {k : κ} {f : α → α}
    (hf : ∀ a, used a = true → key a = k → used (f a) = true → key (f a) = k) : (t.modify k f).Unique := by
  refine pairwise_updFirst h (fun a _ b _ hp hab hua hub => ?_) (fun a _ b _ hp hab hua hub => ?_)
  · obtain ⟨hb, hkb⟩ := holds_iff.mp hp
    rw [hf b hb hkb hub, ← hkb]
    exact hab hua hb
  · obtain ⟨ha, hka⟩ := holds_iff.mp hp
    rw [hf a ha hka hua, ← hka]
    exact hab ha hub

theorem Unique.claim {t t' : Slots α n} (h : t.Unique) {a : α} (hc : t.claim a = some t')
    (hn : t.find? (key a) = none) : t'.Unique := by
  unfold Slots.claim at hc
  split at hc
  · cases hc
    refine pairwise_updFirst h (fun b hb _ _ _ _ hub _ => ?_) (fun _ _ b hb _ _ _ hub => ?_)
    · exact find?_none hn hb hub
    · exact (find?_none hn hb hub).symm
  · cases hc

theorem Unique.ensure {t t' : Slots α n} (h : t.Unique) {a b : α} (he : t.ensure a = some (b, t')) : t'.Unique := by
  rcases ensure_cases he with ⟨_, rfl⟩ | ⟨hf, rfl, hc⟩
  · exact h
  · exact h.claim hc hf

omit [DecidableEq κ] in
theorem used_of_claim_none {t : Slots α n} {a : α} (h : t.claim a = none) {b : α} (hb : b ∈ t.cells) : used b = true := by
  by_contra hu
  have : t.cells.any (fun c => !used c) = true := List.any_eq_true.mpr ⟨b, hb, by simpa using hu⟩
  rw [claim, if_pos this] at h
  cases h

/-- A table that has no slot left for `k` holds `n` keys, all different and none of
    them `k`. -/
theorem Unique.full {t : Slots α n} (h : t.Unique) {a : α} (hn : t.ensure a = none) :
    (t.cells.map key).Nodup ∧ (t.cells.map key).length = n ∧ key a ∉ t.cells.map (key : α → κ) ∧
      ∀ b ∈ t.cells, used b = true := by
  unfold Slots.ensure at hn
  split at hn
  · cases hn
  · rename_i hf
    have hc : t.claim a = none := Option.map_eq_none_iff.mp hn
    have hu : ∀ b ∈ t.cells, used b = true := fun b hb => used_of_claim_none hc hb
    refine ⟨?_, by rw [List.length_map, t.size], ?_, hu⟩
    · refine List.pairwise_map.mpr (h.imp_of_mem fun {b c} hb hc hbc => ?_)
      exact hbc (hu b hb) (hu c hc)
    · intro hm
      obtain ⟨b, hb, hk⟩ := List.mem_map.mp hm
      exact find?_none hf hb (hu b hb) hk

/-! ## A map that moves nothing -/

/-- A map that keeps keys, seen through an update of one slot, is as good before the
    update as after it. -/
theorem map_updFirst_map {p : α → Bool} {m g : α → α} (hp : ∀ a, p (m a) = p a) (hm : ∀ a, m (m a) = m a)
    (hg : ∀ a, m (g (m a)) = m (g a)) (l : List α) : (updFirst p g (l.map m)).map m = (updFirst p g l).map m := by
  induction l with
  | nil => rfl
  | cons x xs ih =>
    simp only [List.map_cons, updFirst, hp]
    split
    · simp [hg, hm, Function.comp_def]
    · rw [List.map_cons, List.map_cons, hm, ih]

/-- Updating the first hit with what leaves it as it is changes nothing. -/
theorem updFirst_eq_self {p : α → Bool} {g : α → α} {l : List α} (hg : ∀ a, l.find? p = some a → g a = a) :
    updFirst p g l = l := by
  induction l with
  | nil => rfl
  | cons x xs ih =>
    simp only [updFirst]
    split
    · rename_i hx
      rw [hg x (by simp [hx])]
    · rename_i hx
      rw [ih fun a ha => hg a (by simpa [hx] using ha)]

theorem modify_eq_self {t : Slots α n} {k : κ} {g : α → α} (hg : ∀ a, t.find? k = some a → g a = a) :
    t.modify k g = t := by
  simp only [modify, updFirst_eq_self hg]

section Map

variable {m : α → α} (hm : ∀ a, used (m a) = used a ∧ key (m a) = key a)

include hm in
theorem holds_map (k : κ) (a : α) : holds k (m a) = holds k a := by rw [holds, holds, (hm a).1, (hm a).2]

include hm in
theorem map_find? (t : Slots α n) (k : κ) : (t.map m).find? k = (t.find? k).map m := by
  simp only [find?, map, List.find?_map]
  rw [show holds k ∘ m = holds k from funext fun a => holds_map hm k a]

include hm in
theorem map_index? (t : Slots α n) (k : κ) : (t.map m).index? k = t.index? k := by
  simp only [index?, map, List.findIdx?_map]
  rw [show holds k ∘ m = holds k from funext fun a => holds_map hm k a]

include hm in
theorem map_modify_map (t : Slots α n) (k : κ) {g : α → α} (hmm : ∀ a, m (m a) = m a) (hg : ∀ a, m (g (m a)) = m (g a)) :
    ((t.map m).modify k g).map m = (t.modify k g).map m := by
  simp only [map, modify, map_updFirst_map (fun a => holds_map hm k a) hmm hg]

include hm in
/-- A map and an update of one slot commute where they do on every entry. -/
theorem map_modify (t : Slots α n) (k : κ) {g g' : α → α} (hg : ∀ a, m (g a) = g' (m a)) :
    (t.modify k g).map m = (t.map m).modify k g' := by
  have h : ∀ l : List α, (updFirst (holds k) g l).map m = updFirst (holds k) g' (l.map m) := by
    intro l
    induction l with
    | nil => rfl
    | cons x xs ih =>
      simp only [List.map_cons, updFirst, holds_map hm]
      split
      · rw [List.map_cons, hg]
      · rw [List.map_cons, ih]
  simp only [map, modify, h]

include hm in
omit [DecidableEq κ] in
theorem map_claim (t : Slots α n) {a : α} (ha : m a = a) : (t.map m).claim a = (t.claim a).map fun t => t.map m := by
  have hany : (t.map m).cells.any (fun b => !used b) = t.cells.any fun b => !used b := by
    rw [map, List.any_map]
    exact congrArg t.cells.any (funext fun b => by rw [Function.comp, (hm b).1])
  have hupd : ∀ l : List α, updFirst (fun b => !used b) (fun _ => a) (l.map m) =
      (updFirst (fun b => !used b) (fun _ => a) l).map m := by
    intro l
    induction l with
    | nil => rfl
    | cons x xs ih =>
      simp only [List.map_cons, updFirst, (hm x).1]
      split
      · rw [List.map_cons, ha]
      · rw [List.map_cons, ih]
  unfold claim
  rw [hany]
  split
  · simp only [map, hupd, Option.map_some]
  · rfl

include hm in
theorem map_ensure (t : Slots α n) {a : α} (ha : m a = a) :
    (t.map m).ensure a = (t.ensure a).map fun e => (m e.1, e.2.map m) := by
  unfold ensure
  rw [map_find? hm]
  cases t.find? (key a) with
  | some b => rfl
  | none =>
    show ((t.map m).claim a).map _ = ((t.claim a).map _).map _
    rw [map_claim hm t ha, Option.map_map, Option.map_map]
    exact congrArg (fun f => Option.map f (t.claim a)) (funext fun t => by rw [Function.comp, Function.comp, ha])

end Map

end Slots

end DeskHop.Lib
