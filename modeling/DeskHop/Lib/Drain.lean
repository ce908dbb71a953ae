/-
  DeskHop.Lib.Drain — writing to a descriptor that need not take what it is given.

  A write may take a part, take nothing for now, be interrupted, or fail. The writer goes on
  with what is left until nothing is, or until it is told to stop (`drain`). A `Spool` is a
  buffer in front of such a descriptor: a message goes into it whole or not at all.

  Proved: nothing is lost or put out of order in a drain (`drain_all`), and offers and drains
  keep it that the descriptor has been given, with the buffer behind it, just the messages
  that were accepted, one after another (`Whole.offer`, `Whole.flush`).
-/

import Mathlib.Data.List.Basic

namespace DeskHop.Lib

/-- What a descriptor answers to a write. -/
inductive Answer where
  /-- This many were taken, or all if there were fewer. -/
  | wrote (n : Nat)
  | again
  | interrupted
  | failed
  deriving DecidableEq

variable {α : Type}

structure Drained (α : Type) where
  taken : List α
  left : List α
  failed : Bool
  deriving DecidableEq

/-- Where no more answers are listed, the descriptor takes nothing for now. -/
def drain : List Answer → List α → Drained α
  | _, [] => ⟨[], [], false⟩
  | [], left => ⟨[], left, false⟩
  | .wrote n :: answers, left =>
    let d := drain answers (left.drop n)
    { d with taken := left.take n ++ d.taken }
  | .again :: _, left => ⟨[], left, false⟩
  | .interrupted :: answers, left => drain answers left
  | .failed :: _, left => ⟨[], left, true⟩

theorem drain_all (answers : List Answer) (xs : List α) : (drain answers xs).taken ++ (drain answers xs).left = xs := by
  induction answers generalizing xs with
  | nil => cases xs <;> rfl
  | cons a answers ih =>
    cases xs with
    | nil => rfl
    | cons x xs =>
      cases a with
      | wrote n =>
        show (x :: xs).take n ++ (drain answers _).taken ++ (drain answers ((x :: xs).drop n)).left = x :: xs
        rw [List.append_assoc, ih, List.take_append_drop]
      | interrupted => exact ih _
      | again => rfl
      | failed => rfl

theorem drain_left_le (answers : List Answer) (xs : List α) : (drain answers xs).left.length ≤ xs.length := by
  have h := congrArg List.length (drain_all answers xs)
  rw [List.length_append] at h
  omega

/-! ## A buffer in front of it -/

structure Spool (α : Type) (cap : Nat) where
  held : List α
  fits : held.length ≤ cap

namespace Spool

variable {cap : Nat}

def empty : Spool α cap := ⟨[], Nat.zero_le _⟩

def flush (s : Spool α cap) (answers : List Answer) : Spool α cap :=
  ⟨(drain answers s.held).left, Nat.le_trans (drain_left_le answers s.held) s.fits⟩

def put (s : Spool α cap) (xs : List α) : Option (Spool α cap) :=
  if h : (s.held ++ xs).length ≤ cap then some ⟨s.held ++ xs, h⟩ else none

theorem put_some {s t : Spool α cap} {xs : List α} : s.put xs = some t ↔ t.held = s.held ++ xs := by
  unfold put
  constructor
  · intro h
    split at h
    · exact (Option.some.inj h) ▸ rfl
    · cases h
  · intro h
    have hfits : (s.held ++ xs).length ≤ cap := h ▸ t.fits
    rw [dif_pos hfits]
    cases t
    simp only at h
    subst h
    rfl

theorem put_none {s : Spool α cap} {xs : List α} : s.put xs = none ↔ cap < s.held.length + xs.length := by
  unfold put
  split
  · rename_i h
    rw [List.length_append] at h
    simp only [reduceCtorEq, false_iff]
    omega
  · rename_i h
    rw [List.length_append] at h
    simp only [true_iff]
    omega

end Spool

/-- A spool with its past. -/
structure Spooled (α : Type) (cap : Nat) where
  spool : Spool α cap
  /-- What the descriptor has taken. -/
  given : List α
  accepted : List (List α)

namespace Spooled

variable {cap : Nat}

def flush (s : Spooled α cap) (answers : List Answer) : Spooled α cap :=
  { s with spool := s.spool.flush answers, given := s.given ++ (drain answers s.spool.held).taken }

def offer (s : Spooled α cap) (xs : List α) (answers : List Answer) : Spooled α cap :=
  match s.spool.put xs with
  | some spool => { s with spool := spool, accepted := s.accepted ++ [xs] }.flush answers
  | none => s

theorem offer_cases (s : Spooled α cap) (xs : List α) (answers : List Answer) :
    (cap < s.spool.held.length + xs.length ∧ s.offer xs answers = s) ∨
    ∃ spool : Spool α cap, spool.held = s.spool.held ++ xs ∧
      s.offer xs answers = { s with spool := spool, accepted := s.accepted ++ [xs] }.flush answers := by
  unfold offer
  cases hput : s.spool.put xs with
  | none => exact Or.inl ⟨Spool.put_none.mp hput, rfl⟩
  | some spool => exact Or.inr ⟨spool, Spool.put_some.mp hput, rfl⟩

/-- Nothing accepted is missing, and nothing else is there. -/
def Whole (s : Spooled α cap) : Prop := s.given ++ s.spool.held = s.accepted.flatten

theorem Whole.flush {s : Spooled α cap} (h : s.Whole) (answers : List Answer) : (s.flush answers).Whole := by
  show s.given ++ (drain answers s.spool.held).taken ++ (drain answers s.spool.held).left = s.accepted.flatten
  rw [List.append_assoc, drain_all]
  exact h

theorem Whole.offer {s : Spooled α cap} (h : s.Whole) (xs : List α) (answers : List Answer) : (s.offer xs answers).Whole := by
  rcases s.offer_cases xs answers with ⟨-, hsame⟩ | ⟨spool, hheld, hto⟩
  · rw [hsame]
    exact h
  · rw [hto]
    refine Whole.flush ?_ answers
    show s.given ++ spool.held = (s.accepted ++ [xs]).flatten
    rw [hheld, ← List.append_assoc, h, List.flatten_append, List.flatten_singleton]

end Spooled

end DeskHop.Lib
