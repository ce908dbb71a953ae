/-
  DeskHop.Routing.PointerLater — the pointer, by a clock that is later by a constant.
-/

import DeskHop.Core.Later
import DeskHop.Lib.Outputs
import DeskHop.Routing.Pointer

namespace DeskHop.Routing

inductive PointerOp where
  | feed (dx dy : Int16) (now : Time)
  | arrive (edge : Edge) (now : Time)
  deriving DecidableEq

def PointerOp.later (c : Time) : PointerOp → PointerOp
  | .feed dx dy now => .feed dx dy (now + c)
  | .arrive edge now => .arrive edge (now + c)

namespace Pointer

/-- All of it but the time. -/
def untimed (p : Pointer) : Pointer := { p with lastUpdate := 0 }

/-- One operation, and what it answers and leaves. -/
def respond (p : Pointer) : PointerOp → Pointer × Edge × Pointer
  | .feed dx dy now =>
    let (edge, p) := pointerFeed p dx dy now
    (p, edge, p.untimed)
  | .arrive edge now =>
    let p := pointerArrive p edge now
    (p, .none, p.untimed)

/-- `q` is `p`, and its time, once there is one, is later by `c`. -/
def Later (c : Time) (p q : Pointer) : Prop :=
  ∃ t, q = { p with lastUpdate := t } ∧ (p.haveTime = true → t = p.lastUpdate + c)

variable {c : Time} {p q : Pointer}

theorem Later.untimed (h : Later c p q) : q.untimed = p.untimed := by
  obtain ⟨t, rfl, -⟩ := h
  rfl

theorem Later.arrive (h : Later c p q) (edge : Edge) (now : Time) :
    Later c (pointerArrive p edge now) (pointerArrive q edge (now + c)) := by
  obtain ⟨t, rfl, -⟩ := h
  cases edge <;> exact ⟨now + c, rfl, fun _ => rfl⟩

theorem Later.decay (h : Later c p q) (now : Time) : Later c (decay p now) (decay q (now + c)) := by
  obtain ⟨t, rfl, ht⟩ := h
  cases hp : p.haveTime with
  | false =>
    simp only [Routing.decay, hp]
    exact ⟨now + c, rfl, fun _ => rfl⟩
  | true =>
    obtain rfl := ht hp
    simp only [Routing.decay, hp, timeDiff_add]
    split
    · exact ⟨now + c, rfl, fun _ => rfl⟩
    split
    · exact ⟨now + c, rfl, fun _ => rfl⟩
    split
    · exact ⟨now + c, rfl, fun _ => rfl⟩
    · exact ⟨now + c, rfl, fun _ => rfl⟩

theorem Later.feed (h : Later c p q) (dx dy : Int16) (now : Time) :
    (pointerFeed q dx dy (now + c)).1 = (pointerFeed p dx dy now).1 ∧
      Later c (pointerFeed p dx dy now).2 (pointerFeed q dx dy (now + c)).2 := by
  have hd := h.decay now
  unfold pointerFeed
  generalize Routing.decay p now = p at hd
  generalize Routing.decay q (now + c) = q at hd
  obtain ⟨t, rfl, ht⟩ := hd
  -- what is fed changes nothing of the time
  have hsame : ∀ x y a b : Int, Later c { p with travelX := x, pushX := a, travelY := y, pushY := b }
      { p with travelX := x, pushX := a, travelY := y, pushY := b, lastUpdate := t } := fun _ _ _ _ => ⟨t, rfl, ht⟩
  dsimp only
  split
  · exact ⟨rfl, (hsame _ p.travelY _ p.pushY).arrive .right now⟩
  split
  · exact ⟨rfl, (hsame _ p.travelY _ p.pushY).arrive .left now⟩
  split
  · split
    · exact ⟨rfl, (hsame _ _ _ _).arrive .down now⟩
    split
    · exact ⟨rfl, (hsame _ _ _ _).arrive .up now⟩
    · exact ⟨rfl, hsame _ _ _ _⟩
  · exact ⟨rfl, hsame _ _ _ p.pushY⟩

theorem Later.respond (h : Later c p q) (o : PointerOp) :
    Later c (p.respond o).1 (q.respond (o.later c)).1 ∧ (q.respond (o.later c)).2 = (p.respond o).2 := by
  cases o with
  | feed dx dy now =>
    obtain ⟨hedge, hkept⟩ := h.feed dx dy now
    exact ⟨hkept, Prod.ext hedge hkept.untimed⟩
  | arrive edge now =>
    have hkept := h.arrive edge now
    exact ⟨hkept, Prod.ext rfl hkept.untimed⟩

theorem later_init (cfg : PointerCfg) : Later c (pointerInit cfg) (pointerInit cfg) := ⟨0, rfl, fun h => (by cases h)⟩

end Pointer

end DeskHop.Routing
