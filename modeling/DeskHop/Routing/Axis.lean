/-
  DeskHop.Routing.Axis — one axis of the pointer's integrator, seen from one edge.

  The code feeds two axes, each with two edges. Towards an edge they all work alike: what a
  report does to the travel and the push there is `axisFeed` of its motion towards it
  (`feed_axis`), after the push has been bled (`axis_decay`).
-/

import DeskHop.Core.Msg
import DeskHop.Routing.Pointer

namespace DeskHop.Routing

def opposite : Edge → Edge
  | .none => .none
  | .left => .right
  | .right => .left
  | .up => .down
  | .down => .up

/-- The motion of a report towards an edge. -/
def motion (edge : Edge) (rep : MouseReport) : Int :=
  match edge with
  | .none => 0
  | .left => -rep.dx.toInt
  | .right => rep.dx.toInt
  | .up => -rep.dy.toInt
  | .down => rep.dy.toInt

/-- The counts of a report towards an edge. -/
def countsTo (edge : Edge) (rep : MouseReport) : Int := max 0 (motion edge rep)

/-- The counts spent towards an edge. -/
def spentTo (edge : Edge) (reports : List (MouseReport × Time)) : Int := (reports.map fun x => countsTo edge x.1).sum

/-- Travel and push on the axis of an edge, towards it. -/
def axis (edge : Edge) (p : Pointer) : Int × Int :=
  match edge with
  | .none => (0, 0)
  | .left => (-p.travelX, -p.pushX)
  | .right => (p.travelX, p.pushX)
  | .up => (-p.travelY, -p.pushY)
  | .down => (p.travelY, p.pushY)

/-- An axis is off unless it is the horizontal one or the vertical one is enabled. -/
def Enabled (edge : Edge) (cfg : PointerCfg) : Prop :=
  match edge with
  | .none => False
  | .left | .right => True
  | .up | .down => cfg.verticalEnabled = true

/-- What every caller configures. -/
structure WellSet (cfg : PointerCfg) : Prop where
  span : 0 < cfg.span
  push : 0 < cfg.pushThreshold

/-- The push after motion `d`: it collects only while the travel is pinned. -/
def shoved (cfg : PointerCfg) (d travel push : Int) : Int :=
  if travel ≥ cfg.span ∧ d > 0 then push + d
  else if travel ≤ -cfg.span ∧ d < 0 then push + d
  else if d ≠ 0 then (if (push > 0 ∧ d < 0) ∨ (push < 0 ∧ d > 0) then 0 else push)
  else push

/-- 1 past the high edge, -1 past the low one. -/
def verdictOf (cfg : PointerCfg) (push : Int) : Int :=
  if push ≥ cfg.pushThreshold then 1 else if push ≤ -cfg.pushThreshold then -1 else 0

theorem axisFeed_eq (cfg : PointerCfg) (d travel push : Int) : axisFeed cfg d travel push =
    (verdictOf cfg (shoved cfg d travel push), clamp (travel + d) (-cfg.span) cfg.span, shoved cfg d travel push) := by
  show (if shoved cfg d travel push ≥ cfg.pushThreshold then
      (1, clamp (travel + d) (-cfg.span) cfg.span, shoved cfg d travel push)
    else if shoved cfg d travel push ≤ -cfg.pushThreshold then
      (-1, clamp (travel + d) (-cfg.span) cfg.span, shoved cfg d travel push)
    else (0, clamp (travel + d) (-cfg.span) cfg.span, shoved cfg d travel push)) = _
  unfold verdictOf
  split_ifs <;> rfl

theorem clamp_neg {span : Int} (hs : 0 < span) (v : Int) : clamp (-v) (-span) span = -clamp v (-span) span := by
  unfold clamp
  split <;> split <;> (try split) <;> (try split) <;> omega

theorem shoved_neg {cfg : PointerCfg} (_ : 0 < cfg.span) (d travel push : Int) :
    shoved cfg (-d) (-travel) (-push) = -shoved cfg d travel push := by
  unfold shoved
  split_ifs <;> omega

theorem verdictOf_neg {cfg : PointerCfg} (hp : 0 < cfg.pushThreshold) (push : Int) :
    verdictOf cfg (-push) = -verdictOf cfg push := by
  unfold verdictOf
  split_ifs <;> omega

theorem bleedPush_neg (bleed push : Int) : bleedPush bleed (-push) = -bleedPush bleed push := by
  unfold bleedPush
  split_ifs <;> omega

/-- Both ends of an axis work alike. -/
theorem axisFeed_neg {cfg : PointerCfg} (h : WellSet cfg) (d travel push : Int) :
    axisFeed cfg (-d) (-travel) (-push) =
      (-(axisFeed cfg d travel push).1, -(axisFeed cfg d travel push).2.1, -(axisFeed cfg d travel push).2.2) := by
  rw [axisFeed_eq, axisFeed_eq, shoved_neg h.span, verdictOf_neg h.push, ← Int.neg_add, clamp_neg h.span]

/-- One axis of the integrator, time having passed: bled, then fed. -/
theorem axis_decay (edge : Edge) (p : Pointer) (now : Time) : (decay p now).cfg = p.cfg ∧
    ∃ bleed, 0 ≤ bleed ∧ axis edge (decay p now) = ((axis edge p).1, bleedPush bleed (axis edge p).2) := by
  have hzero : ∀ push : Int, bleedPush 0 push = push := by
    intro push
    unfold bleedPush
    split_ifs <;> omega
  have hstill : axis edge p = ((axis edge p).1, bleedPush 0 (axis edge p).2) := by rw [hzero]
  simp only [decay]
  split
  · exact ⟨rfl, 0, Int.le_refl 0, hstill⟩
  split
  · exact ⟨rfl, 0, Int.le_refl 0, hstill⟩
  split
  · exact ⟨rfl, 0, Int.le_refl 0, hstill⟩
  · rename_i hb
    refine ⟨rfl, timeDiff now p.lastUpdate * p.cfg.pushDecayPerMs, by omega, ?_⟩
    cases edge <;> simp only [axis, bleedPush_neg]
    unfold bleedPush
    simp

/-- Without time passing nothing is bled. -/
theorem decay_now {p : Pointer} (h : p.haveTime = true) : decay p p.lastUpdate = p := by
  have hdiff : timeDiff p.lastUpdate p.lastUpdate ≤ 0 := by simp [timeDiff]
  simp [decay, h, hdiff]
  rw [← h]

/-- A report as the axis of one edge sees it, once the push has bled. -/
structure SeenFrom (edge : Edge) (q : Pointer) (rep : MouseReport) (res : Edge × Pointer) : Prop where
  cfg : res.2.cfg = q.cfg
  away : res.1 = opposite edge → (axisFeed q.cfg (motion edge rep) (axis edge q).1 (axis edge q).2).1 < 0
  reached : res.1 = edge → axis edge res.2 = (-q.cfg.span + q.cfg.reentryGuard, 0)
  still : res.1 = .none → axis edge res.2 = (axisFeed q.cfg (motion edge rep) (axis edge q).1 (axis edge q).2).2

theorem feed_axis {edge : Edge} {p : Pointer} (hw : WellSet p.cfg) (he : Enabled edge p.cfg) (rep : MouseReport) (now : Time) :
    SeenFrom edge (decay p now) rep (pointerFeed p rep.dx rep.dy now) := by
  have hcfg := (axis_decay edge p now).1
  rw [← hcfg] at hw he
  simp only [pointerFeed]
  generalize decay p now = q at hw he
  clear hcfg
  cases hX : axisFeed q.cfg rep.dx.toInt q.travelX q.pushX with
  | mk hx rx =>
  cases hY : axisFeed q.cfg rep.dy.toInt q.travelY q.pushY with
  | mk hy ry =>
  have hXn := axisFeed_neg hw rep.dx.toInt q.travelX q.pushX
  have hYn := axisFeed_neg hw rep.dy.toInt q.travelY q.pushY
  rw [hX] at hXn
  rw [hY] at hYn
  cases edge with
  | none => exact he.elim
  | right =>
    split_ifs <;> refine ⟨rfl, ?_, ?_, ?_⟩ <;> simp_all [opposite, motion, axis, pointerArrive]
  | left =>
    split_ifs <;> refine ⟨rfl, ?_, ?_, ?_⟩ <;> simp_all [opposite, motion, axis, pointerArrive]
    omega
  | down =>
    split_ifs <;> refine ⟨rfl, ?_, ?_, ?_⟩ <;> simp_all [opposite, motion, axis, pointerArrive, Enabled]
  | up =>
    split_ifs <;> refine ⟨rfl, ?_, ?_, ?_⟩ <;> simp_all [opposite, motion, axis, pointerArrive, Enabled]
    omega

theorem axis_arrived {edge : Edge} (he : edge ≠ .none) (p : Pointer) (now : Time) :
    (pointerArrive p edge now).cfg = p.cfg ∧
      axis edge (pointerArrive p edge now) = (-p.cfg.span + p.cfg.reentryGuard, 0) := by
  cases edge with
  | none => exact absurd rfl he
  | _ =>
    refine ⟨rfl, ?_⟩
    simp [axis, pointerArrive]
    try omega

end DeskHop.Routing
