/-
  DeskHop.Routing.Gesture — what a crossing costs, and what a gesture with nowhere to go
  leaves behind.

  The integrator re-seats itself on every gesture, before the router knows whether there
  is a board that way. One axis at a time, seen from the edge the gesture was made
  towards: `Far` bounds how much motion the other way has been spent, and is kept by
  every report (`Far.fed`); short of it, single counts reach the far edge (`Near.fed`).

  Proved: after a gesture with nowhere to go the focus is where it was, and the next
  crossing the other way costs a full traverse and a shove exactly when the guard band is
  as wide as the desk (`futile_gesture`); with the default it is not
  (`futile_shove_shortens`).
-/

import DeskHop.Routing.Axis
import DeskHop.Routing.Screens

namespace DeskHop.Routing

open DeskHop.Lib DeskHop.Election DeskHop.Wire

/-! ## The far edge costs a traverse and a shove -/

/-- With `spent` counts gone the other way, the travel is no further off than that, and
    the push there has only what is past a full traverse. -/
structure Far (cfg : PointerCfg) (spent : Int) (seat : Int × Int) : Prop where
  nonneg : 0 ≤ spent
  travel : cfg.span - spent ≤ seat.1
  push : min 0 (2 * cfg.span - spent) ≤ seat.2

theorem Far.bled {cfg : PointerCfg} {spent travel push bleed : Int} (h : Far cfg spent (travel, push)) (hb : 0 ≤ bleed) :
    Far cfg spent (travel, bleedPush bleed push) := by
  refine ⟨h.nonneg, h.travel, ?_⟩
  have hp := h.push
  simp only at hp ⊢
  unfold bleedPush
  split_ifs <;> omega

theorem Far.fed {cfg : PointerCfg} (hw : WellSet cfg) {spent d travel push : Int} (h : Far cfg spent (travel, push)) :
    Far cfg (spent + max 0 (-d)) (axisFeed cfg d travel push).2 ∧
      ((axisFeed cfg d travel push).1 < 0 → 2 * cfg.span + cfg.pushThreshold ≤ spent + max 0 (-d)) := by
  obtain ⟨hnonneg, htravel, hpush⟩ := h
  have hspan := hw.span
  have hthreshold := hw.push
  simp only at htravel hpush
  have hshoved : min 0 (2 * cfg.span - (spent + max 0 (-d))) ≤ shoved cfg d travel push := by
    unfold shoved
    split_ifs <;> omega
  rw [axisFeed_eq]
  refine ⟨⟨by omega, ?_, hshoved⟩, fun hneg => ?_⟩
  · show cfg.span - (spent + max 0 (-d)) ≤ clamp (travel + d) (-cfg.span) cfg.span
    unfold clamp
    split_ifs <;> omega
  · have hcrossed : shoved cfg d travel push ≤ -cfg.pushThreshold := by
      unfold verdictOf at hneg
      split_ifs at hneg <;> omega
    omega

/-- Freshly re-seated, the axis is a traverse away if the guard band is one. -/
theorem far_reached {cfg : PointerCfg} (hguard : 2 * cfg.span ≤ cfg.reentryGuard) {spent : Int} (hs : 0 ≤ spent) :
    Far cfg spent (-cfg.span + cfg.reentryGuard, 0) :=
  ⟨hs, by show _ ≤ -cfg.span + cfg.reentryGuard; omega, Int.min_le_left _ _⟩

/-! ## Short of it, single counts are enough -/

/-- One count away from an edge. -/
def nudge : Edge → MouseReport
  | .none => mouseZero
  | .left => { mouseZero with dx := 1 }
  | .right => { mouseZero with dx := -1 }
  | .up => { mouseZero with dy := 1 }
  | .down => { mouseZero with dy := -1 }

/-- An edge of the other axis. -/
def beside : Edge → Edge
  | .none => .none
  | .left | .right => .down
  | .up | .down => .right

/-- After `k` nudges, none of which has crossed: the travel runs out first, then the push
    grows. -/
structure Near (edge : Edge) (now : Time) (k : Int) (p : Pointer) : Prop where
  timed : p.haveTime = true ∧ p.lastUpdate = now
  beside : axis (beside edge) p = (0, 0)
  travel : (axis edge p).1 + p.cfg.span = max 0 p.cfg.reentryGuard - k ∨
    max 0 p.cfg.reentryGuard ≤ k ∧ (axis edge p).1 ≤ -p.cfg.span
  push : (axis edge p).2 = -max 0 (k - max 0 p.cfg.reentryGuard)

theorem axisFeed_still {cfg : PointerCfg} (h : WellSet cfg) : axisFeed cfg 0 0 0 = (0, 0, 0) := by
  have hs := h.span
  have hp := h.push
  have hshoved : shoved cfg 0 0 0 = 0 := by simp [shoved]
  have hverdict : verdictOf cfg 0 = 0 := by
    unfold verdictOf
    split_ifs <;> omega
  have hclamp : clamp (0 + 0) (-cfg.span) cfg.span = 0 := by
    unfold clamp
    split_ifs <;> omega
  rw [axisFeed_eq, hshoved, hverdict, hclamp]

theorem feed_nudge {edge : Edge} {p : Pointer} (hw : WellSet p.cfg) (he : Enabled edge p.cfg) (ht : p.haveTime = true)
    (hb : axis (beside edge) p = (0, 0)) :
    let fed := axisFeed p.cfg (-1) (axis edge p).1 (axis edge p).2
    let res := pointerFeed p (nudge edge).dx (nudge edge).dy p.lastUpdate
    (fed.1 < 0 → res.1 = opposite edge) ∧ (fed.1 = 0 → res.1 = .none ∧ res.2.cfg = p.cfg ∧ axis edge res.2 = fed.2 ∧
      axis (beside edge) res.2 = (0, 0) ∧ res.2.haveTime = true ∧ res.2.lastUpdate = p.lastUpdate) := by
  have hstill := axisFeed_still hw
  have hspan := hw.span
  have hclamp : clamp 0 (-p.cfg.span) p.cfg.span = 0 := by
    unfold clamp
    split_ifs <;> omega
  have hone : (-1 : Int16).toInt = -1 ∧ (1 : Int16).toInt = 1 ∧ (0 : Int16).toInt = 0 := ⟨rfl, rfl, rfl⟩
  have hX := axisFeed_neg hw (-1) (-p.travelX) (-p.pushX)
  have hY := axisFeed_neg hw (-1) (-p.travelY) (-p.pushY)
  simp only [Int.neg_neg] at hX hY
  simp only [pointerFeed, decay_now ht]
  cases edge with
  | none => exact he.elim
  | right =>
    simp only [axis, beside, Prod.mk.injEq] at hb
    simp only [nudge, mouseZero, hone, axis, beside, hb.1, hb.2, hstill]
    generalize axisFeed p.cfg (-1) p.travelX p.pushX = fed
    refine ⟨fun hneg => ?_, fun hzero => ?_⟩
    · rw [if_neg (by omega), if_pos hneg]
      rfl
    · rw [if_neg (by omega), if_neg (by omega)]
      split <;> simp [hclamp, ht]
  | left =>
    simp only [axis, beside, Prod.mk.injEq] at hb
    simp only [nudge, mouseZero, hone, axis, beside, hb.1, hb.2, hstill, hX]
    generalize axisFeed p.cfg (-1) (-p.travelX) (-p.pushX) = fed
    refine ⟨fun hneg => ?_, fun hzero => ?_⟩
    · rw [if_pos (by omega)]
      rfl
    · rw [if_neg (by omega), if_neg (by omega)]
      split <;> simp [hclamp, ht]
  | down =>
    have hv : p.cfg.verticalEnabled = true := he
    simp only [axis, beside, Prod.mk.injEq] at hb
    simp only [nudge, mouseZero, hone, axis, beside, hb.1, hb.2, hstill, hv]
    generalize axisFeed p.cfg (-1) p.travelY p.pushY = fed
    refine ⟨fun hneg => ?_, fun hzero => ?_⟩
    · simp [hneg, Int.not_lt.mpr (Int.le_of_lt hneg), opposite]
    · simp [hzero, ht]
  | up =>
    have hv : p.cfg.verticalEnabled = true := he
    simp only [axis, beside, Prod.mk.injEq] at hb
    simp only [nudge, mouseZero, hone, axis, beside, hb.1, hb.2, hstill, hv, hY]
    generalize axisFeed p.cfg (-1) (-p.travelY) (-p.pushY) = fed
    refine ⟨fun hneg => ?_, fun hzero => ?_⟩
    · simp [hneg, opposite]
    · simp [hzero, ht]

theorem near_fed {cfg : PointerCfg} (hw : WellSet cfg) (hg : cfg.reentryGuard < 2 * cfg.span) {k travel push : Int}
    (ht : travel + cfg.span = max 0 cfg.reentryGuard - k ∨ max 0 cfg.reentryGuard ≤ k ∧ travel ≤ -cfg.span)
    (hp : push = -max 0 (k - max 0 cfg.reentryGuard)) (hk : 0 ≤ k) :
    let fed := axisFeed cfg (-1) travel push
    (fed.2.1 + cfg.span = max 0 cfg.reentryGuard - (k + 1) ∨ max 0 cfg.reentryGuard ≤ k + 1 ∧ fed.2.1 ≤ -cfg.span) ∧
      fed.2.2 = -max 0 (k + 1 - max 0 cfg.reentryGuard) ∧
      (max 0 cfg.reentryGuard + cfg.pushThreshold ≤ k + 1 → fed.1 < 0) ∧
      (k + 1 < max 0 cfg.reentryGuard + cfg.pushThreshold → fed.1 = 0) := by
  have hspan := hw.span
  have hthreshold := hw.push
  have hshoved : shoved cfg (-1) travel push = -max 0 (k + 1 - max 0 cfg.reentryGuard) := by
    unfold shoved
    split_ifs <;> omega
  simp only [axisFeed_eq, hshoved, verdictOf]
  refine ⟨?_, trivial, fun hcross => ?_, fun hcross => ?_⟩
  · unfold clamp
    split_ifs <;> omega
  · split_ifs <;> omega
  · split_ifs <;> omega

/-- One more nudge: it crosses once the guard band and a shove are spent. -/
theorem Near.nudged {edge : Edge} {now : Time} {k : Int} {p : Pointer} (h : Near edge now k p) (hw : WellSet p.cfg)
    (he : Enabled edge p.cfg) (hg : p.cfg.reentryGuard < 2 * p.cfg.span) (hk : 0 ≤ k) :
    let res := pointerFeed p (nudge edge).dx (nudge edge).dy now
    (max 0 p.cfg.reentryGuard + p.cfg.pushThreshold ≤ k + 1 → res.1 = opposite edge) ∧
      (k + 1 < max 0 p.cfg.reentryGuard + p.cfg.pushThreshold →
        res.1 = .none ∧ res.2.cfg = p.cfg ∧ Near edge now (k + 1) res.2) := by
  obtain ⟨⟨htimed, rfl⟩, hbeside, htravel, hpush⟩ := h
  obtain ⟨hcross, hstay⟩ := feed_nudge hw he htimed hbeside
  obtain ⟨htravel', hpush', hover, hunder⟩ := near_fed hw hg htravel hpush hk
  refine ⟨fun hle => hcross (hover hle), fun hlt => ?_⟩
  obtain ⟨hnone, hcfg, haxis, hb, ht, hl⟩ := hstay (hunder hlt)
  refine ⟨hnone, hcfg, ⟨ht, hl⟩, hb, ?_, ?_⟩
  · rw [haxis, hcfg]
    exact htravel'
  · rw [haxis, hcfg]
    exact hpush'

/-- A gesture leaves the axis near, whatever the edge. -/
theorem near_arrived {edge : Edge} (he : edge ≠ .none) (p : Pointer) (now : Time) :
    Near edge now 0 (pointerArrive p edge now) := by
  cases edge with
  | none => exact absurd rfl he
  | _ =>
    refine ⟨⟨rfl, rfl⟩, by simp [axis, beside, pointerArrive], ?_, by simp [axis, pointerArrive]⟩
    simp only [axis, pointerArrive]
    omega

/-! ## The router -/

theorem neighbourOf_congr {r s : Router} (hc : s.chain = r.chain) (hg : s.cfg = r.cfg) (src : Addr) (direction : Int) :
    neighbourOf s src direction = neighbourOf r src direction := by
  have hstep : ∀ p : Int, neighbourStep s src p direction = neighbourStep r src p direction := by
    intro p
    funext best e
    unfold neighbourStep posOf
    rw [hg]
  simp only [neighbourOf, chainFind, hc, hg, hstep]

/-- An ACTIVE router whose focus has no neighbour the way of `edge`. -/
structure DeadEnd (edge : Edge) (r : Router) : Prop where
  active : isActive r = true
  drained : r.uhrp.ev = Events.none
  nowhere : crossingTarget r edge = addrNone

/-- A report that leads nowhere: the integrator takes it in, and nothing else moves. -/
theorem DeadEnd.fed {edge : Edge} {r : Router} (h : DeadEnd edge r) {rep : MouseReport} {now : Time}
    (hg : gesture r rep now = .none ∨ gesture r rep now = edge) :
    (step r (.localMouse rep now)).focus = r.focus ∧
      (step r (.localMouse rep now)).pointer = (pointerFeed r.pointer rep.dx rep.dy now).2 ∧
      DeadEnd edge (step r (.localMouse rep now)) := by
  have hnot : ¬ (gesture r rep now ≠ .none ∧ crossingTarget (Routing.fed { r with out := [] } rep now) (gesture r rep now) ≠ addrNone) := by
    rintro ⟨hne, htarget⟩
    rw [hg.resolve_left hne] at htarget
    exact htarget h.nowhere
  have hstep : step r (.localMouse rep now) = noteKeysHeld (sendMouseTo (Routing.fed { r with out := [] } rep now) r.focus rep) :=
    (localMouse_active (r := { r with out := [] }) h.active rep now).trans (if_neg hnot)
  have hsent := sendMouseTo_uhrp (Routing.fed { r with out := [] } rep now) r.focus rep
  have hsame := sameTables_sendMouseTo (Routing.fed { r with out := [] } rep now) r.focus rep
  have hpointer : (sendMouseTo (Routing.fed { r with out := [] } rep now) r.focus rep).pointer =
      (pointerFeed r.pointer rep.dx rep.dy now).2 := by
    simp only [sendMouseTo]
    split <;> rfl
  have hfocus := sendMouseTo_focus (Routing.fed { r with out := [] } rep now) r.focus rep
  rw [noteKeysHeld_same ((congrArg Uhrp.ev hsent).trans h.drained)] at hstep
  rw [hstep]
  refine ⟨hfocus, hpointer, ?_, ?_, ?_⟩
  · exact (congrArg (fun u : Uhrp => u.state == .active) hsent).trans h.active
  · exact (congrArg Uhrp.ev hsent).trans h.drained
  · have htarget := neighbourOf_congr (s := { sendMouseTo (Routing.fed { r with out := [] } rep now) r.focus rep with
      uhrp := setKeysHeld (sendMouseTo (Routing.fed { r with out := [] } rep now) r.focus rep).uhrp
        (hidAnyHeld (sendMouseTo (Routing.fed { r with out := [] } rep now) r.focus rep).hid) })
      (r := r) hsame.chain hsame.cfg r.focus (if edge = .left ∨ edge = .up then -1 else 1)
    rw [crossingTarget]
    simp only [hfocus]
    exact htarget.trans h.nowhere

/-- Every report after a futile gesture is taken in, or is the same gesture again. -/
def Lingers (edge : Edge) : Router → List (MouseReport × Time) → Prop
  | _, [] => True
  | r, (rep, now) :: reports => (gesture r rep now = .none ∨ gesture r rep now = edge) ∧
      Lingers edge (step r (.localMouse rep now)) reports

def moved (r : Router) (reports : List (MouseReport × Time)) : Router :=
  reports.foldl (fun r x => step r (.localMouse x.1 x.2)) r

/-- From here, the next crossing the other way takes a full traverse and a shove. -/
def CostsFull (edge : Edge) (r : Router) : Prop :=
  ∀ reports rep now, Lingers edge r reports → gesture (moved r reports) rep now = opposite edge →
    2 * r.pointer.cfg.span + r.pointer.cfg.pushThreshold ≤ spentTo (opposite edge) (reports ++ [(rep, now)])

theorem countsTo_opposite (edge : Edge) (rep : MouseReport) : countsTo (opposite edge) rep = max 0 (-motion edge rep) := by
  cases edge <;> simp [countsTo, opposite, motion]

/-- One report taken in: what it spends is counted, and a crossing has been paid for. -/
theorem Far.taken {edge : Edge} {p : Pointer} {spent : Int} (h : Far p.cfg spent (axis edge p)) (hw : WellSet p.cfg)
    (he : Enabled edge p.cfg) (hguard : 2 * p.cfg.span ≤ p.cfg.reentryGuard) (rep : MouseReport) (now : Time) :
    let res := pointerFeed p rep.dx rep.dy now
    res.2.cfg = p.cfg ∧
      (res.1 = .none ∨ res.1 = edge → Far p.cfg (spent + countsTo (opposite edge) rep) (axis edge res.2)) ∧
      (res.1 = opposite edge → 2 * p.cfg.span + p.cfg.pushThreshold ≤ spent + countsTo (opposite edge) rep) := by
  obtain ⟨hcfg, bleed, hb, hdecay⟩ := axis_decay edge p now
  have hseen := feed_axis hw he rep now
  have hbled : Far p.cfg spent (axis edge (decay p now)) := by
    rw [hdecay]
    exact Far.bled h hb
  have hfed := Far.fed hw (d := motion edge rep) hbled
  have hcounts := countsTo_opposite edge rep
  refine ⟨hseen.cfg.trans hcfg, ?_, fun haway => ?_⟩
  · rintro (hnone | hedge)
    · have hstill := hseen.still hnone
      rw [hcfg] at hstill
      rw [hstill, hcounts]
      exact hfed.1
    · have hreached := hseen.reached hedge
      rw [hcfg] at hreached
      rw [hreached, hcounts]
      exact far_reached hguard hfed.1.nonneg
  · have hneg := hseen.away haway
    rw [hcfg] at hneg
    rw [hcounts]
    exact hfed.2 hneg

theorem far_moved {edge : Edge} (reports : List (MouseReport × Time)) {r : Router} {spent : Int} (hd : DeadEnd edge r)
    (hw : WellSet r.pointer.cfg) (he : Enabled edge r.pointer.cfg)
    (hguard : 2 * r.pointer.cfg.span ≤ r.pointer.cfg.reentryGuard) (hf : Far r.pointer.cfg spent (axis edge r.pointer))
    (hl : Lingers edge r reports) : (moved r reports).pointer.cfg = r.pointer.cfg ∧
      Far r.pointer.cfg (spent + spentTo (opposite edge) reports) (axis edge (moved r reports).pointer) := by
  induction reports generalizing r spent with
  | nil =>
    refine ⟨rfl, ?_⟩
    rw [show spentTo (opposite edge) [] = 0 from rfl, Int.add_zero]
    exact hf
  | cons x reports ih =>
    obtain ⟨rep, now⟩ := x
    obtain ⟨hg, hl⟩ := hl
    obtain ⟨-, hpointer, hd'⟩ := hd.fed hg
    obtain ⟨hcfg, hstay, -⟩ := hf.taken hw he hguard rep now
    rw [← hpointer] at hcfg hstay
    have hnext := hstay hg
    rw [← hcfg] at hw he hguard hnext
    obtain ⟨hcfg', hfar⟩ := ih hd' hw he hguard hnext hl
    refine ⟨hcfg'.trans hcfg, ?_⟩
    have hsum : spentTo (opposite edge) ((rep, now) :: reports) =
        countsTo (opposite edge) rep + spentTo (opposite edge) reports := rfl
    rw [hsum, ← Int.add_assoc, ← hcfg]
    exact hfar

/-- Nudge after nudge, all within one millisecond. -/
theorem near_moved {edge : Edge} {now : Time} (n : Nat) {r : Router} {k : Int} (hd : DeadEnd edge r)
    (hw : WellSet r.pointer.cfg) (he : Enabled edge r.pointer.cfg)
    (hguard : r.pointer.cfg.reentryGuard < 2 * r.pointer.cfg.span) (hk : 0 ≤ k) (hn : Near edge now k r.pointer)
    (hlt : k + n < max 0 r.pointer.cfg.reentryGuard + r.pointer.cfg.pushThreshold) :
    Lingers edge r (List.replicate n (nudge edge, now)) ∧
      (moved r (List.replicate n (nudge edge, now))).pointer.cfg = r.pointer.cfg ∧
      Near edge now (k + n) (moved r (List.replicate n (nudge edge, now))).pointer := by
  induction n generalizing r k with
  | zero =>
    refine ⟨trivial, rfl, ?_⟩
    rw [Int.natCast_zero, Int.add_zero]
    exact hn
  | succ n ih =>
    obtain ⟨hnone, hcfg, hnext⟩ := (hn.nudged hw he hguard hk).2 (by omega)
    obtain ⟨-, hpointer, hd'⟩ := @DeadEnd.fed edge r hd (nudge edge) now (Or.inl hnone)
    rw [← hpointer] at hcfg hnext
    rw [← hcfg] at hw he hguard hlt
    obtain ⟨hl, hcfg', hnear⟩ := ih hd' hw he hguard (by omega) hnext (by omega)
    refine ⟨⟨Or.inl hnone, hl⟩, hcfg'.trans hcfg, ?_⟩
    rw [show k + ((n + 1 : Nat) : Int) = k + 1 + n by omega]
    exact hnear

/-- A gesture was made on an axis that is on, and re-seats the pointer. -/
theorem feed_arrives {p : Pointer} (rep : MouseReport) (now : Time) {edge : Edge} (hne : edge ≠ .none)
    (h : (pointerFeed p rep.dx rep.dy now).1 = edge) : Enabled edge p.cfg ∧
      ∃ q : Pointer, q.cfg = p.cfg ∧ (pointerFeed p rep.dx rep.dy now).2 = pointerArrive q edge now := by
  have hcfg := (axis_decay .right p now).1
  revert h
  simp only [pointerFeed]
  rw [← hcfg]
  generalize decay p now = q
  split_ifs with h1 h2 hv h3 h4
  · rintro rfl
    exact ⟨trivial, _, rfl, rfl⟩
  · rintro rfl
    exact ⟨trivial, _, rfl, rfl⟩
  · rintro rfl
    exact ⟨hv, _, rfl, rfl⟩
  · rintro rfl
    exact ⟨hv, _, rfl, rfl⟩
  · exact fun h => absurd h.symm hne
  · exact fun h => absurd h.symm hne

theorem spentTo_nudges (edge : Edge) (he : edge ≠ .none) (now : Time) (n : Nat) :
    spentTo (opposite edge) (List.replicate n (nudge edge, now) ++ [(nudge edge, now)]) = n + 1 := by
  have hone : countsTo (opposite edge) (nudge edge) = 1 := by
    cases edge with
    | none => exact absurd rfl he
    | _ => decide
  rw [← List.replicate_succ']
  induction n with
  | zero => simp [spentTo, hone]
  | succ n ih =>
    have hsum : ∀ l, spentTo (opposite edge) ((nudge edge, now) :: l) = 1 + spentTo (opposite edge) l := by
      intro l
      simp only [spentTo, List.map_cons, List.sum_cons, hone]
    rw [List.replicate_succ, hsum, ih]
    omega

/-- A gesture with nowhere to go leaves the focus alone; and it leaves the way back at
    full cost exactly when the guard band is as wide as the desk. -/
theorem futile_gesture {r : Router} (hs : Sound r) (ha : isActive r = true) (hw : WellSet r.pointer.cfg) {rep : MouseReport}
    {now : Time} (hne : gesture r rep now ≠ .none) (hdead : crossingTarget r (gesture r rep now) = addrNone) :
    ((step r (.localMouse rep now)).focus = r.focus ∧ CostsFull (gesture r rep now) (step r (.localMouse rep now))) ↔
      2 * r.pointer.cfg.span ≤ r.pointer.cfg.reentryGuard := by
  generalize hedge : gesture r rep now = edge at hne hdead
  obtain ⟨hfocus, hpointer, hd⟩ := DeadEnd.fed ⟨ha, hs.drained, hdead⟩ (Or.inr hedge)
  obtain ⟨he, q, hq, hseat⟩ := feed_arrives rep now hne hedge
  rw [hseat] at hpointer
  have hcfg : (step r (.localMouse rep now)).pointer.cfg = r.pointer.cfg := by
    rw [hpointer, (axis_arrived hne q now).1, hq]
  have hnear := near_arrived hne q now
  rw [← hpointer] at hnear
  rw [← hcfg] at hw he ⊢
  generalize step r (.localMouse rep now) = s at hfocus hpointer hd hcfg hnear hw he ⊢
  have hspan := hw.span
  have hthreshold := hw.push
  constructor
  · rintro ⟨-, hcosts⟩
    by_contra hguard
    have hguard : s.pointer.cfg.reentryGuard < 2 * s.pointer.cfg.span := by omega
    obtain ⟨n, hn⟩ : ∃ n : Nat, (n : Int) + 1 = max 0 s.pointer.cfg.reentryGuard + s.pointer.cfg.pushThreshold :=
      ⟨(max 0 s.pointer.cfg.reentryGuard + s.pointer.cfg.pushThreshold - 1).toNat, by omega⟩
    obtain ⟨hl, hcfg', hnear'⟩ := near_moved n hd hw he hguard (Int.le_refl 0) hnear (by omega)
    have hcross := (hnear'.nudged (by rw [hcfg']; exact hw) (by rw [hcfg']; exact he) (by rw [hcfg']; exact hguard)
      (by omega)).1 (by rw [hcfg']; omega)
    have hfull := hcosts _ (nudge edge) now hl hcross
    rw [spentTo_nudges edge hne] at hfull
    omega
  · intro hguard
    refine ⟨hfocus, fun reports last time hl hcross => ?_⟩
    have hfar : Far s.pointer.cfg 0 (axis edge s.pointer) := by
      rw [hpointer, (axis_arrived hne q now).2, (axis_arrived hne q now).1]
      rw [hpointer, (axis_arrived hne q now).1] at hguard
      exact far_reached hguard (Int.le_refl 0)
    obtain ⟨hcfg', hfar'⟩ := far_moved reports hd hw he hguard hfar hl
    rw [← hcfg'] at hfar' hw he hguard
    have hpaid := (hfar'.taken hw he hguard last time).2.2 hcross
    have hsum : spentTo (opposite edge) (reports ++ [(last, time)]) =
        spentTo (opposite edge) reports + countsTo (opposite edge) last := by simp [spentTo]
    rw [hsum, ← hcfg']
    omega

/-! ## The last screen -/

/-- The user is on the last machine down-chain, the pointer at its right edge. -/
def lastOps : List Op := [.setFocus 2 focusRCfg 170, .localMouse ⟨32767, 0, 0, 0, 0⟩ 171]

def lastScreen (cfg : PointerCfg) : Router := (threeOps ++ lastOps).foldl step (routerInit { screenCfg with pointer := cfg })

theorem signed_last (cfg : PointerCfg) : Signed { screenCfg with pointer := cfg } (lastScreen cfg) := by
  have h0 : Signed { screenCfg with pointer := cfg } (routerInit { screenCfg with pointer := cfg }) := Reach.init rfl
  refine Reach.run h0 (threeOps ++ lastOps) ⟨?_, ?_, ?_, ?_, ?_, ?_, trivial⟩ <;> intro f inPort now hop <;> cases hop <;>
    decide

/-- A guard band as wide as the narrowest desk there can be. -/
def wideGuard : PointerCfg := ⟨500, 600, 4, 1000, false⟩

theorem futile_gesture_of_wide_guard : CostsFull .right (step (lastScreen wideGuard) (.localMouse shove 172)) := by
  have hsound : Sound (lastScreen wideGuard) := (signed_addressed (by decide) (signed_last wideGuard)).toSound
  have hedge : gesture (lastScreen wideGuard) shove 172 = .right := by decide +kernel
  have h := futile_gesture hsound (by decide +kernel) ⟨by decide +kernel, by decide +kernel⟩
    (show gesture (lastScreen wideGuard) shove 172 ≠ .none by rw [hedge]; decide) (by rw [hedge]; decide +kernel)
  rw [hedge] at h
  exact (h.mpr (by decide +kernel)).2

/-- With the configuration every board has, the shove at the last screen leaves the way
    back 2100 counts long, not 16600. -/
theorem futile_shove_shortens : Signed { screenCfg with pointer := pointerCfgDefault } (lastScreen pointerCfgDefault) ∧
    isActive (lastScreen pointerCfgDefault) = true ∧ gesture (lastScreen pointerCfgDefault) shove 172 = .right ∧
    crossingTarget (lastScreen pointerCfgDefault) .right = addrNone ∧
    ¬ CostsFull .right (step (lastScreen pointerCfgDefault) (.localMouse shove 172)) := by
  refine ⟨signed_last pointerCfgDefault, by decide +kernel, by decide +kernel, by decide +kernel, fun h => ?_⟩
  have hpaid := h [(⟨-1500, 0, 0, 0, 0⟩, 173)] ⟨-600, 0, 0, 0, 0⟩ 173 ⟨Or.inl (by decide +kernel), trivial⟩
    (by decide +kernel)
  exact absurd hpaid (by decide +kernel)

end DeskHop.Routing
