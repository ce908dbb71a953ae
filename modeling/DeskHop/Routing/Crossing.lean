/-
  DeskHop.Routing.Crossing — what it takes to cross.

  A run is the reports fed to the integrator since it was seated on an edge. Towards any
  edge the travel gains no more than the counts that went there, and the push only what is
  left of them after the traverse (`Toward`). Time lets a push down, and a report no larger
  than what it let down adds nothing (`Braked`).

  Proved: a crossing costs the rest of the traverse and the shove (`crossing_costs`), and a
  hand slower than the decay never crosses (`slow_never_crosses`).
-/

import DeskHop.Routing.Axis

namespace DeskHop.Routing

/-! ## Runs -/

/-- Report after report. -/
def fedAll (p : Pointer) (reports : List (MouseReport × Time)) : Pointer :=
  reports.foldl (fun p x => (pointerFeed p x.1.dx x.1.dy x.2).2) p

/-- None of the reports crosses an edge. -/
def Uncrossed : Pointer → List (MouseReport × Time) → Prop
  | _, [] => True
  | p, x :: rest =>
    (pointerFeed p x.1.dx x.1.dy x.2).1 = .none ∧ Uncrossed (pointerFeed p x.1.dx x.1.dy x.2).2 rest

/-! ## Towards one edge -/

theorem axis_opposite (edge : Edge) (p : Pointer) : axis (opposite edge) p = (-(axis edge p).1, -(axis edge p).2) := by
  cases edge <;> simp [axis, opposite]

theorem motion_opposite (edge : Edge) (rep : MouseReport) : motion (opposite edge) rep = -motion edge rep := by
  cases edge <;> simp [motion, opposite]

theorem opposite_opposite (edge : Edge) : opposite (opposite edge) = edge := by cases edge <;> rfl

/-- Only an edge that is enabled is crossed. -/
theorem feed_enabled {edge : Edge} {p : Pointer} {rep : MouseReport} {now : Time}
    (h : (pointerFeed p rep.dx rep.dy now).1 = edge) (hne : edge ≠ .none) : Enabled edge p.cfg := by
  have hcfg := (axis_decay .right p now).1
  simp only [pointerFeed] at h
  rw [← hcfg]
  generalize decay p now = q at h
  cases hX : axisFeed q.cfg rep.dx.toInt q.travelX q.pushX with
  | mk hx rx =>
  rw [hX] at h
  split at h
  · subst h
    trivial
  split at h
  · subst h
    trivial
  split at h
  · rename_i hv
    split at h
    · subst h
      exact hv
    split at h
    · subst h
      exact hv
    · exact absurd h.symm hne
  · exact absurd h.symm hne

/-- A crossing is one of the axis of its edge. -/
theorem feed_crosses {edge : Edge} {p : Pointer} {rep : MouseReport} {now : Time} (hw : WellSet p.cfg)
    (h : (pointerFeed p rep.dx rep.dy now).1 = edge) (hne : edge ≠ .none) :
    0 < (axisFeed p.cfg (motion edge rep) (axis edge (decay p now)).1 (axis edge (decay p now)).2).1 := by
  have hcfg := (axis_decay edge p now).1
  have he : Enabled (opposite edge) p.cfg := by
    have he := feed_enabled h hne
    cases edge <;> exact he
  have haway := (feed_axis hw he rep now).away (by rw [opposite_opposite]; exact h)
  rw [hcfg, axis_opposite, motion_opposite] at haway
  have hneg := axisFeed_neg hw (motion edge rep) (axis edge (decay p now)).1 (axis edge (decay p now)).2
  rw [hneg] at haway
  have haway : -(axisFeed p.cfg (motion edge rep) (axis edge (decay p now)).1 (axis edge (decay p now)).2).1 < 0 := haway
  omega

/-- With `gained` counts gone towards the edge since the travel was `start`, the travel is
    no further than that, and the push has only what is past the traverse. -/
structure Toward (cfg : PointerCfg) (start gained : Int) (seat : Int × Int) : Prop where
  nonneg : 0 ≤ gained
  travel : seat.1 ≤ start + gained
  push : seat.2 ≤ max 0 (gained - (cfg.span - start))

theorem Toward.bled {cfg : PointerCfg} {start gained travel push bleed : Int} (h : Toward cfg start gained (travel, push))
    (hb : 0 ≤ bleed) : Toward cfg start gained (travel, bleedPush bleed push) := by
  refine ⟨h.nonneg, h.travel, ?_⟩
  have hp := h.push
  simp only at hp ⊢
  unfold bleedPush
  split_ifs <;> omega

theorem Toward.fed {cfg : PointerCfg} (hw : WellSet cfg) {start gained d travel push : Int} (hstart : -cfg.span ≤ start)
    (h : Toward cfg start gained (travel, push)) :
    Toward cfg start (gained + max 0 d) (axisFeed cfg d travel push).2 ∧
      (0 < (axisFeed cfg d travel push).1 → cfg.span - start + cfg.pushThreshold ≤ gained + max 0 d) := by
  obtain ⟨hnonneg, htravel, hpush⟩ := h
  have hspan := hw.span
  have hthreshold := hw.push
  simp only at htravel hpush
  have hshoved : shoved cfg d travel push ≤ max 0 (gained + max 0 d - (cfg.span - start)) := by
    unfold shoved
    split_ifs <;> omega
  rw [axisFeed_eq]
  refine ⟨⟨by omega, ?_, hshoved⟩, fun hpos => ?_⟩
  · show clamp (travel + d) (-cfg.span) cfg.span ≤ start + (gained + max 0 d)
    unfold clamp
    split_ifs <;> omega
  · have hcrossed : cfg.pushThreshold ≤ shoved cfg d travel push := by
      unfold verdictOf at hpos
      split_ifs at hpos <;> omega
    omega

/-- One report. -/
theorem Toward.feed {edge : Edge} {p : Pointer} {start gained : Int} (h : Toward p.cfg start gained (axis edge p))
    (hw : WellSet p.cfg) (hstart : -p.cfg.span ≤ start) (rep : MouseReport) (now : Time) :
    ((pointerFeed p rep.dx rep.dy now).1 = .none → Enabled edge p.cfg →
      Toward p.cfg start (gained + countsTo edge rep) (axis edge (pointerFeed p rep.dx rep.dy now).2)) ∧
    ((pointerFeed p rep.dx rep.dy now).1 = edge → edge ≠ .none →
      p.cfg.span - start + p.cfg.pushThreshold ≤ gained + countsTo edge rep) := by
  obtain ⟨hcfg, bleed, hb, haxis⟩ := axis_decay edge p now
  have hbled : Toward p.cfg start gained (axis edge (decay p now)) := by
    rw [haxis]
    exact h.bled hb
  have hfed := @Toward.fed p.cfg hw start gained (motion edge rep) _ _ hstart hbled
  refine ⟨fun hnone he => ?_, fun hcross hne => hfed.2 (feed_crosses hw hcross hne)⟩
  have hstill := (feed_axis hw he rep now).still hnone
  rw [hstill, hcfg]
  exact hfed.1

theorem feed_cfg (p : Pointer) (rep : MouseReport) (now : Time) (hw : WellSet p.cfg) :
    (pointerFeed p rep.dx rep.dy now).2.cfg = p.cfg :=
  (@feed_axis .right p hw trivial rep now).cfg.trans (axis_decay .right p now).1

theorem fedAll_cfg (reports : List (MouseReport × Time)) {p : Pointer} (hw : WellSet p.cfg) : (fedAll p reports).cfg = p.cfg := by
  induction reports generalizing p with
  | nil => rfl
  | cons x reports ih =>
    have hcfg := feed_cfg p x.1 x.2 hw
    exact (ih (hcfg.symm ▸ hw)).trans hcfg

/-! ## What a crossing costs -/

theorem toward_fed {edge : Edge} (reports : List (MouseReport × Time)) {p : Pointer} {start gained : Int}
    (h : Toward p.cfg start gained (axis edge p)) (hw : WellSet p.cfg) (hstart : -p.cfg.span ≤ start)
    (hnone : Uncrossed p reports) {rep : MouseReport} {now : Time}
    (hcross : (pointerFeed (fedAll p reports) rep.dx rep.dy now).1 = edge) (he : edge ≠ .none) :
    p.cfg.span - start + p.cfg.pushThreshold ≤ gained + spentTo edge (reports ++ [(rep, now)]) := by
  induction reports generalizing p gained with
  | nil =>
    have hcost := (h.feed hw hstart rep now).2 hcross he
    simpa [spentTo] using hcost
  | cons x reports ih =>
    have hcfg := feed_cfg p x.1 x.2 hw
    -- the edge crossed at last was enabled all along
    have henabled : Enabled edge p.cfg := by
      rw [← fedAll_cfg (x :: reports) hw]
      exact feed_enabled hcross he
    have hnext := (h.feed hw hstart x.1 x.2).1 hnone.1 henabled
    rw [← hcfg] at hnext hw hstart
    have hcost := ih hnext hw hstart hnone.2 hcross
    rw [hcfg] at hcost
    simp only [spentTo, List.cons_append, List.map_cons, List.sum_cons] at hcost ⊢
    omega

theorem arrive_cfg (p : Pointer) (arrival : Edge) (now : Time) : (pointerArrive p arrival now).cfg = p.cfg := by
  cases arrival <;> rfl

/-- Where the pointer is seated lies within the span, if the guard band is no wider than the desk. -/
theorem arrive_seat {p : Pointer} (hs : 0 < p.cfg.span)
    (hguard : 0 ≤ p.cfg.reentryGuard ∧ p.cfg.reentryGuard ≤ 2 * p.cfg.span) (arrival edge : Edge) (now : Time) :
    -p.cfg.span ≤ (axis edge (pointerArrive p arrival now)).1 ∧ (axis edge (pointerArrive p arrival now)).2 = 0 := by
  cases arrival <;> cases edge <;> refine ⟨?_, by simp [axis, pointerArrive]⟩ <;> simp only [axis, pointerArrive] <;> omega

/-- Less than a shove, and no more than what time lets a push down by in the pause before. -/
structure Gentle (cfg : PointerCfg) (pause : Nat) (rep : MouseReport) : Prop where
  shove : (rep.dx.toInt.natAbs : Int) < cfg.pushThreshold ∧ (rep.dy.toInt.natAbs : Int) < cfg.pushThreshold
  slow : (rep.dx.toInt.natAbs : Int) ≤ cfg.pushDecayPerMs * pause ∧ (rep.dy.toInt.natAbs : Int) ≤ cfg.pushDecayPerMs * pause
  fits : cfg.pushDecayPerMs * pause ≤ 2147483647

/-- Reports at real times, all of them gentle; `last` is when the one before came. -/
def Slow (cfg : PointerCfg) : Nat → List (MouseReport × Nat) → Prop
  | _, [] => True
  | last, x :: rest => last ≤ x.2 ∧ Gentle cfg (x.2 - last) x.1 ∧ Slow cfg x.2 rest

/-- On the wrapped clock. -/
def clocked (reports : List (MouseReport × Nat)) : List (MouseReport × Time) :=
  reports.map fun x => (x.1, UInt32.ofNat x.2)

/-- Seated at `last`, with less than a shove collected. -/
structure Braked (last : Nat) (p : Pointer) : Prop where
  timed : p.haveTime = true ∧ p.lastUpdate = UInt32.ofNat last
  pushX : -p.cfg.pushThreshold < p.pushX ∧ p.pushX < p.cfg.pushThreshold
  pushY : -p.cfg.pushThreshold < p.pushY ∧ p.pushY < p.cfg.pushThreshold

theorem bleedPush_zero (push : Int) : bleedPush 0 push = push := by
  unfold bleedPush
  split_ifs <;> omega

/-- A pause lets both pushes down by what it is worth. -/
theorem decay_pause {p : Pointer} {last t : Nat} (h : p.haveTime = true ∧ p.lastUpdate = UInt32.ofNat last) (hle : last ≤ t)
    (hdecay : 0 ≤ p.cfg.pushDecayPerMs) (hfits : p.cfg.pushDecayPerMs * (t - last : Nat) ≤ 2147483647) :
    decay p (UInt32.ofNat t) = { p with
      lastUpdate := UInt32.ofNat t
      pushX := bleedPush (p.cfg.pushDecayPerMs * (t - last : Nat)) p.pushX
      pushY := bleedPush (p.cfg.pushDecayPerMs * (t - last : Nat)) p.pushY } := by
  obtain ⟨htimed, hlast⟩ := h
  simp only [decay, htimed, hlast, Bool.not_true, Bool.false_eq_true, if_false]
  by_cases hstill : p.cfg.pushDecayPerMs = 0
  · simp only [hstill, Int.mul_zero, Int.zero_mul, bleedPush_zero, Int.le_refl, ite_self]
  · have hpause : t - last ≤ 2147483647 := by
      have hone : (1 : Int) * (t - last : Nat) ≤ p.cfg.pushDecayPerMs * (t - last : Nat) :=
        Int.mul_le_mul_of_nonneg_right (by omega) (Int.natCast_nonneg _)
      omega
    rw [timeDiff_ofNat hle (by omega), Int.mul_comm]
    by_cases hnow : t - last = 0
    · simp only [hnow, Int.natCast_zero, Int.mul_zero, bleedPush_zero, Int.le_refl, ite_true]
    · have hbleed : 0 < p.cfg.pushDecayPerMs * (t - last : Nat) := Int.mul_pos (by omega) (by omega)
      rw [if_neg (by omega), if_neg (by omega)]

/-- What a report adds to a push is no more than what the pause before has taken off it. -/
theorem shoved_braked {cfg : PointerCfg} {bleed d travel push : Int} (hbleed : (d.natAbs : Int) ≤ bleed)
    (hd : (d.natAbs : Int) < cfg.pushThreshold) (hpush : -cfg.pushThreshold < push ∧ push < cfg.pushThreshold) :
    -cfg.pushThreshold < shoved cfg d travel (bleedPush bleed push) ∧
      shoved cfg d travel (bleedPush bleed push) < cfg.pushThreshold := by
  unfold shoved bleedPush
  split_ifs <;> omega

/-- A push short of the threshold crosses neither edge. -/
theorem verdict_none {cfg : PointerCfg} {push : Int} (h : -cfg.pushThreshold < push ∧ push < cfg.pushThreshold) :
    verdictOf cfg push = 0 := by
  unfold verdictOf
  rw [if_neg (by omega), if_neg (by omega)]

theorem Braked.feed {p : Pointer} {last t : Nat} (h : Braked last p) (hle : last ≤ t) (hdecay : 0 ≤ p.cfg.pushDecayPerMs)
    {rep : MouseReport} (hg : Gentle p.cfg (t - last) rep) :
    (pointerFeed p rep.dx rep.dy (UInt32.ofNat t)).1 = .none ∧ Braked t (pointerFeed p rep.dx rep.dy (UInt32.ofNat t)).2 ∧
      (pointerFeed p rep.dx rep.dy (UInt32.ofNat t)).2.cfg = p.cfg := by
  have hx := @shoved_braked p.cfg _ _ p.travelX _ hg.slow.1 hg.shove.1 h.pushX
  have hy := @shoved_braked p.cfg _ _ p.travelY _ hg.slow.2 hg.shove.2 h.pushY
  -- with the vertical axis off, its push is only let down
  have hy' := @shoved_braked p.cfg _ 0 0 _ (Int.le_trans (Int.natCast_nonneg _) hg.slow.2)
    (Int.lt_of_le_of_lt (Int.natCast_nonneg _) hg.shove.2) h.pushY
  simp only [pointerFeed, decay_pause h.timed hle hdecay hg.fits, axisFeed_eq, verdict_none hx, verdict_none hy,
    Int.lt_irrefl, if_false]
  split
  · exact ⟨rfl, ⟨⟨h.timed.1, rfl⟩, hx, hy⟩, rfl⟩
  · refine ⟨rfl, ⟨⟨h.timed.1, rfl⟩, hx, ?_⟩, rfl⟩
    simpa [shoved] using hy'

/-- A hand slower than the decay never crosses. -/
theorem slow_never_crosses {p : Pointer} (hw : WellSet p.cfg) (hdecay : 0 ≤ p.cfg.pushDecayPerMs) (arrival : Edge) {arrived : Nat}
    {reports : List (MouseReport × Nat)} (hslow : Slow p.cfg arrived reports) :
    Uncrossed (pointerArrive p arrival (UInt32.ofNat arrived)) (clocked reports) := by
  have hrun : ∀ (reports : List (MouseReport × Nat)) (last : Nat) (q : Pointer), q.cfg = p.cfg → Braked last q →
      Slow p.cfg last reports → Uncrossed q (clocked reports) := by
    intro reports
    induction reports with
    | nil => exact fun _ _ _ _ _ => trivial
    | cons x reports ih =>
      intro last q hcfg hq ⟨hle, hgentle, hslow⟩
      rw [← hcfg] at hdecay hgentle
      obtain ⟨hnone, hnext, hkept⟩ := hq.feed hle hdecay hgentle
      exact ⟨hnone, ih x.2 _ (hkept.trans hcfg) hnext hslow⟩
  have hpush := hw.push
  refine hrun reports arrived _ (arrive_cfg p arrival _) ?_ hslow
  cases arrival <;> exact ⟨⟨rfl, rfl⟩, ⟨by show -p.cfg.pushThreshold < 0; omega, hpush⟩,
    by show -p.cfg.pushThreshold < 0; omega, hpush⟩

/-- Four counts a millisecond, after half a second's rest a hundred and fifty at once. -/
theorem drift_never_crosses : Uncrossed (pointerArrive (pointerInit pointerCfgDefault) .right (UInt32.ofNat 0))
    (clocked [(⟨4, 0, 0, 0, 0⟩, 1), (⟨-8, 3, 0, 0, 0⟩, 3), (⟨599, 0, 0, 0, 0⟩, 503)]) := by
  refine slow_never_crosses (p := pointerInit pointerCfgDefault) ⟨by decide, by decide⟩ (by decide) .right ?_
  exact ⟨by decide, ⟨by decide, by decide, by decide⟩, by decide, ⟨by decide, by decide, by decide⟩, by decide,
    ⟨by decide, by decide, by decide⟩, trivial⟩

end DeskHop.Routing
