/-
  DeskHop.Chain.Integrator — the pointer's integrator under every configuration that can be
  set.

  `coordConfigSet` bounds each value by itself (`Bounded`), and so neither the guard band by
  the span nor the decay by the time that may pass. Proved, for every configuration it
  gives: travel and push keep to their ranges in every run exactly if the guard band is no
  wider than the desk (`integrator_iff`); and no 32-bit operation overflows, and a longer
  pause leaves no larger push, exactly as long as the pauses times the decay fit in 32
  bits (`arithmetic_iff`).
-/

import DeskHop.Chain.Config
import DeskHop.Lib.Reach
import DeskHop.Routing.Crossing
import DeskHop.Routing.PointerLater

namespace DeskHop.Chain

open DeskHop.Lib DeskHop.Routing

/-! ## What can be set -/

structure Bounded (cfg : PointerCfg) : Prop where
  span : 500 ≤ cfg.span ∧ cfg.span ≤ 100000
  push : 50 ≤ cfg.pushThreshold ∧ cfg.pushThreshold ≤ 10000
  decay : 0 ≤ cfg.pushDecayPerMs ∧ cfg.pushDecayPerMs ≤ 100
  guard : 0 ≤ cfg.reentryGuard ∧ cfg.reentryGuard ≤ 50000

theorem coordConfigSet_bounded {c : CoordConfig} (h : Bounded c.pointer) (key value : String) :
    Yields (fun c' => Bounded c'.pointer) (coordConfigSet c key value) := by
  obtain ⟨hspan, hpush, hdecay, hguard⟩ := h
  unfold coordConfigSet
  repeat' apply yields_ite
  all_goals first
    | exact yields_ok ⟨hspan, hpush, hdecay, hguard⟩
    | exact yields_map fun _ _ => ⟨hspan, hpush, hdecay, hguard⟩
    | exact yields_map fun v hv => ⟨u32Key_range hv, hpush, hdecay, hguard⟩
    | exact yields_map fun v hv => ⟨hspan, u32Key_range hv, hdecay, hguard⟩
    | exact yields_map fun v hv => ⟨hspan, hpush, u32Key_range hv, hguard⟩
    | exact yields_map fun v hv => ⟨hspan, hpush, hdecay, u32Key_range hv⟩
    | exact yields_error

theorem Configurable.bounded {c : CoordConfig} (h : Configurable c) : Bounded c.pointer := by
  induction h with
  | defaults => exact ⟨by decide, by decide, by decide, by decide⟩
  | set _ hs ih => exact coordConfigSet_bounded ih _ _ _ hs

theorem Bounded.wellSet {cfg : PointerCfg} (h : Bounded cfg) : WellSet cfg :=
  ⟨by have := h.span; omega, by have := h.push; omega⟩

theorem Bounded.init {cfg : PointerCfg} (h : Bounded cfg) : (pointerInit cfg).cfg = cfg :=
  if_neg (by have := h.span; omega)

/-! ## Travel and push -/

/-- One axis: travel and push are in range, and what pushes is at an edge. -/
structure Pinned (cfg : PointerCfg) (seat : Int × Int) : Prop where
  travel : -cfg.span ≤ seat.1 ∧ seat.1 ≤ cfg.span
  push : -cfg.pushThreshold < seat.2 ∧ seat.2 < cfg.pushThreshold
  high : 0 < seat.2 → seat.1 = cfg.span
  low : seat.2 < 0 → seat.1 = -cfg.span

def InRange (p : Pointer) : Prop := Pinned p.cfg (p.travelX, p.pushX) ∧ Pinned p.cfg (p.travelY, p.pushY)

/-- Whatever an integrator of this configuration is fed, and wherever it is seated. -/
def Integrates (cfg : PointerCfg) : Pointer → Prop :=
  Reach (· = pointerInit cfg) (fun _ _ => True) fun p o => (p.respond o).1

section

variable {cfg : PointerCfg} {travel push bleed d : Int}

theorem Pinned.bled (h : Pinned cfg (travel, push)) (hb : 0 ≤ bleed) : Pinned cfg (travel, bleedPush bleed push) := by
  obtain ⟨htravel, hpush, hhigh, hlow⟩ := h
  simp only at htravel hpush hhigh hlow
  refine ⟨htravel, ?_, ?_, ?_⟩ <;> simp only [bleedPush] <;> split_ifs <;> omega

theorem short_of_verdict (h : verdictOf cfg push = 0) : -cfg.pushThreshold < push ∧ push < cfg.pushThreshold := by
  unfold verdictOf at h
  split_ifs at h <;> omega

/-- A report that does not cross. -/
theorem Pinned.fed (h : Pinned cfg (travel, push)) (hw : WellSet cfg) (hnone : verdictOf cfg (shoved cfg d travel push) = 0) :
    Pinned cfg (clamp (travel + d) (-cfg.span) cfg.span, shoved cfg d travel push) := by
  obtain ⟨htravel, hpush, hhigh, hlow⟩ := h
  have hspan := hw.span
  simp only at htravel hpush hhigh hlow
  refine ⟨?_, short_of_verdict hnone, ?_, ?_⟩
  · show -cfg.span ≤ clamp (travel + d) (-cfg.span) cfg.span ∧ clamp (travel + d) (-cfg.span) cfg.span ≤ cfg.span
    unfold clamp
    split_ifs <;> omega
  · simp only [shoved, clamp]
    split_ifs <;> omega
  · simp only [shoved, clamp]
    split_ifs <;> omega

end

/-- What a report that does not cross makes of the integrator, once the pushes have bled. -/
def advanced (q : Pointer) (dx dy : Int16) : Pointer :=
  { q with
    travelX := clamp (q.travelX + dx.toInt) (-q.cfg.span) q.cfg.span
    pushX := shoved q.cfg dx.toInt q.travelX q.pushX
    travelY := clamp (q.travelY + dy.toInt) (-q.cfg.span) q.cfg.span
    pushY := if q.cfg.verticalEnabled then shoved q.cfg dy.toInt q.travelY q.pushY else q.pushY }

/-- Neither axis is past its threshold. -/
structure Holds (q : Pointer) (dx dy : Int16) : Prop where
  x : verdictOf q.cfg (shoved q.cfg dx.toInt q.travelX q.pushX) = 0
  y : q.cfg.verticalEnabled = true → verdictOf q.cfg (shoved q.cfg dy.toInt q.travelY q.pushY) = 0

theorem feed_held {p : Pointer} {dx dy : Int16} {now : Time} (h : Holds (decay p now) dx dy) :
    (pointerFeed p dx dy now).2 = advanced (decay p now) dx dy := by
  simp only [pointerFeed, axisFeed_eq, advanced]
  generalize decay p now = q at h
  rw [if_neg (by rw [h.x]; decide), if_neg (by rw [h.x]; decide)]
  split
  · rename_i hon
    rw [if_neg (by rw [h.y hon]; decide), if_neg (by rw [h.y hon]; decide)]
  · rfl

/-- A report crosses, and the integrator is seated anew; or it advances. -/
theorem feed_cases (p : Pointer) (dx dy : Int16) (now : Time) :
    (∃ s edge, s.cfg = (decay p now).cfg ∧ (pointerFeed p dx dy now).2 = pointerArrive s edge now) ∨
      Holds (decay p now) dx dy ∧ (pointerFeed p dx dy now).2 = advanced (decay p now) dx dy := by
  by_cases h : Holds (decay p now) dx dy
  · exact .inr ⟨h, feed_held h⟩
  left
  simp only [pointerFeed, axisFeed_eq]
  generalize decay p now = q at h
  split
  · exact ⟨_, .right, rfl, rfl⟩
  split
  · exact ⟨_, .left, rfl, rfl⟩
  rename_i hright hleft
  split
  · split
    · exact ⟨_, .down, rfl, rfl⟩
    split
    · exact ⟨_, .up, rfl, rfl⟩
    · rename_i hdown hup
      exact absurd ⟨by omega, fun _ => by omega⟩ h
  · rename_i hoff
    exact absurd ⟨by omega, fun hon => absurd hon hoff⟩ h

/-- With the vertical axis off, nothing pushes there. -/
structure Kept (cfg : PointerCfg) (p : Pointer) : Prop where
  same : p.cfg = cfg
  range : InRange p
  level : cfg.verticalEnabled = false → p.pushY = 0

section

variable {cfg : PointerCfg} {p : Pointer}

theorem kept_arrive (hb : Bounded cfg) (hguard : cfg.reentryGuard ≤ 2 * cfg.span) (hcfg : p.cfg = cfg) (edge : Edge)
    (now : Time) : Kept cfg (pointerArrive p edge now) := by
  subst hcfg
  have hspan := hb.span
  have hpush := hb.push
  have hg := hb.guard
  refine ⟨arrive_cfg p edge now, ?_, fun _ => by cases edge <;> rfl⟩
  cases edge <;> refine ⟨⟨?_, ?_, ?_, ?_⟩, ?_, ?_, ?_, ?_⟩ <;> simp only [pointerArrive] <;> omega

theorem Kept.decay (h : Kept cfg p) (now : Time) : Kept cfg (decay p now) := by
  obtain ⟨rfl, ⟨hx, hy⟩, hlevel⟩ := h
  obtain ⟨hcfg, bx, hbx, hdx⟩ := axis_decay .right p now
  obtain ⟨-, by', hby, hdy⟩ := axis_decay .down p now
  have hdx : ((Routing.decay p now).travelX, (Routing.decay p now).pushX) = (p.travelX, bleedPush bx p.pushX) := hdx
  have hdy : ((Routing.decay p now).travelY, (Routing.decay p now).pushY) = (p.travelY, bleedPush by' p.pushY) := hdy
  refine ⟨hcfg, ⟨?_, ?_⟩, fun hoff => ?_⟩
  · rw [hcfg, hdx]
    exact hx.bled hbx
  · rw [hcfg, hdy]
    exact hy.bled hby
  · rw [(Prod.mk.inj hdy).2, hlevel hoff]
    rfl

theorem Kept.feed (h : Kept cfg p) (hb : Bounded cfg) (hguard : cfg.reentryGuard ≤ 2 * cfg.span) (dx dy : Int16)
    (now : Time) : Kept cfg (pointerFeed p dx dy now).2 := by
  obtain ⟨rfl, ⟨hx, hy⟩, hlevel⟩ := h.decay now
  have hw := hb.wellSet
  obtain ⟨s, edge, hs, hcross⟩ | ⟨hhold, hfed⟩ := feed_cases p dx dy now
  · rw [hcross]
    exact kept_arrive hb hguard hs edge now
  rw [hfed]
  generalize Routing.decay p now = q at hx hy hlevel hw hhold
  refine ⟨rfl, ⟨hx.fed hw hhold.x, ?_⟩, fun hoff => ?_⟩
  · simp only [advanced]
    split
    · rename_i hon
      exact hy.fed hw (hhold.y hon)
    · rename_i hoff
      have hzero := hlevel (Bool.not_eq_true _ ▸ hoff)
      have hspan := hw.span
      refine ⟨?_, hy.push, fun (h : 0 < q.pushY) => absurd h (by omega), fun (h : q.pushY < 0) => absurd h (by omega)⟩
      show -q.cfg.span ≤ clamp (q.travelY + dy.toInt) (-q.cfg.span) q.cfg.span ∧
        clamp (q.travelY + dy.toInt) (-q.cfg.span) q.cfg.span ≤ q.cfg.span
      unfold clamp
      split_ifs <;> omega
  · have hoff : q.cfg.verticalEnabled = false := hoff
    simp only [advanced, hoff]
    exact hlevel hoff

end

/-- Arriving from the left leaves the travel at the guard band from the far end. -/
theorem guard_le_of_inRange {cfg : PointerCfg} (hb : Bounded cfg) (h : ∀ p, Integrates cfg p → InRange p) :
    cfg.reentryGuard ≤ 2 * cfg.span := by
  have hinit := hb.init
  have harrived := h _ (.step (.arrive .right 0) (.init rfl) trivial)
  have htravel : -(pointerInit cfg).cfg.span + (pointerInit cfg).cfg.reentryGuard ≤ (pointerInit cfg).cfg.span :=
    harrived.1.travel.2
  rw [hinit] at htravel
  omega

theorem Integrates.kept {cfg : PointerCfg} (hb : Bounded cfg) (hguard : cfg.reentryGuard ≤ 2 * cfg.span) {p : Pointer}
    (h : Integrates cfg p) : Kept cfg p := by
  refine h.inv (fun p hp => ?_) fun p o hk _ => ?_
  · subst hp
    have hinit := hb.init
    have hspan := hb.span
    have hpush := hb.push
    refine ⟨hinit, ⟨⟨?_, ?_, ?_, ?_⟩, ?_, ?_, ?_, ?_⟩, fun _ => rfl⟩ <;> simp only [hinit] <;>
      simp only [pointerInit] <;> omega
  · cases o with
    | feed dx dy now => exact hk.feed hb hguard dx dy now
    | arrive edge now => exact kept_arrive hb hguard hk.same edge now

/-- Travel and push keep to their ranges exactly if the guard band is no wider than the desk. -/
theorem integrator_iff {c : CoordConfig} (h : Configurable c) :
    (∀ p, Integrates c.pointer p → InRange p) ↔ c.pointer.reentryGuard ≤ 2 * c.pointer.span :=
  ⟨guard_le_of_inRange h.bounded, fun hguard _ hp => (hp.kept h.bounded hguard).range⟩

theorem defaults_in_range : (∀ p, Integrates coordConfigDefaults.pointer p → InRange p) ↔
    coordConfigDefaults.pointer.reentryGuard ≤ 2 * coordConfigDefaults.pointer.span :=
  integrator_iff .defaults

/-- A span of 500 is accepted with the default guard band of 1500: coming from the left, the
    travel starts at 1000. -/
theorem narrow_desk_overshot : ¬ ∀ c, Configurable c → ∀ p, Integrates c.pointer p → InRange p := by
  intro hall
  obtain ⟨c, hset, rfl⟩ : ∃ c, coordConfigSet coordConfigDefaults "pointer_span" "500" = .ok c ∧
      c = { coordConfigDefaults with pointer := { pointerCfgDefault with span := 500 } } := ⟨_, by decide +kernel, rfl⟩
  have hc : Configurable { coordConfigDefaults with pointer := { pointerCfgDefault with span := 500 } } :=
    .set .defaults hset
  exact absurd (guard_le_of_inRange hc.bounded (hall _ hc)) (by decide)

/-! ## The 32-bit operations

What each signed operation of the code gives, in the order it computes them. -/

def FitsInt32 (v : Int) : Prop := -2147483648 ≤ v ∧ v ≤ 2147483647

def bleedOps (bleed push : Int) : List Int :=
  if push > 0 then (if push > bleed then [push - bleed] else [])
  else if push < 0 then (if -push > bleed then [-push, push + bleed] else [-push])
  else []

def decayOps (p : Pointer) (now : Time) : List Int :=
  if !p.haveTime then []
  else
    let dt := timeDiff now p.lastUpdate
    if dt ≤ 0 then []
    else
      let bleed := dt * p.cfg.pushDecayPerMs
      if bleed ≤ 0 then [bleed] else [bleed] ++ bleedOps bleed p.pushX ++ bleedOps bleed p.pushY

def axisOps (cfg : PointerCfg) (d travel push : Int) : List Int :=
  let span := cfg.span
  [travel + d, -span] ++
    (if travel ≥ span ∧ d > 0 ∨ travel ≤ -span ∧ d < 0 then [push + d] else []) ++
    (if (axisFeed cfg d travel push).1 > 0 then [] else [-cfg.pushThreshold])

def arriveOps (cfg : PointerCfg) (fromEdge : Edge) : List Int :=
  match fromEdge with
  | .right | .down => [-cfg.span, -cfg.span + cfg.reentryGuard]
  | .left | .up => [cfg.span - cfg.reentryGuard]
  | .none => []

def feedOps (p : Pointer) (dx dy : Int16) (now : Time) : List Int :=
  let q := decay p now
  let hx := (axisFeed q.cfg dx.toInt q.travelX q.pushX).1
  decayOps p now ++ axisOps q.cfg dx.toInt q.travelX q.pushX ++
    if hx > 0 then arriveOps q.cfg .right
    else if hx < 0 then arriveOps q.cfg .left
    else if q.cfg.verticalEnabled then
      let hy := (axisFeed q.cfg dy.toInt q.travelY q.pushY).1
      axisOps q.cfg dy.toInt q.travelY q.pushY ++
        if hy > 0 then arriveOps q.cfg .down else if hy < 0 then arriveOps q.cfg .up else []
    else [q.travelY + dy.toInt, -q.cfg.span]

/-- A report after a pause of that many milliseconds, or an arrival. -/
inductive Motion where
  | feed (dx dy : Int16) (pause : Nat)
  | arrive (edge : Edge) (now : Time)

def paused (p : Pointer) (pause : Nat) : Time := p.lastUpdate + UInt32.ofNat pause

def moved (p : Pointer) : Motion → Pointer
  | .feed dx dy pause => (pointerFeed p dx dy (paused p pause)).2
  | .arrive edge now => pointerArrive p edge now

/-- No report comes after a longer pause. -/
def Within (longest : Nat) : Motion → Prop
  | .feed _ _ pause => pause ≤ longest
  | .arrive _ _ => True

def Moved (cfg : PointerCfg) (longest : Nat) : Pointer → Prop :=
  Reach (· = pointerInit cfg) (fun _ m => Within longest m) moved

/-- With pauses up to `longest` nothing overflows, and a longer one leaves no larger push. -/
structure Exact (longest : Nat) (p : Pointer) : Prop where
  feeds : ∀ dx dy pause, pause ≤ longest → ∀ v ∈ feedOps p dx dy (paused p pause), FitsInt32 v
  arrives : ∀ edge, ∀ v ∈ arriveOps p.cfg edge, FitsInt32 v
  fades : ∀ shorter longer, shorter ≤ longer → longer ≤ longest →
    (decay p (paused p longer)).pushX.natAbs ≤ (decay p (paused p shorter)).pushX.natAbs ∧
      (decay p (paused p longer)).pushY.natAbs ≤ (decay p (paused p shorter)).pushY.natAbs

/-- Wherever it is seated, the travel is that far at most, and the push short of a shove. -/
structure Seated (cfg : PointerCfg) (p : Pointer) : Prop where
  same : p.cfg = cfg
  travelX : -100000 ≤ p.travelX ∧ p.travelX ≤ 100000
  travelY : -100000 ≤ p.travelY ∧ p.travelY ≤ 100000
  pushX : -cfg.pushThreshold < p.pushX ∧ p.pushX < cfg.pushThreshold
  pushY : -cfg.pushThreshold < p.pushY ∧ p.pushY < cfg.pushThreshold

section

variable {cfg : PointerCfg} {p : Pointer}

theorem seated_init (hb : Bounded cfg) : Seated cfg (pointerInit cfg) := by
  have hpush := hb.push
  refine ⟨hb.init, ?_, ?_, ?_, ?_⟩ <;> simp only [pointerInit] <;> omega

theorem seated_arrive (hb : Bounded cfg) (hcfg : p.cfg = cfg) (edge : Edge) (now : Time) :
    Seated cfg (pointerArrive p edge now) := by
  subst hcfg
  have hspan := hb.span
  have hpush := hb.push
  have hguard := hb.guard
  refine ⟨arrive_cfg p edge now, ?_, ?_, ?_, ?_⟩ <;> cases edge <;> simp only [pointerArrive] <;> omega

theorem clamp_within {v lo hi : Int} (h : lo ≤ hi) : lo ≤ clamp v lo hi ∧ clamp v lo hi ≤ hi := by
  unfold clamp
  split_ifs <;> omega

theorem Seated.decay (h : Seated cfg p) (now : Time) : Seated cfg (decay p now) := by
  obtain ⟨hcfg, bx, hbx, hdx⟩ := axis_decay .right p now
  obtain ⟨-, by', hby, hdy⟩ := axis_decay .down p now
  obtain ⟨htx, hpx⟩ := Prod.mk.inj hdx
  obtain ⟨hty, hpy⟩ := Prod.mk.inj hdy
  have hx := h.pushX
  have hy := h.pushY
  refine ⟨hcfg.trans h.same, by rw [htx]; exact h.travelX, by rw [hty]; exact h.travelY, ?_, ?_⟩
  · rw [hpx]
    simp only [axis, bleedPush]
    split_ifs <;> omega
  · rw [hpy]
    simp only [axis, bleedPush]
    split_ifs <;> omega

theorem Seated.feed (h : Seated cfg p) (hb : Bounded cfg) (dx dy : Int16) (now : Time) :
    Seated cfg (pointerFeed p dx dy now).2 := by
  obtain ⟨rfl, -, -, -, hy⟩ := h.decay now
  obtain ⟨s, edge, hs, hcross⟩ | ⟨hhold, hfed⟩ := feed_cases p dx dy now
  · rw [hcross]
    exact seated_arrive hb hs edge now
  rw [hfed]
  generalize Routing.decay p now = q at hb hhold hy
  have hspan := hb.span
  have hx := clamp_within (v := q.travelX + dx.toInt) (show -q.cfg.span ≤ q.cfg.span by omega)
  have hy' := clamp_within (v := q.travelY + dy.toInt) (show -q.cfg.span ≤ q.cfg.span by omega)
  refine ⟨rfl, ?_, ?_, short_of_verdict hhold.x, ?_⟩
  · simp only [advanced]
    omega
  · simp only [advanced]
    omega
  · simp only [advanced]
    split
    · rename_i hon
      exact short_of_verdict (hhold.y hon)
    · exact hy

theorem Moved.seated {longest : Nat} (h : Moved cfg longest p) (hb : Bounded cfg) : Seated cfg p := by
  refine h.inv (fun p hp => ?_) fun p m hs _ => ?_
  · subst hp
    exact seated_init hb
  · cases m with
    | feed dx dy pause => exact hs.feed hb dx dy _
    | arrive edge now => exact seated_arrive hb hs.same edge now

/-! ## Pauses that fit -/

theorem paused_eq (p : Pointer) (pause : Nat) : paused p pause = UInt32.ofNat (p.lastUpdate.toNat + pause) := by
  rw [UInt32.ofNat_add, UInt32.ofNat_toNat]
  rfl

theorem timeDiff_paused {pause : Nat} (h : pause < 2 ^ 31) : timeDiff (paused p pause) p.lastUpdate = pause := by
  have hdiff := timeDiff_ofNat (t := p.lastUpdate.toNat + pause) (d := p.lastUpdate.toNat) (by omega) (by omega)
  rw [UInt32.ofNat_toNat, ← paused_eq] at hdiff
  omega

/-- A pause that fits bleeds the pushes by no more than 32 bits hold. -/
theorem bleed_fits {pause : Nat} (hd : 0 ≤ p.cfg.pushDecayPerMs) (hfits : p.cfg.pushDecayPerMs * pause ≤ 2147483647)
    (hpos : 0 < timeDiff (paused p pause) p.lastUpdate) :
    0 ≤ timeDiff (paused p pause) p.lastUpdate * p.cfg.pushDecayPerMs ∧
      timeDiff (paused p pause) p.lastUpdate * p.cfg.pushDecayPerMs ≤ 2147483647 := by
  refine ⟨Int.mul_nonneg (by omega) hd, ?_⟩
  by_cases hstill : p.cfg.pushDecayPerMs = 0
  · rw [hstill]
    omega
  · have hone : (1 : Int) * pause ≤ p.cfg.pushDecayPerMs * pause :=
      Int.mul_le_mul_of_nonneg_right (by omega) (Int.natCast_nonneg _)
    rw [timeDiff_paused (by omega), Int.mul_comm]
    exact hfits

theorem bleedOps_fit {bleed push : Int} (hbleed : 0 ≤ bleed ∧ bleed ≤ 2147483647) (hpush : -10000 < push ∧ push < 10000) :
    ∀ v ∈ bleedOps bleed push, FitsInt32 v := by
  intro v hv
  unfold bleedOps at hv
  unfold FitsInt32
  split_ifs at hv <;> simp only [List.mem_cons, List.not_mem_nil, or_false] at hv <;> omega

theorem Seated.decayOps_fit (h : Seated cfg p) (hb : Bounded cfg) {pause : Nat}
    (hfits : cfg.pushDecayPerMs * pause ≤ 2147483647) : ∀ v ∈ decayOps p (paused p pause), FitsInt32 v := by
  obtain ⟨rfl, -, -, hx, hy⟩ := h
  have hpush := hb.push
  intro v hv
  simp only [decayOps] at hv
  split at hv
  · simp at hv
  split at hv
  · simp at hv
  rename_i hpos
  have hbleed := bleed_fits hb.decay.1 hfits (by omega)
  generalize timeDiff (paused p pause) p.lastUpdate * p.cfg.pushDecayPerMs = bleed at hv hbleed
  have hself : FitsInt32 bleed := ⟨by omega, hbleed.2⟩
  split at hv
  · rw [List.mem_singleton.mp hv]
    exact hself
  · simp only [List.mem_append, List.mem_singleton] at hv
    obtain (rfl | hv) | hv := hv
    · exact hself
    · exact bleedOps_fit hbleed (by omega) v hv
    · exact bleedOps_fit hbleed (by omega) v hv

theorem axisOps_fit (hb : Bounded cfg) (d : Int16) {travel push : Int} (htravel : -100000 ≤ travel ∧ travel ≤ 100000)
    (hpush : -cfg.pushThreshold < push ∧ push < cfg.pushThreshold) :
    ∀ v ∈ axisOps cfg d.toInt travel push, FitsInt32 v := by
  have hspan := hb.span
  have hthreshold := hb.push
  have hlo := d.le_toInt
  have hhi := d.toInt_lt
  intro v hv
  simp only [axisOps, List.mem_append] at hv
  unfold FitsInt32
  obtain (hv | hv) | hv := hv
  · simp only [List.mem_cons, List.not_mem_nil, or_false] at hv
    omega
  · split_ifs at hv <;> simp only [List.mem_cons, List.not_mem_nil, or_false] at hv
    omega
  · split_ifs at hv <;> simp only [List.mem_cons, List.not_mem_nil, or_false] at hv
    omega

theorem arriveOps_fit (hb : Bounded cfg) (edge : Edge) : ∀ v ∈ arriveOps cfg edge, FitsInt32 v := by
  have hspan := hb.span
  have hguard := hb.guard
  intro v hv
  unfold FitsInt32
  cases edge <;> simp only [arriveOps, List.mem_cons, List.not_mem_nil, or_false] at hv <;> omega

theorem Seated.feedOps_fit (h : Seated cfg p) (hb : Bounded cfg) {pause : Nat}
    (hfits : cfg.pushDecayPerMs * pause ≤ 2147483647) (dx dy : Int16) :
    ∀ v ∈ feedOps p dx dy (paused p pause), FitsInt32 v := by
  obtain ⟨hcfg, htx, hty, hpx, hpy⟩ := h.decay (paused p pause)
  have hspan := hb.span
  have hlo := dy.le_toInt
  have hhi := dy.toInt_lt
  intro v hv
  simp only [feedOps, hcfg, List.mem_append] at hv
  obtain (hv | hv) | hv := hv
  · exact h.decayOps_fit hb hfits v hv
  · exact axisOps_fit hb dx htx hpx v hv
  split at hv
  · exact arriveOps_fit hb _ v hv
  split at hv
  · exact arriveOps_fit hb _ v hv
  split at hv
  · obtain hv | hv := List.mem_append.mp hv
    · exact axisOps_fit hb dy hty hpy v hv
    split at hv
    · exact arriveOps_fit hb _ v hv
    split at hv
    · exact arriveOps_fit hb _ v hv
    · simp at hv
  · unfold FitsInt32
    simp only [List.mem_cons, List.not_mem_nil, or_false] at hv
    omega

theorem bleedPush_le {a b : Int} (hab : a ≤ b) (push : Int) :
    (bleedPush b push).natAbs ≤ (bleedPush a push).natAbs := by
  unfold bleedPush
  split_ifs <;> omega

/-- Among pauses that fit, the longer leaves no larger push. -/
theorem fades (hd : 0 ≤ p.cfg.pushDecayPerMs) {shorter longer : Nat} (hle : shorter ≤ longer)
    (hfits : p.cfg.pushDecayPerMs * longer ≤ 2147483647) :
    (decay p (paused p longer)).pushX.natAbs ≤ (decay p (paused p shorter)).pushX.natAbs ∧
      (decay p (paused p longer)).pushY.natAbs ≤ (decay p (paused p shorter)).pushY.natAbs := by
  cases htimed : p.haveTime with
  | false => simp [decay, htimed]
  | true =>
    have hworth : p.cfg.pushDecayPerMs * shorter ≤ p.cfg.pushDecayPerMs * longer :=
      Int.mul_le_mul_of_nonneg_left (by omega) hd
    have hlast : p.haveTime = true ∧ p.lastUpdate = UInt32.ofNat p.lastUpdate.toNat := ⟨htimed, UInt32.ofNat_toNat.symm⟩
    have hpause : ∀ n : Nat, p.lastUpdate.toNat + n - p.lastUpdate.toNat = n := fun n => by omega
    rw [paused_eq, paused_eq, decay_pause hlast (by omega) hd (by rw [hpause]; exact hfits),
      decay_pause hlast (by omega) hd (by rw [hpause]; omega), hpause, hpause]
    exact ⟨bleedPush_le hworth _, bleedPush_le hworth _⟩

theorem Moved.exact {longest : Nat} (h : Moved cfg longest p) (hb : Bounded cfg)
    (hfits : cfg.pushDecayPerMs * longest ≤ 2147483647) : Exact longest p := by
  have hseated := h.seated hb
  have hcfg := hseated.same
  have hd := hb.decay.1
  have hpause : ∀ pause ≤ longest, cfg.pushDecayPerMs * pause ≤ 2147483647 := fun pause hle =>
    Int.le_trans (Int.mul_le_mul_of_nonneg_left (by omega) hd) hfits
  refine ⟨fun dx dy pause hle => hseated.feedOps_fit hb (hpause pause hle) dx dy, ?_, fun shorter longer hle hlong => ?_⟩
  · rw [hcfg]
    exact arriveOps_fit hb
  · exact fades (hcfg ▸ hd) hle (by rw [hcfg]; exact hpause longer hlong)

/-! ## Pauses that do not -/

/-- That far to the right, and nothing pushes. -/
structure Level (cfg : PointerCfg) (far : Int) (p : Pointer) : Prop where
  same : p.cfg = cfg
  travelX : p.travelX = far
  travelY : p.travelY = 0
  pushX : p.pushX = 0
  pushY : p.pushY = 0

theorem level_init (hb : Bounded cfg) : Level cfg 0 (pointerInit cfg) := ⟨hb.init, rfl, rfl, rfl, rfl⟩

theorem Level.decay {far : Int} (h : Level cfg far p) (now : Time) : Level cfg far (decay p now) := by
  obtain ⟨hcfg, bx, -, hdx⟩ := axis_decay .right p now
  obtain ⟨-, by', -, hdy⟩ := axis_decay .down p now
  obtain ⟨htx, hpx⟩ := Prod.mk.inj hdx
  obtain ⟨hty, hpy⟩ := Prod.mk.inj hdy
  simp only [axis, h.pushX] at hpx
  simp only [axis, h.pushY] at hpy
  exact ⟨hcfg.trans h.same, htx.trans h.travelX, hty.trans h.travelY, hpx, hpy⟩

theorem decay_timed (p : Pointer) (now : Time) : (Routing.decay p now).haveTime = true := by
  cases h : p.haveTime <;> simp only [Routing.decay, h] <;> grind

/-- One count to the right. -/
theorem Level.nudged {far : Int} (h : Level cfg far p) (hb : Bounded cfg) (hfar : 0 ≤ far ∧ far ≤ cfg.span) :
    moved p (.feed 1 0 0) = { Routing.decay p (paused p 0) with
      travelX := clamp (far + 1) (-cfg.span) cfg.span, pushX := if far = cfg.span then 1 else 0 } := by
  obtain ⟨hcfg, hfarX, hfarY, hpushX, hpushY⟩ := h.decay (paused p 0)
  have hspan := hb.span
  have hpush := hb.push
  have hone : (1 : Int16).toInt = 1 := rfl
  have hnone : (0 : Int16).toInt = 0 := rfl
  have hright : shoved cfg 1 far 0 = if far = cfg.span then 1 else 0 := by
    unfold shoved
    split_ifs <;> omega
  have hdown : shoved cfg 0 0 0 = 0 := by
    unfold shoved
    split_ifs <;> omega
  have hheld : Holds (Routing.decay p (paused p 0)) 1 0 := by
    refine ⟨?_, fun _ => ?_⟩
    · rw [hcfg, hfarX, hpushX, hone, hright]
      exact verdict_none (by split_ifs <;> omega)
    · rw [hcfg, hfarY, hpushY, hnone, hdown]
      exact verdict_none (by omega)
  have hstill : clamp (0 + 0) (-cfg.span) cfg.span = 0 := by
    unfold clamp
    split_ifs <;> omega
  refine (feed_held hheld).trans ?_
  simp only [advanced, hcfg, hfarX, hfarY, hpushX, hpushY, hone, hnone, hright, hdown, hstill, ite_self]

/-- As far as the edge, report by report, without a pause. -/
theorem exists_level (hb : Bounded cfg) (longest : Nat) (far : Nat) (hfar : (far : Int) ≤ cfg.span) :
    ∃ p, Moved cfg longest p ∧ Level cfg far p := by
  induction far with
  | zero => exact ⟨_, .init rfl, level_init hb⟩
  | succ far ih =>
    obtain ⟨p, hp, hl⟩ := ih (by omega)
    have hnudged := hl.nudged hb ⟨by omega, by omega⟩
    have hd := hl.decay (paused p 0)
    refine ⟨_, hp.step (.feed 1 0 0) (Nat.zero_le _), ?_⟩
    rw [hnudged, if_neg (by omega)]
    refine ⟨hd.same, ?_, hd.travelY, rfl, hd.pushY⟩
    show clamp ((far : Int) + 1) (-cfg.span) cfg.span = ((far + 1 : Nat) : Int)
    unfold clamp
    split_ifs <;> omega

/-- A push of one count, with no pause on the way. -/
theorem exists_leaning (hb : Bounded cfg) (longest : Nat) :
    ∃ p, Moved cfg longest p ∧ p.cfg = cfg ∧ p.haveTime = true ∧ p.pushX = 1 := by
  have hspan := hb.span
  obtain ⟨p, hp, hl⟩ := exists_level hb longest cfg.span.toNat (by omega)
  rw [Int.toNat_of_nonneg (by omega)] at hl
  have hnudged := hl.nudged hb ⟨by omega, by omega⟩
  refine ⟨_, hp.step (.feed 1 0 0) (Nat.zero_le _), ?_⟩
  rw [hnudged, if_pos rfl]
  exact ⟨(hl.decay _).same, decay_timed p _, rfl⟩

/-- A pause whose worth does not fit overflows. -/
theorem overflows (htimed : p.haveTime = true) {pause : Nat} (hpause : 0 < pause ∧ pause < 2 ^ 31)
    (hlong : 2147483647 < p.cfg.pushDecayPerMs * pause) (dx dy : Int16) :
    ∃ v ∈ feedOps p dx dy (paused p pause), ¬ FitsInt32 v := by
  refine ⟨p.cfg.pushDecayPerMs * pause, ?_, fun hfits => absurd hfits.2 (by omega)⟩
  simp only [feedOps, decayOps, htimed, timeDiff_paused hpause.2, List.mem_append]
  refine .inl (.inl ?_)
  have hcomm : (pause : Int) * p.cfg.pushDecayPerMs = p.cfg.pushDecayPerMs * pause := Int.mul_comm _ _
  rw [hcomm, if_neg (by decide), if_neg (by omega), if_neg (by omega)]
  simp

/-- Pauses too long to be told from no time at all let nothing fade. -/
theorem not_fades (hd : p.cfg.pushDecayPerMs = 1) (htimed : p.haveTime = true) (hpush : p.pushX = 1) :
    ¬ (decay p (paused p 2147483648)).pushX.natAbs ≤ (decay p (paused p 1)).pushX.natAbs := by
  have hback : timeDiff (paused p 2147483648) p.lastUpdate = -2147483648 := by
    have hsub : paused p 2147483648 - p.lastUpdate = UInt32.ofNat 2147483648 := by
      unfold paused
      grind
    rw [timeDiff, hsub]
    rfl
  have hon : timeDiff (paused p 1) p.lastUpdate = 1 := timeDiff_paused (by decide)
  simp [decay, htimed, hback, hon, hd, hpush, bleedPush]

theorem fits_of_exact (hb : Bounded cfg) {longest : Nat} (h : ∀ p, Moved cfg longest p → Exact longest p) :
    cfg.pushDecayPerMs * longest ≤ 2147483647 := by
  obtain ⟨p, hp, hcfg, htimed, hpush⟩ := exists_leaning hb longest
  have hexact := h p hp
  by_contra hlong
  obtain ⟨rate, hrate⟩ := Int.eq_ofNat_of_zero_le hb.decay.1
  rw [hrate] at hlong
  have hlong : 2147483647 < rate * longest := by
    have hcast : ((rate * longest : Nat) : Int) = rate * longest := Int.natCast_mul _ _
    omega
  obtain rfl | rfl | hrapid : rate = 0 ∨ rate = 1 ∨ 2 ≤ rate := by omega
  · omega
  · -- at one count a millisecond 2^31 ms fit, but are read as none
    exact not_fades (hcfg ▸ hrate) htimed hpush (hexact.fades 1 2147483648 (by decide) (by omega)).1
  · -- the shortest pause whose worth does not fit
    have hdiv : 2147483647 / rate ≤ 2147483647 / 2 := Nat.div_le_div_left hrapid (by decide)
    have hover : 2147483647 < rate * (2147483647 / rate + 1) := Nat.lt_mul_div_succ _ (by omega)
    have hwithin : 2147483647 / rate < longest := (Nat.div_lt_iff_lt_mul (by omega)).mpr (by rw [Nat.mul_comm]; exact hlong)
    generalize 2147483647 / rate = fitting at hdiv hover hwithin
    have hworth : 2147483647 < p.cfg.pushDecayPerMs * (fitting + 1 : Nat) := by
      rw [hcfg, hrate]
      exact_mod_cast hover
    obtain ⟨v, hv, hunfit⟩ := overflows htimed ⟨by omega, by omega⟩ hworth 0 0
    exact hunfit (hexact.feeds 0 0 _ hwithin v hv)

end

/-- Every operation of the integrator fits in 32 bits, and a longer pause leaves no larger
    push, exactly as long as the decay over a pause fits in 32 bits. -/
theorem arithmetic_iff {c : CoordConfig} (h : Configurable c) (longest : Nat) :
    (∀ p, Moved c.pointer longest p → Exact longest p) ↔ c.pointer.pushDecayPerMs * longest ≤ 2147483647 :=
  ⟨fits_of_exact h.bounded, fun hfits _ hp => hp.exact h.bounded hfits⟩

/-- By default, pauses of up to six days and five hours. -/
theorem defaults_exact : (∀ p, Moved coordConfigDefaults.pointer 536870911 p → Exact 536870911 p) ↔
    coordConfigDefaults.pointer.pushDecayPerMs * (536870911 : Nat) ≤ 2147483647 :=
  arithmetic_iff .defaults 536870911

/-- A millisecond more, and the bleed overflows. -/
theorem week_off_overflows : ¬ ∀ c, Configurable c → ∀ longest p, Moved c.pointer longest p → Exact longest p := by
  intro hall
  have hfits := fits_of_exact (Configurable.bounded .defaults) (hall _ .defaults 536870912)
  exact absurd hfits (by decide)

end DeskHop.Chain
