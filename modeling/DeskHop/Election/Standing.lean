/-
  DeskHop.Election.Standing — for whom a board stands down.

  A board that has been out-prioritised keeps the role while a key is held, and gives it
  up later. The decision is a flag (`resignPending`) that nothing clears but the
  resignation itself: it is carried out when the keys are up or the deadline is past,
  whether or not the challenge still stands.

  Proved, for every run of every board (`stands_down_for_somebody`): the steps of the run
  stand down for a live peer that outranks the board and asks for the role exactly as
  long as none of them carries out a pending resignation after the last such peer has
  gone (`Withdrawn`).

  A board that waits for a chord to end gives the role up to nobody when the challenger
  disappears in the meantime (`resigns_to_nobody`).
-/

import DeskHop.Election.Field
import DeskHop.Election.Handover

namespace DeskHop.Election

open DeskHop.Lib

/-- A call of the election, starting it included. -/
inductive Op where
  | start (now : Nat)
  | call (c : Call)
  deriving DecidableEq

def Op.time? : Op → Option Nat
  | .start now => some now
  | .call c => c.time?

/-- The caller takes the events of an operation before the next. -/
def operate (u : Uhrp) : Op → Uhrp
  | .start now => uhrpStart (takeEvents u).2 (UInt32.ofNat now)
  | .call c => step u c

/-- If the operation stands down, it leaves a live peer in the table that outranks the
    board and asks for the role. -/
def ForSomebody (u : Uhrp) (o : Op) : Prop :=
  (operate u o).ev.sendResign = true → ∃ now, o.time? = some now ∧ Contested (operate u o) (UInt32.ofNat now)

/-- The operation carries out a resignation that was pending before it, with nobody left
    in the table to resign for. -/
def Withdrawn (u : Uhrp) (o : Op) : Prop :=
  ∃ c v now, o = .call c ∧ evaluated u c = some (v, now) ∧ u.state = .active ∧ u.resignPending = true ∧
    (u.keysHeld = false ∨ timeAfter (UInt32.ofNat now) u.tResignDeadline = true) ∧ ¬ Contested v (UInt32.ofNat now)

/-! ## One step -/

theorem contested_aged (u : Uhrp) (now : Time) : Contested (peerAge u now) now ↔ Contested u now := by
  constructor
  · rintro ⟨p, hp, hu, hx, hr, hc⟩
    exact ⟨p, (aged_mem hp hu).1, hu, hx, hr, hc⟩
  · rintro ⟨p, hp, hu, hx, hr, hc⟩
    exact ⟨p, mem_of_aged hp hx, hu, hx, hr, hc⟩

theorem Contested.congr {u v : Uhrp} {now : Time} (hc : v.cfg = u.cfg) (hp : v.peers = u.peers)
    (h : Contested u now) : Contested v now := by
  obtain ⟨p, hm, hu, hx, hr, hl⟩ := h
  exact ⟨p, hp ▸ hm, hu, by unfold expired at hx ⊢; rwa [hc], by unfold Uhrp.rank at hr ⊢; rwa [hc], hl⟩

theorem contested_congr {u v : Uhrp} {now : Time} (hc : v.cfg = u.cfg) (hp : v.peers = u.peers) :
    Contested v now ↔ Contested u now :=
  ⟨fun h => h.congr hc.symm hp.symm, fun h => h.congr hc hp⟩

theorem start_sendResign (u : Uhrp) (now : Nat) : (operate u (.start now)).ev.sendResign = false :=
  (enterState_same { (takeEvents u).2 with started := true, vacancyClean := true } .learn (UInt32.ofNat now)).sendResign

/-- A call stands down when its evaluation resigns, and no other call does. -/
theorem call_sendResign {u : Uhrp} {c : Call} (h : (operate u (.call c)).ev.sendResign = true) :
    ∃ v now, evaluated u c = some (v, now) ∧ u.state = .active ∧
      Resigned v (reevaluate v (UInt32.ofNat now)) (UInt32.ofNat now) := by
  cases he : evaluated u c with
  | none =>
    obtain ⟨b, hb⟩ := step_of_not_evaluated he
    have hn : (operate u (.call c)).ev.sendResign = false := by
      show (step u c).ev.sendResign = false
      rw [hb]
      rfl
    rw [hn] at h
    cases h
  | some p =>
    obtain ⟨v, now⟩ := p
    obtain ⟨hsame, hst⟩ := evaluated_same he
    have hev : v.ev.sendResign = false := by rw [hsame.ev]; rfl
    have hr : (reevaluate v (UInt32.ofNat now)).ev.sendResign = true :=
      (step_of_evaluated he).1.sendResign.symm.trans h
    refine ⟨v, now, rfl, ?_⟩
    by_cases ha : v.state = .active
    · refine ⟨hsame.state.symm.trans ha, ?_⟩
      rcases (reevaluate_active hst ha (UInt32.ofNat now)).2 with hres | hkept
      · exact hres
      · rw [hkept.ev, hev] at hr
        cases hr
    · rw [(reevaluate_idle hst ha (UInt32.ofNat now)).1.sendResign, hev] at hr
      cases hr

/-- What an ACTIVE board's table says of the role after a call is what the evaluation
    was given. -/
theorem contested_step {u v : Uhrp} {c : Call} {now : Nat} (he : evaluated u c = some (v, now))
    (ha : u.state = .active) :
    Contested (operate u (.call c)) (UInt32.ofNat now) ↔ Contested v (UInt32.ofNat now) := by
  obtain ⟨hsame, hst⟩ := evaluated_same he
  have hf := (reevaluate_active hst (hsame.state.trans ha) (UInt32.ofNat now)).1
  have hs := (step_of_evaluated he).1
  rw [← contested_aged v]
  exact contested_congr (hs.cfg.trans hf.cfg) (hs.peers.trans hf.peers)

/-- An operation stands down for somebody unless it carries out a resignation whose
    challenge has been withdrawn. -/
theorem forSomebody_iff (u : Uhrp) (o : Op) : ForSomebody u o ↔ ¬ Withdrawn u o := by
  constructor
  · rintro h ⟨c, v, now, rfl, he, ha, hp, hdue, hn⟩
    obtain ⟨hsame, hst⟩ := evaluated_same he
    have hva : v.state = .active := hsame.state.trans ha
    have hvp : v.resignPending = true := hsame.resignPending.trans hp
    have hdl : resignDue v (UInt32.ofNat now) = u.tResignDeadline := (if_pos hvp).trans hsame.tResignDeadline
    have hk : v.keysHeld = u.keysHeld := hsame.keysHeld
    have hres : (reevaluate v (UInt32.ofNat now)).ev.sendResign = true := by
      rcases (reevaluate_active hst hva (UInt32.ofNat now)).2 with hres | hkept
      · exact hres.sendResign
      · -- a pending resignation is kept only with a key held, before the deadline
        obtain ⟨h1, h2⟩ := hkept.notDue (by rw [hkept.resignPending, hvp]; rfl)
        rw [hk] at h1
        rw [hdl] at h2
        rcases hdue with hd | hd
        · rw [h1] at hd; cases hd
        · rw [h2] at hd; cases hd
    obtain ⟨t, ht, hc⟩ := h ((step_of_evaluated he).1.sendResign.trans hres)
    have htime : c.time? = some now := evaluated_time he
    have hnow : t = now := Option.some.inj (ht.symm.trans htime)
    subst hnow
    exact hn ((contested_step he ha).mp hc)
  · intro h hs
    cases o with
    | start now =>
      rw [start_sendResign] at hs
      cases hs
    | call c =>
      obtain ⟨v, now, he, ha, hres⟩ := call_sendResign hs
      obtain ⟨hsame, -⟩ := evaluated_same he
      refine ⟨now, evaluated_time he, (contested_step he ha).mpr ?_⟩
      by_contra hn
      rcases hres.pending with hp | hch
      · have hdue := hres.due
        rw [resignDue, if_pos hp, hsame.tResignDeadline, hsame.keysHeld] at hdue
        exact h ⟨c, v, now, rfl, he, ha, hsame.resignPending.symm.trans hp, hdue, hn⟩
      · exact hn (challenged_by hch)

/-! ## Runs -/

/-- A board's run stands down only for somebody exactly when no step of it carries out a
    resignation whose challenge has been withdrawn. -/
theorem stands_down_for_somebody (cfg : Config) (run : List Op) :
    Reach.Admitted ForSomebody operate (uhrpInit cfg) run ↔
      Reach.Admitted (fun u o => ¬ Withdrawn u o) operate (uhrpInit cfg) run := by
  generalize uhrpInit cfg = u
  induction run generalizing u with
  | nil => exact Iff.rfl
  | cons o run ih => exact and_congr (forSomebody_iff u o) (ih (operate u o))

/-- The board takes the role, a key goes down, a coordinator asks for the role and
    vanishes; the key goes up. -/
def waitedFor : List Op :=
  [.start 0, .call (.tick 150), .call (.setKeysHeld true), .call (.hello 9 challenger 200), .call (.tick 350),
   .call (.setKeysHeld false)]

/-- With the challenger long gone and the table empty, the next tick resigns. -/
theorem resigns_to_nobody :
    ¬ ∀ (cfg : Config) (run : List Op), Reach.Admitted ForSomebody operate (uhrpInit cfg) run := by
  intro h
  have hlast : ∀ (u : Uhrp) (run : List Op) (o : Op), Reach.Admitted ForSomebody operate u (run ++ [o]) →
      ForSomebody (run.foldl operate u) o := by
    intro u run o ha
    induction run generalizing u with
    | nil => exact ha.1
    | cons _ run ih => exact ih _ ha.2
  obtain ⟨now, _, p, hp, hu, -⟩ := hlast _ waitedFor (.call (.tick 400)) (h boardCfg _) (by decide +kernel)
  have hempty : ∀ q ∈ (operate (waitedFor.foldl operate (uhrpInit boardCfg)) (.call (.tick 400))).peers.cells,
      q.used = false := by decide +kernel
  rw [hempty p hp] at hu
  cases hu

end DeskHop.Election
