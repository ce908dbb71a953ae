/-
  DeskHop.Election.Handover — rule 1: never hand over while a key is held, and never
  wait for longer than the deadline.

  A run is a started board and the calls made on it. Beside the board it records when
  the board was last called and last evaluated, and since when, in this tenure of the
  role, it has been out-prioritised (`Tenure`). Calls the code drops before it evaluates
  (its own HELLO come back, a HELLO from one board too many) evaluate nothing.

  Proved, for every run whose evaluations are less than 2^31 ms apart (`rule1`): the
  role is left only with a RESIGN, and then either no key is held, or the board has been
  out-prioritised for the whole deferral and the RESIGN comes with a release; while it
  is deferred nothing moves the deadline; and the first evaluation at or after the
  deadline resigns.

  With calls, rather than evaluations, less than 2^31 ms apart the last of these fails:
  a board that hears only itself for 2^31 ms takes the deadline to lie ahead
  (`dropped_calls_hide_the_deadline`).
-/

import DeskHop.Election.Table
import DeskHop.Lib.Reach

namespace DeskHop.Election

open DeskHop.Lib

/-- When a call is made; a change of the held keys has no time. -/
def Call.time? : Call → Option Nat
  | .hello _ _ now | .resign _ now | .tick now => some now
  | .setKeysHeld _ => none

structure Tenure where
  u : Uhrp
  /-- When the board was last called. -/
  called : Nat
  /-- When it was last evaluated. -/
  clock : Nat
  /-- Since when it has been out-prioritised, while it holds the role. -/
  since : Option Nat
  deriving DecidableEq

namespace Tenure

/-- Since when the board is out-prioritised, once the call is evaluated. -/
def sinceAt (t : Tenure) (c : Call) : Option Nat :=
  match t.since, evaluated t.u c with
  | some s, _ => some s
  | none, some (v, now) => if v.state = .active && challenged v (UInt32.ofNat now) then some now else none
  | none, none => none

def step (t : Tenure) (c : Call) : Tenure :=
  let u := Election.step t.u c
  { u := u
    called := c.time?.getD t.called
    clock := ((evaluated t.u c).map (·.2)).getD t.clock
    since := if u.state = .active then t.sinceAt c else none }

/-- The board starts at `t0`. -/
def start (cfg : Config) (t0 : Nat) : Tenure := ⟨uhrpStart (uhrpInit cfg) (UInt32.ofNat t0), t0, t0, none⟩

def Started (cfg : Config) (t0 : Nat) (t : Tenure) : Prop := t = start cfg t0

/-- Times do not go back, and less than 2^31 ms pass from one to the next. -/
def soon (last now : Nat) : Bool := last ≤ now && now < last + 2 ^ 31

/-- An evaluation follows the last one soon. -/
def EvaluatedSoon (t : Tenure) (c : Call) : Prop := (evaluated t.u c).all (fun p => soon t.clock p.2) = true

/-- A call follows the last one soon. -/
def CalledSoon (t : Tenure) (c : Call) : Prop := c.time?.all (soon t.called) = true

instance (t : Tenure) (c : Call) : Decidable (EvaluatedSoon t c) := inferInstanceAs (Decidable (_ = true))
instance (t : Tenure) (c : Call) : Decidable (CalledSoon t c) := inferInstanceAs (Decidable (_ = true))

/-- The moment the deferral of a challenge first noticed at `s` is over. -/
def deadline (t : Tenure) (s : Nat) : Nat := s + t.u.cfg.timing.handoverDeferMaxMs.toNat

/-! ## The invariant -/

structure Inv (t : Tenure) : Prop where
  idle : t.u.state ≠ .active → t.since = none
  pending : t.u.resignPending = t.since.isSome
  /-- The deadline stands where the first challenge put it, and is not yet due. -/
  due : ∀ s, t.since = some s →
    t.u.tResignDeadline = UInt32.ofNat (t.deadline s) ∧ s ≤ t.clock ∧ t.clock < t.deadline s

theorem start_inv (cfg : Config) (t0 : Nat) : Inv (start cfg t0) := by
  have h := enterState_same { uhrpInit cfg with started := true, vacancyClean := true } .learn (UInt32.ofNat t0)
  exact ⟨fun _ => rfl, h.resignPending, fun s hs => by cases hs⟩

theorem same_of_not_evaluated {t : Tenure} {c : Call} (h : evaluated t.u c = none) :
    (t.step c).u.state = t.u.state ∧ (t.step c).u.resignPending = t.u.resignPending ∧
      (t.step c).u.tResignDeadline = t.u.tResignDeadline ∧ (t.step c).u.cfg = t.u.cfg ∧
      (t.step c).clock = t.clock ∧ t.sinceAt c = t.since := by
  have hc : (t.step c).clock = t.clock := by show ((evaluated t.u c).map _).getD _ = _; rw [h]; rfl
  have hs : t.sinceAt c = t.since := by unfold sinceAt; rw [h]; cases t.since <;> rfl
  obtain ⟨b, he⟩ := step_of_not_evaluated h
  have hu : (t.step c).u = { (takeEvents t.u).2 with keysHeld := b } := he
  rw [hu]
  exact ⟨rfl, rfl, rfl, rfl, hc, hs⟩

/-- What a call does to a board that holds the role, in terms of when it was first
    out-prioritised. -/
theorem step_active {t : Tenure} {c : Call} {v : Uhrp} {now : Nat} (hi : Inv t) (ha : t.u.state = .active)
    (he : evaluated t.u c = some (v, now)) (hsoon : soon t.clock now = true) :
    ((t.step c).u.state = .listen ∧ (t.step c).u.ev.sendResign = true ∧ (t.step c).u.resignPending = false ∧
      (t.u.keysHeld = false ∨
        ∃ s, t.sinceAt c = some s ∧ t.deadline s ≤ now ∧ (t.step c).u.ev.broadcastRelease = true)) ∨
    ((t.step c).u.state = .active ∧ (t.step c).u.resignPending = (t.sinceAt c).isSome ∧
      ∀ s, t.sinceAt c = some s → (t.step c).u.tResignDeadline = UInt32.ofNat (t.deadline s) ∧ s ≤ now ∧
        now < t.deadline s) := by
  simp only [soon, Bool.and_eq_true, decide_eq_true_eq] at hsoon
  obtain ⟨hsame, hst⟩ := evaluated_same he
  have hva : v.state = .active := hsame.state.trans ha
  have hcfg : v.cfg = t.u.cfg := hsame.cfg
  have hpend : v.resignPending = t.since.isSome := hsame.resignPending.trans hi.pending
  have hdl : v.tResignDeadline = t.u.tResignDeadline := hsame.tResignDeadline
  obtain ⟨hadv, hadvs⟩ := step_of_evaluated he
  -- the resignation is due at `s + handoverDeferMaxMs`, for the `s` of `sinceAt`
  have hsince : t.sinceAt c = if v.resignPending then t.since
      else if challenged v (UInt32.ofNat now) then some now else none := by
    rw [hpend, sinceAt, he]
    cases t.since with
    | some s => rfl
    | none => simp [hva]
  have hdue : ∀ s, t.sinceAt c = some s → resignDue v (UInt32.ofNat now) = UInt32.ofNat (t.deadline s) ∧ s ≤ now ∧
      now < t.deadline s + 2 ^ 31 := by
    intro s hs
    rw [hsince] at hs
    unfold resignDue
    split at hs
    · rename_i hp
      obtain ⟨h1, h2, h3⟩ := hi.due s hs
      rw [if_pos hp, hdl]
      exact ⟨h1, by omega, by omega⟩
    · rename_i hp
      split at hs
      · cases hs
        rw [if_neg hp, hcfg, ofNat_add_toUInt32]
        exact ⟨rfl, Nat.le_refl _, by unfold deadline; omega⟩
      · cases hs
  obtain ⟨hframe, hres | hkept⟩ := reevaluate_active hst hva (UInt32.ofNat now)
  · left
    refine ⟨hadvs.trans hres.state, hadv.sendResign.trans hres.sendResign,
      hadv.resignPending.trans hres.resignPending, ?_⟩
    have hkeys : v.keysHeld = t.u.keysHeld := hsame.keysHeld
    cases hk : t.u.keysHeld with
    | false => exact Or.inl rfl
    | true =>
      right
      obtain ⟨s, hs⟩ : ∃ s, t.sinceAt c = some s := by
        rw [hsince]
        rcases hres.pending with hp | hch
        · rw [if_pos hp]
          exact Option.isSome_iff_exists.mp (hpend ▸ hp)
        · split
          · exact Option.isSome_iff_exists.mp (hpend ▸ ‹_›)
          · exact ⟨now, rfl⟩
      obtain ⟨h1, h2, h3⟩ := hdue s hs
      refine ⟨s, hs, ?_, ?_⟩
      · rcases hres.due with hd | hd
        · rw [hkeys, hk] at hd; cases hd
        · rw [h1] at hd
          by_contra hlt
          have : t.deadline s ≤ now + 2 ^ 31 := by
            have := t.u.cfg.timing.handoverDeferMaxMs.toNat_lt
            unfold deadline; omega
          rw [timeAfter_of_lt (by omega) this] at hd
          cases hd
      · show (Election.step t.u c).ev.broadcastRelease = true
        rw [hadv.broadcastRelease, hres.broadcastRelease, hkeys, hk, Bool.or_true]
  · right
    have hp : (reevaluate v (UInt32.ofNat now)).resignPending = (t.sinceAt c).isSome := by
      rw [hkept.resignPending, hsince]
      cases hv : v.resignPending with
      | true => rw [hpend] at hv; simp [hv]
      | false => cases challenged v (UInt32.ofNat now) <;> simp
    refine ⟨hadvs.trans hkept.state, hadv.resignPending.trans hp, fun s hs => ?_⟩
    have hpt : (reevaluate v (UInt32.ofNat now)).resignPending = true := by rw [hp, hs]; rfl
    obtain ⟨h1, h2, h3⟩ := hdue s hs
    obtain ⟨_, hnd⟩ := hkept.notDue hpt
    refine ⟨hadv.tResignDeadline.trans ((hkept.tResignDeadline hpt).trans h1), h2, ?_⟩
    by_contra hge
    rw [h1, timeAfter_of_le (by omega) h3] at hnd
    cases hnd

/-- A board without the role has no challenge to remember, before or after a call. -/
theorem step_idle {t : Tenure} {c : Call} {v : Uhrp} {now : Nat} (hi : Inv t) (ha : t.u.state ≠ .active)
    (he : evaluated t.u c = some (v, now)) : (t.step c).u.resignPending = false ∧ t.sinceAt c = none := by
  obtain ⟨hsame, hst⟩ := evaluated_same he
  have hva : v.state ≠ .active := fun h => ha (hsame.state.symm.trans h)
  have hnone := hi.idle ha
  have hp : v.resignPending = false := by
    rw [hsame.resignPending]
    exact hi.pending.trans (by rw [hnone]; rfl)
  obtain ⟨hadv, _⟩ := step_of_evaluated he
  refine ⟨hadv.resignPending.trans ?_, by simp [sinceAt, he, hnone, hva]⟩
  obtain ⟨_, ⟨a, hf⟩ | hw | ht⟩ := reevaluate_idle hst hva (UInt32.ofNat now)
  · exact hf.resignPending.trans hp
  · exact hw.resignPending.trans hp
  · exact ht.promoted.resignPending

theorem step_deadline (t : Tenure) (c : Call) (s : Nat) : (t.step c).deadline s = t.deadline s := by
  have hcfg : (t.step c).u.cfg = t.u.cfg := step_cfg t.u c
  rw [deadline, deadline, hcfg]

theorem step_inv {t : Tenure} {c : Call} (hi : Inv t) (hc : EvaluatedSoon t c) : Inv (t.step c) := by
  have hdl : ∀ s, (t.step c).deadline s = t.deadline s := t.step_deadline c
  have hidle : (t.step c).u.state ≠ .active → (t.step c).since = none := fun h => if_neg h
  have hact : (t.step c).u.state = .active → (t.step c).since = t.sinceAt c := fun h => if_pos h
  cases he : evaluated t.u c with
  | none =>
    obtain ⟨h1, h2, h3, _, h5, h6⟩ := same_of_not_evaluated he
    have hs : (t.step c).since = t.since := by
      by_cases ha : t.u.state = .active
      · rw [hact (h1.trans ha), h6]
      · rw [hidle (h1.symm ▸ ha), hi.idle ha]
    refine ⟨hidle, by rw [h2, hs]; exact hi.pending, fun s h => ?_⟩
    rw [hdl, h3, h5]
    exact hi.due s (hs ▸ h)
  | some p =>
    obtain ⟨v, now⟩ := p
    have hsoon : soon t.clock now = true := by simpa [EvaluatedSoon, he] using hc
    have hclock : (t.step c).clock = now := by show ((evaluated t.u c).map _).getD _ = _; rw [he]; rfl
    by_cases ha : t.u.state = .active
    · rcases step_active hi ha he hsoon with ⟨h1, _, h3, _⟩ | ⟨h1, h2, h3⟩
      · have hn := hidle (by rw [h1]; decide)
        exact ⟨hidle, by rw [h3, hn]; rfl, fun s h => by rw [hn] at h; cases h⟩
      · refine ⟨hidle, by rw [h2, hact h1], fun s h => ?_⟩
        rw [hdl, hclock]
        exact h3 s ((hact h1).symm.trans h)
    · obtain ⟨h1, h2⟩ := step_idle hi ha he
      have hn : (t.step c).since = none := by
        by_cases h : (t.step c).u.state = .active
        · rw [hact h, h2]
        · exact hidle h
      exact ⟨hidle, by rw [h1, hn]; rfl, fun s h => by rw [hn] at h; cases h⟩

end Tenure

open Tenure

theorem tenure_inv {cfg : Config} {t0 : Nat} {t : Tenure} (h : Reach (Started cfg t0) EvaluatedSoon Tenure.step t) :
    t.Inv :=
  h.inv (fun _ hs => hs ▸ start_inv cfg t0) (fun _ _ hi hc => step_inv hi hc)

/-! ## Rule 1 -/

/-- Rule 1, of one call: the role is left only with a RESIGN, which waits for the keys or
    for the deadline; the deadline does not move; at or after it the board resigns. -/
def Rule1 (t : Tenure) (c : Call) : Prop :=
  (t.u.state = .active → (t.step c).u.state ≠ .active →
    (t.step c).u.ev.sendResign = true ∧
    (t.u.keysHeld = false ∨ ∃ s now, t.sinceAt c = some s ∧ c.time? = some now ∧ t.deadline s ≤ now ∧
      (t.step c).u.ev.broadcastRelease = true)) ∧
  (∀ s, t.since = some s → (t.step c).u.state = .active →
    (t.step c).since = some s ∧ (t.step c).u.tResignDeadline = t.u.tResignDeadline) ∧
  (∀ s v now, t.sinceAt c = some s → evaluated t.u c = some (v, now) → t.deadline s ≤ now →
    (t.step c).u.state ≠ .active ∧ (t.step c).u.ev.sendResign = true)

theorem evaluated_time {u v : Uhrp} {c : Call} {now : Nat} (h : evaluated u c = some (v, now)) :
    c.time? = some now := by
  cases c with
  | hello src hl n =>
    simp only [evaluated, prepared] at h
    split at h
    · cases h
    split at h <;> cases h
    rfl
  | resign src n => simp only [evaluated, prepared] at h; split at h <;> cases h; rfl
  | tick n => simp only [evaluated, prepared] at h; split at h <;> cases h; rfl
  | setKeysHeld b => cases h

theorem rule1 {cfg : Config} {t0 : Nat} {t : Tenure} (h : Reach (Started cfg t0) EvaluatedSoon Tenure.step t)
    (c : Call) (hc : EvaluatedSoon t c) : Rule1 t c := by
  have hi := tenure_inv h
  refine ⟨fun ha hn => ?_, fun s hs ha => ?_, fun s v now hs he hd => ?_⟩
  · cases he : evaluated t.u c with
    | none => exact absurd ((same_of_not_evaluated he).1.trans ha) hn
    | some p =>
      obtain ⟨v, now⟩ := p
      have hsoon : soon t.clock now = true := by simpa [EvaluatedSoon, he] using hc
      rcases step_active hi ha he hsoon with ⟨_, h2, _, h4⟩ | ⟨h1, _⟩
      · refine ⟨h2, h4.imp_right ?_⟩
        rintro ⟨s, hs, hd, hr⟩
        exact ⟨s, now, hs, evaluated_time he, hd, hr⟩
      · exact absurd h1 hn
  · have hsince : t.sinceAt c = some s := by unfold sinceAt; rw [hs]
    have hnext : (t.step c).since = some s := (if_pos ha).trans hsince
    refine ⟨hnext, ?_⟩
    rw [((step_inv hi hc).due s hnext).1, (hi.due s hs).1]
    exact congrArg UInt32.ofNat (t.step_deadline c s)
  · have hsoon : soon t.clock now = true := by simpa [EvaluatedSoon, he] using hc
    have ha : t.u.state = .active := by
      by_contra hna
      rw [(step_idle hi hna he).2] at hs
      cases hs
    rcases step_active hi ha he hsoon with ⟨h1, h2, _⟩ | ⟨_, _, h3⟩
    · exact ⟨by rw [h1]; decide, h2⟩
    · have := (h3 s hs).2.2
      omega

/-! ## A deadline that is never seen -/

def boardCfg : Config := ⟨0x11, 1, 100, capHidOut, false, timingDefault⟩

/-- A coordinator that has just booted, and wants the role. -/
def challenger : Hello := ⟨UhrpState.learn.toByte, 220, helloFPreempt, 15, 0x99, capCoord, 0⟩

def ownHello : Hello := ⟨UhrpState.active.toByte, 100, 0, 15, 0x11, capHidOut, 0⟩

/-- The board takes the role, a key goes down, a coordinator challenges it, and the
    board hears nothing but its own HELLOs for 2^31 ms. -/
def strandedCalls : List Call :=
  [.tick 150, .setKeysHeld true, .hello 9 challenger 200, .hello 1 ownHello (200 + 2 ^ 30),
   .hello 1 ownHello (200 + 2 ^ 31)]

def stranded : Tenure := strandedCalls.foldl Tenure.step (Tenure.start boardCfg 0)

/-- With calls that evaluate nothing in between, the board evaluated after the deadline
    keeps the role. -/
theorem dropped_calls_hide_the_deadline :
    ¬ ∀ (cfg : Config) (t0 : Nat) (t : Tenure), Reach (Started cfg t0) CalledSoon Tenure.step t →
      ∀ c, CalledSoon t c → Rule1 t c := by
  intro h
  have h0 : Reach (Started boardCfg 0) CalledSoon Tenure.step (Tenure.start boardCfg 0) := .init rfl
  have hr : Reach (Started boardCfg 0) CalledSoon Tenure.step stranded := h0.run strandedCalls (by decide +kernel)
  have hlaw := (h boardCfg 0 stranded hr (.tick (2300 + 2 ^ 31)) (by decide +kernel)).2.2 200
  obtain ⟨p, hp⟩ : ∃ p, evaluated stranded.u (.tick (2300 + 2 ^ 31)) = some p :=
    Option.isSome_iff_exists.mp (by decide +kernel)
  have hnow : p.2 = 2300 + 2 ^ 31 := by
    have := evaluated_time (u := stranded.u) (v := p.1) hp
    simpa [Call.time?] using this.symm
  exact (hlaw p.1 p.2 (by decide +kernel) hp (by rw [hnow]; decide +kernel)).1 (by decide +kernel)

/-- The board evaluated in time instead. -/
def deferredCalls : List Call := [.tick 150, .setKeysHeld true, .hello 9 challenger 200, .hello 9 challenger 2100]

def deferred : Tenure := deferredCalls.foldl Tenure.step (Tenure.start boardCfg 0)

/-- The deadline is met with the key still held: the board resigns and releases. -/
theorem rule1_of_a_stuck_key :
    Rule1 deferred (.tick 2200) ∧ deferred.u.state = .active ∧ (deferred.step (.tick 2200)).u.state = .listen ∧
      (deferred.step (.tick 2200)).u.ev.broadcastRelease = true := by
  have h0 : Reach (Started boardCfg 0) EvaluatedSoon Tenure.step (Tenure.start boardCfg 0) := .init rfl
  have hr : Reach (Started boardCfg 0) EvaluatedSoon Tenure.step deferred := h0.run deferredCalls (by decide +kernel)
  exact ⟨rule1 hr _ (by decide +kernel), by decide +kernel, by decide +kernel, by decide +kernel⟩

end DeskHop.Election
