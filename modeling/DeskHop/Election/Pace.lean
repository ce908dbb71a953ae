/-
  DeskHop.Election.Pace — when a board next says HELLO (`core/src/uhrp.c`).

  `dhp_uhrp_tick` sends a HELLO when one is due, and a promotion sends one at once; both
  put the next one an interval later, and nothing else moves it (`step_paced`). So after a
  tick the next HELLO lies ahead (`tick_ahead`). What a board has of a peer is what the
  peer's last message made of it (`written`).
-/

import DeskHop.Election.Handover
import DeskHop.Election.Table

namespace DeskHop.Election

open DeskHop.Lib

/-! ## When the next HELLO is due -/

/-- The time of the next HELLO stays, or one is being sent and the interval starts anew. -/
def Paced (u v : Uhrp) (now : Time) : Prop :=
  v.tNextHello = u.tNextHello ∨ (v.ev.sendHello = true ∧ v.tNextHello = now + u.cfg.timing.helloMs.toUInt32)

theorem enterState_tNextHello (u : Uhrp) (s : UhrpState) (now : Time) : (enterState u s now).tNextHello = u.tNextHello := by
  unfold enterState
  split <;> rfl

theorem paced_enter {u x : Uhrp} (s : UhrpState) {now : Time} (h : x.tNextHello = u.tNextHello) :
    Paced u (enterState x s now) now := Or.inl ((enterState_tNextHello x s now).trans h)

theorem paced_become {u x : Uhrp} {now : Time} (clean : Bool) (h : x.cfg = u.cfg) : Paced u (becomeActive x now clean) now := by
  refine Or.inr ⟨rfl, ?_⟩
  have hcfg := (enterState_same x .active now).cfg.trans h
  unfold becomeActive
  dsimp only
  split <;> rw [← hcfg]

theorem paced_service {u x : Uhrp} {now : Time} (h : x.tNextHello = u.tNextHello) : Paced u (serviceResign x now) now := by
  unfold serviceResign
  split
  · exact Or.inl h
  split
  · exact Or.inl h
  · refine paced_enter .listen ?_
    split <;> exact h

theorem reevaluate_paced (u : Uhrp) (now : Time) : Paced u (reevaluate u now) now := by
  unfold reevaluate
  split
  · exact Or.inl rfl
  simp only [decideRole]
  split
  · -- LEARN
    simp only [reevaluateLearn]
    split
    · exact paced_enter _ rfl
    split
    · exact Or.inl rfl
    split
    · exact paced_become true rfl
    · exact paced_enter _ rfl
  split
  · -- ACTIVE
    simp only [reevaluateActive]
    refine paced_service ?_
    split
    · unfold scheduleResign
      split <;> rfl
    · rfl
  · simp only [reevaluateIdle]
    split
    · exact paced_enter _ rfl
    split
    · exact paced_enter _ rfl
    split
    · exact paced_become _ rfl
    split
    · exact paced_enter _ rfl
    split
    · exact paced_become _ rfl
    · exact Or.inl rfl

theorem prepared_tNextHello {u v : Uhrp} {c : Call} {now : Nat} (h : prepared u c = some (v, now)) :
    v.tNextHello = u.tNextHello := by
  cases c with
  | hello src hl t =>
    simp only [prepared] at h
    split at h
    · cases h
    split at h <;> cases h
    rfl
  | resign src t =>
    simp only [prepared] at h
    split at h <;> cases h
    split <;> rfl
  | tick t =>
    simp only [prepared] at h
    split at h <;> cases h
    split <;> rfl
  | setKeysHeld b => cases h

theorem reevaluate_cfg {u : Uhrp} (hs : u.started = true) (now : Time) : (reevaluate u now).cfg = u.cfg := by
  by_cases ha : u.state = .active
  · exact (reevaluate_active hs ha now).1.cfg
  · exact (reevaluate_idle hs ha now).1.cfg

theorem step_started (u : Uhrp) (c : Call) : (step u c).started = u.started := by
  cases he : evaluated u c with
  | none =>
    obtain ⟨b, hb⟩ := step_of_not_evaluated he
    rw [hb]
    rfl
  | some r => exact (step_peers (v := r.1) he).2.2.trans (prepared_same he).2.symm

theorem step_unique {u : Uhrp} {c : Call} (h : u.peers.Unique) : (step u c).peers.Unique := by
  cases he : evaluated u c with
  | none =>
    obtain ⟨b, hb⟩ := step_of_not_evaluated he
    rw [hb]
    exact h
  | some r =>
    rw [(step_peers (v := r.1) he).1]
    exact aged_unique _ (prepared_unique he h)

theorem step_paced {u v : Uhrp} {c : Call} {now : Nat} (he : evaluated u c = some (v, now)) :
    Paced u (step u c) (UInt32.ofNat now) := by
  have hnext : v.tNextHello = u.tNextHello := prepared_tNextHello (u := (takeEvents u).2) he
  obtain ⟨hsame, hst⟩ := evaluated_same he
  have hr : Paced u (reevaluate v (UInt32.ofNat now)) (UInt32.ofNat now) := by
    have := reevaluate_paced v (UInt32.ofNat now)
    rwa [Paced, hnext, hsame.cfg] at this
  rw [step, call_of_prepared he]
  split
  · unfold advertise
    split
    · refine Or.inr ⟨rfl, ?_⟩
      show UInt32.ofNat now + (reevaluate v (UInt32.ofNat now)).cfg.timing.helloMs.toUInt32 = _
      rw [reevaluate_cfg hst, hsame.cfg]
      rfl
    · exact hr
  · exact hr

/-- Once ticked, the next HELLO lies ahead. -/
theorem tick_ahead {u : Uhrp} {now due : Nat} (hs : u.started = true) (hh : 0 < u.cfg.timing.helloMs.toNat)
    (hd : (step u (.tick now)).tNextHello = UInt32.ofNat due) (hle : now ≤ due) (hlt : due ≤ now + 2 ^ 16) :
    now < due := by
  obtain ⟨v, he⟩ : ∃ v, evaluated u (.tick now) = some (v, now) :=
    ⟨_, if_neg (by simpa [takeEvents] using hs)⟩
  obtain ⟨hsame, hst⟩ := evaluated_same he
  rw [step, call_of_prepared he, if_pos (show isTick (.tick now) = true from rfl), advertise] at hd
  by_contra hnot
  obtain rfl : due = now := by omega
  split at hd
  · have hn : (reevaluate v (UInt32.ofNat due)).cfg.timing.helloMs = u.cfg.timing.helloMs := by
      rw [reevaluate_cfg hst, hsame.cfg]
      rfl
    have hh16 := u.cfg.timing.helloMs.toNat_lt
    rw [hn, ofNat_add_toUInt32] at hd
    have := congrArg UInt32.toNat hd
    simp only [UInt32.toNat_ofNat'] at this
    omega
  · rename_i hf
    rw [hd, timeAfter_self] at hf
    exact hf rfl

theorem uhrpStart_same (u : Uhrp) (now : Time) :
    (uhrpStart u now).cfg = u.cfg ∧ (uhrpStart u now).peers = u.peers ∧ (uhrpStart u now).started = true := by
  have h := enterState_same { u with started := true, vacancyClean := true } .learn now
  exact ⟨h.cfg, h.peers, h.started⟩

theorem uhrpInit_timing (cfg : Config) (h : cfg.timing.helloMs ≠ 0) : (uhrpInit cfg).cfg.timing = cfg.timing := by
  by_cases hp : cfg.priority = 0
  · simp only [uhrpInit, hp, if_true, h, if_false]
  · simp only [uhrpInit, hp, h, if_false]

/-! ## What is written of a peer -/

/-- The entry of `a` as the call hands it to the evaluation. -/
theorem written {u v : Uhrp} {c : Call} {now : Nat} {a : Addr} (he : evaluated u c = some (v, now)) {p : Peer}
    (hp : v.peers.find? a = some p) :
    (c.sender? = some a ∧ p.lastSeen = UInt32.ofNat now ∧ (u.peers.find? a = none → a ≠ u.cfg.addr)) ∨
      (c.sender? ≠ some a ∧ u.peers.find? a = some p) := by
  by_cases hs : c.sender? = some a
  · left
    cases c with
    | hello src hl t =>
      cases hs
      obtain ⟨q, hq⟩ := prepared_find_hello he
      rw [hq] at hp
      cases hp
      refine ⟨rfl, rfl, fun _ hown => ?_⟩
      rw [evaluated, prepared, if_pos (by simp [takeEvents, hown])] at he
      cases he
    | resign src t =>
      cases hs
      rw [prepared_find_resign he] at hp
      obtain ⟨q, hq, rfl⟩ := Option.map_eq_some_iff.mp hp
      exact ⟨rfl, rfl, fun hnone => by rw [show u.peers.find? a = some q from hq] at hnone; cases hnone⟩
    | tick t => cases hs
    | setKeysHeld b => cases hs
  · exact Or.inr ⟨hs, (prepared_find_other he hs).symm.trans hp⟩

/-- A peer in the table does not go unheard. -/
theorem evaluated_of_known {u : Uhrp} {c : Call} {a : Addr} {p : Peer} (hs : u.started = true) (hne : a ≠ u.cfg.addr)
    (hp : u.peers.find? a = some p) (hc : c.sender? = some a) : evaluated u c ≠ none := by
  intro he
  cases c with
  | hello src hl t =>
    cases hc
    have hg : peerGet (takeEvents u).2 a = some u.peers := by
      show (u.peers.ensure (freshPeer a)).map (·.2) = _
      rw [Slots.ensure_of_find (b := p) hp]
      rfl
    rw [evaluated, prepared, if_neg (by simp [takeEvents, hs, hne]), hg] at he
    cases he
  | resign src t =>
    cases hc
    rw [evaluated, prepared, if_neg (by simp [takeEvents, hs])] at he
    cases he
  | tick t => cases hc
  | setKeysHeld b => cases hc

end DeskHop.Election
