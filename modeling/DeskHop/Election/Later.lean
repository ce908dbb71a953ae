/-
  DeskHop.Election.Later — the election, by a clock that is later by a constant.

  Every time the board compares is one it has set before: when it entered its state and
  when its next HELLO is due, once it is started; when it must stand down, while it is to;
  when a peer was heard, while it is in the table (`Uhrp.Later`).
-/

import DeskHop.Core.Later
import DeskHop.Election.Step
import DeskHop.Lib.Alike
import DeskHop.Lib.Outputs

namespace DeskHop.Election

open DeskHop.Lib

inductive UhrpOp where
  | start (now : Time)
  | rxHello (src : Addr) (h : Hello) (now : Time)
  | rxResign (src : Addr) (now : Time)
  | setKeysHeld (held : Bool)
  | tick (now : Time)
  | takeEvents
  | buildHello
  | reachableCaps
  | isActive

def UhrpOp.later (c : Time) : UhrpOp → UhrpOp
  | .start now => .start (now + c)
  | .rxHello src h now => .rxHello src h (now + c)
  | .rxResign src now => .rxResign src (now + c)
  | .tick now => .tick (now + c)
  | o => o

/-- What an operation returns. -/
inductive UhrpReply where
  | nothing
  | events (ev : Events)
  | hello (h : Hello)
  | caps (caps : UInt16)
  | truth (b : Bool)

/-- `q` is `p`, and while it is in use, heard later by `c`. -/
def PeerLater (c : Time) (p q : Peer) : Prop := ∃ t, q = { p with lastSeen := t } ∧ (p.used = true → t = p.lastSeen + c)

theorem matching_peerLater (c : Time) : Slots.Matching (PeerLater c) := by
  rintro p q ⟨t, rfl, -⟩
  exact ⟨rfl, rfl⟩

namespace Uhrp

/-- The board, with other times. -/
def retimed (u : Uhrp) (entered next expiry deadline : Time) (peers : Peers) : Uhrp :=
  { u with tStateEntered := entered, tNextHello := next, tActiveExpiry := expiry, tResignDeadline := deadline
           peers := peers }

def untimed (u : Uhrp) : Uhrp := u.retimed 0 0 0 0 (u.peers.map fun p => { p with lastSeen := 0 })

def perform (u : Uhrp) : UhrpOp → Uhrp × UhrpReply
  | .start now => (uhrpStart u now, .nothing)
  | .rxHello src h now => (Election.rxHello u src h now, .nothing)
  | .rxResign src now => (Election.rxResign u src now, .nothing)
  | .setKeysHeld held => (Election.setKeysHeld u held, .nothing)
  | .tick now => (Election.tick u now, .nothing)
  | .takeEvents => ((Election.takeEvents u).2, .events (Election.takeEvents u).1)
  | .buildHello => (u, .hello (Election.buildHello u))
  | .reachableCaps => (u, .caps (Election.reachableCaps u))
  | .isActive => (u, .truth (Election.isActive u))

/-- One operation, and what it returns and leaves. -/
def respond (u : Uhrp) (o : UhrpOp) : Uhrp × UhrpReply × Uhrp := ((u.perform o).1, (u.perform o).2, (u.perform o).1.untimed)

/-- `v` is `u`, and every time that may be looked at is later by `c`. -/
def Later (c : Time) (u v : Uhrp) : Prop :=
  ∃ entered next expiry deadline peers, v = u.retimed entered next expiry deadline peers ∧
    (u.started = true → entered = u.tStateEntered + c ∧ next = u.tNextHello + c) ∧
    (u.resignPending = true → deadline = u.tResignDeadline + c) ∧ Slots.Alike (PeerLater c) u.peers peers

variable {c : Time} {u v : Uhrp}

theorem Later.untimed (h : Later c u v) : v.untimed = u.untimed := by
  obtain ⟨a, b, e, d, peers, rfl, -, -, hp⟩ := h
  have hpeers : peers.map (fun p : Peer => { p with lastSeen := 0 }) = u.peers.map fun p : Peer => { p with lastSeen := 0 } :=
    hp.map_eq fun p q hpq => by
      obtain ⟨t, rfl, -⟩ := hpq
      rfl
  simp only [Uhrp.untimed, retimed, hpeers]

/-! ## What the table says -/

theorem Later.active (h : Later c u v) : Option.Rel (PeerLater c) (findActivePeer u) (findActivePeer v) := by
  obtain ⟨a, b, e, d, peers, rfl, -, -, hp⟩ := h
  refine forall₂_find? (fun p q hpq => ?_) hp
  obtain ⟨t, rfl, -⟩ := hpq
  rfl

theorem Later.field (h : Later c u v) : field v = field u := by
  obtain ⟨a, b, e, d, peers, rfl, -, -, hp⟩ := h
  refine forall₂_foldl (fun f p q hpq => ?_) hp (fieldSelf u)
  obtain ⟨t, rfl, -⟩ := hpq
  rfl

theorem Later.bestPreempts (h : Later c u v) (f : Field) : bestPreempts v f = bestPreempts u f := by
  obtain ⟨a, b, e, d, peers, rfl, -, -, hp⟩ := h
  refine forall₂_any (fun p q hpq => ?_) hp
  obtain ⟨t, rfl, -⟩ := hpq
  rfl

theorem Later.reachableCaps (h : Later c u v) : reachableCaps v = reachableCaps u := by
  obtain ⟨a, b, e, d, peers, rfl, -, -, hp⟩ := h
  refine forall₂_foldl (fun caps p q hpq => ?_) hp u.cfg.caps
  obtain ⟨t, rfl, -⟩ := hpq
  rfl

/-- A peer in use is silent for too long, or not, by either clock. -/
theorem Later.expired (h : Later c u v) {p q : Peer} (hpq : PeerLater c p q) (hu : p.used = true) (now : Time) :
    expired v (now + c) q = expired u now p := by
  obtain ⟨a, b, e, d, peers, rfl, -, -, -⟩ := h
  obtain ⟨t, rfl, ht⟩ := hpq
  obtain rfl := ht hu
  exact timeAfter_add ..

theorem Later.peerAge (h : Later c u v) (now : Time) : Later c (peerAge u now) (peerAge v (now + c)) := by
  have hexp := fun p q (hpq : PeerLater c p q) => h.expired hpq
  obtain ⟨a, b, e, d, peers, rfl, hs, hr, hp⟩ := h
  refine ⟨a, b, e, d, _, rfl, hs, hr, hp.map fun p q hpq => ?_⟩
  have hq : q.used = p.used := (matching_peerLater c p q hpq).1
  cases hu : p.used with
  | false =>
    simp only [hq, hu, Bool.false_and, Bool.false_eq_true, if_false]
    exact hpq
  | true =>
    simp only [hq, hu, Bool.true_and, hexp p q hpq hu]
    obtain ⟨t, rfl, ht⟩ := hpq
    split
    · exact ⟨t, rfl, fun h => (by cases h)⟩
    · exact ⟨t, rfl, ht⟩

/-! ## Entering a state -/

theorem Later.enterState (h : Later c u v) (s : UhrpState) (now : Time) :
    Later c (enterState u s now) (enterState v s (now + c)) := by
  obtain ⟨a, b, e, d, peers, rfl, hs, hr, hp⟩ := h
  refine ite_twin Iff.rfl (fun _ => ?_) (fun _ => ?_)
  · exact ⟨a, b, e, d, peers, rfl, hs, hr, hp⟩
  · exact ⟨now + c, b, e, d, peers, rfl, fun hu => ⟨rfl, (hs hu).2⟩, hr, hp⟩

theorem helloDue_later (now t c : Time) : now + c + t = now + t + c := by grind

theorem Later.becomeActive (h : Later c u v) (now : Time) (clean : Bool) :
    Later c (becomeActive u now clean) (becomeActive v (now + c) clean) := by
  have hvalid : v.activeValid = u.activeValid := by
    obtain ⟨a, b, e, d, peers, rfl, -, -, -⟩ := h
    rfl
  obtain ⟨a, b, e, d, peers, hv, hs, hr, hp⟩ := h.enterState .active now
  unfold Election.becomeActive
  dsimp only
  rw [hv, hvalid]
  dsimp only [retimed]
  rw [helloDue_later]
  split
  · exact ⟨a, _, e, d, peers, rfl, fun hu => ⟨(hs hu).1, rfl⟩, fun hr => (by cases hr), hp⟩
  · exact ⟨a, _, e, d, peers, rfl, fun hu => ⟨(hs hu).1, rfl⟩, fun hr => (by cases hr), hp⟩

theorem Later.follow (h : Later c u v) {act act' : Peer} (hact : PeerLater c act act') :
    Later c (follow u act) (follow v act') := by
  obtain ⟨a, b, e, d, peers, rfl, hs, hr, hp⟩ := h
  obtain ⟨t, rfl, -⟩ := hact
  exact ⟨a, b, e, d, peers, rfl, hs, hr, hp⟩

/-! ## Rule 1 -/

theorem Later.scheduleResign (h : Later c u v) (now : Time) :
    Later c (scheduleResign u now) (scheduleResign v (now + c)) := by
  obtain ⟨a, b, e, d, peers, rfl, hs, hr, hp⟩ := h
  refine ite_twin Iff.rfl (fun _ => ?_) (fun _ => ?_)
  · exact ⟨a, b, e, d, peers, rfl, hs, hr, hp⟩
  · exact ⟨a, b, e, _, peers, rfl, hs, fun _ => helloDue_later .., hp⟩

theorem Later.serviceResign (h : Later c u v) (now : Time) :
    Later c (serviceResign u now) (serviceResign v (now + c)) := by
  obtain ⟨a, b, e, d, peers, rfl, hs, hr, hp⟩ := h
  refine ite_twin Iff.rfl (fun _ => ⟨a, b, e, d, peers, rfl, hs, hr, hp⟩) (fun (hpend : ¬(!u.resignPending) = true) => ?_)
  obtain rfl := hr (by simpa using hpend)
  have hwait : (u.keysHeld && !timeAfter (now + c) (u.tResignDeadline + c)) = (u.keysHeld && !timeAfter now u.tResignDeadline) := by
    rw [timeAfter_add_self]
  refine ite_twin (iff_of_eq (congrArg (· = true) hwait)) (fun _ => ⟨a, b, e, _, peers, rfl, hs, hr, hp⟩) (fun _ => ?_)
  refine Later.enterState ?_ .listen now
  by_cases hk : u.keysHeld = true
  · simp only [if_pos hk, if_pos (show (u.retimed a b e (u.tResignDeadline + c) peers).keysHeld = true from hk)]
    exact ⟨a, b, e, _, peers, rfl, hs, fun hp => (by cases hp), hp⟩
  · simp only [if_neg hk, if_neg (show ¬(u.retimed a b e (u.tResignDeadline + c) peers).keysHeld = true from hk)]
    exact ⟨a, b, e, _, peers, rfl, hs, fun hp => (by cases hp), hp⟩

/-! ## Central evaluation -/

theorem Later.reevaluateLearn (h : Later c u v) (hst : u.started = true) (f : Field) {act act' : Option Peer}
    (hact : Option.Rel (PeerLater c) act act') (now : Time) :
    Later c (reevaluateLearn u f act now) (reevaluateLearn v f act' (now + c)) := by
  cases hact with
  | some hact => exact (h.follow hact).enterState (standbyOrListen f) now
  | none =>
    have hlearnt : timeAfter (now + c) (v.tStateEntered + v.cfg.timing.learnMs.toUInt32) =
        timeAfter now (u.tStateEntered + u.cfg.timing.learnMs.toUInt32) := by
      obtain ⟨a, b, e, d, peers, rfl, hs, -, -⟩ := h
      obtain ⟨rfl, -⟩ := hs hst
      exact timeAfter_add ..
    unfold Election.reevaluateLearn
    rw [hlearnt]
    dsimp only
    split
    · exact h
    split
    · exact h.becomeActive now true
    · exact h.enterState (standbyOrListen f) now

theorem Later.reevaluateActive (h : Later c u v) (f : Field) {act act' : Option Peer}
    (hact : Option.Rel (PeerLater c) act act') (now : Time) :
    Later c (reevaluateActive u f act now) (reevaluateActive v f act' (now + c)) := by
  have hout : outPrioritised v f act' = outPrioritised u f act := by
    have hpre := h.bestPreempts f
    obtain ⟨a, b, e, d, peers, rfl, -, -, -⟩ := h
    cases hact with
    | some hact =>
      obtain ⟨t, rfl, -⟩ := hact
      exact congrArg (fun pre => better _ _ u.cfg.priority u.cfg.uid || (!f.bestIsSelf && pre)) hpre
    | none => exact congrArg (fun pre => !f.bestIsSelf && pre) hpre
  unfold Election.reevaluateActive
  rw [hout]
  refine Later.serviceResign ?_ now
  split
  · exact h.scheduleResign now
  · exact h

theorem Later.reevaluateIdle (h : Later c u v) (hst : u.started = true) (f : Field) {act act' : Option Peer}
    (hact : Option.Rel (PeerLater c) act act') (now : Time) :
    Later c (reevaluateIdle u f act now) (reevaluateIdle v f act' (now + c)) := by
  cases hact with
  | some hact =>
    refine Later.enterState ?_ (standbyOrListen f) now
    obtain ⟨a, b, e, d, peers, hv, hs, hr, hp⟩ := h.follow hact
    rw [hv]
    exact ⟨a, b, _, d, peers, rfl, hs, hr, hp⟩
  | none =>
    obtain ⟨a, b, e, d, peers, rfl, hs, hr, hp⟩ := h
    have hnone : Later c { u with active := addrNone } { u.retimed a b e d peers with active := addrNone } :=
      ⟨a, b, e, d, peers, rfl, hs, hr, hp⟩
    obtain ⟨ha, -⟩ := hs hst
    have hheld := timeAfter_add now u.tStateEntered c u.cfg.timing.holdMs.toUInt32
    rw [← ha] at hheld
    refine ite_twin Iff.rfl (fun _ => hnone.enterState (standbyOrListen f) now) (fun _ => ?_)
    refine ite_twin Iff.rfl (fun _ => hnone.becomeActive now u.vacancyClean) (fun _ => ?_)
    refine ite_twin Iff.rfl (fun _ => hnone.enterState .speak now) (fun _ => ?_)
    exact ite_twin (iff_of_eq (congrArg (· = true) hheld)) (fun _ => hnone.becomeActive now u.vacancyClean) (fun _ => hnone)

theorem Later.reevaluate (h : Later c u v) (now : Time) : Later c (reevaluate u now) (reevaluate v (now + c)) := by
  have hage := h.peerAge now
  have hst : (Election.peerAge u now).started = u.started := rfl
  have hvst : v.started = u.started := by
    obtain ⟨a, b, e, d, peers, rfl, -, -, -⟩ := h
    rfl
  unfold Election.reevaluate
  rw [hvst]
  by_cases hstarted : (!u.started) = true
  · rw [if_pos hstarted, if_pos hstarted]
    exact h
  rw [if_neg hstarted, if_neg hstarted]
  have hstarted : u.started = true := by simpa using hstarted
  rw [← hst] at hstarted
  generalize Election.peerAge u now = u at hage hstarted
  generalize Election.peerAge v (now + c) = v at hage
  have hact := hage.active
  have hfield := hage.field
  have hstate : v.state = u.state := by
    obtain ⟨a, b, e, d, peers, rfl, -, -, -⟩ := hage
    rfl
  have hkept : Later c { u with standby := (Election.field u).backupAddr }
      { v with standby := (Election.field u).backupAddr } := by
    obtain ⟨a, b, e, d, peers, rfl, hs, hr, hp⟩ := hage
    exact ⟨a, b, e, d, peers, rfl, hs, hr, hp⟩
  unfold decideRole
  dsimp only
  rw [hfield]
  refine ite_twin (iff_of_eq (congrArg (· = UhrpState.learn) hstate)) (fun _ => ?_) (fun _ => ?_)
  · exact hkept.reevaluateLearn hstarted (Election.field u) hact now
  refine ite_twin (iff_of_eq (congrArg (· = UhrpState.active) hstate)) (fun _ => ?_) (fun _ => ?_)
  · exact hkept.reevaluateActive (Election.field u) hact now
  · exact hkept.reevaluateIdle hstarted (Election.field u) hact now

/-! ## One operation -/

theorem Later.start (h : Later c u v) (now : Time) : Later c (uhrpStart u now) (uhrpStart v (now + c)) := by
  obtain ⟨a, b, e, d, peers, rfl, -, hr, hp⟩ := h
  unfold uhrpStart Election.enterState
  by_cases hl : u.state = .learn
  · simp only [if_pos hl, if_pos (show (u.retimed a b e d peers).state = .learn from hl)]
    exact ⟨now + c, now + c, e, d, peers, rfl, fun _ => ⟨rfl, rfl⟩, hr, hp⟩
  · simp only [if_neg hl, if_neg (show ¬(u.retimed a b e d peers).state = .learn from hl)]
    exact ⟨now + c, now + c, e, d, peers, rfl, fun _ => ⟨rfl, rfl⟩, hr, hp⟩

/-- Who speaks gets an entry that was heard just now, or there is no room for one. -/
theorem Later.peerHeard (h : Later c u v) (src : Addr) (m : Hello) (now : Time) :
    Option.Rel (Slots.Alike (PeerLater c)) ((peerGet u src).map fun t => t.modify src (heard m now))
      ((peerGet v src).map fun t => t.modify src (heard m (now + c))) := by
  obtain ⟨a, b, e, d, peers, rfl, -, -, hp⟩ := h
  refine hp.ensure_modify (matching_peerLater c) (a := freshPeer src) rfl ⟨now + c, rfl, fun _ => rfl⟩ fun p q hpq _ _ => ?_
  obtain ⟨t, rfl, -⟩ := hpq
  exact ⟨now + c, rfl, fun _ => rfl⟩

theorem Later.rxHello (h : Later c u v) (src : Addr) (m : Hello) (now : Time) :
    Later c (rxHello u src m now) (rxHello v src m (now + c)) := by
  have hheard := h.peerHeard src m now
  obtain ⟨a, b, e, d, peers, rfl, hs, hr, hp⟩ := h
  refine ite_twin Iff.rfl (fun _ => ⟨a, b, e, d, peers, rfl, hs, hr, hp⟩) (fun _ => ?_)
  cases hu : peerGet u src with
  | none =>
    rw [hu] at hheard
    cases hv : peerGet (u.retimed a b e d peers) src with
    | none => exact ⟨a, b, e, d, peers, rfl, hs, hr, hp⟩
    | some t' =>
      rw [hv] at hheard
      cases hheard
  | some t =>
    rw [hu] at hheard
    cases hv : peerGet (u.retimed a b e d peers) src with
    | none =>
      rw [hv] at hheard
      cases hheard
    | some t' =>
      rw [hv] at hheard
      obtain ⟨hheard⟩ := hheard
      refine Later.reevaluate ?_ now
      exact ⟨a, b, e, d, _, rfl, hs, hr, hheard⟩

theorem Later.rxResign (h : Later c u v) (src : Addr) (now : Time) :
    Later c (rxResign u src now) (rxResign v src (now + c)) := by
  obtain ⟨a, b, e, d, peers, rfl, hs, hr, hp⟩ := h
  refine ite_twin Iff.rfl (fun _ => ⟨a, b, e, d, peers, rfl, hs, hr, hp⟩) (fun _ => Later.reevaluate ?_ now)
  have hdemoted : Slots.Alike (PeerLater c) (u.peers.modify src (demoted now)) (peers.modify src (demoted (now + c))) :=
    hp.modify (matching_peerLater c) src fun p q hpq _ _ => by
      obtain ⟨t, rfl, -⟩ := hpq
      exact ⟨now + c, rfl, fun _ => rfl⟩
  exact ite_twin Iff.rfl (fun _ => ⟨a, b, e, d, _, rfl, hs, hr, hdemoted⟩) (fun _ => ⟨a, b, e, d, _, rfl, hs, hr, hdemoted⟩)

theorem Later.vacated (h : Later c u v) (now : Time) : vacated v (now + c) = vacated u now := by
  have hexp := fun p q (hpq : PeerLater c p q) => h.expired hpq
  obtain ⟨a, b, e, d, peers, rfl, -, -, hp⟩ := h
  have hfound := hp.find? (matching_peerLater c) u.active
  refine congrArg (fun gone => decide (u.state ≠ .active) && u.active != addrNone && gone) ?_
  cases hu : u.peers.find? u.active with
  | none =>
    rw [hu] at hfound
    cases hv : peers.find? u.active with
    | none =>
      rw [show peerFind u u.active = none from hu, show peerFind (u.retimed a b e d peers) (u.retimed a b e d peers).active = none from hv]
    | some q =>
      rw [hv] at hfound
      cases hfound
  | some p =>
    rw [hu] at hfound
    cases hv : peers.find? u.active with
    | none =>
      rw [hv] at hfound
      cases hfound
    | some q =>
      rw [hv] at hfound
      obtain ⟨hpq⟩ := hfound
      rw [show peerFind u u.active = some p from hu, show peerFind (u.retimed a b e d peers) (u.retimed a b e d peers).active = some q from hv]
      exact hexp p q hpq (Slots.find?_some hu).2.1 now

theorem Later.tick (h : Later c u v) (now : Time) : Later c (tick u now) (tick v (now + c)) := by
  have hvst : v.started = u.started := by
    obtain ⟨a, b, e, d, peers, rfl, -, -, -⟩ := h
    rfl
  refine ite_twin (by rw [hvst]) (fun _ => h) (fun hst => ?_)
  have hevaluated : Later c (Election.reevaluate (if Election.vacated u now then { u with vacancyClean := false } else u) now)
      (Election.reevaluate (if Election.vacated v (now + c) then { v with vacancyClean := false } else v) (now + c)) := by
    refine Later.reevaluate (ite_twin (by rw [h.vacated now]) (fun _ => ?_) (fun _ => h)) now
    obtain ⟨a, b, e, d, peers, rfl, hs, hr, hp⟩ := h
    exact ⟨a, b, e, d, peers, rfl, hs, hr, hp⟩
  have hstarted : (Election.reevaluate (if Election.vacated u now then { u with vacancyClean := false } else u) now).started =
      true := by
    have hst : u.started = true := by simpa using hst
    refine (reevaluate_peers ?_ now).2.2
    split <;> exact hst
  dsimp only
  generalize Election.reevaluate (if Election.vacated u now then _ else u) now = x at hevaluated hstarted
  obtain ⟨a, b, e, d, peers, hv, hs, hr, hp⟩ := hevaluated
  rw [hv]
  obtain ⟨ha, hb⟩ := hs hstarted
  have hdue : timeAfter (now + c) b = timeAfter now x.tNextHello := by rw [hb, timeAfter_add_self]
  refine ite_twin (iff_of_eq (congrArg (· = true) hdue)) (fun _ => ?_) (fun _ => ⟨a, b, e, d, peers, rfl, hs, hr, hp⟩)
  exact ⟨a, _, e, d, peers, rfl, fun _ => ⟨ha, helloDue_later ..⟩, hr, hp⟩

theorem Later.perform (h : Later c u v) (o : UhrpOp) :
    Later c (u.perform o).1 (v.perform (o.later c)).1 ∧ (v.perform (o.later c)).2 = (u.perform o).2 := by
  cases o with
  | start now => exact ⟨h.start now, rfl⟩
  | rxHello src m now => exact ⟨h.rxHello src m now, rfl⟩
  | rxResign src now => exact ⟨h.rxResign src now, rfl⟩
  | tick now => exact ⟨h.tick now, rfl⟩
  | reachableCaps => exact ⟨h, congrArg UhrpReply.caps h.reachableCaps⟩
  | setKeysHeld held =>
    obtain ⟨a, b, e, d, peers, rfl, hs, hr, hp⟩ := h
    exact ⟨⟨a, b, e, d, peers, rfl, hs, hr, hp⟩, rfl⟩
  | takeEvents | buildHello | isActive =>
    obtain ⟨a, b, e, d, peers, rfl, hs, hr, hp⟩ := h
    exact ⟨⟨a, b, e, d, peers, rfl, hs, hr, hp⟩, rfl⟩

theorem Later.respond (h : Later c u v) (o : UhrpOp) :
    Later c (u.respond o).1 (v.respond (o.later c)).1 ∧ (v.respond (o.later c)).2 = (u.respond o).2 := by
  obtain ⟨hkept, hreply⟩ := h.perform o
  exact ⟨hkept, Prod.ext hreply hkept.untimed⟩

theorem later_init (cfg : Config) : Later c (uhrpInit cfg) (uhrpInit cfg) :=
  ⟨0, 0, 0, 0, _, rfl, fun h => (by cases h), fun h => (by cases h),
    Slots.alike_replicate ⟨0, rfl, fun h => (by cases h)⟩⟩

end Uhrp

end DeskHop.Election
