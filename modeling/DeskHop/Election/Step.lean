/-
  DeskHop.Election.Step — what one evaluation of the election can do.

  Every entry point prepares the board (`prepared`) and evaluates it; calls that the
  code drops before evaluating prepare nothing. An evaluation of the ACTIVE board
  either keeps the role or resigns (`reevaluate_active`); one of any other board
  follows a live active peer, waits, or is promoted (`reevaluate_idle`). Everything
  the later modules say about runs is derived from these two. The events of a call tell
  whether the state changed (`call_logged`) and whether the role was given up
  (`call_resigns`).
-/

import DeskHop.Election.Uhrp

namespace DeskHop.Election

open DeskHop.Lib

/-- A call of one of the entry points, at a real time in milliseconds. -/
inductive Call where
  | hello (src : Addr) (h : Hello) (now : Nat)
  | resign (src : Addr) (now : Nat)
  | tick (now : Nat)
  | setKeysHeld (held : Bool)
  deriving DecidableEq

/-- The call on the board, whose clock wraps. -/
def call (u : Uhrp) : Call → Uhrp
  | .hello src h now => rxHello u src h (UInt32.ofNat now)
  | .resign src now => rxResign u src (UInt32.ofNat now)
  | .tick now => tick u (UInt32.ofNat now)
  | .setKeysHeld held => setKeysHeld u held

/-- The caller takes the events of a call before it makes the next. -/
def step (u : Uhrp) (c : Call) : Uhrp := call (takeEvents u).2 c

/-- The board as the call hands it to `reevaluate`, and when; none when it returns
    without evaluating. -/
def prepared (u : Uhrp) : Call → Option (Uhrp × Nat)
  | .hello src h now =>
    if !u.started || src == u.cfg.addr then none
    else
      match peerGet u src with
      | none => none
      | some peers =>
        let clean := if h.state == UhrpState.active.toByte && u.active != src then true else u.vacancyClean
        some ({ u with vacancyClean := clean, peers := peers.modify src (heard h (UInt32.ofNat now)) }, now)
  | .resign src now =>
    if !u.started then none
    else
      let u := { u with peers := u.peers.modify src (demoted (UInt32.ofNat now)) }
      some (if src == u.active then { u with vacancyClean := true, active := addrNone } else u, now)
  | .tick now =>
    if !u.started then none
    else some (if vacated u (UInt32.ofNat now) then { u with vacancyClean := false } else u, now)
  | .setKeysHeld _ => none

/-- `dhp_uhrp_tick` after the evaluation: advertise when the interval is over. -/
def advertise (u : Uhrp) (now : Time) : Uhrp :=
  if timeAfter now u.tNextHello then
    { u with ev := { u.ev with sendHello := true }, tNextHello := now + u.cfg.timing.helloMs.toUInt32 }
  else u

def isTick : Call → Bool
  | .tick _ => true
  | _ => false

theorem call_of_prepared {u v : Uhrp} {c : Call} {now : Nat} (h : prepared u c = some (v, now)) :
    call u c = (if isTick c then advertise (reevaluate v (UInt32.ofNat now)) (UInt32.ofNat now)
      else reevaluate v (UInt32.ofNat now)) := by
  cases c with
  | hello src hl t =>
    simp only [prepared] at h
    split at h
    · cases h
    rename_i hs
    split at h
    · cases h
    rename_i peers hp
    cases h
    simp [call, rxHello, hs, hp, isTick]
  | resign src t =>
    simp only [prepared] at h
    split at h
    · cases h
    rename_i hs
    cases h
    simp [call, rxResign, hs, isTick]
  | tick t =>
    simp only [prepared] at h
    split at h
    · cases h
    rename_i hs
    cases h
    simp [call, tick, hs, isTick, advertise]
  | setKeysHeld b => cases h

theorem call_of_not_prepared {u : Uhrp} {c : Call} (h : prepared u c = none) :
    call u c = u ∨ ∃ b, c = .setKeysHeld b ∧ call u c = setKeysHeld u b := by
  cases c with
  | hello src hl t =>
    left
    simp only [prepared] at h
    split at h
    · rename_i hs; simp [call, rxHello, hs]
    rename_i hs
    split at h
    · rename_i hp; simp [call, rxHello, hs, hp]
    · cases h
  | resign src t =>
    left
    simp only [prepared] at h
    split at h
    · rename_i hs; simp [call, rxResign, hs]
    · cases h
  | tick t =>
    left
    simp only [prepared] at h
    split at h
    · rename_i hs; simp [call, tick, hs]
    · cases h
  | setKeysHeld b => exact Or.inr ⟨b, rfl, rfl⟩

/-- What no preparation touches. -/
structure SameBoard (u v : Uhrp) : Prop where
  cfg : v.cfg = u.cfg
  state : v.state = u.state
  keysHeld : v.keysHeld = u.keysHeld
  resignPending : v.resignPending = u.resignPending
  tResignDeadline : v.tResignDeadline = u.tResignDeadline
  activeValid : v.activeValid = u.activeValid
  started : v.started = u.started
  ev : v.ev = u.ev

theorem prepared_same {u v : Uhrp} {c : Call} {now : Nat} (h : prepared u c = some (v, now)) :
    SameBoard u v ∧ u.started = true := by
  cases c with
  | hello src hl t =>
    simp only [prepared] at h
    split at h
    · cases h
    rename_i hs
    split at h
    · cases h
    cases h
    simp only [Bool.or_eq_true, Bool.not_eq_true', not_or, Bool.not_eq_false] at hs
    exact ⟨⟨rfl, rfl, rfl, rfl, rfl, rfl, rfl, rfl⟩, hs.1⟩
  | resign src t =>
    simp only [prepared] at h
    split at h
    · cases h
    rename_i hs
    cases h
    refine ⟨?_, by simpa using hs⟩
    split <;> exact ⟨rfl, rfl, rfl, rfl, rfl, rfl, rfl, rfl⟩
  | tick t =>
    simp only [prepared] at h
    split at h
    · cases h
    rename_i hs
    cases h
    refine ⟨?_, by simpa using hs⟩
    split <;> exact ⟨rfl, rfl, rfl, rfl, rfl, rfl, rfl, rfl⟩
  | setKeysHeld b => cases h

/-! ## Small steps -/

@[simp] theorem enterState_state (u : Uhrp) (s : UhrpState) (now : Time) : (enterState u s now).state = s := by
  unfold enterState; split
  · assumption
  · rfl

/-- Entering a state changes the state, when it was entered, and the record of it. -/
structure SameButState (u v : Uhrp) : Prop where
  cfg : v.cfg = u.cfg
  active : v.active = u.active
  keysHeld : v.keysHeld = u.keysHeld
  resignPending : v.resignPending = u.resignPending
  tResignDeadline : v.tResignDeadline = u.tResignDeadline
  activeValid : v.activeValid = u.activeValid
  started : v.started = u.started
  vacancyClean : v.vacancyClean = u.vacancyClean
  peers : v.peers = u.peers
  sendResign : v.ev.sendResign = u.ev.sendResign
  broadcastRelease : v.ev.broadcastRelease = u.ev.broadcastRelease
  promotedByTimeout : v.ev.promotedByTimeout = u.ev.promotedByTimeout

theorem enterState_same (u : Uhrp) (s : UhrpState) (now : Time) : SameButState u (enterState u s now) := by
  unfold enterState; split <;> constructor <;> rfl

theorem advertise_same (u : Uhrp) (now : Time) :
    SameButState u (advertise u now) ∧ (advertise u now).state = u.state := by
  unfold advertise; split <;> exact ⟨⟨rfl, rfl, rfl, rfl, rfl, rfl, rfl, rfl, rfl, rfl, rfl, rfl⟩, rfl⟩

/-- What a promotion leaves: the role, and a release exactly when somebody was
    succeeded uncleanly. -/
structure Promoted (u v : Uhrp) (clean : Bool) : Prop where
  cfg : v.cfg = u.cfg
  state : v.state = .active
  active : v.active = u.cfg.addr
  keysHeld : v.keysHeld = u.keysHeld
  resignPending : v.resignPending = false
  started : v.started = u.started
  peers : v.peers = u.peers
  sendResign : v.ev.sendResign = u.ev.sendResign
  broadcastRelease : v.ev.broadcastRelease = (u.ev.broadcastRelease || (u.activeValid && !clean))
  promotedByTimeout : v.ev.promotedByTimeout = (u.ev.promotedByTimeout || (u.activeValid && !clean))

theorem becomeActive_promoted (u : Uhrp) (now : Time) (clean : Bool) : Promoted u (becomeActive u now clean) clean := by
  have hs := enterState_same u .active now
  have ha := enterState_state u .active now
  unfold becomeActive
  by_cases hc : (u.activeValid && !clean) = true
  · simp only [hc, if_true]
    exact ⟨hs.cfg, ha, congrArg Config.addr hs.cfg, hs.keysHeld, rfl, hs.started, hs.peers, hs.sendResign,
      by simp [hc], by simp [hc]⟩
  · rw [Bool.not_eq_true] at hc
    simp only [hc, Bool.false_eq_true, if_false]
    exact ⟨hs.cfg, ha, congrArg Config.addr hs.cfg, hs.keysHeld, rfl, hs.started, hs.peers, hs.sendResign,
      by simp [hc, hs.broadcastRelease], by simp [hc, hs.promotedByTimeout]⟩

@[simp] theorem peerAge_peers (u : Uhrp) (now : Time) : (peerAge u now).peers =
    u.peers.map fun p => if p.used && expired u now p then { p with used := false } else p := rfl

/-- The evaluation a call makes, of the board with its events taken. -/
def evaluated (u : Uhrp) (c : Call) : Option (Uhrp × Nat) := prepared (takeEvents u).2 c

/-- The evaluated board is the board called, but for what the call noted. -/
theorem evaluated_same {u v : Uhrp} {c : Call} {now : Nat} (h : evaluated u c = some (v, now)) :
    SameBoard (takeEvents u).2 v ∧ v.started = true := by
  obtain ⟨h1, h2⟩ := prepared_same h
  exact ⟨h1, h1.started.trans h2⟩

/-- After the evaluation a tick may advertise, which changes nothing but the time of
    the next HELLO. -/
theorem step_of_evaluated {u v : Uhrp} {c : Call} {now : Nat} (h : evaluated u c = some (v, now)) :
    SameButState (reevaluate v (UInt32.ofNat now)) (step u c) ∧
      (step u c).state = (reevaluate v (UInt32.ofNat now)).state := by
  show SameButState _ (call (takeEvents u).2 c) ∧ (call (takeEvents u).2 c).state = _
  rw [call_of_prepared h]
  split
  · exact advertise_same _ _
  · exact ⟨by constructor <;> rfl, rfl⟩

/-- A call that evaluates nothing can only change whether keys are held. -/
theorem step_of_not_evaluated {u : Uhrp} {c : Call} (h : evaluated u c = none) :
    ∃ b, step u c = { (takeEvents u).2 with keysHeld := b } := by
  rcases call_of_not_prepared h with he | ⟨b, _, he⟩
  · exact ⟨u.keysHeld, he⟩
  · exact ⟨b, he⟩

/-! ## The ACTIVE board -/

/-- On the aged table, this board is out-prioritised. -/
def challenged (u : Uhrp) (now : Time) : Bool :=
  let w := peerAge u now
  outPrioritised w (field w) (findActivePeer w)

/-- When a resignation is due: the deadline already set, or one set now. -/
def resignDue (u : Uhrp) (now : Time) : Time :=
  if u.resignPending then u.tResignDeadline else now + u.cfg.timing.handoverDeferMaxMs.toUInt32

/-- The board gave the role up in this evaluation. -/
structure Resigned (u v : Uhrp) (now : Time) : Prop where
  pending : u.resignPending = true ∨ challenged u now = true
  due : u.keysHeld = false ∨ timeAfter now (resignDue u now) = true
  state : v.state = .listen
  active : v.active = addrNone
  resignPending : v.resignPending = false
  sendResign : v.ev.sendResign = true
  broadcastRelease : v.ev.broadcastRelease = (u.ev.broadcastRelease || u.keysHeld)

/-- The board kept the role, and remembers a challenge until it may follow it. -/
structure Kept (u v : Uhrp) (now : Time) : Prop where
  state : v.state = .active
  resignPending : v.resignPending = (u.resignPending || challenged u now)
  tResignDeadline : v.resignPending = true → v.tResignDeadline = resignDue u now
  notDue : v.resignPending = true → u.keysHeld = true ∧ timeAfter now (resignDue u now) = false
  ev : v.ev = u.ev

/-- What every evaluation of the ACTIVE board leaves as it was. -/
structure ActiveFrame (u v : Uhrp) : Prop where
  cfg : v.cfg = u.cfg
  keysHeld : v.keysHeld = u.keysHeld
  activeValid : v.activeValid = u.activeValid
  started : v.started = u.started
  vacancyClean : v.vacancyClean = u.vacancyClean
  peers : v.peers = u.peers

theorem serviceResign_of_not_pending {u : Uhrp} (h : u.resignPending = false) (now : Time) :
    serviceResign u now = u := by
  simp [serviceResign, h]

theorem serviceResign_of_pending {u : Uhrp} (h : u.resignPending = true) (now : Time) :
    (u.keysHeld = true ∧ timeAfter now u.tResignDeadline = false ∧ serviceResign u now = u) ∨
    ((u.keysHeld = false ∨ timeAfter now u.tResignDeadline = true) ∧ (serviceResign u now).state = .listen ∧
      (serviceResign u now).active = addrNone ∧ (serviceResign u now).resignPending = false ∧
      (serviceResign u now).ev.sendResign = true ∧
      (serviceResign u now).ev.broadcastRelease = (u.ev.broadcastRelease || u.keysHeld) ∧
      ActiveFrame u (serviceResign u now)) := by
  by_cases hw : (u.keysHeld && !timeAfter now u.tResignDeadline) = true
  · left
    have hw' := hw
    simp only [Bool.and_eq_true, Bool.not_eq_true'] at hw'
    exact ⟨hw'.1, hw'.2, by simp [serviceResign, h, hw'.1, hw'.2]⟩
  · right
    let r : Uhrp := { u with
      ev := { u.ev with sendResign := true, broadcastRelease := u.ev.broadcastRelease || u.keysHeld }
      resignPending := false
      active := addrNone }
    have he : serviceResign u now = enterState r .listen now := by
      cases hk : u.keysHeld <;> simp [hk] at hw <;> simp [serviceResign, h, hk, hw, r]
    have hs := enterState_same r .listen now
    rw [he]
    refine ⟨?_, enterState_state _ _ _, hs.active, hs.resignPending, hs.sendResign, hs.broadcastRelease,
      ⟨hs.cfg, hs.keysHeld, hs.activeValid, hs.started, hs.vacancyClean, hs.peers⟩⟩
    simpa [Decidable.or_iff_not_imp_left] using hw

/-- What `serviceResign` is given of an active board: aged, with its backup and any new challenge noted. -/
def readied (u : Uhrp) (now : Time) : Uhrp :=
  let w : Uhrp := { peerAge u now with standby := (field (peerAge u now)).backupAddr }
  if challenged u now then scheduleResign w now else w

theorem reevaluate_readied {u : Uhrp} (hs : u.started = true) (ha : u.state = .active) (now : Time) :
    reevaluate u now = serviceResign (readied u now) now := by
  have hw : (peerAge u now).state = .active := ha
  have hl : (peerAge u now).state ≠ .learn := by rw [hw]; decide
  rw [reevaluate, if_neg (by simp [hs])]
  exact (if_neg hl).trans (if_pos hw)

theorem readied_resignPending (u : Uhrp) (now : Time) :
    (readied u now).resignPending = (u.resignPending || challenged u now) := by
  cases hc : challenged u now <;> cases hr : u.resignPending <;> simp [readied, hc, peerAge, scheduleResign, hr]

theorem readied_deadline {u : Uhrp} {now : Time} (h : (readied u now).resignPending = true) :
    (readied u now).tResignDeadline = resignDue u now := by
  rw [readied_resignPending] at h
  cases hc : challenged u now <;> cases hr : u.resignPending <;>
    simp_all [readied, peerAge, scheduleResign, resignDue]

theorem scheduleResign_same (u : Uhrp) (now : Time) : ActiveFrame u (scheduleResign u now) ∧
    (scheduleResign u now).state = u.state ∧ (scheduleResign u now).ev = u.ev ∧ (scheduleResign u now).active = u.active := by
  unfold scheduleResign
  split <;> exact ⟨⟨rfl, rfl, rfl, rfl, rfl, rfl⟩, rfl, rfl, rfl⟩

theorem readied_same (u : Uhrp) (now : Time) : ActiveFrame (peerAge u now) (readied u now) ∧
    (readied u now).state = u.state ∧ (readied u now).ev = u.ev ∧ (readied u now).active = u.active := by
  simp only [readied]
  split
  · obtain ⟨⟨h1, h2, h3, h4, h5, h6⟩, hs⟩ := scheduleResign_same
      { peerAge u now with standby := (field (peerAge u now)).backupAddr } now
    exact ⟨⟨h1, h2, h3, h4, h5, h6⟩, hs⟩
  · exact ⟨⟨rfl, rfl, rfl, rfl, rfl, rfl⟩, rfl, rfl, rfl⟩

theorem reevaluate_active {u : Uhrp} (hs : u.started = true) (ha : u.state = .active) (now : Time) :
    ActiveFrame (peerAge u now) (reevaluate u now) ∧ (Resigned u (reevaluate u now) now ∨ Kept u (reevaluate u now) now) := by
  have hp := readied_resignPending u now
  obtain ⟨hframe, hstate, hev, -⟩ := readied_same u now
  rw [reevaluate_readied hs ha]
  cases hr : (readied u now).resignPending with
  | false =>
    rw [serviceResign_of_not_pending hr]
    exact ⟨hframe, Or.inr ⟨hstate.trans ha, hp, fun h => absurd (hr.symm.trans h) (by simp),
      fun h => absurd (hr.symm.trans h) (by simp), hev⟩⟩
  | true =>
    have hk : (readied u now).keysHeld = u.keysHeld := hframe.keysHeld
    have hd := readied_deadline hr
    rcases serviceResign_of_pending hr now with ⟨hh, ht, hsv⟩ | ⟨hdue, h1, h2, h3, h4, h5, hfr⟩
    · rw [hsv]
      rw [hd] at ht
      exact ⟨hframe, Or.inr ⟨hstate.trans ha, hp, fun _ => hd, fun _ => ⟨hk ▸ hh, ht⟩, hev⟩⟩
    · refine ⟨⟨hfr.cfg.trans hframe.cfg, hfr.keysHeld.trans hk, hfr.activeValid.trans hframe.activeValid,
        hfr.started.trans hframe.started, hfr.vacancyClean.trans hframe.vacancyClean, hfr.peers.trans hframe.peers⟩,
        Or.inl ⟨?_, ?_, h1, h2, h3, h4, ?_⟩⟩
      · rw [hp] at hr; simpa using hr
      · rw [hd, hk] at hdue; exact hdue
      · rw [h5, hk, hev]

/-! ## Any other board -/

/-- What an evaluation of a board without the role leaves as it was, promoted or not. -/
structure IdleFrame (u v : Uhrp) (now : Time) : Prop where
  cfg : v.cfg = u.cfg
  keysHeld : v.keysHeld = u.keysHeld
  started : v.started = u.started
  peers : v.peers = (peerAge u now).peers
  sendResign : v.ev.sendResign = u.ev.sendResign

/-- A live peer holds the role, and the board follows it. -/
structure Following (u v : Uhrp) (a : Peer) (now : Time) : Prop where
  found : findActivePeer (peerAge u now) = some a
  notActive : v.state ≠ .active
  notLearn : v.state ≠ .learn
  active : v.active = a.addr
  activeValid : v.activeValid = true
  vacancyClean : v.vacancyClean = u.vacancyClean
  resignPending : v.resignPending = u.resignPending
  broadcastRelease : v.ev.broadcastRelease = u.ev.broadcastRelease
  promotedByTimeout : v.ev.promotedByTimeout = u.ev.promotedByTimeout

/-- No live peer holds the role, and the board does not take it either. -/
structure Waiting (u v : Uhrp) (now : Time) : Prop where
  found : findActivePeer (peerAge u now) = none
  notActive : v.state ≠ .active
  learning : v.state = .learn → u.state = .learn
  active : v.active = if u.state = .learn then u.active else addrNone
  activeValid : v.activeValid = u.activeValid
  vacancyClean : v.vacancyClean = u.vacancyClean
  resignPending : v.resignPending = u.resignPending
  broadcastRelease : v.ev.broadcastRelease = u.ev.broadcastRelease
  promotedByTimeout : v.ev.promotedByTimeout = u.ev.promotedByTimeout

/-- No live peer holds the role or outranks the board, and the board takes it. An
    initial election, out of LEARN, is clean whatever came before. -/
structure TookOver (u v : Uhrp) (now : Time) : Prop where
  found : findActivePeer (peerAge u now) = none
  best : (field (peerAge u now)).bestIsSelf = true
  promoted : Promoted (peerAge u now) v (u.state = .learn || u.vacancyClean)

theorem following_enter {u x : Uhrp} {a : Peer} {s : UhrpState} {now : Time}
    (hf : findActivePeer (peerAge u now) = some a) (hs : s ≠ .active ∧ s ≠ .learn)
    (hx : SameButState (follow (peerAge u now) a) x) :
    IdleFrame u (enterState x s now) now ∧ Following u (enterState x s now) a now := by
  have h := enterState_same x s now
  exact ⟨⟨h.cfg.trans hx.cfg, h.keysHeld.trans hx.keysHeld, h.started.trans hx.started, h.peers.trans hx.peers,
    h.sendResign.trans hx.sendResign⟩, hf, by rw [enterState_state]; exact hs.1, by rw [enterState_state]; exact hs.2,
    h.active.trans hx.active, h.activeValid.trans hx.activeValid, h.vacancyClean.trans hx.vacancyClean,
    h.resignPending.trans hx.resignPending, h.broadcastRelease.trans hx.broadcastRelease,
    h.promotedByTimeout.trans hx.promotedByTimeout⟩

theorem waiting_enter {u x : Uhrp} {s : UhrpState} {now : Time} (hf : findActivePeer (peerAge u now) = none)
    (hs : s ≠ .active) (hl : s = .learn → u.state = .learn)
    (hx : SameButState { peerAge u now with active := if u.state = .learn then u.active else addrNone } x) :
    IdleFrame u (enterState x s now) now ∧ Waiting u (enterState x s now) now := by
  have h := enterState_same x s now
  exact ⟨⟨h.cfg.trans hx.cfg, h.keysHeld.trans hx.keysHeld, h.started.trans hx.started, h.peers.trans hx.peers,
    h.sendResign.trans hx.sendResign⟩, hf, by rw [enterState_state]; exact hs, by rw [enterState_state]; exact hl,
    h.active.trans hx.active, h.activeValid.trans hx.activeValid, h.vacancyClean.trans hx.vacancyClean,
    h.resignPending.trans hx.resignPending, h.broadcastRelease.trans hx.broadcastRelease,
    h.promotedByTimeout.trans hx.promotedByTimeout⟩

theorem standbyOrListen_ne (f : Field) : standbyOrListen f ≠ .active ∧ standbyOrListen f ≠ .learn := by
  unfold standbyOrListen; split <;> decide

theorem tookOver_become {u x : Uhrp} {now : Time} {c : Bool} (hf : findActivePeer (peerAge u now) = none)
    (hb : (field (peerAge u now)).bestIsSelf = true) (hc : c = (u.state = .learn || u.vacancyClean))
    (hx : SameButState { peerAge u now with active := x.active } x) :
    IdleFrame u (becomeActive x now c) now ∧ TookOver u (becomeActive x now c) now := by
  have h := becomeActive_promoted x now c
  have hcfg : x.cfg = u.cfg := hx.cfg
  subst hc
  refine ⟨⟨h.cfg.trans hcfg, h.keysHeld.trans hx.keysHeld, h.started.trans hx.started, h.peers.trans hx.peers,
    h.sendResign.trans hx.sendResign⟩, hf, hb, h.cfg.trans hcfg, h.state, ?_, h.keysHeld.trans hx.keysHeld,
    h.resignPending, h.started.trans hx.started, h.peers.trans hx.peers, h.sendResign.trans hx.sendResign, ?_, ?_⟩
  · rw [h.active, hcfg]; rfl
  · rw [h.broadcastRelease, hx.broadcastRelease, hx.activeValid]
  · rw [h.promotedByTimeout, hx.promotedByTimeout, hx.activeValid]

theorem reevaluate_idle {u : Uhrp} (hs : u.started = true) (ha : u.state ≠ .active) (now : Time) :
    IdleFrame u (reevaluate u now) now ∧ ((∃ a, Following u (reevaluate u now) a now) ∨
      Waiting u (reevaluate u now) now ∨ TookOver u (reevaluate u now) now) := by
  let f := field (peerAge u now)
  let w : Uhrp := { peerAge u now with standby := f.backupAddr }
  have hso := standbyOrListen_ne f
  by_cases hl : u.state = .learn
  · have he : reevaluate u now = reevaluateLearn w f (findActivePeer (peerAge u now)) now := by
      rw [reevaluate, if_neg (by simp [hs])]
      exact if_pos hl
    have hw : SameButState { peerAge u now with active := if u.state = .learn then u.active else addrNone } w := by
      simp only [hl, if_true]; constructor <;> rfl
    have hself : enterState w .learn now = w := if_pos hl
    rw [he]
    cases hact : findActivePeer (peerAge u now) with
    | some a =>
      obtain ⟨h1, h2⟩ := following_enter (x := follow w a) hact hso (by constructor <;> rfl)
      exact ⟨h1, Or.inl ⟨a, h2⟩⟩
    | none =>
      simp only [reevaluateLearn]
      split
      · have := waiting_enter (s := .learn) hact (by decide) (fun _ => hl) hw
        rw [hself] at this
        exact ⟨this.1, Or.inr (Or.inl this.2)⟩
      · split
        · rename_i hb
          have := tookOver_become (x := w) (c := true) hact hb (by simp [hl]) (by constructor <;> rfl)
          exact ⟨this.1, Or.inr (Or.inr this.2)⟩
        · have := waiting_enter hact hso.1 (fun h => absurd h hso.2) hw
          exact ⟨this.1, Or.inr (Or.inl this.2)⟩
  · have he : reevaluate u now = reevaluateIdle w f (findActivePeer (peerAge u now)) now := by
      rw [reevaluate, if_neg (by simp [hs])]
      exact (if_neg hl).trans (if_neg ha)
    let x : Uhrp := { w with active := addrNone }
    have hx : SameButState { peerAge u now with active := if u.state = .learn then u.active else addrNone } x := by
      simp only [hl, if_false]; constructor <;> rfl
    have hspeak : u.state = .speak → enterState x .speak now = x := fun h => if_pos h
    rw [he]
    cases hact : findActivePeer (peerAge u now) with
    | some a =>
      obtain ⟨h1, h2⟩ := following_enter (x := { follow w a with
        tActiveExpiry := a.lastSeen + w.cfg.timing.holdMs.toUInt32 }) hact hso (by constructor <;> rfl)
      exact ⟨h1, Or.inl ⟨a, h2⟩⟩
    | none =>
      simp only [reevaluateIdle]
      split
      · have := waiting_enter hact hso.1 (fun h => absurd h hso.2) hx
        exact ⟨this.1, Or.inr (Or.inl this.2)⟩
      rename_i hb
      simp only [Bool.not_eq_true', Bool.not_eq_false] at hb
      have htook := tookOver_become (x := x) (c := u.vacancyClean) hact hb (by simp [hl]) (by constructor <;> rfl)
      split
      · exact ⟨htook.1, Or.inr (Or.inr htook.2)⟩
      split
      · have := waiting_enter (s := .speak) hact (by decide) (fun h => by cases h) hx
        exact ⟨this.1, Or.inr (Or.inl this.2)⟩
      split
      · exact ⟨htook.1, Or.inr (Or.inr htook.2)⟩
      · rename_i hsp _
        have := waiting_enter (s := .speak) hact (by decide) (fun h => by cases h) hx
        rw [hspeak (by simpa [w, peerAge] using hsp)] at this
        exact ⟨this.1, Or.inr (Or.inl this.2)⟩

/-- An evaluation ages the table, and changes nothing else in it. -/
theorem reevaluate_peers {u : Uhrp} (hs : u.started = true) (now : Time) :
    (reevaluate u now).peers = (peerAge u now).peers ∧ (reevaluate u now).cfg = u.cfg ∧ (reevaluate u now).started = true := by
  by_cases ha : u.state = .active
  · have hf := (reevaluate_active hs ha now).1
    exact ⟨hf.peers, hf.cfg, hf.started.trans hs⟩
  · have hf := (reevaluate_idle hs ha now).1
    exact ⟨hf.peers, hf.cfg, hf.started.trans hs⟩

/-- A call takes the role only by an evaluation that finds nobody in it and nobody
    better. -/
theorem tookOver_of_step {u : Uhrp} {c : Call} (hs : u.state ≠ .active) (hp : (step u c).state = .active) :
    ∃ v now, evaluated u c = some (v, now) ∧ TookOver v (reevaluate v (UInt32.ofNat now)) (UInt32.ofNat now) := by
  cases he : evaluated u c with
  | none =>
    obtain ⟨b, hb⟩ := step_of_not_evaluated he
    rw [hb] at hp
    exact absurd hp hs
  | some r =>
    obtain ⟨v, now⟩ := r
    obtain ⟨hsame, hst⟩ := evaluated_same he
    have hp' : (reevaluate v (UInt32.ofNat now)).state = .active := (step_of_evaluated he).2.symm.trans hp
    refine ⟨v, now, rfl, ?_⟩
    obtain ⟨_, ⟨b, hfo⟩ | hwa | htk⟩ := reevaluate_idle hst (fun h => hs (hsame.state.symm.trans h)) (UInt32.ofNat now)
    · exact absurd hp' hfo.notActive
    · exact absurd hp' hwa.notActive
    · exact htk

/-! ## When a board takes the role -/

/-- What an evaluation asks of a board without the role before it takes it: nobody live
    holds it or outranks the board, which has waited as its state demands. -/
def dueFor (u : Uhrp) (now : Time) : Bool :=
  let w := peerAge u now
  (findActivePeer w).isNone && (field w).bestIsSelf &&
    match u.state with
    | .learn => timeAfter now (u.tStateEntered + u.cfg.timing.learnMs.toUInt32)
    | .standby => true
    | .speak => timeAfter now (u.tStateEntered + u.cfg.timing.holdMs.toUInt32)
    | _ => false

theorem becomeActive_state (u : Uhrp) (now : Time) (clean : Bool) : (becomeActive u now clean).state = .active :=
  (becomeActive_promoted u now clean).state

theorem takes_role_iff {u : Uhrp} (hs : u.started = true) (ha : u.state ≠ .active) (now : Time) :
    (reevaluate u now).state = .active ↔ dueFor u now = true := by
  let w : Uhrp := { peerAge u now with standby := (field (peerAge u now)).backupAddr }
  have hso := standbyOrListen_ne (field (peerAge u now))
  have hstay : ∀ x : Uhrp, (enterState x (standbyOrListen (field (peerAge u now))) now).state ≠ .active := by
    intro x
    rw [enterState_state]
    exact hso.1
  unfold dueFor
  dsimp only
  by_cases hl : u.state = .learn
  · have he : reevaluate u now = reevaluateLearn w (field (peerAge u now)) (findActivePeer (peerAge u now)) now := by
      rw [reevaluate, if_neg (by simp [hs])]
      exact if_pos hl
    rw [he, hl]
    cases hact : findActivePeer (peerAge u now) with
    | some a => exact iff_of_false (hstay _) (by simp)
    | none =>
      simp only [reevaluateLearn, Option.isNone_none, Bool.true_and, Bool.and_eq_true]
      split
      · rename_i hearly
        refine iff_of_false ha fun h => ?_
        rw [Bool.not_eq_true'] at hearly
        exact absurd (hearly.symm.trans h.2) (by decide)
      rename_i hlate
      split
      · rename_i hb
        rw [Bool.not_eq_true', Bool.not_eq_false] at hlate
        exact iff_of_true (becomeActive_state _ _ _) ⟨hb, hlate⟩
      · rename_i hb
        exact iff_of_false (hstay _) fun h => hb h.1
  · have he : reevaluate u now = reevaluateIdle w (field (peerAge u now)) (findActivePeer (peerAge u now)) now := by
      rw [reevaluate, if_neg (by simp [hs])]
      exact (if_neg hl).trans (if_neg ha)
    rw [he]
    cases hact : findActivePeer (peerAge u now) with
    | some a => exact iff_of_false (hstay _) (by simp)
    | none =>
      simp only [reevaluateIdle, Option.isNone_none, Bool.true_and, Bool.and_eq_true]
      split
      · rename_i hb
        rw [Bool.not_eq_true'] at hb
        exact iff_of_false (hstay _) fun h => absurd (hb.symm.trans h.1) (by decide)
      rename_i hb
      have hb : (field (peerAge u now)).bestIsSelf = true := by simpa using hb
      split
      · rename_i hstandby
        have hstandby : u.state = .standby := hstandby
        rw [hstandby]
        exact iff_of_true (becomeActive_state _ _ _) ⟨hb, rfl⟩
      rename_i hstandby
      have hstandby : u.state ≠ .standby := hstandby
      split
      · rename_i hspeak
        have hspeak : u.state ≠ .speak := hspeak
        refine iff_of_false (by rw [enterState_state]; decide) fun h => ?_
        have hwait := h.2
        split at hwait
        · exact hl ‹_›
        · exact hstandby ‹_›
        · exact hspeak ‹_›
        · cases hwait
      rename_i hspeak
      have hspeak : u.state = .speak := not_not.mp hspeak
      rw [hspeak]
      split
      · rename_i hlate
        exact iff_of_true (becomeActive_state _ _ _) ⟨hb, hlate⟩
      · rename_i hearly
        refine iff_of_false ?_ fun h => hearly h.2
        show u.state ≠ .active
        exact ha

/-- A call that evaluates makes the board take the role exactly if it is due for it. -/
theorem call_takes_role_iff {u : Uhrp} {c : Call} (hc : ∀ b, c ≠ .setKeysHeld b) (ha : u.state ≠ .active) :
    (call u c).state = .active ↔ (prepared u c).any (fun x => dueFor x.1 (UInt32.ofNat x.2)) = true := by
  cases hp : prepared u c with
  | none =>
    rcases call_of_not_prepared hp with he | ⟨b, hb, -⟩
    · rw [he]
      exact iff_of_false ha (by simp)
    · exact absurd hb (hc b)
  | some p =>
    obtain ⟨v, now⟩ := p
    obtain ⟨hsame, hstarted⟩ := prepared_same hp
    have hstate : (call u c).state = (reevaluate v (UInt32.ofNat now)).state := by
      rw [call_of_prepared hp]
      split
      · exact (advertise_same _ _).2
      · rfl
    rw [hstate, takes_role_iff (hsame.started.trans hstarted) (by rw [hsame.state]; exact ha)]
    exact Iff.rfl

/-! ## What a call does to the keys held -/

/-- A board that gives the role up with keys held has every board let go. -/
theorem call_keeps_or_releases {u : Uhrp} {c : Call} (hc : ∀ b, c ≠ .setKeysHeld b) (ha : u.state = .active)
    (hd : u.ev = Events.none) :
    (call u c).state = .active ∧ (call u c).ev.broadcastRelease = false ∨ (call u c).state ≠ .active ∧
      (call u c).ev.broadcastRelease = u.keysHeld := by
  cases hp : prepared u c with
  | none =>
    rcases call_of_not_prepared hp with he | ⟨b, hb, -⟩
    · rw [he, hd]
      exact Or.inl ⟨ha, rfl⟩
    · exact absurd hb (hc b)
  | some p =>
    obtain ⟨v, now⟩ := p
    obtain ⟨hsame, hstarted⟩ := prepared_same hp
    obtain ⟨-, hcases⟩ := reevaluate_active (hsame.started.trans hstarted) (hsame.state.trans ha) (UInt32.ofNat now)
    -- a tick may advertise on top, which changes neither
    have hlast : (call u c).state = (reevaluate v (UInt32.ofNat now)).state ∧
        (call u c).ev.broadcastRelease = (reevaluate v (UInt32.ofNat now)).ev.broadcastRelease := by
      rw [call_of_prepared hp]
      split
      · have hadv := advertise_same (reevaluate v (UInt32.ofNat now)) (UInt32.ofNat now)
        exact ⟨hadv.2, hadv.1.broadcastRelease⟩
      · exact ⟨rfl, rfl⟩
    have hev : v.ev.broadcastRelease = false := by rw [hsame.ev, hd]; rfl
    rw [hlast.1, hlast.2]
    rcases hcases with hresigned | hkept
    · refine Or.inr ⟨by rw [hresigned.state]; decide, ?_⟩
      rw [hresigned.broadcastRelease, hsame.keysHeld, hev, Bool.false_or]
    · refine Or.inl ⟨hkept.state, ?_⟩
      rw [hkept.ev]
      exact hev

theorem call_keysHeld {u : Uhrp} {c : Call} (hc : ∀ b, c ≠ .setKeysHeld b) : (call u c).keysHeld = u.keysHeld := by
  cases hp : prepared u c with
  | none =>
    rcases call_of_not_prepared hp with he | ⟨b, hb, -⟩
    · rw [he]
    · exact absurd hb (hc b)
  | some p =>
    obtain ⟨v, now⟩ := p
    obtain ⟨hsame, hstarted⟩ := prepared_same hp
    have hkeys : (reevaluate v (UInt32.ofNat now)).keysHeld = u.keysHeld := by
      by_cases ha : v.state = .active
      · exact (reevaluate_active (hsame.started.trans hstarted) ha _).1.keysHeld.trans hsame.keysHeld
      · exact (reevaluate_idle (hsame.started.trans hstarted) ha _).1.keysHeld.trans hsame.keysHeld
    rw [call_of_prepared hp]
    split
    · exact (advertise_same _ _).1.keysHeld.trans hkeys
    · exact hkeys

/-! ## What the events tell -/

/-- The events tell whether the state is another. -/
def Logged (u v : Uhrp) : Prop := v.ev.stateChanged = (u.ev.stateChanged || decide (v.state ≠ u.state))

theorem logged_same {u v : Uhrp} (hs : v.state = u.state) (he : v.ev.stateChanged = u.ev.stateChanged) : Logged u v := by
  simp [Logged, hs, he]

theorem logged_enter {u x : Uhrp} (s : UhrpState) (now : Time) (hs : x.state = u.state)
    (he : x.ev.stateChanged = u.ev.stateChanged) : Logged u (enterState x s now) := by
  unfold enterState
  split
  · exact logged_same hs he
  · rename_i hne
    rw [hs] at hne
    simp [Logged, Ne.symm hne]

theorem logged_become {u x : Uhrp} (now : Time) (clean : Bool) (hs : x.state = u.state)
    (he : x.ev.stateChanged = u.ev.stateChanged) : Logged u (becomeActive x now clean) := by
  have h := logged_enter .active now hs he
  unfold becomeActive
  by_cases hc : (x.activeValid && !clean) = true
  · simp only [hc, if_true]
    exact h
  · simp only [hc, Bool.false_eq_true, if_false]
    exact h

theorem logged_service {u x : Uhrp} (now : Time) (hs : x.state = u.state)
    (he : x.ev.stateChanged = u.ev.stateChanged) : Logged u (serviceResign x now) := by
  unfold serviceResign
  split
  · exact logged_same hs he
  split
  · exact logged_same hs he
  · cases x.keysHeld <;> exact logged_enter .listen now hs he

theorem reevaluate_logged (u : Uhrp) (now : Time) : Logged u (reevaluate u now) := by
  unfold reevaluate
  split
  · exact logged_same rfl rfl
  simp only [decideRole]
  split
  · -- LEARN
    simp only [reevaluateLearn]
    split
    · exact logged_enter _ now rfl rfl
    split
    · exact logged_same rfl rfl
    split
    · exact logged_become now true rfl rfl
    · exact logged_enter _ now rfl rfl
  split
  · -- ACTIVE
    simp only [reevaluateActive]
    split
    · unfold scheduleResign
      split <;> exact logged_service now rfl rfl
    · exact logged_service now rfl rfl
  · simp only [reevaluateIdle]
    split
    · exact logged_enter _ now rfl rfl
    split
    · exact logged_enter _ now rfl rfl
    split
    · exact logged_become now _ rfl rfl
    split
    · exact logged_enter _ now rfl rfl
    split
    · exact logged_become now _ rfl rfl
    · exact logged_same rfl rfl

theorem call_logged (u : Uhrp) (c : Call) : Logged u (call u c) := by
  cases hp : prepared u c with
  | none =>
    rcases call_of_not_prepared hp with he | ⟨b, _, he⟩
    · rw [he]
      exact logged_same rfl rfl
    · rw [he]
      exact logged_same rfl rfl
  | some p =>
    obtain ⟨v, now⟩ := p
    obtain ⟨hv, _⟩ := prepared_same hp
    have h : Logged u (reevaluate v (UInt32.ofNat now)) := by
      have hr := reevaluate_logged v (UInt32.ofNat now)
      rwa [Logged, hv.ev, hv.state] at hr
    rw [call_of_prepared hp]
    split
    · unfold advertise
      split <;> exact h
    · exact h

/-- A board resigns exactly when it gives the role up. -/
theorem call_resigns {u : Uhrp} (c : Call) (hev : u.ev.sendResign = false) :
    (call u c).ev.sendResign = true ↔ u.state = .active ∧ (call u c).state ≠ .active := by
  cases hp : prepared u c with
  | none =>
    have hsame : (call u c).ev = u.ev ∧ (call u c).state = u.state := by
      rcases call_of_not_prepared hp with he | ⟨b, _, he⟩ <;> rw [he] <;> exact ⟨rfl, rfl⟩
    rw [hsame.1, hsame.2, hev]
    simp
  | some p =>
    obtain ⟨v, now⟩ := p
    obtain ⟨hv, hstart⟩ := prepared_same hp
    have hvs : v.started = true := hv.started.trans hstart
    have hcall : (call u c).ev.sendResign = (reevaluate v (UInt32.ofNat now)).ev.sendResign ∧
        (call u c).state = (reevaluate v (UInt32.ofNat now)).state := by
      rw [call_of_prepared hp]
      split
      · exact ⟨(advertise_same _ _).1.sendResign, (advertise_same _ _).2⟩
      · exact ⟨rfl, rfl⟩
    rw [hcall.1, hcall.2]
    by_cases ha : u.state = .active
    · rcases (reevaluate_active hvs (hv.state.trans ha) (UInt32.ofNat now)).2 with h | h
      · rw [h.sendResign, h.state]
        simp [ha]
      · rw [h.ev, hv.ev, h.state, hev]
        simp
    · have h := (reevaluate_idle hvs (by rw [hv.state]; exact ha) (UInt32.ofNat now)).1.sendResign
      rw [h, hv.ev, hev]
      simp [ha]

end DeskHop.Election
