/-
  DeskHop.Election.Roles — the books of one board: whom it takes for the active speaker,
  and whom it holds in its table.

  A run is a started board and the operations on it, with messages of other boards only.
  Beside the board stands when each of them was last heard, by a clock that does not
  wrap, and when the board was last evaluated (`Books`).

  Proved, for every run (`books_kept`): a board in the role takes itself for the active
  speaker, and another takes nobody or a peer in its table that says ACTIVE; a
  resignation is pending only in the role; the table has one entry a board, and none for
  the board itself; and an evaluation leaves no entry whose hold time has run out — by
  the wrapped clock always, by the real one as long as no two evaluations are 2^31 ms
  apart.
-/

import DeskHop.Election.Handover
import Mathlib.Logic.Function.Basic

namespace DeskHop.Election

open DeskHop.Lib

/-! ## Hold times -/

/-- What has not expired was heard less than the hold time ago. -/
theorem heard_within {u : Uhrp} {now : Time} {p : Peer} (h : expired u now p = false) :
    timeDiff now p.lastSeen < u.cfg.timing.holdMs.toNat := by
  rw [expired, Bool.eq_false_iff, ne_eq, timeAfter_iff] at h
  by_contra hlong
  rw [timeDiff, BitVec.toInt_eq_toNat_cond] at hlong
  have hpast : (now - p.lastSeen).toBitVec.toNat < 2 ^ 32 := (now - p.lastSeen).toBitVec.isLt
  have hhold := u.cfg.timing.holdMs.toNat_lt
  have hgone : (now - p.lastSeen).toNat = (now - p.lastSeen).toBitVec.toNat := rfl
  have hsub : now - (p.lastSeen + u.cfg.timing.holdMs.toUInt32) = now - p.lastSeen - u.cfg.timing.holdMs.toUInt32 := by grind
  apply h
  rw [hsub, UInt32.toNat_sub, UInt16.toNat_toUInt32, hgone]
  split at hlong <;> omega

/-- By the real clock too, if that is not off by 2^31 ms. -/
theorem heard_within_real {u : Uhrp} {p : Peer} {seen now : Nat} (hseen : p.lastSeen = UInt32.ofNat seen)
    (hlt : now < seen + u.cfg.timing.holdMs.toNat + 2 ^ 31) (h : expired u (UInt32.ofNat now) p = false) :
    now < seen + u.cfg.timing.holdMs.toNat := by
  by_contra hlong
  rw [expired, hseen, ofNat_add_toUInt32, timeAfter_of_le (by omega) (by omega)] at h
  cases h

/-! ## Runs -/

/-- A call, or the caller takes the events. -/
inductive Turn where
  | call (c : Call)
  | takeEvents
  deriving DecidableEq

structure Books where
  u : Uhrp
  /-- When a message of each board last came in. -/
  heard : Addr → Nat
  /-- When the board was last evaluated. -/
  clock : Nat
  /-- Each evaluation came soon after the one before. -/
  steady : Bool
  /-- When the last turn evaluated the board: a tick, a RESIGN or a HELLO that was accepted. -/
  last : Option Nat

namespace Books

def step (b : Books) : Turn → Books
  | .takeEvents => { b with u := (takeEvents b.u).2, last := none }
  | .call c =>
    let last := (prepared b.u c).map (·.2)
    { u := call b.u c
      heard := match c.sender?, last with
        | some src, some now => Function.update b.heard src now
        | _, _ => b.heard
      clock := last.getD b.clock
      steady := b.steady && last.all (Tenure.soon b.clock)
      last := last }

/-- The board starts at `t0`. -/
def start (cfg : Config) (t0 : Nat) : Books := ⟨uhrpStart (uhrpInit cfg) (UInt32.ofNat t0), fun _ => t0, t0, true, none⟩

def Started (cfg : Config) (t0 : Nat) (b : Books) : Prop := b = start cfg t0

/-- The messages are those of other boards. -/
def Foreign (b : Books) : Turn → Prop
  | .call c => c.sender? ≠ some b.u.cfg.addr
  | .takeEvents => True

instance (b : Books) : (o : Turn) → Decidable (Foreign b o)
  | .call c => inferInstanceAs (Decidable (c.sender? ≠ some b.u.cfg.addr))
  | .takeEvents => isTrue trivial

end Books

/-- The roles, and the table. -/
structure Booked (u : Uhrp) : Prop where
  own : u.state = .active → u.active = u.cfg.addr
  other : u.state ≠ .active → u.active = addrNone ∨
    ∃ p ∈ u.peers.cells, p.used = true ∧ p.addr = u.active ∧ p.state = UhrpState.active.toByte
  pending : u.resignPending = true → u.state = .active
  unique : u.peers.Unique
  foreign : ∀ p ∈ u.peers.cells, p.used = true → p.addr ≠ u.cfg.addr

/-- The entries are those of boards heard less than the hold time before `now`. -/
structure Books.FreshAt (b : Books) (now : Nat) : Prop where
  wrapped : ∀ p ∈ b.u.peers.cells, p.used = true → timeDiff (UInt32.ofNat now) p.lastSeen < b.u.cfg.timing.holdMs.toNat
  real : b.steady = true → ∀ p ∈ b.u.peers.cells, p.used = true → now < b.heard p.addr + b.u.cfg.timing.holdMs.toNat

/-! ## One evaluation -/

/-- The message a call brings is timed. -/
theorem written_now {u v : Uhrp} {c : Call} {now : Nat} (h : prepared u c = some (v, now)) (hu : u.peers.Unique) {p : Peer}
    (hp : p ∈ v.peers.cells) (hused : p.used = true) (hs : c.sender? = some p.addr) : p.lastSeen = UInt32.ofNat now := by
  have hfind := (prepared_unique h hu).find?_of_mem hp hused
  cases c with
  | hello src hl t =>
    cases hs
    obtain ⟨q, hq⟩ := prepared_find_hello h
    rw [show Slotted.key p = p.addr from rfl, hq] at hfind
    cases hfind
    rfl
  | resign src t =>
    cases hs
    rw [show Slotted.key p = p.addr from rfl, prepared_find_resign h] at hfind
    obtain ⟨q, -, rfl⟩ := Option.map_eq_some_iff.mp hfind
    rfl
  | tick t => cases hs
  | setKeysHeld held => cases hs

/-- A board that keeps the role goes on taking itself for the active speaker. -/
theorem reevaluate_own {u : Uhrp} {now : Time} (hs : u.started = true) (ha : u.state = .active)
    (hv : (reevaluate u now).state = .active) : (reevaluate u now).active = u.active := by
  obtain ⟨-, -, -, hx⟩ := readied_same u now
  rw [reevaluate_readied hs ha] at hv ⊢
  cases hr : (readied u now).resignPending with
  | false =>
    rw [serviceResign_of_not_pending hr]
    exact hx
  | true =>
    obtain ⟨-, -, hwait⟩ | ⟨-, hleft, -⟩ := serviceResign_of_pending hr now
    · rw [hwait]
      exact hx
    · rw [hleft] at hv
      cases hv

/-- What an evaluation needs of the board for its books to be in order after it. -/
structure Handed (v : Uhrp) : Prop where
  started : v.started = true
  own : v.state = .active → v.active = v.cfg.addr
  learning : v.state = .learn → v.active = addrNone
  pending : v.resignPending = true → v.state = .active
  unique : v.peers.Unique
  foreign : ∀ p ∈ v.peers.cells, p.used = true → p.addr ≠ v.cfg.addr

theorem Handed.reevaluate {v : Uhrp} (h : Handed v) (now : Time) :
    Booked (reevaluate v now) ∧ ((reevaluate v now).state = .learn → (reevaluate v now).active = addrNone) := by
  have haged : (peerAge v now).peers.Unique := aged_unique now h.unique
  have hforeign : ∀ p ∈ (peerAge v now).peers.cells, p.used = true → p.addr ≠ v.cfg.addr := fun p hp hu =>
    h.foreign p (aged_mem hp hu).1 hu
  by_cases ha : v.state = .active
  · obtain ⟨hf, hres | hkept⟩ := reevaluate_active h.started ha now
    · refine ⟨⟨fun hact => ?_, fun _ => .inl hres.active, fun hp => ?_, hf.peers ▸ haged, ?_⟩, fun _ => hres.active⟩
      · rw [hres.state] at hact
        cases hact
      · rw [hres.resignPending] at hp
        cases hp
      · rw [hf.peers, hf.cfg]
        exact hforeign
    · have hown := reevaluate_own h.started ha hkept.state
      refine ⟨⟨fun _ => ?_, fun hne => absurd hkept.state hne, fun _ => hkept.state, hf.peers ▸ haged, ?_⟩, fun hl => ?_⟩
      · rw [hown, h.own ha, hf.cfg]
        rfl
      · rw [hf.peers, hf.cfg]
        exact hforeign
      · rw [hkept.state] at hl
        cases hl
  · have hquiet : v.resignPending = false := Bool.eq_false_iff.mpr fun hp => ha (h.pending hp)
    obtain ⟨hf, ⟨a, hfo⟩ | hwa | htk⟩ := reevaluate_idle h.started ha now
    · obtain ⟨-, hmem, hused, hrole, -⟩ := findActivePeer_mem hfo.found
      refine ⟨⟨fun hact => absurd hact hfo.notActive, fun _ => .inr ⟨a, hf.peers ▸ hmem, hused, hfo.active.symm, hrole⟩,
        fun hp => ?_, hf.peers ▸ haged, ?_⟩, fun hl => absurd hl hfo.notLearn⟩
      · rw [hfo.resignPending, hquiet] at hp
        cases hp
      · rw [hf.peers, hf.cfg]
        exact hforeign
    · have hnobody : (Election.reevaluate v now).active = addrNone := by
        rw [hwa.active]
        split
        · rename_i hl
          exact h.learning hl
        · rfl
      refine ⟨⟨fun hact => absurd hact hwa.notActive, fun _ => .inl hnobody, fun hp => ?_, hf.peers ▸ haged, ?_⟩,
        fun _ => hnobody⟩
      · rw [hwa.resignPending, hquiet] at hp
        cases hp
      · rw [hf.peers, hf.cfg]
        exact hforeign
    · have hp := htk.promoted
      refine ⟨⟨fun _ => ?_, fun hne => absurd hp.state hne, fun _ => hp.state, hf.peers ▸ haged, ?_⟩, fun hl => ?_⟩
      · rw [hp.active, hp.cfg]
      · rw [hf.peers, hf.cfg]
        exact hforeign
      · rw [hp.state] at hl
        cases hl

theorem call_frame {u : Uhrp} {c : Call} (h : prepared u c = none) : ∃ held, call u c = { u with keysHeld := held } := by
  obtain he | ⟨held, -, he⟩ := call_of_not_prepared h
  · exact ⟨u.keysHeld, he⟩
  · exact ⟨held, he⟩

/-- What an evaluating call leaves is what the evaluation left. -/
theorem call_evaluated {u v : Uhrp} {c : Call} {now : Nat} (h : prepared u c = some (v, now)) :
    SameButState (reevaluate v (UInt32.ofNat now)) (call u c) ∧
      (call u c).state = (reevaluate v (UInt32.ofNat now)).state := by
  rw [call_of_prepared h]
  split
  · exact advertise_same _ _
  · exact ⟨by constructor <;> rfl, rfl⟩

theorem Booked.congr {u v : Uhrp} (h : Booked u) (hs : SameButState u v) (hstate : v.state = u.state) : Booked v := by
  obtain ⟨hown, hother, hpending, hunique, hforeign⟩ := h
  refine ⟨?_, ?_, ?_, hs.peers ▸ hunique, ?_⟩
  · rw [hstate, hs.active, hs.cfg]
    exact hown
  · rw [hstate, hs.active, hs.peers]
    exact hother
  · rw [hstate, hs.resignPending]
    exact hpending
  · rw [hs.peers, hs.cfg]
    exact hforeign

/-! ## The invariant -/

namespace Books

structure Inv (b : Books) : Prop where
  started : b.u.started = true
  booked : Booked b.u
  learning : b.u.state = .learn → b.u.active = addrNone
  /-- What is in the table is timed, and was not out when the board was last evaluated. -/
  timed : b.steady = true → ∀ p ∈ b.u.peers.cells, p.used = true → p.lastSeen = UInt32.ofNat (b.heard p.addr) ∧
    b.heard p.addr ≤ b.clock ∧ b.clock < b.heard p.addr + b.u.cfg.timing.holdMs.toNat
  last : ∀ now, b.last = some now → b.FreshAt now

theorem start_inv (cfg : Config) (t0 : Nat) : Inv (start cfg t0) := by
  have h := enterState_same { uhrpInit cfg with started := true, vacancyClean := true } .learn (UInt32.ofNat t0)
  have hstate := enterState_state { uhrpInit cfg with started := true, vacancyClean := true } .learn (UInt32.ofNat t0)
  have hpeers : (start cfg t0).u.peers = Slots.replicate maxBoards { freshPeer 0 with used := false } := h.peers
  have hvacant : ∀ p ∈ (start cfg t0).u.peers.cells, ¬ p.used = true := by
    intro p hp
    rw [hpeers] at hp
    rw [(List.mem_replicate.mp hp).2]
    decide
  have hlearn : (start cfg t0).u.state = .learn := hstate
  have hnobody : (start cfg t0).u.active = addrNone := h.active
  refine ⟨h.started, ⟨fun ha => ?_, fun _ => .inl hnobody, fun hp => ?_, ?_, fun p hp hu => absurd hu (hvacant p hp)⟩,
    fun _ => hnobody, fun _ p hp hu => absurd hu (hvacant p hp), fun now hl => by cases hl⟩
  · rw [hlearn] at ha
    cases ha
  · have hq : (start cfg t0).u.resignPending = false := h.resignPending
    rw [hq] at hp
    cases hp
  · rw [hpeers]
    exact Slots.unique_replicate rfl

/-- What a message of another board hands to the evaluation. -/
theorem Inv.handed {b : Books} (h : Inv b) {c : Call} (hc : c.sender? ≠ some b.u.cfg.addr) {v : Uhrp} {now : Nat}
    (hv : prepared b.u c = some (v, now)) : Handed v := by
  obtain ⟨hsame, hstart⟩ := prepared_same hv
  have hspeaker := prepared_active hv
  refine ⟨hsame.started.trans hstart, fun ha => ?_, fun hl => ?_, fun hp => ?_, prepared_unique hv h.booked.unique, ?_⟩
  · have hown := h.booked.own (hsame.state.symm.trans ha)
    obtain hact | ⟨hsender, -⟩ := hspeaker
    · rw [hact, hown, hsame.cfg]
    · rw [hown] at hsender
      exact absurd hsender hc
  · have hnone := h.learning (hsame.state.symm.trans hl)
    exact hspeaker.elim (fun hact => hact.trans hnone) And.right
  · exact hsame.state.trans (h.booked.pending (hsame.resignPending.symm.trans hp))
  · intro p hp hu
    rw [hsame.cfg]
    obtain ⟨hold, -⟩ | ⟨hsender, -⟩ := prepared_mem hv h.booked.unique hp hu
    · exact h.booked.foreign p hold hu
    · intro heq
      rw [heq] at hsender
      exact hc hsender

/-- What is in the table after an evaluation that came soon after the last. -/
theorem Inv.timed_call {b : Books} (h : Inv b) {c : Call} {v : Uhrp} {now : Nat} (hv : prepared b.u c = some (v, now))
    (hsteady : b.steady = true) (hsoon : Tenure.soon b.clock now = true) {p : Peer}
    (hp : p ∈ (peerAge v (UInt32.ofNat now)).peers.cells) (hu : p.used = true) :
    p.lastSeen = UInt32.ofNat ((b.step (.call c)).heard p.addr) ∧ (b.step (.call c)).heard p.addr ≤ now ∧
      now < (b.step (.call c)).heard p.addr + b.u.cfg.timing.holdMs.toNat := by
  obtain ⟨hmem, hlive⟩ := aged_mem hp hu
  have hcfg : v.cfg = b.u.cfg := (prepared_same hv).1.cfg
  simp only [Tenure.soon, Bool.and_eq_true, decide_eq_true_eq] at hsoon
  obtain ⟨hold, hother⟩ | ⟨hsender, -⟩ := prepared_mem hv h.booked.unique hmem hu
  · have hheard : (b.step (.call c)).heard p.addr = b.heard p.addr := by
      simp only [step, hv, Option.map_some]
      cases hs : c.sender? with
      | none => rfl
      | some src => exact Function.update_of_ne (fun he => hother (hs.trans (congrArg some he.symm))) _ _
    obtain ⟨hseen, hbefore, hafter⟩ := h.timed hsteady p hold hu
    rw [hheard, ← hcfg]
    rw [← hcfg] at hafter
    exact ⟨hseen, by omega, heard_within_real hseen (by omega) hlive⟩
  · have hheard : (b.step (.call c)).heard p.addr = now := by
      simp only [step, hv, Option.map_some, hsender]
      exact Function.update_self ..
    have hseen := written_now hv h.booked.unique hmem hu hsender
    rw [hheard, ← hcfg]
    exact ⟨hseen, Nat.le_refl now, heard_within_real hseen (by omega) hlive⟩

theorem Inv.step {b : Books} (h : Inv b) (o : Turn) (hf : b.Foreign o) : Inv (b.step o) := by
  cases o with
  | takeEvents =>
    exact ⟨h.started, ⟨h.booked.own, h.booked.other, h.booked.pending, h.booked.unique, h.booked.foreign⟩, h.learning,
      h.timed, fun now hl => by cases hl⟩
  | call c =>
    cases hv : prepared b.u c with
    | none =>
      obtain ⟨held, hcall⟩ := call_frame hv
      have hstep : b.step (.call c) = { b with u := { b.u with keysHeld := held }, last := none } := by
        simp only [Books.step, hv, hcall, Option.map_none, Option.getD_none, Option.all_none, Bool.and_true]
        cases c.sender? <;> rfl
      rw [hstep]
      exact ⟨h.started, ⟨h.booked.own, h.booked.other, h.booked.pending, h.booked.unique, h.booked.foreign⟩, h.learning,
        h.timed, fun now hl => by cases hl⟩
    | some r =>
      obtain ⟨v, now⟩ := r
      obtain ⟨hsame, hstate⟩ := call_evaluated hv
      have hh := h.handed hf hv
      obtain ⟨hbooked, hlearning⟩ := hh.reevaluate (UInt32.ofNat now)
      obtain ⟨hpeers, hcfg, hstarted⟩ := reevaluate_peers hh.started (UInt32.ofNat now)
      have hpeers : (b.step (.call c)).u.peers = (peerAge v (UInt32.ofNat now)).peers := hsame.peers.trans hpeers
      have hconf : (b.step (.call c)).u.cfg = v.cfg := hsame.cfg.trans hcfg
      have hconf' : v.cfg = b.u.cfg := (prepared_same hv).1.cfg
      have hclock : (b.step (.call c)).clock = now := by simp [Books.step, hv]
      have hsteady : (b.step (.call c)).steady = true → b.steady = true ∧ Tenure.soon b.clock now = true := by
        simp only [Books.step, hv, Option.map_some, Option.all_some, Bool.and_eq_true]
        exact id
      have htimed : (b.step (.call c)).steady = true → ∀ p ∈ (b.step (.call c)).u.peers.cells, p.used = true →
          p.lastSeen = UInt32.ofNat ((b.step (.call c)).heard p.addr) ∧ (b.step (.call c)).heard p.addr ≤ now ∧
            now < (b.step (.call c)).heard p.addr + (b.step (.call c)).u.cfg.timing.holdMs.toNat := by
        intro hs p hp hu
        rw [hpeers] at hp
        rw [hconf, hconf']
        exact h.timed_call hv (hsteady hs).1 (hsteady hs).2 hp hu
      refine ⟨hsame.started.trans hstarted, hbooked.congr hsame hstate, fun hl => ?_, ?_, fun n hn => ?_⟩
      · exact hsame.active.trans (hlearning (hstate.symm.trans hl))
      · rw [hclock]
        exact htimed
      · have hn : some now = some n := by
          rw [← hn]
          simp [Books.step, hv]
        obtain rfl := Option.some.inj hn
        refine ⟨fun p hp hu => ?_, fun hs p hp hu => (htimed hs p hp hu).2.2⟩
        rw [hpeers] at hp
        rw [hconf]
        exact heard_within (aged_mem hp hu).2

end Books

/-- In every state of every run the books are in order, and after an evaluation nobody in
    the table was last heard the hold time ago or earlier. -/
theorem books_kept {cfg : Config} {t0 : Nat} {b : Books} (h : Reach (Books.Started cfg t0) Books.Foreign Books.step b) :
    Booked b.u ∧ ∀ now, b.last = some now → b.FreshAt now := by
  have hinv : b.Inv := h.inv (fun b hb => hb ▸ Books.start_inv cfg t0) fun b o hi hf => hi.step o hf
  exact ⟨hinv.booked, hinv.last⟩

def plainBoard : Config := ⟨7, 1, 100, 0, false, timingDefault⟩

/-- The active speaker is heard, and followed; two ticks later it has been silent for the hold time. -/
def speakerLost : List Turn :=
  [.call (.hello 2 { state := UhrpState.active.toByte, priority := 200, uid := 9, caps := 0, holdCs := 15, flags := 0, reserved := 0 } 10),
    .takeEvents, .call (.tick 60), .call (.tick 160)]

theorem speaker_lost_booked : Booked (speakerLost.foldl Books.step (Books.start plainBoard 0)).u ∧
    ∀ now, (speakerLost.foldl Books.step (Books.start plainBoard 0)).last = some now →
      (speakerLost.foldl Books.step (Books.start plainBoard 0)).FreshAt now := by
  have hrun : Reach.Admitted Books.Foreign Books.step (Books.start plainBoard 0) speakerLost := by decide +kernel
  have hstart : Books.Started plainBoard 0 (Books.start plainBoard 0) := rfl
  exact books_kept (Reach.run (.init hstart) speakerLost hrun)

end DeskHop.Election
