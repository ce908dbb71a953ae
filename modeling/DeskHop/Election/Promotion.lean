/-
  DeskHop.Election.Promotion — what a board that takes the role has not heard.

  A run is a board with the calls made on it (`Watch`). What a peer last said of itself
  is read off the calls alone (`lastHello`): its latest HELLO, and whether it resigned
  since. The peer table forgets an entry when its hold time runs out, gives its slot to
  another board, and takes the role off a peer that resigns; but within the hold time it
  holds what the peer last said (`Remembers`), as long as there are no more peers than
  slots.

  Proved, for every run with at most `maxBoards` peers whose times do not go back
  (`promotion_safety`): a board that takes the role has heard nobody within the hold time
  who outranks it, or who says ACTIVE and has not resigned since. So of two boards that
  hear each other within the hold time the weaker is not promoted.
-/

import DeskHop.Election.Field
import DeskHop.Election.Vacancy

namespace DeskHop.Election

open DeskHop.Lib

/-! ## What the messages say -/

/-- The latest HELLO of a peer. -/
structure LastHello where
  hello : Hello
  time : Nat
  /-- The peer has resigned since. -/
  resigned : Bool
  deriving DecidableEq

/-- The latest HELLO from `a` in the calls, which are listed latest first. -/
def lastHello (a : Addr) : List Call → Option LastHello
  | [] => none
  | .hello src h now :: cs => if src = a then some ⟨h, now, false⟩ else lastHello a cs
  | .resign src _ :: cs => if src = a then (lastHello a cs).map ({ · with resigned := true }) else lastHello a cs
  | .tick _ :: cs | .setKeysHeld _ :: cs => lastHello a cs

def LastHello.rank (m : LastHello) : Nat := Election.rank m.hello.priority m.hello.uid

/-- The peer says that it holds the role. -/
def LastHello.saysActive (m : LastHello) : Prop := m.hello.state = UhrpState.active.toByte ∧ m.resigned = false

/-- The peer's HELLO arrived less than the hold time ago. -/
def LastHello.fresh (m : LastHello) (t : Watch) : Prop := t.clock < m.time + t.u.cfg.timing.holdMs.toNat

/-- The board last heard `other` less than the hold time ago, with the priority and uid
    that `other` has. -/
def Hears (t : Watch) (other : Uhrp) : Prop :=
  ∃ m, lastHello other.cfg.addr t.calls = some m ∧ m.fresh t ∧ m.hello.priority = other.cfg.priority ∧
    m.hello.uid = other.cfg.uid

/-- Who sent a HELLO. -/
def Call.helloFrom? : Call → Option Addr
  | .hello src _ _ => some src
  | _ => none

/-- Times do not go back, and the HELLOs of other boards come from `S`. -/
def Heeded (S : Finset Addr) (t : Watch) (c : Call) : Prop :=
  t.InTime c ∧ c.helloFrom?.all (fun src => src == t.u.cfg.addr || decide (src ∈ S)) = true

instance (S : Finset Addr) (t : Watch) (c : Call) : Decidable (Heeded S t c) := inferInstanceAs (Decidable (_ ∧ _))

theorem Heeded.mem {S : Finset Addr} {t : Watch} {src : Addr} {h : Hello} {n : Nat} (hc : Heeded S t (.hello src h n))
    (hne : src ≠ t.u.cfg.addr) : src ∈ S := by
  have := hc.2
  simpa [Call.helloFrom?, hne] using this

/-! ## The invariant -/

/-- The table has the peer as its latest HELLO and RESIGN describe it. -/
def Remembers (t : Watch) (a : Addr) (m : LastHello) : Prop :=
  ∃ p n, t.u.peers.find? a = some p ∧ p.rank = m.rank ∧
    p.state = (if m.resigned then UhrpState.listen.toByte else m.hello.state) ∧
    p.lastSeen = UInt32.ofNat n ∧ m.time ≤ n ∧ n ≤ t.clock

structure Informed (S : Finset Addr) (t : Watch) : Prop where
  started : t.u.started = true
  unique : t.u.peers.Unique
  known : ∀ p ∈ t.u.peers.cells, p.used = true → p.addr ∈ S
  remembers : ∀ a m, a ≠ t.u.cfg.addr → lastHello a t.calls = some m → m.fresh t → Remembers t a m

theorem start_informed (S : Finset Addr) (cfg : Config) (t0 : Nat) : Informed S (Watch.start cfg t0) := by
  have hi := Watch.start_inv cfg t0
  refine ⟨hi.started, hi.unique, fun p hp hu => ?_, fun a m _ h => by cases h⟩
  have h := enterState_same { uhrpInit cfg with started := true, vacancyClean := true } .learn (UInt32.ofNat t0)
  have hpeers : (Watch.start cfg t0).u.peers = Slots.replicate maxBoards { freshPeer 0 with used := false } := h.peers
  rw [hpeers] at hp
  rw [(List.mem_replicate.mp hp).2] at hu
  cases hu

/-- An entry written less than the hold time ago is live. -/
theorem not_expired {u : Uhrp} {p : Peer} {n now : Nat} (hp : p.lastSeen = UInt32.ofNat n) (hn : n ≤ now)
    (h : now < n + u.cfg.timing.holdMs.toNat) : expired u (UInt32.ofNat now) p = false := by
  have := u.cfg.timing.holdMs.toNat_lt
  rw [expired, hp, ofNat_add_toUInt32]
  exact timeAfter_of_lt h (by omega)

/-- With no more peers than slots, no HELLO goes unheeded but the board's own. -/
theorem own_of_not_evaluated {S : Finset Addr} {t : Watch} {src : Addr} {h : Hello} {n : Nat} (hS : S.card ≤ maxBoards)
    (hi : Informed S t) (hc : Heeded S t (.hello src h n)) (he : evaluated t.u (.hello src h n) = none) :
    src = t.u.cfg.addr := by
  by_contra hne
  have hg : peerGet (takeEvents t.u).2 src = none := by
    have hd : ((!(takeEvents t.u).2.started) || src == (takeEvents t.u).2.cfg.addr) = false := by
      simp [takeEvents, hi.started, hne]
    simp only [evaluated, prepared, hd, Bool.false_eq_true, if_false] at he
    split at he
    · assumption
    · cases he
  obtain ⟨hnd, hlen, hnot, hused⟩ := hi.unique.full (Option.map_eq_none_iff.mp hg)
  -- the peers in the table and the sender are one more than there are slots
  have hsub : (src :: t.u.peers.cells.map Slotted.key).toFinset ⊆ S := by
    intro a ha
    rcases List.mem_cons.mp (List.mem_toFinset.mp ha) with rfl | ha
    · exact hc.mem hne
    · obtain ⟨p, hp, rfl⟩ := List.mem_map.mp ha
      exact hi.known p hp (hused p hp)
  have hcard := Finset.card_le_card hsub
  have hnd' : (src :: t.u.peers.cells.map Slotted.key).Nodup := List.nodup_cons.mpr ⟨hnot, hnd⟩
  rw [List.toFinset_card_of_nodup hnd', List.length_cons, hlen] at hcard
  omega

/-- Nothing the board drops tells it anything about its peers. -/
theorem lastHello_of_not_evaluated {S : Finset Addr} {t : Watch} {c : Call} (hS : S.card ≤ maxBoards)
    (hi : Informed S t) (hc : Heeded S t c) (he : evaluated t.u c = none) {a : Addr} (ha : a ≠ t.u.cfg.addr) :
    lastHello a (c :: t.calls) = lastHello a t.calls := by
  cases c with
  | hello src h n => exact if_neg fun e : src = a => ha (e ▸ own_of_not_evaluated hS hi hc he)
  | resign src n => simp [evaluated, prepared, takeEvents, hi.started] at he
  | tick n => rfl
  | setKeysHeld b => rfl

theorem clock_of_evaluated {t : Watch} {c : Call} {v : Uhrp} {now : Nat} (he : evaluated t.u c = some (v, now)) :
    (t.step c).clock = now := by
  cases c with
  | hello src h n =>
    simp only [evaluated, prepared] at he
    split at he
    · cases he
    split at he <;> cases he
    rfl
  | resign src n => simp only [evaluated, prepared] at he; split at he <;> cases he; rfl
  | tick n => simp only [evaluated, prepared] at he; split at he <;> cases he; rfl
  | setKeysHeld b => cases he

/-- The entry of a peer heard within the hold time, as the call hands it to the
    evaluation. -/
theorem remembered {S : Finset Addr} {t : Watch} {c : Call} {v : Uhrp} {now : Nat} (hi : Informed S t)
    (hc : Heeded S t c) (he : evaluated t.u c = some (v, now)) {a : Addr} {m : LastHello} (ha : a ≠ t.u.cfg.addr)
    (hm : lastHello a (c :: t.calls) = some m) (hf : now < m.time + t.u.cfg.timing.holdMs.toNat) :
    ∃ p n, v.peers.find? a = some p ∧ p.rank = m.rank ∧
      p.state = (if m.resigned then UhrpState.listen.toByte else m.hello.state) ∧
      p.lastSeen = UInt32.ofNat n ∧ m.time ≤ n ∧ n ≤ now := by
  have hclock : t.clock ≤ now := clock_of_evaluated he ▸ hc.1
  -- a peer that does not send keeps its entry
  have hother : c.sender? ≠ some a → lastHello a t.calls = some m → ∃ p n, v.peers.find? a = some p ∧
      p.rank = m.rank ∧ p.state = (if m.resigned then UhrpState.listen.toByte else m.hello.state) ∧
      p.lastSeen = UInt32.ofNat n ∧ m.time ≤ n ∧ n ≤ now := by
    intro hs hold
    obtain ⟨p, n, hp, hr, hst, hl, h1, h2⟩ := hi.remembers a m ha hold (show t.clock < _ by omega)
    exact ⟨p, n, (prepared_find_other he hs).trans hp, hr, hst, hl, h1, by omega⟩
  cases c with
  | hello src h n =>
    by_cases hs : src = a
    · subst hs
      have hnow := clock_of_evaluated he
      obtain ⟨q, hq⟩ := prepared_find_hello he
      have hm' : m = ⟨h, n, false⟩ := (Option.some.inj ((if_pos rfl).symm.trans hm)).symm
      subst hm'
      exact ⟨_, now, hq, rfl, rfl, rfl, Nat.le_of_eq hnow, Nat.le_refl _⟩
    · exact hother (fun e => hs (Option.some.inj e)) ((if_neg hs).symm.trans hm)
  | resign src n =>
    by_cases hs : src = a
    · subst hs
      have hm' : (lastHello src t.calls).map ({ · with resigned := true }) = some m := (if_pos rfl).symm.trans hm
      obtain ⟨m', hold, rfl⟩ := Option.map_eq_some_iff.mp hm'
      have hf' : t.clock < m'.time + t.u.cfg.timing.holdMs.toNat := Nat.lt_of_le_of_lt hclock hf
      obtain ⟨p, n', hp, hr, -, -, h1, h2⟩ := hi.remembers src m' ha hold hf'
      refine ⟨_, now, (prepared_find_resign he).trans (congrArg _ hp), hr, rfl, rfl, ?_, Nat.le_refl _⟩
      exact Nat.le_trans h1 (Nat.le_trans h2 hclock)
    · exact hother (fun e => hs (Option.some.inj e)) ((if_neg hs).symm.trans hm)
  | tick n => exact hother (fun e => by cases e) hm
  | setKeysHeld b => cases he

theorem known_of_evaluated {S : Finset Addr} {t : Watch} {c : Call} {v : Uhrp} {now : Nat} (hi : Informed S t)
    (hc : Heeded S t c) (he : evaluated t.u c = some (v, now)) {p : Peer} (hp : p ∈ v.peers.cells)
    (hu : p.used = true) : p.addr ∈ S := by
  rcases prepared_mem he hi.unique hp hu with ⟨hold, -⟩ | ⟨hs, -⟩
  · exact hi.known p hold hu
  · cases c with
    | hello src h n =>
      have hsrc : src = p.addr := Option.some.inj hs
      refine hsrc ▸ hc.mem fun e => ?_
      simp [evaluated, prepared, takeEvents, e] at he
    | resign src n =>
      have hsrc : src = p.addr := Option.some.inj hs
      subst hsrc
      have hf := (prepared_unique he hi.unique).find?_of_mem hp hu
      obtain ⟨q, hq, -⟩ := Option.map_eq_some_iff.mp ((prepared_find_resign he).symm.trans hf)
      obtain ⟨hqm, hqu, hqk⟩ := Slots.find?_some hq
      exact (show q.addr = p.addr from hqk) ▸ hi.known q hqm hqu
    | tick n => cases hs
    | setKeysHeld b => cases hs

theorem step_informed {S : Finset Addr} {t : Watch} {c : Call} (hS : S.card ≤ maxBoards) (hi : Informed S t)
    (hc : Heeded S t c) : Informed S (t.step c) := by
  have hcfg : (t.step c).u.cfg = t.u.cfg := step_cfg t.u c
  cases he : evaluated t.u c with
  | none =>
    obtain ⟨b, hb⟩ := step_of_not_evaluated he
    have hu : (t.step c).u = { (takeEvents t.u).2 with keysHeld := b } := hb
    have hpeers : (t.step c).u.peers = t.u.peers := by rw [hu]; rfl
    refine ⟨by rw [hu]; exact hi.started, by rw [hpeers]; exact hi.unique, by rw [hpeers]; exact hi.known, ?_⟩
    intro a m ha hm hf
    rw [hcfg] at ha
    have hle : t.clock ≤ (t.step c).clock := hc.1
    have hold : lastHello a t.calls = some m := (lastHello_of_not_evaluated hS hi hc he ha).symm.trans hm
    obtain ⟨p, n, hp, hr, hst, hl, h1, h2⟩ := hi.remembers a m ha hold (by
      unfold LastHello.fresh at hf ⊢
      rw [hcfg] at hf
      omega)
    exact ⟨p, n, by rw [hpeers]; exact hp, hr, hst, hl, h1, by omega⟩
  | some r =>
    obtain ⟨v, now⟩ := r
    obtain ⟨hpeers, -, hst⟩ := step_peers he
    have hp : (t.step c).u.peers = (peerAge v (UInt32.ofNat now)).peers := hpeers
    refine ⟨hst, by rw [hp]; exact aged_unique _ (prepared_unique he hi.unique), fun p hm hu => ?_, ?_⟩
    · rw [hp] at hm
      exact known_of_evaluated hi hc he (aged_mem hm hu).1 hu
    · intro a m ha hm hf
      rw [hcfg] at ha
      unfold LastHello.fresh at hf
      rw [hcfg, clock_of_evaluated he] at hf
      obtain ⟨p, n, hfind, hr, hs, hl, h1, h2⟩ := remembered hi hc he ha hm hf
      refine ⟨p, n, ?_, hr, hs, hl, h1, by rw [clock_of_evaluated he]; exact h2⟩
      rw [hp]
      refine aged_find hfind (not_expired hl h2 ?_)
      rw [show v.cfg = t.u.cfg from (evaluated_same he).1.cfg]
      omega

/-! ## Promotions -/

theorem informed {cfg : Config} {t0 : Nat} {S : Finset Addr} {t : Watch} (hS : S.card ≤ maxBoards)
    (h : Reach (Watch.Started cfg t0) (Heeded S) Watch.step t) : Informed S t :=
  h.inv (fun _ hs => hs ▸ start_informed S cfg t0) (fun _ _ hi hc => step_informed hS hi hc)

/-- A board that takes the role has heard nobody within the hold time that outranks it,
    or that says ACTIVE and has not resigned since. So of two boards that hear each
    other the weaker does not take it. -/
theorem promotion_safety {cfg : Config} {t0 : Nat} {S : Finset Addr} (hS : S.card ≤ maxBoards) {t : Watch}
    (h : Reach (Watch.Started cfg t0) (Heeded S) Watch.step t) {c : Call} (hc : Heeded S t c)
    (hs : t.u.state ≠ .active) (hp : (t.step c).u.state = .active) :
    (∀ a m, a ≠ t.u.cfg.addr → lastHello a (t.step c).calls = some m → m.fresh (t.step c) →
      ¬ t.u.rank < m.rank ∧ ¬ m.saysActive) ∧
    ∀ other : Uhrp, other.cfg.addr ≠ t.u.cfg.addr → Hears (t.step c) other → ¬ t.u.rank < other.rank := by
  have hi := step_informed hS (informed hS h) hc
  have hcfg : (t.step c).u.cfg = t.u.cfg := step_cfg t.u c
  have hmain : ∀ a m, a ≠ t.u.cfg.addr → lastHello a (t.step c).calls = some m → m.fresh (t.step c) →
      ¬ t.u.rank < m.rank ∧ ¬ m.saysActive := by
    intro a m ha hm hf
    obtain ⟨p, n, hfind, hr, hst, -⟩ := hi.remembers a m (by rw [hcfg]; exact ha) hm hf
    obtain ⟨v, now, he, htk⟩ := tookOver_of_step (c := c) hs hp
    have hpm := (Slots.find?_some hfind).1
    have hpu : p.used = true := (Slots.find?_some hfind).2.1
    rw [show (t.step c).u.peers = (peerAge v (UInt32.ofNat now)).peers from (step_peers he).1] at hpm
    obtain ⟨hold, hx⟩ := aged_mem hpm hpu
    obtain ⟨hrank, hna⟩ := htk.over hold hpu hx
    have hvr : v.rank = t.u.rank := by rw [Uhrp.rank, (evaluated_same he).1.cfg]; rfl
    refine ⟨by omega, fun hsay => hna ?_⟩
    rw [hst, hsay.2]
    exact hsay.1
  refine ⟨hmain, fun other ho hh => ?_⟩
  obtain ⟨m, hm, hf, hprio, huid⟩ := hh
  have hrank : m.rank = other.rank := by rw [LastHello.rank, hprio, huid]; rfl
  rw [← hrank]
  exact (hmain _ m ho hm hf).1

/-- The weaker third board has been heard, and the learn window is over. -/
theorem promotion_safety_after_learning : ¬ silenced.u.rank < LastHello.rank ⟨thirdHello, 260, false⟩ := by
  have h0 : Reach (Watch.Started backupCfg 0) (Heeded {1, 3}) Watch.step (Watch.start backupCfg 0) := .init rfl
  have hr : Reach (Watch.Started backupCfg 0) (Heeded {1, 3}) Watch.step silenced := h0.run silencedCalls (by decide +kernel)
  have hlaw := promotion_safety (by decide) hr (c := .hello 3 thirdHello 260) (by decide +kernel) (by decide +kernel)
    (by decide +kernel)
  exact (hlaw.1 3 ⟨thirdHello, 260, false⟩ (by decide +kernel) (by decide +kernel) (by
    show (silenced.step (.hello 3 thirdHello 260)).clock < 260 + _
    decide +kernel)).1

end DeskHop.Election
