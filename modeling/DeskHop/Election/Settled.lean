/-
  DeskHop.Election.Settled — a settled election does not oscillate.

  Any number of boards, and the HELLOs they have sent (`Net`). A board may build a HELLO
  at any time; a HELLO is handed to any board at any time, in any order, as often as
  one likes, or never. The election is settled on the board `a` when `a` holds the role
  with no resignation pending, every other board is idle, the tables hold every other
  board as it is, and no board that outranks `a` wants the role (`Settled`).

  Proved: while every table entry is refreshed before its hold time runs out, and the
  HELLOs on their way say what their senders are (`Current`), the election stays settled
  (`step_settled`), and no step stands down or releases (`settled_stays`).

  A HELLO that `a` built before it took the role, on its way all that time, unsettles it:
  a stronger board that does not preempt sees the role vacant, and takes it
  (`stale_hello_unsettles`).
-/

import DeskHop.Election.Field
import DeskHop.Lib.Reach
import Mathlib.Logic.Function.Basic

namespace DeskHop.Election

open DeskHop.Lib

variable {n : Nat}

/-- The boards, and the HELLOs sent so far with their senders. -/
structure Net (n : Nat) where
  board : Fin n → Uhrp
  flight : List (Fin n × Hello)

namespace Net

inductive Event (n : Nat) where
  | tick (i : Fin n) (now : Nat)
  | deliver (m : Fin n × Hello) (i : Fin n) (now : Nat)
  | keys (i : Fin n) (held : Bool)
  /-- The board builds a HELLO and sends it. -/
  | advertise (i : Fin n)

/-- The call an event makes, and on which board. -/
def Event.call? (s : Net n) : Event n → Option (Fin n × Call)
  | .tick i now => some (i, .tick now)
  | .deliver m i now => some (i, .hello (s.board m.1).cfg.addr m.2 now)
  | .keys i held => some (i, .setKeysHeld held)
  | .advertise _ => none

def call (s : Net n) (i : Fin n) (c : Call) : Net n :=
  { s with board := Function.update s.board i (Election.step (s.board i) c) }

def step (s : Net n) (e : Event n) : Net n :=
  match e.call? s with
  | some (i, c) => s.call i c
  | none => match e with
    | .advertise i => { s with flight := (i, buildHello (s.board i)) :: s.flight }
    | _ => s

/-- Only HELLOs on their way are delivered, and no entry of the table that is evaluated
    has run out. -/
def Refreshed (s : Net n) (e : Event n) : Prop :=
  (∀ m i now, e = .deliver m i now → m ∈ s.flight) ∧
  ∀ i c v now, e.call? s = some (i, c) → evaluated (s.board i) c = some (v, now) →
    ∀ p ∈ v.peers.cells, p.used = true → expired v (UInt32.ofNat now) p = false

end Net

open Net

/-! ## The settled election -/

/-- The HELLO is one that the board built, in whatever state. -/
structure BuiltBy (u : Uhrp) (h : Hello) : Prop where
  priority : h.priority = u.cfg.priority
  uid : h.uid = u.cfg.uid
  preempt : h.flags &&& helloFPreempt ≠ 0 → u.cfg.preempt = true

/-- The entry is the true one of the board `j`. -/
structure TrueOf (s : Net n) (a j : Fin n) (p : Peer) : Prop where
  addr : p.addr = (s.board j).cfg.addr
  priority : p.priority = (s.board j).cfg.priority
  uid : p.uid = (s.board j).cfg.uid
  role : p.state = UhrpState.active.toByte ↔ j = a
  meek : (s.board a).rank < (s.board j).rank → p.flags &&& helloFPreempt = 0

structure Settled (a : Fin n) (s : Net n) : Prop where
  started : ∀ i, (s.board i).started = true
  distinct : ∀ i j, i ≠ j → (s.board i).cfg.addr ≠ (s.board j).cfg.addr ∧ (s.board i).cfg.uid ≠ (s.board j).cfg.uid
  holder : (s.board a).state = .active ∧ (s.board a).resignPending = false
  idle : ∀ i, i ≠ a → (s.board i).state ≠ .active
  /-- Every table holds every other board, -/
  full : ∀ i j, j ≠ i → ((s.board i).peers.find? (s.board j).cfg.addr).isSome = true
  /-- and nothing but the truth about it. -/
  table : ∀ i, ∀ p ∈ (s.board i).peers.cells, p.used = true → ∃ j, j ≠ i ∧ TrueOf s a j p
  meek : ∀ j, (s.board a).rank < (s.board j).rank → (s.board j).cfg.preempt = false
  built : ∀ m ∈ s.flight, BuiltBy (s.board m.1) m.2
  quiet : ∀ m ∈ s.flight, m.1 ≠ a → m.2.state ≠ UhrpState.active.toByte

/-- The HELLOs of the board that holds the role say so. -/
def Current (a : Fin n) (s : Net n) : Prop := ∀ m ∈ s.flight, m.1 = a → m.2.state = UhrpState.active.toByte

/-- The holder holds the role, nobody else does, and the last call on each board neither
    stood down nor released. -/
structure Calm (a : Fin n) (s : Net n) (e : Event n) : Prop where
  holder : ((s.step e).board a).state = .active
  idle : ∀ i, i ≠ a → ((s.step e).board i).state ≠ .active
  silent : ∀ i c, e.call? s = some (i, c) →
    ((s.step e).board i).ev.sendResign = false ∧ ((s.step e).board i).ev.broadcastRelease = false

/-! ## A HELLO -/

theorem buildHello_built (u : Uhrp) : BuiltBy u (buildHello u) := by
  refine ⟨rfl, rfl, fun h => ?_⟩
  cases hp : u.cfg.preempt with
  | true => rfl
  | false =>
    refine absurd ?_ h
    unfold buildHello
    simp only [hp, Bool.false_eq_true, if_false]
    cases u.keysHeld <;> cases hasCap u.cfg.caps capHidIn <;> cases hasCap u.cfg.caps capCoord <;> decide

/-- A HELLO on its way describes its sender. -/
theorem trueOf_hello {a : Fin n} {s : Net n} (hs : Settled a s) (hc : Current a s) {m : Fin n × Hello}
    (hm : m ∈ s.flight) {p : Peer} (hp : p.addr = (s.board m.1).cfg.addr) (now : Time) :
    TrueOf s a m.1 (heard m.2 now p) := by
  have hb := hs.built m hm
  refine ⟨hp, hb.priority, hb.uid, ⟨fun h => ?_, fun h => hc m hm h⟩, fun h => ?_⟩
  · by_contra hne
    exact hs.quiet m hm hne h
  · by_contra hne
    have := hb.preempt hne
    rw [hs.meek m.1 h] at this
    cases this

/-! ## One call on one board -/

theorem TrueOf.congr {a j : Fin n} {s s' : Net n} (hcfg : ∀ k, (s'.board k).cfg = (s.board k).cfg) {p : Peer}
    (h : TrueOf s a j p) : TrueOf s' a j p := by
  refine ⟨by rw [hcfg]; exact h.addr, by rw [hcfg]; exact h.priority, by rw [hcfg]; exact h.uid, h.role, fun hr => h.meek ?_⟩
  unfold Uhrp.rank at hr ⊢
  rwa [hcfg, hcfg] at hr

/-- What the call writes in the table is true. -/
theorem written_true {a : Fin n} {s : Net n} (hs : Settled a s) (hc : Current a s) {e : Event n}
    (ho : Refreshed s e) {i : Fin n} {c : Call} {v : Uhrp} {now : Nat} (hcall : e.call? s = some (i, c))
    (he : evaluated (s.board i) c = some (v, now)) {p : Peer} (hp : p ∈ v.peers.cells) (hu : p.used = true) :
    ∃ j, j ≠ i ∧ TrueOf s a j p := by
  cases e with
  | tick k t =>
    cases hcall
    simp only [evaluated, prepared] at he
    split at he <;> cases he
    split at hp <;> exact hs.table i p hp hu
  | deliver m k t =>
    cases hcall
    have hm := ho.1 m i t rfl
    have hne : m.1 ≠ i := by
      rintro rfl
      simp [evaluated, prepared, takeEvents] at he
    -- the sender was in the table already
    obtain ⟨q, hq⟩ := Option.isSome_iff_exists.mp (hs.full i m.1 hne)
    rw [prepared_peers_hello he hq] at hp
    rcases Slots.mem_modify hp with hold | ⟨b, -, -, hkey, rfl⟩
    · exact hs.table i p hold hu
    · exact ⟨m.1, hne, trueOf_hello hs hc hm hkey _⟩
  | keys k b => cases hcall; cases he
  | advertise k => cases hcall

/-- The holder is not challenged, and keeps the role in silence. -/
theorem holder_keeps {a : Fin n} {s : Net n} (hs : Settled a s) {c : Call} {v : Uhrp} {now : Nat}
    (he : evaluated (s.board a) c = some (v, now))
    (htrue : ∀ p ∈ v.peers.cells, p.used = true → ∃ j, j ≠ a ∧ TrueOf s a j p) :
    (Election.step (s.board a) c).state = .active ∧ (Election.step (s.board a) c).resignPending = false ∧
      (Election.step (s.board a) c).ev.sendResign = false ∧ (Election.step (s.board a) c).ev.broadcastRelease = false := by
  obtain ⟨hsame, hst⟩ := evaluated_same he
  obtain ⟨hadv, hadvs⟩ := step_of_evaluated he
  have hpend : v.resignPending = false := hsame.resignPending.trans hs.holder.2
  have hrank : v.rank = (s.board a).rank := by rw [Uhrp.rank, hsame.cfg]; rfl
  have hquiet : challenged v (UInt32.ofNat now) = false := by
    by_contra hch
    obtain ⟨p, hp, hu, -, hr, hclaims⟩ := challenged_by (Bool.not_eq_false _ ▸ hch)
    obtain ⟨j, hj, ht⟩ := htrue p hp hu
    have hpr : p.rank = (s.board j).rank := by rw [Peer.rank, ht.priority, ht.uid]; rfl
    have hflags := ht.meek (by omega)
    have hrole : p.state ≠ UhrpState.active.toByte := fun h => hj (ht.role.mp h)
    simp [Peer.claims, hflags, hrole] at hclaims
  rcases (reevaluate_active hst (hsame.state.trans hs.holder.1) (UInt32.ofNat now)).2 with hres | hkept
  · rcases hres.pending with h | h
    · rw [hpend] at h; cases h
    · rw [hquiet] at h; cases h
  · refine ⟨hadvs.trans hkept.state, hadv.resignPending.trans (hkept.resignPending.trans ?_), ?_, ?_⟩
    · rw [hpend, hquiet]; rfl
    · rw [hadv.sendResign, hkept.ev, hsame.ev]; rfl
    · rw [hadv.broadcastRelease, hkept.ev, hsame.ev]; rfl

/-- Every other board finds the holder in its table, and follows it in silence. -/
theorem idle_follows {a i : Fin n} {s : Net n} (hs : Settled a s) (hi : i ≠ a) {c : Call} {v : Uhrp} {now : Nat}
    (he : evaluated (s.board i) c = some (v, now))
    (htrue : ∀ p ∈ v.peers.cells, p.used = true → ∃ j, j ≠ i ∧ TrueOf s a j p)
    (hlive : ∀ p ∈ v.peers.cells, p.used = true → expired v (UInt32.ofNat now) p = false) :
    (Election.step (s.board i) c).state ≠ .active ∧ (Election.step (s.board i) c).ev.sendResign = false ∧
      (Election.step (s.board i) c).ev.broadcastRelease = false := by
  obtain ⟨hsame, hst⟩ := evaluated_same he
  obtain ⟨hadv, hadvs⟩ := step_of_evaluated he
  obtain ⟨p, hp⟩ := Option.isSome_iff_exists.mp (prepared_find_isSome he (hs.full i a (Ne.symm hi)))
  obtain ⟨hm, hu, hkey⟩ := Slots.find?_some hp
  obtain ⟨j, -, ht⟩ := htrue p hm hu
  have hja : j = a := by
    by_contra hne
    exact (hs.distinct j a hne).1 (ht.addr.symm.trans hkey)
  have hact := findActivePeer_isSome hp (ht.role.mpr hja) (hlive p hm hu)
  have hidle : v.state ≠ .active := fun h => hs.idle i hi (hsame.state.symm.trans h)
  obtain ⟨hframe, ⟨b, hfo⟩ | hwa | htk⟩ := reevaluate_idle hst hidle (UInt32.ofNat now)
  · refine ⟨fun h => hfo.notActive (hadvs.symm.trans h), ?_, ?_⟩
    · rw [hadv.sendResign, hframe.sendResign, hsame.ev]; rfl
    · rw [hadv.broadcastRelease, hfo.broadcastRelease, hsame.ev]; rfl
  · rw [hwa.found] at hact; cases hact
  · rw [htk.found] at hact; cases hact

/-! ## Runs -/

/-- The called board as it is after the call. -/
structure StaysTrue (a : Fin n) (s : Net n) (i : Fin n) (u : Uhrp) : Prop where
  started : u.started = true
  cfg : u.cfg = (s.board i).cfg
  holder : i = a → u.state = .active ∧ u.resignPending = false
  idle : i ≠ a → u.state ≠ .active
  full : ∀ j, j ≠ i → (u.peers.find? (s.board j).cfg.addr).isSome = true
  table : ∀ p ∈ u.peers.cells, p.used = true → ∃ j, j ≠ i ∧ TrueOf s a j p
  silent : u.ev.sendResign = false ∧ u.ev.broadcastRelease = false

theorem call_staysTrue {a : Fin n} {s : Net n} (hs : Settled a s) (hc : Current a s) {e : Event n}
    (ho : Refreshed s e) {i : Fin n} {c : Call} (hcall : e.call? s = some (i, c)) :
    StaysTrue a s i (Election.step (s.board i) c) := by
  cases he : evaluated (s.board i) c with
  | none =>
    obtain ⟨b, hb⟩ := step_of_not_evaluated he
    rw [hb]
    exact ⟨hs.started i, rfl, fun h => h ▸ hs.holder, fun h => hs.idle i h, hs.full i, hs.table i, rfl, rfl⟩
  | some r =>
    obtain ⟨v, now⟩ := r
    have htrue := fun p => written_true hs hc ho hcall he (p := p)
    have hlive := ho.2 i c v now hcall he
    obtain ⟨hpeers, hcfg, hst⟩ := step_peers he
    rw [aged_peers hlive] at hpeers
    have hfull : ∀ j, j ≠ i → ((Election.step (s.board i) c).peers.find? (s.board j).cfg.addr).isSome = true := by
      intro j hj
      rw [hpeers]
      exact prepared_find_isSome he (hs.full i j hj)
    by_cases hi : i = a
    · subst hi
      obtain ⟨h1, h2, h3⟩ := holder_keeps hs he htrue
      exact ⟨hst, hcfg, fun _ => ⟨h1, h2⟩, fun h => absurd rfl h, hfull, by rwa [hpeers], h3⟩
    · obtain ⟨h1, h2⟩ := idle_follows hs hi he htrue hlive
      exact ⟨hst, hcfg, fun h => absurd h hi, fun _ => h1, hfull, by rwa [hpeers], h2⟩

/-- The election is settled again after the call. -/
theorem call_settled {a : Fin n} {s : Net n} (hs : Settled a s) {i : Fin n} {c : Call}
    (h : StaysTrue a s i (Election.step (s.board i) c)) : Settled a (s.call i c) := by
  have hself : (s.call i c).board i = Election.step (s.board i) c := Function.update_self ..
  have hother : ∀ k, k ≠ i → (s.call i c).board k = s.board k := fun k hk => Function.update_of_ne hk _ _
  have hcfg : ∀ k, ((s.call i c).board k).cfg = (s.board k).cfg := by
    intro k
    by_cases hk : k = i
    · subst hk; rw [hself]; exact h.cfg
    · rw [hother k hk]
  refine ⟨fun k => ?_, fun k l hkl => ?_, ?_, fun k hk => ?_, fun k j hj => ?_, fun k p hp hu => ?_, fun k hr => ?_, ?_,
    hs.quiet⟩
  · by_cases hk : k = i
    · subst hk; rw [hself]; exact h.started
    · rw [hother k hk]; exact hs.started k
  · rw [hcfg, hcfg]; exact hs.distinct k l hkl
  · by_cases hk : a = i
    · subst hk; rw [hself]; exact h.holder rfl
    · rw [hother a hk]; exact hs.holder
  · by_cases hki : k = i
    · subst hki; rw [hself]; exact h.idle hk
    · rw [hother k hki]; exact hs.idle k hk
  · rw [hcfg]
    by_cases hki : k = i
    · subst hki; rw [hself]; exact h.full j hj
    · rw [hother k hki]; exact hs.full k j hj
  · have hold : ∃ j, j ≠ k ∧ TrueOf s a j p := by
      by_cases hki : k = i
      · subst hki; rw [hself] at hp; exact h.table p hp hu
      · rw [hother k hki] at hp; exact hs.table k p hp hu
    obtain ⟨j, hj, ht⟩ := hold
    exact ⟨j, hj, ht.congr hcfg⟩
  · unfold Uhrp.rank at hr
    rw [hcfg, hcfg] at hr
    rw [hcfg]
    exact hs.meek k hr
  · intro m hm
    obtain ⟨h1, h2, h3⟩ := hs.built m hm
    exact ⟨by rw [hcfg]; exact h1, by rw [hcfg]; exact h2, fun hf => by rw [hcfg]; exact h3 hf⟩

theorem toByte_active {st : UhrpState} (h : st.toByte = UhrpState.active.toByte) : st = .active := by
  cases st <;> first | rfl | cases h

/-- A settled election stays settled, whatever happens next. -/
theorem step_settled {a : Fin n} {s : Net n} (hs : Settled a s) (hc : Current a s) {e : Event n} (ho : Refreshed s e) :
    Settled a (s.step e) ∧ Current a (s.step e) ∧ Calm a s e := by
  cases hcall : e.call? s with
  | some r =>
    obtain ⟨i, c⟩ := r
    have hst := call_staysTrue hs hc ho hcall
    have hstep : s.step e = s.call i c := by unfold Net.step; rw [hcall]
    have hset := call_settled hs hst
    rw [hstep]
    refine ⟨hset, hc, hstep ▸ hset.holder.1, fun k hk => hstep ▸ hset.idle k hk, fun k d hkd => ?_⟩
    cases hcall.symm.trans hkd
    rw [hstep, show (s.call i c).board i = _ from Function.update_self ..]
    exact hst.silent
  | none =>
    cases e with
    | advertise i =>
      refine ⟨⟨hs.started, hs.distinct, hs.holder, hs.idle, hs.full, fun k p hp hu => ?_, hs.meek, fun m hm => ?_,
        fun m hm hne => ?_⟩, fun m hm hma => ?_, hs.holder.1, hs.idle, fun k d hkd => by cases hkd⟩
      · obtain ⟨j, hj, ht⟩ := hs.table k p hp hu
        refine ⟨j, hj, ht.congr ?_⟩
        exact fun _ => rfl
      · rcases List.mem_cons.mp hm with rfl | hm
        · exact buildHello_built _
        · exact hs.built m hm
      · rcases List.mem_cons.mp hm with rfl | hm
        · exact fun h => hs.idle i hne (toByte_active h)
        · exact hs.quiet m hm hne
      · rcases List.mem_cons.mp hm with rfl | hm
        · show (s.board i).state.toByte = _
          rw [show i = a from hma, hs.holder.1]
        · exact hc m hm hma
    | tick i t => cases hcall
    | deliver m i t => cases hcall
    | keys i b => cases hcall

theorem settled_inv {a : Fin n} {s : Net n} (h : Reach (fun s => Settled a s ∧ Current a s) Refreshed Net.step s) :
    Settled a s ∧ Current a s :=
  h.inv (fun _ h0 => h0) fun _ _ hi ho => ⟨(step_settled hi.1 hi.2 ho).1, (step_settled hi.1 hi.2 ho).2.1⟩

/-- From a settled election, with the HELLOs of its holder up to date, every event of
    every run leaves the role where it is, and nobody stands down or releases. -/
theorem settled_stays {a : Fin n} {s : Net n} (h : Reach (fun s => Settled a s ∧ Current a s) Refreshed Net.step s)
    {e : Event n} (ho : Refreshed s e) : Calm a s e :=
  (step_settled (settled_inv h).1 (settled_inv h).2 ho).2.2

/-! ## A HELLO out of the past -/

def holderCfg : Config := ⟨0x11, 1, 100, capHidOut, false, timingDefault⟩

/-- A stronger board, which does not preempt. -/
def strongerCfg : Config := ⟨0x22, 2, 200, capHidOut, false, timingDefault⟩

def newcomer : Uhrp := uhrpStart (uhrpInit holderCfg) 0

/-- The first board, in the role, which has heard the second. -/
def inRole : Uhrp :=
  [.tick 150, .hello 2 ⟨UhrpState.standby.toByte, 200, 0, 15, 0x22, capHidOut, 0⟩ 160].foldl Election.step newcomer

/-- The second board, standby, which has heard the first. -/
def onStandby : Uhrp :=
  [.hello 1 ⟨UhrpState.active.toByte, 100, 0, 15, 0x11, capHidOut, 0⟩ 155].foldl Election.step
    (uhrpStart (uhrpInit strongerCfg) 10)

/-- The two, with a HELLO on its way that the first built while it was learning. -/
def belated : Net 2 := ⟨fun i => if i.val = 0 then inRole else onStandby, [(⟨0, Nat.two_pos⟩, buildHello newcomer)]⟩

theorem belated_settled : Settled 0 belated where
  started := by decide +kernel
  distinct := by decide +kernel
  holder := by decide +kernel
  idle := by decide +kernel
  full := by decide +kernel
  table i p hp hu := by
    match i with
    | 0 =>
      have h : ∀ p ∈ inRole.peers.cells, p.used = true → p.addr = 2 ∧ p.priority = 200 ∧ p.uid = 0x22 ∧
          p.state = UhrpState.standby.toByte ∧ p.flags = 0 := by decide +kernel
      obtain ⟨h1, h2, h3, h4, h5⟩ := h p hp hu
      exact ⟨1, by decide, h1, h2, h3, by rw [h4]; decide, fun _ => by rw [h5]; decide⟩
    | 1 =>
      have h : ∀ p ∈ onStandby.peers.cells, p.used = true → p.addr = 1 ∧ p.priority = 100 ∧ p.uid = 0x11 ∧
          p.state = UhrpState.active.toByte ∧ p.flags = 0 := by decide +kernel
      obtain ⟨h1, h2, h3, h4, h5⟩ := h p hp hu
      exact ⟨0, by decide, h1, h2, h3, by rw [h4]; decide, fun _ => by rw [h5]; decide⟩
  meek := by decide +kernel
  built m hm := by
    have hcfg : (belated.board ⟨0, Nat.two_pos⟩).cfg = newcomer.cfg := by decide +kernel
    obtain ⟨h1, h2, h3⟩ := buildHello_built newcomer
    rw [List.mem_singleton.mp hm]
    exact ⟨by rw [hcfg]; exact h1, by rw [hcfg]; exact h2, fun hf => by rw [hcfg]; exact h3 hf⟩
  quiet m hm h := by rw [List.mem_singleton.mp hm] at h; exact absurd rfl h

/-- Every table entry of the board called is live, if the check of the whole table says
    so. -/
theorem refreshed_of_check {s : Net n} {e : Event n} {i : Fin n} {c : Call}
    (hm : ∀ m k now, e = .deliver m k now → m ∈ s.flight) (hcall : e.call? s = some (i, c))
    (h : (evaluated (s.board i) c).all (fun r =>
      r.1.peers.cells.all fun p => !p.used || !expired r.1 (UInt32.ofNat r.2) p) = true) : Refreshed s e := by
  refine ⟨hm, fun k d v now hkd he p hp hu => ?_⟩
  cases hcall.symm.trans hkd
  rw [he] at h
  have := List.all_eq_true.mp h p hp
  simpa [hu] using this

/-- Delivered now, the HELLO has the second board take the role from the first. -/
theorem stale_hello_unsettles :
    ¬ ∀ (n : Nat) (a : Fin n) (s : Net n), Reach (Settled a) Refreshed Net.step s →
      ∀ e, Refreshed s e → Calm a s e := by
  intro h
  have ho : Refreshed belated (.deliver (0, buildHello newcomer) 1 165) :=
    refreshed_of_check (by rintro m k now ⟨⟩; exact List.mem_singleton_self _) rfl (by decide +kernel)
  exact (h 2 0 belated (.init belated_settled) _ ho).idle 1 (by decide) (by decide +kernel)

/-- The two, with nothing on its way. -/
def upToDate : Net 2 := { belated with flight := [] }

theorem settled_stays_after_a_tick : ((upToDate.step (.tick 1 170)).board 0).state = .active := by
  have hs : Settled 0 upToDate := by
    refine ⟨belated_settled.started, belated_settled.distinct, belated_settled.holder, belated_settled.idle,
      belated_settled.full, fun i p hp hu => ?_, belated_settled.meek, fun m hm => (by cases hm), fun m hm => (by cases hm)⟩
    obtain ⟨j, hj, ht⟩ := belated_settled.table i p hp hu
    refine ⟨j, hj, ht.congr ?_⟩
    exact fun _ => rfl
  have ho : Refreshed upToDate (.tick 1 170) := refreshed_of_check (by rintro m k now ⟨⟩) rfl (by decide +kernel)
  exact (settled_stays (.init ⟨hs, fun m hm => by cases hm⟩) ho).holder

end DeskHop.Election
