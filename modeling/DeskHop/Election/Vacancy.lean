/-
  DeskHop.Election.Vacancy — rule 2: a role that was not resigned is taken with a
  release of everything held.

  A run is a started board and the calls made on it. Beside the board it records the
  calls, latest first, and whom the board follows or last followed (`Watch`). Whether
  that speaker stood down is read off the calls alone (`stoodDown`): a RESIGN from it
  came after its last ACTIVE HELLO. The board keeps one flag for the same question,
  which a tick clears when it finds the speaker's hold time run out.

  Proved, for every run of orderly calls (`rule2`): a promotion raises
  `broadcastRelease` and `promotedByTimeout` when the last speaker never stood down,
  and neither when it did. What is not orderly is what the flag gets wrong: a HELLO or
  somebody else's RESIGN that ends the speaker's term in place of a tick, a RESIGN that
  comes too late or from the reserved address, and an ACTIVE HELLO that never makes it
  into the table.

  Without that, rule 2 fails: the HELLO of a third board, one call before the tick,
  takes the speaker out of the table, and the promotion counts as clean
  (`third_party_hello_hides_the_vacancy`).
-/

import DeskHop.Election.Table
import DeskHop.Lib.Reach

namespace DeskHop.Election

open DeskHop.Lib

/-! ## What the messages say -/

/-- Who announces itself active by this call. -/
def Call.announces? : Call → Option Addr
  | .hello src h _ => if h.state = UhrpState.active.toByte then some src else none
  | _ => none

/-- Who resigns by this call. -/
def Call.resigns? : Call → Option Addr
  | .resign src _ => some src
  | _ => none

/-- Of calls listed latest first: a RESIGN from `a` came after its last ACTIVE HELLO. -/
def stoodDown (a : Addr) : List Call → Bool
  | [] => false
  | c :: cs => c.announces? != some a && (c.resigns? == some a || stoodDown a cs)

/-- No live peer holds the role, or one under the reserved address. -/
def vacant (v : Uhrp) (now : Time) : Bool := (findActivePeer (peerAge v now)).all fun a => a.addr == addrNone

structure Watch where
  u : Uhrp
  /-- The calls made so far, latest first. -/
  calls : List Call
  /-- Whom the board follows, or last followed, while it does not hold the role. -/
  followed : Option Addr
  /-- When the last call was made. -/
  clock : Nat
  deriving DecidableEq

namespace Watch

/-- Somebody other than the speaker last followed announces itself. -/
def superseded (t : Watch) (c : Call) : Prop := c.announces? ≠ none ∧ c.announces? ≠ t.followed

instance (t : Watch) (c : Call) : Decidable (t.superseded c) := inferInstanceAs (Decidable (_ ∧ _))

def step (t : Watch) (c : Call) : Watch :=
  let u := Election.step t.u c
  { u := u
    calls := c :: t.calls
    followed :=
      if u.state = .active then none
      else if u.active ≠ addrNone then some u.active
      else if t.superseded c then none
      else t.followed
    clock := match c with
      | .hello _ _ now | .resign _ now | .tick now => now
      | .setKeysHeld _ => t.clock }

def start (cfg : Config) (t0 : Nat) : Watch := ⟨uhrpStart (uhrpInit cfg) (UInt32.ofNat t0), [], none, t0⟩

def Started (cfg : Config) (t0 : Nat) (t : Watch) : Prop := t = start cfg t0

/-- Times do not go back. -/
def InTime (t : Watch) (c : Call) : Prop := t.clock ≤ (t.step c).clock

instance (t : Watch) (c : Call) : Decidable (InTime t c) := inferInstanceAs (Decidable (_ ≤ _))

/-- The call does not end the vacancy, or the term of the speaker `a`, behind the back
    of the flag `clean`:
    an ACTIVE HELLO from a speaker that stood down finds a slot in the table;
    with nobody in the role, the speaker does not resign after it was found gone, and
    nobody resigns under the reserved address;
    while it is followed, its term ends with its own RESIGN, with somebody else's
    announcement, or by a tick. -/
def orderlyFor (t : Watch) (c : Call) (a : Addr) : Bool :=
  let clean := t.u.vacancyClean
  match evaluated t.u c with
  | none => c.announces? != some a || !clean
  | some (v, now) =>
    !vacant v (UInt32.ofNat now) ||
    if t.u.active = addrNone then
      c.announces? != some a && ((c.resigns? != some a && c.resigns? != some addrNone) || clean)
    else
      isTick c || c.resigns? == some a || (c.announces? != none && c.announces? != some a) || !clean

def Orderly (t : Watch) (c : Call) : Prop := t.followed.all (t.orderlyFor c) = true

instance (t : Watch) (c : Call) : Decidable (Orderly t c) := inferInstanceAs (Decidable (_ = true))

/-! ## The invariant -/

structure Inv (t : Watch) : Prop where
  started : t.u.started = true
  unique : t.u.peers.Unique
  /-- Who is down as ACTIVE in the table has not stood down since. -/
  truthful : ∀ p ∈ t.u.peers.cells, p.used = true → p.state = UhrpState.active.toByte → stoodDown p.addr t.calls = false
  /-- The speaker is the first peer down as ACTIVE. -/
  speaker : t.u.state ≠ .active → t.u.active ≠ addrNone →
    t.followed = some t.u.active ∧ ∃ p, findActivePeer t.u = some p ∧ p.addr = t.u.active
  /-- Only a board without the role that has heard a speaker follows one. -/
  follower : t.followed.isSome = true → t.u.activeValid = true ∧ t.u.state ≠ .learn ∧ t.u.state ≠ .active
  /-- With nobody in the role the flag says what the messages say. -/
  flag : ∀ a, t.followed = some a → t.u.active = addrNone → t.u.vacancyClean = stoodDown a t.calls

theorem start_inv (cfg : Config) (t0 : Nat) : Inv (start cfg t0) := by
  have h := enterState_same { uhrpInit cfg with started := true, vacancyClean := true } .learn (UInt32.ofNat t0)
  have hp : (start cfg t0).u.peers = Slots.replicate maxBoards { freshPeer 0 with used := false } := h.peers
  refine ⟨h.started, ?_, ?_, fun _ hn => absurd h.active hn, fun hf => (by cases hf),
    fun a ha _ => (by cases ha)⟩
  · rw [hp]
    exact Slots.unique_replicate rfl
  · intro p hm hused
    rw [hp] at hm
    rw [(List.mem_replicate.mp hm).2] at hused
    cases hused

/-! ## The flag -/

/-- The flag as each call hands it to the evaluation. -/
theorem prepared_clean {u v : Uhrp} {c : Call} {now : Nat} (h : prepared u c = some (v, now)) :
    v.vacancyClean = match c with
      | .hello src hl _ => if hl.state == UhrpState.active.toByte && u.active != src then true else u.vacancyClean
      | .resign src _ => if src == u.active then true else u.vacancyClean
      | .tick _ => if vacated u (UInt32.ofNat now) then false else u.vacancyClean
      | .setKeysHeld _ => u.vacancyClean := by
  cases c with
  | hello src hl n =>
    simp only [prepared] at h
    split at h
    · cases h
    split at h <;> cases h
    rfl
  | resign src n =>
    simp only [prepared] at h
    split at h <;> cases h
    show (if _ then _ else _ : Uhrp).vacancyClean = if _ then _ else _
    split <;> rfl
  | tick n =>
    simp only [prepared] at h
    split at h <;> cases h
    show (if _ then _ else _ : Uhrp).vacancyClean = if _ then _ else _
    split <;> rfl
  | setKeysHeld b => cases h

/-- The first ACTIVE entry, while it is live, is the one an evaluation finds. -/
theorem findActivePeer_aged {u v : Uhrp} {now : Time} {p : Peer} (hp : v.peers = u.peers) (h : findActivePeer u = some p)
    (hx : expired v now p = false) : findActivePeer (peerAge v now) = some p := by
  simp only [findActivePeer, peerAge_peers, Slots.map, hp] at h ⊢
  generalize u.peers.cells = l at h ⊢
  induction l with
  | nil => cases h
  | cons q qs ih =>
    rw [List.find?_cons] at h
    rw [List.map_cons, List.find?_cons]
    by_cases hq : (q.used && q.state == UhrpState.active.toByte) = true
    · rw [hq] at h
      cases h
      simp only [hx, Bool.and_false, Bool.false_eq_true, if_false, hq]
    · rw [Bool.not_eq_true] at hq
      rw [hq] at h
      have hq' : ∀ b : Bool, ((if b = true then { q with used := false } else q).used &&
          (if b = true then { q with used := false } else q).state == UhrpState.active.toByte) = false := by
        intro b
        cases b
        · exact hq
        · rfl
      rw [hq']
      exact ih h

/-- A tick that finds the role vacant finds the speaker's hold time run out: the speaker
    is the first ACTIVE entry. -/
theorem Inv.vacated_of_vacant {t : Watch} {n now : Nat} {v : Uhrp} (hi : Inv t) (he : evaluated t.u (.tick n) = some (v, now))
    (hs : t.u.state ≠ .active) (ha : t.u.active ≠ addrNone) (hv : vacant v (UInt32.ofNat now) = true) :
    vacated t.u (UInt32.ofNat now) = true := by
  obtain ⟨_, p, hp, hpa⟩ := hi.speaker hs ha
  have hps := List.find?_some hp
  simp only [Bool.and_eq_true, beq_iff_eq] at hps
  have hfind : peerFind t.u t.u.active = some p := by
    rw [← hpa]
    exact hi.unique.find?_of_mem (List.mem_of_find?_eq_some hp) hps.1
  have hexp : expired t.u (UInt32.ofNat now) p = true := by
    by_contra hx
    have hx' : expired v (UInt32.ofNat now) p = false := by
      rw [expired, (evaluated_same he).1.cfg]
      exact Bool.eq_false_iff.mpr hx
    have hpeers : v.peers = t.u.peers := prepared_tick_peers (u := (takeEvents t.u).2) he
    rw [vacant, findActivePeer_aged hpeers hp hx'] at hv
    simp [hpa, ha] at hv
  rw [vacated, hfind]
  simp [hs, ha, hexp]

/-- The call that leaves nobody in the role leaves the flag at what the messages say
    of the last speaker. -/
theorem flag_of_vacant {t : Watch} {c : Call} {v : Uhrp} {now : Nat} {a : Addr} (hi : Inv t)
    (he : evaluated t.u c = some (v, now)) (ho : t.orderlyFor c a = true) (hf : t.followed = some a)
    (hn : ¬ t.superseded c) (hv : vacant v (UInt32.ofNat now) = true) : v.vacancyClean = stoodDown a (c :: t.calls) := by
  have hs : t.u.state ≠ .active := (hi.follower (by rw [hf]; rfl)).2.2
  have hanc : c.announces? = none ∨ c.announces? = some a := by
    by_contra h
    rw [not_or] at h
    exact hn ⟨h.1, fun e => h.2 (e.trans hf)⟩
  have ho' := ho
  simp only [orderlyFor, he, hv, Bool.not_true, Bool.false_or] at ho'
  have hold : stoodDown a t.calls = (if t.u.active = addrNone then t.u.vacancyClean else false) := by
    by_cases ha : t.u.active = addrNone
    · rw [if_pos ha]
      exact (hi.flag a hf ha).symm
    · obtain ⟨hfa, p, hp, hpa⟩ := hi.speaker hs ha
      have hps := List.find?_some hp
      simp only [Bool.and_eq_true, beq_iff_eq] at hps
      rw [if_neg ha, Option.some.inj (hf.symm.trans hfa), ← hpa]
      exact hi.truthful p (List.mem_of_find?_eq_some hp) hps.1 hps.2
  have hclean := prepared_clean he
  cases c with
  | hello src hl n =>
    rcases hanc with hnone | hself
    · -- a HELLO of a lower state: the flag stays
      have hstate : hl.state ≠ UhrpState.active.toByte := by
        intro h
        simp [Call.announces?, h] at hnone
      have hv' : v.vacancyClean = t.u.vacancyClean := by simpa [hstate, takeEvents] using hclean
      rw [hv', stoodDown, hnone, hold]
      by_cases ha : t.u.active = addrNone
      · simp [ha, Call.resigns?]
      · simpa [ha, hnone, isTick, Call.resigns?] using ho'
    · have hsrc : hl.state = UhrpState.active.toByte ∧ src = a := by
        simpa [Call.announces?] using hself
      by_cases ha : t.u.active = addrNone
      · simp [ha, hself] at ho'
      · have hact : t.u.active = a := Option.some.inj ((hi.speaker hs ha).1.symm.trans hf)
        have hoff : t.u.vacancyClean = false := by simpa [ha, hself, isTick, Call.resigns?] using ho'
        have hv' : v.vacancyClean = t.u.vacancyClean := by
          simpa [hact, hsrc.2, takeEvents] using hclean
        rw [hv', hoff, stoodDown, hself]
        simp
  | resign src n =>
    have hv' : v.vacancyClean = if src = t.u.active then true else t.u.vacancyClean := by
      simpa [takeEvents] using hclean
    have hcons : stoodDown a (.resign src n :: t.calls) = (src == a || stoodDown a t.calls) := by
      simp [stoodDown, Call.announces?, Call.resigns?]
    rw [hv', hcons, hold]
    by_cases ha : t.u.active = addrNone
    · have hlate : src ≠ a ∧ src ≠ addrNone ∨ t.u.vacancyClean = true := by
        simpa [ha, Call.announces?, Call.resigns?] using ho'
      rcases hlate with ⟨h1, h2⟩ | hon
      · simp [ha, h1, h2]
      · simp [ha, hon]
    · have hact : t.u.active = a := Option.some.inj ((hi.speaker hs ha).1.symm.trans hf)
      rw [hact] at ha
      by_cases hsrc : src = a
      · simp [hact, hsrc]
      · have hoff : t.u.vacancyClean = false := by
          simpa [hact, ha, hsrc, isTick, Call.announces?, Call.resigns?] using ho'
        simp [hact, ha, hsrc, hoff]
  | tick n =>
    have hv' : v.vacancyClean = if vacated t.u (UInt32.ofNat now) then false else t.u.vacancyClean := hclean
    have hcons : stoodDown a (.tick n :: t.calls) = stoodDown a t.calls := by
      simp [stoodDown, Call.announces?, Call.resigns?]
    rw [hv', hcons, hold]
    by_cases ha : t.u.active = addrNone
    · have hno : vacated t.u (UInt32.ofNat now) = false := by simp [vacated, ha]
      simp [hno, ha]
    · rw [hi.vacated_of_vacant he hs ha hv]
      simp [ha]
  | setKeysHeld b => cases he

/-! ## One call -/

/-- A board that follows nobody has little to keep. -/
theorem Inv.of_unfollowed {t : Watch} (h1 : t.u.started = true) (h2 : t.u.peers.Unique)
    (h3 : ∀ p ∈ t.u.peers.cells, p.used = true → p.state = UhrpState.active.toByte → stoodDown p.addr t.calls = false)
    (h4 : t.u.state = .active ∨ t.u.active = addrNone) (hf : t.followed = none) : Inv t := by
  refine ⟨h1, h2, h3, fun hs ha => ?_, fun hsome => ?_, fun a ha _ => ?_⟩
  · exact h4.elim (fun h => absurd h hs) (fun h => absurd h ha)
  · rw [hf] at hsome
    cases hsome
  · rw [hf] at ha
    cases ha

/-- While it listens before speaking the board knows of no speaker. -/
theorem Inv.active_of_learn {t : Watch} (hi : Inv t) (hl : t.u.state = .learn) : t.u.active = addrNone := by
  by_contra ha
  have hf := (hi.speaker (by rw [hl]; decide) ha).1
  exact (hi.follower (by rw [hf]; rfl)).2.1 hl

/-- What stood in the table as ACTIVE and is told of by the messages stays told of. -/
theorem truthful_of_evaluated {t : Watch} {c : Call} {v : Uhrp} {now : Nat} (hi : Inv t)
    (he : evaluated t.u c = some (v, now)) {p : Peer} (hp : p ∈ (peerAge v (UInt32.ofNat now)).peers.cells)
    (hused : p.used = true) (hst : p.state = UhrpState.active.toByte) : stoodDown p.addr (c :: t.calls) = false := by
  have hm := (aged_mem hp hused).1
  rcases prepared_mem he hi.unique hm hused with ⟨hold, hother⟩ | ⟨hsrc, htold⟩
  · have hprev : stoodDown p.addr t.calls = false := hi.truthful p hold hused hst
    have hno : c.resigns? ≠ some p.addr := by
      intro h
      cases c <;> simp only [Call.resigns?, reduceCtorEq] at h
      exact hother h
    simp [stoodDown, hprev, hno]
  · rw [htold] at hst
    have hann : c.announces? = some p.addr := by
      cases c with
      | hello src hl n =>
        have hl' : hl.state = UhrpState.active.toByte := hst
        simpa [Call.announces?, Call.sender?, hl'] using hsrc
      | resign src n => exact absurd hst (by simp only [Call.tells]; decide)
      | tick n => cases hsrc
      | setKeysHeld b => cases hsrc
    simp [stoodDown, hann]

theorem followed_of_idle {t : Watch} {c : Call} (hs : (t.step c).u.state ≠ .active) (ha : (t.step c).u.active = addrNone)
    {a : Addr} (hf : (t.step c).followed = some a) : ¬ t.superseded c ∧ t.followed = some a := by
  have hf' : (if t.superseded c then none else t.followed) = some a := by
    rw [← hf]
    exact ((if_neg hs).trans (if_neg (not_not.mpr ha))).symm
  split at hf'
  · cases hf'
  · exact ⟨‹_›, hf'⟩

/-- A started board evaluates every RESIGN. -/
theorem resigns?_of_not_evaluated {u : Uhrp} {c : Call} (hs : u.started = true) (he : evaluated u c = none) :
    c.resigns? = none := by
  cases c with
  | resign src n => simp [evaluated, prepared, takeEvents, hs] at he
  | hello src hl n => rfl
  | tick n => rfl
  | setKeysHeld b => rfl

theorem step_inv_of_not_evaluated {t : Watch} {c : Call} (hi : Inv t) (ho : Orderly t c)
    (he : evaluated t.u c = none) : Inv (t.step c) := by
  obtain ⟨b, hb⟩ := step_of_not_evaluated he
  have hu : (t.step c).u = { (takeEvents t.u).2 with keysHeld := b } := hb
  have hstate : (t.step c).u.state = t.u.state := by rw [hu]; rfl
  have hactive : (t.step c).u.active = t.u.active := by rw [hu]; rfl
  have hpeers : (t.step c).u.peers = t.u.peers := by rw [hu]; rfl
  have hres := resigns?_of_not_evaluated hi.started he
  have hcons : ∀ a, stoodDown a (c :: t.calls) = (c.announces? != some a && stoodDown a t.calls) := by
    intro a
    simp [stoodDown, hres]
  -- whom the board follows now, it followed before
  have hfol : ∀ a, (t.step c).followed = some a → t.followed = some a := by
    intro a hf
    by_cases hs : (t.step c).u.state = .active
    · rw [show (t.step c).followed = none from if_pos hs] at hf
      cases hf
    · by_cases ha : (t.step c).u.active = addrNone
      · exact (followed_of_idle hs ha hf).2
      · rw [show (t.step c).followed = some (t.step c).u.active from (if_neg hs).trans (if_pos ha), hactive] at hf
        rw [← hf]
        exact (hi.speaker (hstate ▸ hs) (hactive ▸ ha)).1
  constructor
  · rw [hu]
    exact hi.started
  · rw [hpeers]
    exact hi.unique
  · intro p hp hused hst
    rw [hpeers] at hp
    show stoodDown p.addr (c :: t.calls) = false
    rw [hcons, hi.truthful p hp hused hst, Bool.and_false]
  · intro hs ha
    refine ⟨(if_neg hs).trans (if_pos ha), ?_⟩
    rw [hu]
    exact (hi.speaker (hstate ▸ hs) (hactive ▸ ha)).2
  · intro hsome
    obtain ⟨a, hf⟩ := Option.isSome_iff_exists.mp hsome
    rw [hu]
    exact hi.follower (by rw [hfol a hf]; rfl)
  · intro a hf ha
    have hs : (t.step c).u.state ≠ .active := by
      intro h
      rw [show (t.step c).followed = none from if_pos h] at hf
      cases hf
    obtain ⟨hn, hold⟩ := followed_of_idle hs ha hf
    have hflag := hi.flag a hold (hactive ▸ ha)
    have hord : (c.announces? != some a || !t.u.vacancyClean) = true := by
      have := ho
      rw [Orderly, hold] at this
      simpa [orderlyFor, he] using this
    rw [hu]
    show t.u.vacancyClean = stoodDown a (c :: t.calls)
    rw [hcons, ← hflag]
    cases hc : t.u.vacancyClean
    · simp
    · rw [hc] at hord
      simpa using hord

/-- The board as a call leaves it after its evaluation. -/
theorem step_inv_of_evaluated {t : Watch} {c : Call} {v : Uhrp} {now : Nat} (hi : Inv t) (ho : Orderly t c)
    (he : evaluated t.u c = some (v, now)) : Inv (t.step c) := by
  obtain ⟨hsame, hst⟩ := evaluated_same he
  obtain ⟨hadv, hadvs⟩ := step_of_evaluated he
  have huniq : (peerAge v (UInt32.ofNat now)).peers.Unique := aged_unique _ (prepared_unique he hi.unique)
  have hpeers : (t.step c).u.peers = (peerAge v (UInt32.ofNat now)).peers := (step_peers he).1
  have hstarted : (t.step c).u.started = true := (step_peers he).2.2
  have htruth : ∀ p ∈ (t.step c).u.peers.cells, p.used = true → p.state = UhrpState.active.toByte →
      stoodDown p.addr (c :: t.calls) = false := by
    intro p hp
    rw [hpeers] at hp
    exact truthful_of_evaluated hi he hp
  have huniq' : (t.step c).u.peers.Unique := hpeers ▸ huniq
  -- the flag, of a board left with nobody in the role
  have hflag : ∀ a, vacant v (UInt32.ofNat now) = true → (t.step c).u.state ≠ .active →
      (t.step c).u.active = addrNone → (t.step c).followed = some a → v.vacancyClean = stoodDown a (c :: t.calls) := by
    intro a hv hs ha hf
    obtain ⟨hn, hold⟩ := followed_of_idle hs ha hf
    refine flag_of_vacant hi he ?_ hold hn hv
    have := ho
    rw [Orderly, hold] at this
    exact this
  by_cases hs : v.state = .active
  · have hnone : t.followed = none := by
      by_contra hf
      exact (hi.follower (Option.isSome_iff_ne_none.mpr hf)).2.2 (hsame.state.symm.trans hs)
    obtain ⟨_, hres | hkept⟩ := reevaluate_active hst hs (UInt32.ofNat now)
    · have hs' : (t.step c).u.state ≠ .active := by
        rw [show (t.step c).u.state = _ from hadvs, hres.state]
        decide
      have ha' : (t.step c).u.active = addrNone := hadv.active.trans hres.active
      have hf' : (t.step c).followed = none := by
        refine (if_neg hs').trans ((if_neg (not_not.mpr ha')).trans ?_)
        split
        · rfl
        · exact hnone
      exact Inv.of_unfollowed hstarted huniq' htruth (Or.inr ha') hf'
    · have hs' : (t.step c).u.state = .active := hadvs.trans hkept.state
      exact Inv.of_unfollowed hstarted huniq' htruth (Or.inl hs') (if_pos hs')
  · obtain ⟨hframe, ⟨a, hfo⟩ | hwa | htk⟩ := reevaluate_idle hst hs (UInt32.ofNat now)
    · have hs' : (t.step c).u.state ≠ .active := fun h => hfo.notActive (hadvs.symm.trans h)
      have hl' : (t.step c).u.state ≠ .learn := fun h => hfo.notLearn (hadvs.symm.trans h)
      have ha' : (t.step c).u.active = a.addr := hadv.active.trans hfo.active
      have hclean : (t.step c).u.vacancyClean = v.vacancyClean := hadv.vacancyClean.trans hfo.vacancyClean
      refine ⟨hstarted, huniq', htruth, fun _ hne => ⟨(if_neg hs').trans (if_pos hne), a, ?_, ha'.symm⟩,
        fun _ => ⟨hadv.activeValid.trans hfo.activeValid, hl', hs'⟩, fun b hb hnil => ?_⟩
      · rw [← hfo.found]
        unfold findActivePeer
        rw [hpeers]
      · rw [hclean]
        refine hflag b ?_ hs' hnil hb
        rw [vacant, hfo.found]
        simp [← ha', hnil]
    · have hs' : (t.step c).u.state ≠ .active := fun h => hwa.notActive (hadvs.symm.trans h)
      have hvac : vacant v (UInt32.ofNat now) = true := by rw [vacant, hwa.found]; rfl
      have ha' : (t.step c).u.active = addrNone := by
        rw [show (t.step c).u.active = _ from hadv.active.trans hwa.active]
        split
        · rename_i hl
          have hu : t.u.active = addrNone := hi.active_of_learn (hsame.state.symm.trans hl)
          exact (prepared_active he).elim (fun e => e.trans hu) And.right
        · rfl
      have hclean : (t.step c).u.vacancyClean = v.vacancyClean := hadv.vacancyClean.trans hwa.vacancyClean
      refine ⟨hstarted, huniq', htruth, fun _ hne => absurd ha' hne, fun hsome => ?_, fun b hb hnil => ?_⟩
      · obtain ⟨b, hb⟩ := Option.isSome_iff_exists.mp hsome
        obtain ⟨hval, hlearn, _⟩ := hi.follower (by rw [(followed_of_idle hs' ha' hb).2]; rfl)
        refine ⟨?_, fun hl => hlearn ?_, hs'⟩
        · exact hadv.activeValid.trans (hwa.activeValid.trans (hsame.activeValid.trans hval))
        · exact hsame.state.symm.trans (hwa.learning (hadvs.symm.trans hl))
      · rw [hclean]
        exact hflag b hvac hs' hnil hb
    · have hs' : (t.step c).u.state = .active := hadvs.trans htk.promoted.state
      exact Inv.of_unfollowed hstarted huniq' htruth (Or.inl hs') (if_pos hs')

theorem step_inv {t : Watch} {c : Call} (hi : Inv t) (ho : Orderly t c) : Inv (t.step c) := by
  cases he : evaluated t.u c with
  | none => exact step_inv_of_not_evaluated hi ho he
  | some p => exact step_inv_of_evaluated (v := p.1) hi ho he

end Watch

open Watch

theorem watch_inv {cfg : Config} {t0 : Nat} {t : Watch} (h : Reach (Watch.Started cfg t0) Orderly Watch.step t) : t.Inv :=
  h.inv (fun _ hs => hs ▸ start_inv cfg t0) (fun _ _ hi ho => step_inv hi ho)

/-! ## Rule 2 -/

/-- Rule 2, of one call: a board that takes the role after the speaker `a` releases
    everything exactly when `a` never stood down. -/
def Rule2 (t : Watch) (c : Call) : Prop :=
  ∀ a, t.followed = some a → ¬ t.superseded c → t.u.state ≠ .active → (t.step c).u.state = .active →
    if stoodDown a (t.step c).calls then
      (t.step c).u.ev.broadcastRelease = false ∧ (t.step c).u.ev.promotedByTimeout = false
    else (t.step c).u.ev.broadcastRelease = true ∧ (t.step c).u.ev.promotedByTimeout = true

theorem rule2 {cfg : Config} {t0 : Nat} {t : Watch} (h : Reach (Watch.Started cfg t0) Orderly Watch.step t) (c : Call)
    (ho : Orderly t c) : Rule2 t c := by
  have hi := watch_inv h
  intro a hf hn hs hp
  obtain ⟨v, now, he, htk⟩ := tookOver_of_step (c := c) hs hp
  obtain ⟨hsame, -⟩ := evaluated_same he
  obtain ⟨hadv, -⟩ := step_of_evaluated he
  obtain ⟨hvalid, hlearn, _⟩ := hi.follower (by rw [hf]; rfl)
  have hflag : v.vacancyClean = stoodDown a (t.step c).calls := by
    refine flag_of_vacant hi he ?_ hf hn (by rw [vacant, htk.found]; rfl)
    have := ho
    rw [Orderly, hf] at this
    exact this
  have hnl : v.state ≠ .learn := fun h => hlearn (hsame.state.symm.trans h)
  have hva : (peerAge v (UInt32.ofNat now)).activeValid = true := hsame.activeValid.trans hvalid
  have hev : (peerAge v (UInt32.ofNat now)).ev = Events.none := hsame.ev
  have hrel : (t.step c).u.ev.broadcastRelease = !v.vacancyClean := by
    rw [show (t.step c).u.ev.broadcastRelease = _ from hadv.broadcastRelease.trans htk.promoted.broadcastRelease, hev, hva]
    simp [hnl, Events.none]
  have htim : (t.step c).u.ev.promotedByTimeout = !v.vacancyClean := by
    rw [show (t.step c).u.ev.promotedByTimeout = _ from hadv.promotedByTimeout.trans htk.promoted.promotedByTimeout, hev, hva]
    simp [hnl, Events.none]
  rw [hrel, htim, hflag]
  cases stoodDown a (t.step c).calls <;> simp

/-! ## A vacancy the flag misses -/

def backupCfg : Config := ⟨0x22, 2, 100, capHidOut, false, timingDefault⟩

/-- The coordinator, ACTIVE. -/
def speakerHello : Hello := ⟨UhrpState.active.toByte, 200, 0, 15, 0x99, capCoord, 0⟩

/-- A third board, weaker than both. -/
def thirdHello : Hello := ⟨UhrpState.listen.toByte, 50, 0, 15, 0x33, capHidOut, 0⟩

/-- The coordinator speaks once and is never heard of again. -/
def silencedCalls : List Call := [.hello 1 speakerHello 10, .hello 3 thirdHello 100]

def silenced : Watch := silencedCalls.foldl Watch.step (Watch.start backupCfg 0)

/-- The hold time of 150 ms is over, and the next call is the third board's HELLO: the
    board takes the role and releases nothing. -/
theorem third_party_hello_hides_the_vacancy :
    ¬ ∀ (cfg : Config) (t0 : Nat) (t : Watch), Reach (Watch.Started cfg t0) InTime Watch.step t →
      ∀ c, InTime t c → Rule2 t c := by
  intro h
  have h0 : Reach (Watch.Started backupCfg 0) InTime Watch.step (Watch.start backupCfg 0) := .init rfl
  have hr : Reach (Watch.Started backupCfg 0) InTime Watch.step silenced := h0.run silencedCalls (by decide +kernel)
  have hlaw := h backupCfg 0 silenced hr (.hello 3 thirdHello 160) (by decide +kernel) 1 (by decide +kernel)
    (by decide +kernel) (by decide +kernel) (by decide +kernel)
  rw [if_neg (by decide +kernel)] at hlaw
  exact absurd hlaw.1 (by decide +kernel)

/-- The same vacancy, found by a tick. -/
theorem rule2_of_a_tick :
    Rule2 silenced (.tick 160) ∧ silenced.followed = some 1 ∧ (silenced.step (.tick 160)).u.state = .active ∧
      (silenced.step (.tick 160)).u.ev.broadcastRelease = true := by
  have h0 : Reach (Watch.Started backupCfg 0) Orderly Watch.step (Watch.start backupCfg 0) := .init rfl
  have hr : Reach (Watch.Started backupCfg 0) Orderly Watch.step silenced := h0.run silencedCalls (by decide +kernel)
  exact ⟨rule2 hr _ (by decide +kernel), by decide +kernel, by decide +kernel, by decide +kernel⟩

end DeskHop.Election
