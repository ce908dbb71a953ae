/-
  DeskHop.Election.Offers — what a board reckons the chain can do.

  A HELLO says what its sender can contribute, and a board counts on it until it has heard
  nothing of the sender for the hold time; a RESIGN is a sign of life too, of a board it still counts
  on (`Account`). The code keeps no such account but a table of peers with a slot for each, which
  every call ages.

  Proved: as long as no more boards speak up than the table has slots, table and account agree after
  every call (`Roster.tick`, `Roster.hello`, `Roster.resign`), and the capabilities within reach are
  the board's own and those it counts on, bit by bit (`Roster.reachable_iff`).
-/

import DeskHop.Election.Promotion
import DeskHop.Election.Roles
import Mathlib.Logic.Function.Basic

namespace DeskHop.Election

open DeskHop.Lib

/-! ## The account -/

/-- What a board said it can contribute, and when it was last heard. -/
structure Pledge where
  caps : UInt16
  time : Nat
  deriving DecidableEq

def Pledge.stands (p : Pledge) (hold now : Nat) : Prop := now < p.time + hold

instance (p : Pledge) (hold now : Nat) : Decidable (p.stands hold now) := inferInstanceAs (Decidable (_ < _))

abbrev Account := Addr → Option Pledge

/-- The account of a board that was last called at `clock`. -/
def Account.after (acc : Account) (hold clock : Nat) : Call → Account
  | .hello src h now => Function.update acc src (some ⟨h.caps, now⟩)
  | .resign src now =>
    match acc src with
    | some p => if p.stands hold clock then Function.update acc src (some ⟨p.caps, now⟩) else acc
    | none => acc
  | .tick _ => acc
  | .setKeysHeld _ => acc

def holdOf (u : Uhrp) : Nat := u.cfg.timing.holdMs.toNat

/-! ## Capabilities -/

theorem and_or_distrib (x y b : UInt16) : (x ||| y) &&& b = x &&& b ||| y &&& b := by
  refine UInt16.toBitVec_inj.mp (BitVec.eq_of_getElem_eq fun i hi => ?_)
  simp only [UInt16.toBitVec_and, UInt16.toBitVec_or, BitVec.getElem_and, BitVec.getElem_or]
  cases b.toBitVec[i] <;> simp

theorem hasCap_or (x y bit : UInt16) : hasCap (x ||| y) bit = true ↔ hasCap x bit = true ∨ hasCap y bit = true := by
  simp only [hasCap, decide_eq_true_eq, and_or_distrib, ne_eq, UInt16.or_eq_zero_iff, not_and_or]

/-! ## The table -/

/-- The table of a board last called at `clock` holds what the account says. -/
structure Roster (S : Finset Addr) (acc : Account) (clock : Nat) (u : Uhrp) : Prop where
  started : u.started = true
  unique : u.peers.Unique
  entry : ∀ a p, u.peers.find? a = some p → ∃ q, acc a = some q ∧ p.caps = q.caps ∧ p.lastSeen = UInt32.ofNat q.time ∧
    q.time ≤ clock ∧ q.stands (holdOf u) clock
  listed : ∀ a q, acc a = some q → q.stands (holdOf u) clock → ∃ p, u.peers.find? a = some p
  known : ∀ a q, acc a = some q → a ∈ S
  own : acc u.cfg.addr = none

/-- What is still there of a table that has been aged. -/
theorem aged_find_iff {u : Uhrp} (hu : u.peers.Unique) {now : Time} {a : Addr} {p : Peer} :
    (peerAge u now).peers.find? a = some p ↔ u.peers.find? a = some p ∧ expired u now p = false := by
  constructor
  · intro h
    obtain ⟨hmem, hused, hkey⟩ := Slots.find?_some h
    obtain ⟨hold, hfresh⟩ := aged_mem hmem hused
    refine ⟨?_, hfresh⟩
    rw [← hkey]
    exact hu.find?_of_mem hold hused
  · rintro ⟨h, hfresh⟩
    exact aged_find h hfresh

/-- By the clock that wraps or the one that does not. -/
theorem expired_iff {u : Uhrp} {p : Peer} {t now : Nat} (hp : p.lastSeen = UInt32.ofNat t) (ht : t ≤ now)
    (hnow : now < t + holdOf u + 2 ^ 31) : expired u (UInt32.ofNat now) p = false ↔ now < t + holdOf u := by
  constructor
  · exact heard_within_real hp hnow
  · exact not_expired hp ht

variable {S : Finset Addr} {acc : Account} {clock : Nat} {u : Uhrp}

/-- What depends on the table, the configuration and the start alone. -/
theorem Roster.congr {v : Uhrp} (h : Roster S acc clock u) (hs : v.started = true) (hp : v.peers = u.peers)
    (ht : v.cfg.timing = u.cfg.timing) (ha : v.cfg.addr = u.cfg.addr) : Roster S acc clock v := by
  have hhold : holdOf v = holdOf u := by rw [holdOf, holdOf, ht]
  refine ⟨hs, hp ▸ h.unique, ?_, ?_, h.known, ha.symm ▸ h.own⟩
  · rw [hp, hhold]
    exact h.entry
  · rw [hp, hhold]
    exact h.listed

/-! ## One call -/

/-- The table a call at `now` has written, and not yet aged. -/
structure Written (S : Finset Addr) (acc : Account) (now : Nat) (v : Uhrp) : Prop where
  unique : v.peers.Unique
  entry : ∀ a p, v.peers.find? a = some p → ∃ q, acc a = some q ∧ p.caps = q.caps ∧ p.lastSeen = UInt32.ofNat q.time ∧
    q.time ≤ now ∧ now < q.time + holdOf v + 2 ^ 31
  listed : ∀ a q, acc a = some q → q.stands (holdOf v) now → ∃ p, v.peers.find? a = some p
  known : ∀ a q, acc a = some q → a ∈ S
  own : acc v.cfg.addr = none

theorem Written.aged {now : Nat} {v w : Uhrp} (h : Written S acc now v) (hs : w.started = true)
    (hp : w.peers = (peerAge v (UInt32.ofNat now)).peers) (hc : w.cfg = v.cfg) : Roster S acc now w := by
  have hhold : holdOf w = holdOf v := by rw [holdOf, holdOf, hc]
  refine ⟨hs, hp ▸ aged_unique _ h.unique, ?_, ?_, h.known, hc ▸ h.own⟩
  · intro a p hfind
    rw [hp, aged_find_iff h.unique] at hfind
    obtain ⟨q, hq, hcaps, hseen, hle, hlt⟩ := h.entry a p hfind.1
    refine ⟨q, hq, hcaps, hseen, hle, ?_⟩
    rw [hhold]
    exact (expired_iff hseen hle hlt).mp hfind.2
  · intro a q hq hstands
    rw [hhold] at hstands
    obtain ⟨p, hfind⟩ := h.listed a q hq hstands
    obtain ⟨q', hq', -, hseen, hle, hlt⟩ := h.entry a p hfind
    rw [hq] at hq'
    cases hq'
    refine ⟨p, ?_⟩
    rw [hp, aged_find_iff h.unique]
    exact ⟨hfind, (expired_iff hseen hle hlt).mpr hstands⟩

theorem Written.stepped {now : Nat} {v : Uhrp} {c : Call} (h : Written S acc now v) (he : evaluated u c = some (v, now)) :
    Roster S acc now (step u c) := by
  have hsame := (evaluated_same he).1
  obtain ⟨hpeers, hcfg, hstarted⟩ := step_peers he
  exact h.aged hstarted hpeers (hcfg.trans hsame.cfg.symm)

/-- There is a slot for whoever speaks up. -/
theorem Roster.room (h : Roster S acc clock u) (hS : S.card ≤ maxBoards) {src : Addr} (hsrc : src ∈ S) :
    (peerGet u src).isSome = true := by
  by_contra hfull
  have hnone : peerGet u src = none := Option.not_isSome_iff_eq_none.mp hfull
  obtain ⟨-, hlen, hnot, hused⟩ := h.unique.full (Option.map_eq_none_iff.mp hnone)
  have hnd : (src :: u.peers.cells.map Slotted.key).Nodup := by
    obtain ⟨hkeys, -⟩ := h.unique.full (Option.map_eq_none_iff.mp hnone)
    exact List.nodup_cons.mpr ⟨hnot, hkeys⟩
  have hsub : (src :: u.peers.cells.map Slotted.key).toFinset ⊆ S := by
    intro a ha
    rcases List.mem_cons.mp (List.mem_toFinset.mp ha) with rfl | ha
    · exact hsrc
    · obtain ⟨p, hp, rfl⟩ := List.mem_map.mp ha
      obtain ⟨q, hq, -⟩ := h.entry _ p (h.unique.find?_of_mem hp (hused p hp))
      exact h.known _ q hq
  have hcard := Finset.card_le_card hsub
  rw [List.toFinset_card_of_nodup hnd, List.length_cons, hlen] at hcard
  omega

section

variable {now : Nat} (h : Roster S acc clock u) (hclock : clock ≤ now) (hsoon : now < clock + 2 ^ 31)

include h hclock hsoon

/-- What the call leaves alone. -/
theorem Roster.untouched {a : Addr} {p : Peer} (hp : u.peers.find? a = some p) :
    ∃ q, acc a = some q ∧ p.caps = q.caps ∧ p.lastSeen = UInt32.ofNat q.time ∧ q.time ≤ now ∧
      now < q.time + holdOf u + 2 ^ 31 := by
  obtain ⟨q, hq, hcaps, hseen, hle, hlt⟩ := h.entry a p hp
  have hlt : clock < q.time + holdOf u := hlt
  exact ⟨q, hq, hcaps, hseen, by omega, by omega⟩

theorem Roster.standing {a : Addr} {q : Pledge} (hq : acc a = some q) (hs : q.stands (holdOf u) now) :
    ∃ p, u.peers.find? a = some p := by
  have hs : now < q.time + holdOf u := hs
  exact h.listed a q hq (show clock < q.time + holdOf u by omega)

theorem Roster.tick : Roster S acc now (step u (.tick now)) := by
  obtain ⟨v, hprep⟩ : ∃ v, evaluated u (.tick now) = some (v, now) := by
    rw [evaluated, prepared, if_neg (by simp [takeEvents, h.started])]
    exact ⟨_, rfl⟩
  have hwrote : prepared (takeEvents u).2 (.tick now) = some (v, now) := hprep
  have hpeers : v.peers = (takeEvents u).2.peers := prepared_tick_peers hwrote
  have hpeers : v.peers = u.peers := hpeers
  have hcfg : v.cfg = u.cfg := (evaluated_same hprep).1.cfg
  have hhold : holdOf v = holdOf u := by rw [holdOf, holdOf, hcfg]
  refine Written.stepped ⟨hpeers ▸ h.unique, ?_, ?_, h.known, hcfg ▸ h.own⟩ hprep
  · rw [hpeers, hhold]
    exact fun a p => h.untouched hclock hsoon
  · rw [hpeers, hhold]
    exact fun a q => h.standing hclock hsoon

theorem Roster.hello (hS : S.card ≤ maxBoards) {src : Addr} (hsrc : src ∈ S) (hne : src ≠ u.cfg.addr) (m : Hello) :
    Roster S (Function.update acc src (some ⟨m.caps, now⟩)) now (step u (.hello src m now)) := by
  obtain ⟨v, hprep⟩ : ∃ v, evaluated u (.hello src m now) = some (v, now) := by
    obtain ⟨peers, hget⟩ := Option.isSome_iff_exists.mp (h.room hS hsrc)
    have hget : peerGet (takeEvents u).2 src = some peers := hget
    have hlet : ((!(takeEvents u).2.started) || src == (takeEvents u).2.cfg.addr) = false := by
      simp [takeEvents, h.started, hne]
    simp only [evaluated, prepared, hlet, hget, Bool.false_eq_true, if_false]
    exact ⟨_, rfl⟩
  have hcfg : v.cfg = u.cfg := (evaluated_same hprep).1.cfg
  have hhold : holdOf v = holdOf u := by rw [holdOf, holdOf, hcfg]
  have hother {a : Addr} (ha : a ≠ src) : v.peers.find? a = u.peers.find? a :=
    prepared_find_other hprep fun hs => ha (Option.some.inj hs).symm
  obtain ⟨p₀, hfound⟩ := prepared_find_hello hprep
  refine Written.stepped ⟨prepared_unique hprep h.unique, ?_, ?_, ?_, ?_⟩ hprep
  · intro a p hfind
    by_cases ha : a = src
    · subst ha
      rw [hfound] at hfind
      cases hfind
      exact ⟨⟨m.caps, now⟩, Function.update_self .., rfl, rfl, Nat.le_refl now,
        show now < now + holdOf v + 2 ^ 31 by omega⟩
    · rw [hother ha] at hfind
      rw [Function.update_of_ne ha, hhold]
      exact h.untouched hclock hsoon hfind
  · intro a q hq hs
    by_cases ha : a = src
    · subst ha
      exact ⟨_, hfound⟩
    · rw [Function.update_of_ne ha] at hq
      rw [hother ha]
      exact h.standing hclock hsoon hq (hhold ▸ hs)
  · intro a q hq
    by_cases ha : a = src
    · exact ha ▸ hsrc
    · rw [Function.update_of_ne ha] at hq
      exact h.known a q hq
  · rw [hcfg, Function.update_of_ne hne.symm]
    exact h.own

/-- A board that stands down is still there. -/
theorem Roster.resign (src : Addr) :
    Roster S (acc.after (holdOf u) clock (.resign src now)) now (step u (.resign src now)) := by
  obtain ⟨v, hprep⟩ : ∃ v, evaluated u (.resign src now) = some (v, now) := by
    rw [evaluated, prepared, if_neg (by simp [takeEvents, h.started])]
    exact ⟨_, rfl⟩
  have hwrote : prepared (takeEvents u).2 (.resign src now) = some (v, now) := hprep
  have hcfg : v.cfg = u.cfg := (evaluated_same hprep).1.cfg
  have hhold : holdOf v = holdOf u := by rw [holdOf, holdOf, hcfg]
  have hother {a : Addr} (ha : a ≠ src) : v.peers.find? a = u.peers.find? a :=
    prepared_find_other hwrote fun hs => ha (Option.some.inj hs).symm
  have hfound : v.peers.find? src = ((takeEvents u).2.peers.find? src).map (demoted (UInt32.ofNat now)) :=
    prepared_find_resign hwrote
  have helse {a : Addr} (ha : a ≠ src) : acc.after (holdOf u) clock (.resign src now) a = acc a := by
    cases hq : acc src with
    | none => simp only [Account.after, hq]
    | some q =>
      simp only [Account.after, hq]
      by_cases hs : q.stands (holdOf u) clock
      · rw [if_pos hs]
        exact Function.update_of_ne ha _ _
      · rw [if_neg hs]
  have hits {q : Pledge} (hq : acc src = some q) (hs : q.stands (holdOf u) clock) :
      acc.after (holdOf u) clock (.resign src now) src = some ⟨q.caps, now⟩ := by
    simp only [Account.after, hq, if_pos hs]
    exact Function.update_self ..
  have hnot (hs : ∀ q, acc src = some q → ¬ q.stands (holdOf u) clock) :
      acc.after (holdOf u) clock (.resign src now) src = acc src := by
    cases hq : acc src with
    | none => simp only [Account.after, hq]
    | some q =>
      simp only [Account.after, hq, if_neg (hs q hq)]
  refine Written.stepped ⟨prepared_unique hwrote h.unique, ?_, ?_, ?_, ?_⟩ hprep
  · intro a p hfind
    by_cases ha : a = src
    · subst ha
      rw [hfound] at hfind
      obtain ⟨p₀, hp, rfl⟩ := Option.map_eq_some_iff.mp hfind
      obtain ⟨q, hq, hcaps, -, -, hs⟩ := h.entry a p₀ hp
      exact ⟨⟨q.caps, now⟩, hits hq hs, hcaps, rfl, Nat.le_refl now, show now < now + holdOf v + 2 ^ 31 by omega⟩
    · rw [hother ha] at hfind
      rw [helse ha, hhold]
      exact h.untouched hclock hsoon hfind
  · intro a q hq hs
    rw [hhold] at hs
    by_cases ha : a = src
    · subst ha
      by_cases hstood : ∃ q₀, acc a = some q₀ ∧ q₀.stands (holdOf u) clock
      · obtain ⟨q₀, hq₀, hs₀⟩ := hstood
        obtain ⟨p, hp⟩ := h.listed a q₀ hq₀ hs₀
        exact ⟨_, hfound.trans (congrArg _ hp)⟩
      · rw [hnot fun q₀ hq₀ hs₀ => hstood ⟨q₀, hq₀, hs₀⟩] at hq
        have hs : now < q.time + holdOf u := hs
        exact absurd ⟨q, hq, show clock < q.time + holdOf u by omega⟩ hstood
    · rw [helse ha] at hq
      rw [hother ha]
      exact h.standing hclock hsoon hq hs
  · intro a q hq
    by_cases ha : a = src
    · subst ha
      by_cases hstood : ∃ q₀, acc a = some q₀ ∧ q₀.stands (holdOf u) clock
      · obtain ⟨q₀, hq₀, -⟩ := hstood
        exact h.known a q₀ hq₀
      · rw [hnot fun q₀ hq₀ hs₀ => hstood ⟨q₀, hq₀, hs₀⟩] at hq
        exact h.known a q hq
    · rw [helse ha] at hq
      exact h.known a q hq
  · by_cases ha : v.cfg.addr = src
    · have hnone : acc src = none := ha ▸ hcfg ▸ h.own
      rw [ha, hnot fun q hq _ => by rw [hnone] at hq; cases hq]
      exact hnone
    · rw [helse ha, hcfg]
      exact h.own

end

/-! ## The capabilities within reach -/

/-- What a board can count on is what it can do itself and what those can do whose pledge stands. -/
theorem Roster.reachable_iff (h : Roster S acc clock u) (bit : UInt16) : hasCap (reachableCaps u) bit = true ↔
    hasCap u.cfg.caps bit = true ∨ ∃ a q, acc a = some q ∧ q.stands (holdOf u) clock ∧ hasCap q.caps bit = true := by
  have hfold (ps : List Peer) (caps : UInt16) :
      hasCap (ps.foldl (fun caps p => if p.used then caps ||| p.caps else caps) caps) bit = true ↔
        hasCap caps bit = true ∨ ∃ p ∈ ps, p.used = true ∧ hasCap p.caps bit = true := by
    induction ps generalizing caps with
    | nil => simp
    | cons p ps ih =>
      rw [List.foldl_cons, ih]
      cases hu : p.used with
      | true => simp [hasCap_or, hu, or_assoc]
      | false => simp [hu]
  rw [reachableCaps, hfold]
  refine or_congr Iff.rfl ⟨?_, ?_⟩
  · rintro ⟨p, hp, hused, hbit⟩
    obtain ⟨q, hq, hcaps, -, -, hs⟩ := h.entry p.addr p (h.unique.find?_of_mem hp hused)
    exact ⟨p.addr, q, hq, hs, hcaps ▸ hbit⟩
  · rintro ⟨a, q, hq, hs, hbit⟩
    obtain ⟨p, hfind⟩ := h.listed a q hq hs
    obtain ⟨hmem, hused, -⟩ := Slots.find?_some hfind
    obtain ⟨q', hq', hcaps, -⟩ := h.entry a p hfind
    rw [hq] at hq'
    cases hq'
    exact ⟨p, hmem, hused, hcaps.symm ▸ hbit⟩

end DeskHop.Election
