/-
  DeskHop.Election.Table — what a call writes in the peer table.

  A HELLO or a RESIGN writes its sender's entry and no other (`prepared_mem`,
  `prepared_find_other`); ageing drops what the hold time has run out on
  (`aged_mem`). No two entries in use are for the same board.
-/

import DeskHop.Election.Step

namespace DeskHop.Election

open DeskHop.Lib

/-- Who sent the message a call hands over. -/
def Call.sender? : Call → Option Addr
  | .hello src _ _ | .resign src _ => some src
  | _ => none

/-- The state the message leaves its sender's entry in. -/
def Call.tells : Call → Byte
  | .hello _ h _ => h.state
  | _ => UhrpState.listen.toByte

theorem peerGet_find {u : Uhrp} {src : Addr} {peers : Peers} (h : peerGet u src = some peers) :
    ∃ p, peers.find? src = some p ∧ ∀ a, a ≠ src → peers.find? a = u.peers.find? a := by
  obtain ⟨⟨p, t⟩, he, rfl⟩ := Option.map_eq_some_iff.mp h
  exact ⟨p, Slots.find?_ensure_self he rfl, fun a ha => Slots.find?_ensure_ne he ha⟩

theorem peerGet_unique {u : Uhrp} {src : Addr} {peers : Peers} (h : peerGet u src = some peers)
    (hu : u.peers.Unique) : peers.Unique := by
  obtain ⟨⟨p, t⟩, he, rfl⟩ := Option.map_eq_some_iff.mp h
  exact hu.ensure he

theorem heard_key {k : Addr} (h : Hello) (now : Time) (p : Peer) (hu : Slotted.used p = true)
    (hk : Slotted.key p = k) : Slotted.used (heard h now p) = true ∧ Slotted.key (heard h now p) = k := ⟨hu, hk⟩

theorem demoted_key {k : Addr} (now : Time) (p : Peer) (hu : Slotted.used p = true)
    (hk : Slotted.key p = k) : Slotted.used (demoted now p) = true ∧ Slotted.key (demoted now p) = k := ⟨hu, hk⟩

theorem prepared_unique {u v : Uhrp} {c : Call} {now : Nat} (h : prepared u c = some (v, now))
    (hu : u.peers.Unique) : v.peers.Unique := by
  cases c with
  | hello src hl t =>
    simp only [prepared] at h
    split at h
    · cases h
    split at h
    · cases h
    rename_i peers hp
    cases h
    exact (peerGet_unique hp hu).modify fun a ha hk _ => (heard_key hl _ a ha hk).2
  | resign src t =>
    simp only [prepared] at h
    split at h
    · cases h
    cases h
    split <;> exact hu.modify fun a ha hk _ => (demoted_key _ a ha hk).2
  | tick t =>
    simp only [prepared] at h
    split at h
    · cases h
    cases h
    split <;> exact hu
  | setKeysHeld b => cases h

/-- A lookup of any board but the sender answers as before. -/
theorem prepared_find_other {u v : Uhrp} {c : Call} {now : Nat} (h : prepared u c = some (v, now)) {a : Addr}
    (ha : c.sender? ≠ some a) : v.peers.find? a = u.peers.find? a := by
  cases c with
  | hello src hl t =>
    have hne : a ≠ src := fun e => ha (by rw [e]; rfl)
    simp only [prepared] at h
    split at h
    · cases h
    split at h
    · cases h
    rename_i peers hp
    cases h
    obtain ⟨_, _, hother⟩ := peerGet_find hp
    rw [← hother a hne]
    exact Slots.find?_modify_ne _ hne _ fun b hb hk _ => (heard_key hl _ b hb hk).2
  | resign src t =>
    have hne : a ≠ src := fun e => ha (by rw [e]; rfl)
    simp only [prepared] at h
    split at h
    · cases h
    cases h
    split <;> exact Slots.find?_modify_ne _ hne _ fun b hb hk _ => (demoted_key _ b hb hk).2
  | tick t =>
    simp only [prepared] at h
    split at h
    · cases h
    cases h
    split <;> rfl
  | setKeysHeld b => cases h

/-- After a HELLO its sender is in the table, as the HELLO describes it. -/
theorem prepared_find_hello {u v : Uhrp} {src : Addr} {hl : Hello} {t now : Nat}
    (h : prepared u (.hello src hl t) = some (v, now)) :
    ∃ p, v.peers.find? src = some (heard hl (UInt32.ofNat now) p) := by
  simp only [prepared] at h
  split at h
  · cases h
  split at h
  · cases h
  rename_i peers hp
  cases h
  obtain ⟨p, hf, _⟩ := peerGet_find hp
  refine ⟨p, ?_⟩
  exact (Slots.find?_modify_self peers src _ fun a ha hk => heard_key hl _ a ha hk).trans (by rw [hf]; rfl)

/-- After a RESIGN its sender is as it was in the table, but no candidate for active. -/
theorem prepared_find_resign {u v : Uhrp} {src : Addr} {t now : Nat} (h : prepared u (.resign src t) = some (v, now)) :
    v.peers.find? src = (u.peers.find? src).map (demoted (UInt32.ofNat now)) := by
  simp only [prepared] at h
  split at h
  · cases h
  have hv : now = t ∧ v.peers = u.peers.modify src (demoted (UInt32.ofNat t)) := by
    cases h
    exact ⟨rfl, by split <;> rfl⟩
  rw [hv.1, hv.2]
  exact Slots.find?_modify_self u.peers src _ fun a ha hk => demoted_key _ a ha hk

/-- The HELLO of a peer in the table changes its entry and nothing else. -/
theorem prepared_peers_hello {u v : Uhrp} {src : Addr} {hl : Hello} {t now : Nat} {q : Peer}
    (h : prepared u (.hello src hl t) = some (v, now)) (hq : u.peers.find? src = some q) :
    v.peers = u.peers.modify src (heard hl (UInt32.ofNat now)) := by
  simp only [prepared] at h
  split at h
  · cases h
  split at h
  · cases h
  rename_i peers hg
  cases h
  have hpeers : some u.peers = some peers := by rw [← hg, peerGet, Slots.ensure_of_find (b := q) hq]; rfl
  rw [Option.some.inj hpeers]

/-- No call takes a board out of the table. -/
theorem prepared_find_isSome {u v : Uhrp} {c : Call} {now : Nat} (h : prepared u c = some (v, now)) {a : Addr}
    (ha : (u.peers.find? a).isSome = true) : (v.peers.find? a).isSome = true := by
  by_cases hs : c.sender? = some a
  · cases c with
    | hello src hl t =>
      cases hs
      obtain ⟨p, hp⟩ := prepared_find_hello h
      rw [hp]
      rfl
    | resign src t =>
      cases hs
      rw [prepared_find_resign h, Option.isSome_map]
      exact ha
    | tick t => cases hs
    | setKeysHeld b => cases hs
  · rw [prepared_find_other h hs]
    exact ha

/-- An entry in use is an old one of another board, or the sender's, which says what the
    message said. -/
theorem prepared_mem {u v : Uhrp} {c : Call} {now : Nat} (h : prepared u c = some (v, now)) (hu : u.peers.Unique)
    {p : Peer} (hp : p ∈ v.peers.cells) (hused : p.used = true) :
    (p ∈ u.peers.cells ∧ c.sender? ≠ some p.addr) ∨ (c.sender? = some p.addr ∧ p.state = c.tells) := by
  have hfind := (prepared_unique h hu).find?_of_mem hp hused
  cases c with
  | hello src hl t =>
    by_cases hs : src = p.addr
    · right
      obtain ⟨q, hq⟩ := prepared_find_hello h
      subst hs
      rw [show Slotted.key p = p.addr from rfl, hq] at hfind
      cases hfind
      exact ⟨rfl, rfl⟩
    · left
      refine ⟨?_, by simp only [Call.sender?, ne_eq, Option.some.injEq]; exact hs⟩
      rw [prepared_find_other h (by simp only [Call.sender?, ne_eq, Option.some.injEq]; exact hs)] at hfind
      exact (Slots.find?_some hfind).1
  | resign src t =>
    by_cases hs : src = p.addr
    · right
      refine ⟨by rw [hs]; rfl, ?_⟩
      rw [show Slotted.key p = src from hs.symm, prepared_find_resign h] at hfind
      obtain ⟨q, _, rfl⟩ := Option.map_eq_some_iff.mp hfind
      rfl
    · left
      refine ⟨?_, by simp only [Call.sender?, ne_eq, Option.some.injEq]; exact hs⟩
      rw [prepared_find_other h (by simp only [Call.sender?, ne_eq, Option.some.injEq]; exact hs)] at hfind
      exact (Slots.find?_some hfind).1
  | tick t =>
    left
    refine ⟨?_, by simp [Call.sender?]⟩
    rw [prepared_find_other h (by simp [Call.sender?])] at hfind
    exact (Slots.find?_some hfind).1
  | setKeysHeld b => cases h

theorem prepared_tick_peers {u v : Uhrp} {n now : Nat} (h : prepared u (.tick n) = some (v, now)) :
    v.peers = u.peers := by
  simp only [prepared] at h
  split at h
  · cases h
  · cases h
    split <;> rfl

/-- The speaker is forgotten by its own RESIGN only. -/
theorem prepared_active {u v : Uhrp} {c : Call} {now : Nat} (h : prepared u c = some (v, now)) :
    v.active = u.active ∨ (c.sender? = some u.active ∧ v.active = addrNone) := by
  cases c with
  | hello src hl n =>
    simp only [prepared] at h
    split at h
    · cases h
    split at h <;> cases h
    exact .inl rfl
  | resign src n =>
    simp only [prepared] at h
    split at h <;> cases h
    split
    · rename_i hown
      exact .inr ⟨congrArg some (eq_of_beq hown), rfl⟩
    · exact .inl rfl
  | tick n =>
    simp only [prepared] at h
    split at h <;> cases h
    left
    split <;> rfl
  | setKeysHeld b => cases h

/-! ## Ageing -/

theorem aged_mem {u : Uhrp} {now : Time} {p : Peer} (h : p ∈ (peerAge u now).peers.cells) (hused : p.used = true) :
    p ∈ u.peers.cells ∧ expired u now p = false := by
  obtain ⟨q, hq, rfl⟩ := List.mem_map.mp h
  by_cases hx : (q.used && expired u now q) = true
  · rw [if_pos hx] at hused
    cases hused
  · rw [if_neg hx] at hused ⊢
    simp only [Bool.and_eq_true, not_and, Bool.not_eq_true] at hx
    exact ⟨hq, hx hused⟩

theorem aged_unique {u : Uhrp} (now : Time) (hu : u.peers.Unique) : (peerAge u now).peers.Unique := by
  refine hu.map fun p hp => ?_
  have hp' : (if p.used && expired u now p then { p with used := false } else p).used = true := hp
  split at hp'
  · cases hp'
  · rename_i hx
    refine ⟨hp', ?_⟩
    rw [if_neg hx]

/-- A live entry is found as before. -/
theorem aged_find {u : Uhrp} {now : Time} {a : Addr} {p : Peer} (h : u.peers.find? a = some p)
    (hx : expired u now p = false) : (peerAge u now).peers.find? a = some p := by
  have hp : (if p.used && expired u now p then { p with used := false } else p) = p := if_neg (by simp [hx])
  obtain ⟨-, hused, hkey⟩ := Slots.find?_some h
  have hf := Slots.find?_map (f := fun q => if q.used && expired u now q then { q with used := false } else q)
    (fun q hq => ?_) h (by rw [hp]; exact Slots.holds_iff.mpr ⟨hused, hkey⟩)
  · rw [hp] at hf
    exact hf
  · split at hq
    · exact absurd (Slots.holds_iff.mp hq).1 Bool.false_ne_true
    · exact hq

/-- With every entry live, ageing changes nothing. -/
theorem aged_peers {u : Uhrp} {now : Time} (h : ∀ p ∈ u.peers.cells, p.used = true → expired u now p = false) :
    (peerAge u now).peers = u.peers := by
  have hc : u.peers.cells.map (fun p => if p.used && expired u now p then { p with used := false } else p) =
      u.peers.cells := by
    refine (List.map_congr_left fun p hp => ?_).trans (List.map_id _)
    refine if_neg fun hx => ?_
    rw [Bool.and_eq_true] at hx
    rw [h p hp hx.1] at hx
    exact absurd hx.2 Bool.false_ne_true
  simp only [peerAge_peers, Slots.map, hc]

/-- The table after a call that is evaluated is the one the call wrote, aged. -/
theorem step_peers {u v : Uhrp} {c : Call} {now : Nat} (he : evaluated u c = some (v, now)) :
    (step u c).peers = (peerAge v (UInt32.ofNat now)).peers ∧ (step u c).cfg = u.cfg ∧ (step u c).started = true := by
  obtain ⟨hsame, hst⟩ := evaluated_same he
  have hadv := (step_of_evaluated he).1
  obtain ⟨hpeers, hcfg, hstarted⟩ := reevaluate_peers hst (UInt32.ofNat now)
  exact ⟨hadv.peers.trans hpeers, hadv.cfg.trans (hcfg.trans hsame.cfg), hadv.started.trans hstarted⟩

theorem step_cfg (u : Uhrp) (c : Call) : (step u c).cfg = u.cfg := by
  cases he : evaluated u c with
  | none =>
    obtain ⟨b, hb⟩ := step_of_not_evaluated he
    rw [hb]
    rfl
  | some p => exact (step_peers (v := p.1) he).2.1

/-- A live entry that says ACTIVE keeps an evaluation from finding nobody in the role. -/
theorem findActivePeer_isSome {u : Uhrp} {now : Time} {a : Addr} {p : Peer} (hf : u.peers.find? a = some p)
    (hs : p.state = UhrpState.active.toByte) (hx : expired u now p = false) :
    (findActivePeer (peerAge u now)).isSome = true := by
  obtain ⟨hm, hused, _⟩ := Slots.find?_some hf
  have hp : (if p.used && expired u now p then { p with used := false } else p) = p := if_neg (by simp [hx])
  refine List.find?_isSome.mpr ⟨p, List.mem_map.mpr ⟨p, hm, hp⟩, ?_⟩
  have hu' : p.used = true := hused
  simp [hu', hs]

theorem findActivePeer_mem {u : Uhrp} {now : Time} {a : Peer} (h : findActivePeer (peerAge u now) = some a) :
    a ∈ u.peers.cells ∧ a ∈ (peerAge u now).peers.cells ∧ a.used = true ∧ a.state = UhrpState.active.toByte ∧
      expired u now a = false := by
  have hm := List.mem_of_find?_eq_some h
  have hp := List.find?_some h
  simp only [Bool.and_eq_true, beq_iff_eq] at hp
  obtain ⟨h1, h2⟩ := aged_mem hm hp.1
  exact ⟨h1, hm, hp.1, hp.2, h2⟩

end DeskHop.Election
