/-
  DeskHop.Election.Field — the candidates for the role, compared.

  Candidates are ordered by priority, and by uid among equals; `rank` is that order as a
  number. The search for the best candidate compares the board with every peer in its
  table: it finds nobody better than the one it returns (`field_best`), so a board that
  comes out best outranks them all, and a board challenged for its role is challenged by
  a live peer that outranks it (`challenged_by`).
-/

import DeskHop.Election.Table

namespace DeskHop.Election

open DeskHop.Lib

/-- Where a candidate stands. -/
def rank (priority : UInt8) (uid : Uid) : Nat := priority.toNat * 2 ^ 64 + uid.toNat

def Peer.rank (p : Peer) : Nat := Election.rank p.priority p.uid

/-- Where the board itself stands. -/
def Uhrp.rank (u : Uhrp) : Nat := Election.rank u.cfg.priority u.cfg.uid

theorem better_iff (pa : UInt8) (ua : Uid) (pb : UInt8) (ub : Uid) :
    better pa ua pb ub = true ↔ rank pb ub < rank pa ua := by
  have ha := ua.toNat_lt
  have hb := ub.toNat_lt
  unfold better rank
  by_cases h : pa = pb
  · rw [if_neg (not_not.mpr h), decide_eq_true_iff, h]
    show ub < ua ↔ _
    rw [UInt64.lt_iff_toNat_lt]
    omega
  · have hne : pa.toNat ≠ pb.toNat := fun e => h (UInt8.toNat_inj.mp e)
    rw [if_pos h, decide_eq_true_iff]
    show pb < pa ↔ _
    rw [UInt8.lt_iff_toNat_lt]
    omega

/-! ## The search -/

def Field.bestRank (f : Field) : Nat := rank f.bestP f.bestU

/-- The best of the candidates `seen`, for a board that stands at `self`. -/
structure BestOf (own : Nat) (seen : List Peer) (f : Field) : Prop where
  most : ∀ p ∈ seen, p.used = true → p.rank ≤ f.bestRank
  ofSelf : f.bestIsSelf = true → f.bestRank = own
  ofPeer : f.bestIsSelf = false → own < f.bestRank ∧ ∃ p ∈ seen, p.used = true ∧ p.rank = f.bestRank

theorem fieldPeer_best (f : Field) (p : Peer) : ((fieldPeer f p).bestRank, (fieldPeer f p).bestIsSelf) =
    if p.used = true ∧ f.bestRank < p.rank then (p.rank, false) else (f.bestRank, f.bestIsSelf) := by
  have hbackup : ∀ g : Field, ∀ b : Bool, let g' := if b then
      { g with backupP := p.priority, backupU := p.uid, backupAddr := p.addr, backupIsSelf := false } else g
      (g'.bestRank, g'.bestIsSelf) = (g.bestRank, g.bestIsSelf) := by
    intro g b
    cases b <;> rfl
  unfold fieldPeer
  cases hu : p.used with
  | false => simp
  | true =>
    simp only [Bool.not_true, Bool.false_eq_true, if_false, true_and]
    rw [hbackup]
    by_cases hb : better p.priority p.uid f.bestP f.bestU = true
    · have hlt : f.bestRank < p.rank := (better_iff _ _ _ _).mp hb
      rw [if_pos hb, if_pos hlt]
      rfl
    · have hle : ¬ f.bestRank < p.rank := fun h => hb ((better_iff _ _ _ _).mpr h)
      rw [if_neg hb, if_neg hle]

theorem BestOf.snoc {own : Nat} {seen : List Peer} {f : Field} (h : BestOf own seen f)
    (hown : own ≤ f.bestRank) (p : Peer) : BestOf own (seen ++ [p]) (fieldPeer f p) ∧ own ≤ (fieldPeer f p).bestRank := by
  have hf := fieldPeer_best f p
  by_cases hc : p.used = true ∧ f.bestRank < p.rank
  · rw [if_pos hc, Prod.mk.injEq] at hf
    obtain ⟨hr, hs⟩ := hf
    refine ⟨⟨fun q hq hu => ?_, fun he => ?_, fun _ => ⟨by omega, p, by simp, hc.1, hr.symm⟩⟩, by omega⟩
    · rcases List.mem_append.mp hq with hq | hq
      · have := h.most q hq hu
        omega
      · rw [List.mem_singleton.mp hq]
        omega
    · rw [hs] at he
      cases he
  · rw [if_neg hc, Prod.mk.injEq] at hf
    obtain ⟨hr, hs⟩ := hf
    refine ⟨⟨fun q hq hu => ?_, fun he => ?_, fun he => ?_⟩, by omega⟩
    · rcases List.mem_append.mp hq with hq | hq
      · have := h.most q hq hu
        omega
      · rw [List.mem_singleton.mp hq] at hu ⊢
        have hle : ¬ f.bestRank < p.rank := fun hlt => hc ⟨hu, hlt⟩
        omega
    · have := h.ofSelf (hs ▸ he)
      omega
    · obtain ⟨h1, q, hq, hu, hqr⟩ := h.ofPeer (hs ▸ he)
      exact ⟨by omega, q, List.mem_append_left _ hq, hu, by omega⟩

theorem foldl_best {own : Nat} (seen ps : List Peer) (f : Field) (h : BestOf own seen f) (hown : own ≤ f.bestRank) :
    BestOf own (seen ++ ps) (ps.foldl fieldPeer f) := by
  induction ps generalizing seen f with
  | nil => rwa [List.append_nil]
  | cons p ps ih =>
    obtain ⟨h1, h2⟩ := h.snoc hown p
    rw [List.foldl_cons, List.append_cons]
    exact ih _ _ h1 h2

/-- The search finds the best of the board and its peers. -/
theorem field_best (u : Uhrp) : BestOf u.rank u.peers.cells (field u) := by
  have hself : (fieldSelf u).bestRank = u.rank ∧ (fieldSelf u).bestIsSelf = true := by
    unfold fieldSelf
    split <;> exact ⟨rfl, rfl⟩
  have h0 : BestOf u.rank [] (fieldSelf u) :=
    ⟨fun p hp => absurd hp List.not_mem_nil, fun _ => hself.1, fun h => absurd (hself.2.symm.trans h) (by simp)⟩
  have h := foldl_best [] u.peers.cells _ h0 (Nat.le_of_eq hself.1.symm)
  rwa [List.nil_append] at h

/-- A board that takes the role ranks with or above every live peer, and none of them
    says ACTIVE. -/
theorem TookOver.over {u v : Uhrp} {now : Time} (h : TookOver u v now) {p : Peer} (hp : p ∈ u.peers.cells)
    (hu : p.used = true) (hx : expired u now p = false) : p.rank ≤ u.rank ∧ p.state ≠ UhrpState.active.toByte := by
  have hm : p ∈ (peerAge u now).peers.cells :=
    List.mem_map.mpr ⟨p, hp, if_neg (by simp [hx])⟩
  have hb := field_best (peerAge u now)
  constructor
  · calc p.rank ≤ (field (peerAge u now)).bestRank := hb.most p hm hu
      _ = (peerAge u now).rank := hb.ofSelf h.best
  · intro hs
    have hnone := List.find?_eq_none.mp h.found p hm
    simp [hu, hs] at hnone

/-! ## A challenge -/

/-- The peer asks for the role: it holds it, or wants to take it. -/
def Peer.claims (p : Peer) : Bool := p.state == UhrpState.active.toByte || p.flags &&& helloFPreempt != 0

/-- A live peer outranks the board and asks for the role. -/
def Contested (u : Uhrp) (now : Time) : Prop :=
  ∃ p ∈ u.peers.cells, p.used = true ∧ expired u now p = false ∧ u.rank < p.rank ∧ p.claims = true

theorem mem_of_aged {u : Uhrp} {now : Time} {p : Peer} (h : p ∈ u.peers.cells) (hx : expired u now p = false) :
    p ∈ (peerAge u now).peers.cells := List.mem_map.mpr ⟨p, h, if_neg (by simp [hx])⟩

/-- A board is challenged for its role by a live peer that outranks it. -/
theorem challenged_by {u : Uhrp} {now : Time} (h : challenged u now = true) : Contested u now := by
  have hb := field_best (peerAge u now)
  have hrank : (peerAge u now).rank = u.rank := rfl
  have hpre : (!(field (peerAge u now)).bestIsSelf && bestPreempts (peerAge u now) (field (peerAge u now))) = true →
      Contested u now := by
    intro hc
    simp only [Bool.and_eq_true, Bool.not_eq_true'] at hc
    obtain ⟨hself, hany⟩ := hc
    obtain ⟨p, hp, hpp⟩ := List.any_eq_true.mp hany
    simp only [Bool.and_eq_true, beq_iff_eq] at hpp
    obtain ⟨⟨⟨hu, h1⟩, h2⟩, h3⟩ := hpp
    obtain ⟨hm, hx⟩ := aged_mem hp hu
    refine ⟨p, hm, hu, hx, ?_, by rw [Peer.claims, h3, Bool.or_true]⟩
    have hlt := (hb.ofPeer hself).1
    rw [Peer.rank, h1, h2]
    exact hrank ▸ hlt
  unfold challenged outPrioritised at h
  cases ha : findActivePeer (peerAge u now) with
  | none =>
    simp only [ha] at h
    exact hpre h
  | some a =>
    simp only [ha, Bool.or_eq_true] at h
    rcases h with h | h
    · obtain ⟨hm, _, hu, hs, hx⟩ := findActivePeer_mem ha
      exact ⟨a, hm, hu, hx, (better_iff _ _ _ _).mp h, by rw [Peer.claims, hs]; rfl⟩
    · exact hpre h

end DeskHop.Election
