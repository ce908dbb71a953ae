/-
  DeskHop.Election.Backup — the pre-elected backup is the same one everywhere.

  Any number of boards, one of them in the role, each with the others in its table as
  they are (`Known`). Every board looks for the backup on its own: among itself and its
  table, in the order of its slots, and the board in the role among its table only. The
  search finds the best candidate it is given (`field_backup`), and these searches all
  have the same best.

  Proved: once each board has been evaluated, they agree on the backup, the best of the
  boards not in the role; it is in STANDBY, and the others in LISTEN (`backup_agreed`).
-/

import DeskHop.Election.Field
import Mathlib.Data.Fin.Basic
import Mathlib.Data.List.FinRange
import Mathlib.Data.List.MinMax

namespace DeskHop.Election

open DeskHop.Lib

/-! ## The search for the backup -/

def Field.backupRank (f : Field) : Nat := rank f.backupP f.backupU

def Peer.candidate (p : Peer) : Prop := p.used = true ∧ p.state ≠ UhrpState.active.toByte

instance (p : Peer) : Decidable p.candidate := inferInstanceAs (Decidable (_ ∧ _))

/-- The best of the candidates `seen` that is better than what the search started with. -/
structure BackupOf (f₀ : Field) (seen : List Peer) (f : Field) : Prop where
  most : ∀ p ∈ seen, p.candidate → p.rank ≤ f.backupRank
  least : f₀.backupRank ≤ f.backupRank
  chosen : (f.backupRank = f₀.backupRank ∧ f.backupAddr = f₀.backupAddr ∧ f.backupIsSelf = f₀.backupIsSelf) ∨
    f₀.backupRank < f.backupRank ∧ f.backupIsSelf = false ∧
      ∃ p ∈ seen, p.candidate ∧ p.rank = f.backupRank ∧ p.addr = f.backupAddr

theorem fieldPeer_backup (f : Field) (p : Peer) :
    ((fieldPeer f p).backupRank, (fieldPeer f p).backupAddr, (fieldPeer f p).backupIsSelf) =
      if p.candidate ∧ f.backupRank < p.rank then (p.rank, p.addr, false)
      else (f.backupRank, f.backupAddr, f.backupIsSelf) := by
  -- whatever the search for the best candidate has just noted
  have hsearch : ∀ g : Field, g.backupP = f.backupP ∧ g.backupU = f.backupU ∧ g.backupAddr = f.backupAddr ∧
      g.backupIsSelf = f.backupIsSelf → p.used = true →
      let g' := if p.state != UhrpState.active.toByte && better p.priority p.uid g.backupP g.backupU then
          { g with backupP := p.priority, backupU := p.uid, backupAddr := p.addr, backupIsSelf := false }
        else g
      (g'.backupRank, g'.backupAddr, g'.backupIsSelf) = if p.candidate ∧ f.backupRank < p.rank then (p.rank, p.addr, false)
        else (f.backupRank, f.backupAddr, f.backupIsSelf) := by
    rintro g ⟨hp, hr, ha, hs⟩ hu
    have hiff : (p.state != UhrpState.active.toByte && better p.priority p.uid g.backupP g.backupU) = true ↔
        p.candidate ∧ f.backupRank < p.rank := by
      rw [Bool.and_eq_true, bne_iff_ne, better_iff, hp, hr]
      exact ⟨fun h => ⟨⟨hu, h.1⟩, h.2⟩, fun h => ⟨h.1.2, h.2⟩⟩
    by_cases hc : p.candidate ∧ f.backupRank < p.rank
    · rw [if_pos hc, if_pos (hiff.mpr hc)]
      rfl
    · rw [if_neg hc, if_neg fun h => hc (hiff.mp h)]
      simp only [Field.backupRank, hp, hr, ha, hs]
  unfold fieldPeer
  cases hu : p.used with
  | false => simp [Peer.candidate, hu]
  | true =>
    simp only [Bool.not_true, Bool.false_eq_true, if_false]
    refine hsearch _ ?_ hu
    split <;> exact ⟨rfl, rfl, rfl, rfl⟩

theorem BackupOf.snoc {f₀ f : Field} {seen : List Peer} (h : BackupOf f₀ seen f) (p : Peer) :
    BackupOf f₀ (seen ++ [p]) (fieldPeer f p) := by
  have hp := fieldPeer_backup f p
  have hleast := h.least
  by_cases hc : p.candidate ∧ f.backupRank < p.rank
  · rw [if_pos hc, Prod.mk.injEq, Prod.mk.injEq] at hp
    obtain ⟨hrank, haddr, hself⟩ := hp
    refine ⟨fun q hq hcand => ?_, by omega, .inr ⟨by omega, hself, p, by simp, hc.1, hrank.symm, haddr.symm⟩⟩
    rcases List.mem_append.mp hq with hq | hq
    · have := h.most q hq hcand
      omega
    · rw [List.mem_singleton.mp hq]
      omega
  · rw [if_neg hc, Prod.mk.injEq, Prod.mk.injEq] at hp
    obtain ⟨hrank, haddr, hself⟩ := hp
    refine ⟨fun q hq hcand => ?_, by omega, ?_⟩
    · rcases List.mem_append.mp hq with hq | hq
      · have := h.most q hq hcand
        omega
      · rw [List.mem_singleton.mp hq] at hcand ⊢
        have hle : ¬ f.backupRank < p.rank := fun hlt => hc ⟨hcand, hlt⟩
        omega
    · rw [hrank, haddr, hself]
      rcases h.chosen with hsame | ⟨hlt, hother, q, hq, hcand, hr, ha⟩
      · exact .inl hsame
      · exact .inr ⟨hlt, hother, q, List.mem_append_left _ hq, hcand, hr, ha⟩

theorem foldl_backup {f₀ : Field} (seen ps : List Peer) (f : Field) (h : BackupOf f₀ seen f) :
    BackupOf f₀ (seen ++ ps) (ps.foldl fieldPeer f) := by
  induction ps generalizing seen f with
  | nil => rwa [List.append_nil]
  | cons p ps ih =>
    rw [List.foldl_cons, List.append_cons]
    exact ih _ _ (h.snoc p)

/-- The search finds the best of the board itself, if it is a candidate, and its peers. -/
theorem field_backup (u : Uhrp) : BackupOf (fieldSelf u) u.peers.cells (field u) := by
  have h₀ : BackupOf (fieldSelf u) [] (fieldSelf u) :=
    ⟨fun p hp => absurd hp List.not_mem_nil, Nat.le_refl _, .inl ⟨rfl, rfl, rfl⟩⟩
  have h := foldl_backup [] u.peers.cells _ h₀
  rwa [List.nil_append] at h

theorem fieldSelf_idle {u : Uhrp} (h : u.state ≠ .active) :
    fieldSelf u = ⟨u.cfg.priority, u.cfg.uid, true, u.cfg.priority, u.cfg.uid, u.cfg.addr, true⟩ := if_pos h

theorem fieldSelf_active {u : Uhrp} (h : u.state = .active) :
    fieldSelf u = ⟨u.cfg.priority, u.cfg.uid, true, 0, 0, addrNone, false⟩ := if_neg (not_not.mpr h)

/-! ## What an evaluation makes of it -/

@[simp] theorem enterState_standby (u : Uhrp) (s : UhrpState) (now : Time) : (enterState u s now).standby = u.standby := by
  unfold enterState
  split <;> rfl

@[simp] theorem becomeActive_standby (u : Uhrp) (now : Time) (clean : Bool) : (becomeActive u now clean).standby = u.standby := by
  have h := enterState_standby u .active now
  unfold becomeActive
  by_cases hc : (u.activeValid && !clean) = true
  · simp only [hc, if_true]
    exact h
  · simp only [hc, Bool.false_eq_true, if_false]
    exact h

@[simp] theorem serviceResign_standby (u : Uhrp) (now : Time) : (serviceResign u now).standby = u.standby := by
  unfold serviceResign
  split
  · rfl
  split
  · rfl
  · split <;> exact enterState_standby _ .listen now

theorem decideRole_standby (u : Uhrp) (now : Time) : (decideRole u now).standby = (field u).backupAddr := by
  simp only [decideRole]
  split
  · unfold reevaluateLearn follow
    split
    · simp
    split
    · rfl
    split <;> simp
  split
  · unfold reevaluateActive scheduleResign
    rw [serviceResign_standby]
    split
    · split <;> rfl
    · rfl
  · unfold reevaluateIdle follow
    dsimp only
    split
    · simp
    split
    · simp
    split
    · simp
    split
    · simp
    split
    · simp
    · rfl

/-- A board not in the role that finds a live speaker is the backup or listens. -/
theorem reevaluate_backup {u : Uhrp} {now : Time} (hs : u.started = true) (ha : u.state ≠ .active) (hl : u.state ≠ .learn)
    (hact : (findActivePeer (peerAge u now)).isSome = true) :
    (reevaluate u now).state = standbyOrListen (field (peerAge u now)) := by
  obtain ⟨p, hp⟩ := Option.isSome_iff_exists.mp hact
  have ha : (peerAge u now).state ≠ .active := ha
  have hl : (peerAge u now).state ≠ .learn := hl
  rw [reevaluate, if_neg (by simp [hs])]
  simp only [decideRole, reevaluateIdle, hp]
  rw [if_neg hl, if_neg ha, enterState_state]

variable {n : Nat}

/-! ## Boards that know each other -/

/-- The entry is the true one of the board `j`, where `a` is in the role. -/
structure Shows (board : Fin n → Uhrp) (a j : Fin n) (p : Peer) : Prop where
  addr : p.addr = (board j).cfg.addr
  priority : p.priority = (board j).cfg.priority
  uid : p.uid = (board j).cfg.uid
  role : p.state = UhrpState.active.toByte ↔ j = a

instance (board : Fin n → Uhrp) (a j : Fin n) (p : Peer) : Decidable (Shows board a j p) :=
  decidable_of_iff (p.addr = (board j).cfg.addr ∧ p.priority = (board j).cfg.priority ∧ p.uid = (board j).cfg.uid ∧
    (p.state = UhrpState.active.toByte ↔ j = a)) ⟨fun h => ⟨h.1, h.2.1, h.2.2.1, h.2.2.2⟩, fun h => ⟨h.1, h.2, h.3, h.4⟩⟩

/-- The board `a` is in the role, and every board has the others, live, in its table. -/
structure Known (board : Fin n → Uhrp) (a : Fin n) (now : Fin n → Nat) : Prop where
  started : ∀ i, (board i).started = true
  distinct : ∀ i j, i ≠ j → (board i).cfg.addr ≠ (board j).cfg.addr ∧ (board i).cfg.uid ≠ (board j).cfg.uid
  priority : ∀ i, 1 ≤ (board i).cfg.priority
  holder : (board a).state = .active
  others : ∀ i, i ≠ a → (board i).state ≠ .active ∧ (board i).state ≠ .learn
  full : ∀ i j, j ≠ i → ∃ p ∈ (board i).peers.cells, p.used = true ∧
    expired (board i) (UInt32.ofNat (now i)) p = false ∧ Shows board a j p
  only : ∀ i, ∀ p ∈ (board i).peers.cells, p.used = true → expired (board i) (UInt32.ofNat (now i)) p = false →
    ∃ j, j ≠ i ∧ Shows board a j p

/-- The best of the boards not in the role. -/
structure Best (board : Fin n → Uhrp) (a b : Fin n) : Prop where
  other : b ≠ a
  most : ∀ j, j ≠ a → j ≠ b → (board j).rank < (board b).rank

variable {board : Fin n → Uhrp} {a b i j : Fin n} {now : Fin n → Nat}

theorem Shows.rank {p : Peer} (h : Shows board a j p) : p.rank = (board j).rank := by
  rw [Peer.rank, h.priority, h.uid]
  rfl

theorem Known.rank_ne (h : Known board a now) (hne : i ≠ j) : (board i).rank ≠ (board j).rank := by
  intro he
  have hi := (board i).cfg.uid.toNat_lt
  have hj := (board j).cfg.uid.toNat_lt
  unfold Uhrp.rank Election.rank at he
  exact (h.distinct i j hne).2 (UInt64.toNat.inj (by omega))

theorem Known.exists_best (h : Known board a now) (hne : ∃ i, i ≠ a) : ∃ b, Best board a b := by
  obtain ⟨i, hi⟩ := hne
  have hmem : ∀ j, j ∈ (List.finRange n).filter (fun j => decide (j ≠ a)) ↔ j ≠ a := fun j => by simp
  cases hbest : ((List.finRange n).filter fun j => decide (j ≠ a)).argmax fun j => (board j).rank with
  | none =>
    rw [List.argmax_eq_none] at hbest
    exact absurd ((hmem i).mpr hi) (by rw [hbest]; exact List.not_mem_nil)
  | some b =>
    refine ⟨b, (hmem b).mp (List.argmax_mem hbest), fun j hj hjb => ?_⟩
    have hle := List.le_of_mem_argmax (f := fun j => (board j).rank) ((hmem j).mpr hj) hbest
    have hne := h.rank_ne hjb
    omega

/-! ## One board -/

/-- The board, as a tick evaluates it. -/
structure Ticked (u v : Uhrp) : Prop where
  cfg : v.cfg = u.cfg
  state : v.state = u.state
  peers : v.peers = u.peers
  started : v.started = true

theorem ticked {u : Uhrp} (hs : u.started = true) (now : Nat) : ∃ v, Ticked u v ∧
    (tick u (UInt32.ofNat now)).state = (reevaluate v (UInt32.ofNat now)).state ∧
    (tick u (UInt32.ofNat now)).standby = (field (peerAge v (UInt32.ofNat now))).backupAddr := by
  obtain ⟨v, hv⟩ : ∃ v, prepared u (.tick now) = some (v, now) := ⟨_, by simp only [prepared, hs]; rfl⟩
  obtain ⟨hsame, -⟩ := prepared_same hv
  have hstarted : v.started = true := hsame.started.trans hs
  have hcall : tick u (UInt32.ofNat now) = advertise (reevaluate v (UInt32.ofNat now)) (UInt32.ofNat now) := call_of_prepared hv
  have hadv : ∀ w : Uhrp, (advertise w (UInt32.ofNat now)).state = w.state ∧
      (advertise w (UInt32.ofNat now)).standby = w.standby := by
    intro w
    unfold advertise
    split <;> exact ⟨rfl, rfl⟩
  have hrole : reevaluate v (UInt32.ofNat now) = decideRole (peerAge v (UInt32.ofNat now)) (UInt32.ofNat now) :=
    if_neg (by simp [hstarted])
  refine ⟨v, ⟨hsame.cfg, hsame.state, prepared_tick_peers hv, hstarted⟩, ?_, ?_⟩
  · rw [hcall, (hadv _).1]
  · rw [hcall, (hadv _).2, hrole, decideRole_standby]

variable {v : Uhrp}

/-- What the aged table of a board has of the others. -/
theorem Known.aged (h : Known board a now) (hv : Ticked (board i) v) :
    (∀ p ∈ (peerAge v (UInt32.ofNat (now i))).peers.cells, p.used = true → ∃ j, j ≠ i ∧ Shows board a j p) ∧
      ∀ j, j ≠ i → ∃ p ∈ (peerAge v (UInt32.ofNat (now i))).peers.cells, p.used = true ∧ Shows board a j p := by
  have hexp : ∀ p, expired v (UInt32.ofNat (now i)) p = expired (board i) (UInt32.ofNat (now i)) p := by
    intro p
    rw [expired, hv.cfg]
    rfl
  constructor
  · intro p hp hu
    obtain ⟨hmem, hlive⟩ := aged_mem hp hu
    exact h.only i p (hv.peers ▸ hmem) hu (by rw [← hexp]; exact hlive)
  · intro j hj
    obtain ⟨p, hp, hu, hlive, hshows⟩ := h.full i j hj
    exact ⟨p, mem_of_aged (by rw [hv.peers]; exact hp) (by rw [hexp]; exact hlive), hu, hshows⟩

theorem Shows.candidate {p : Peer} (h : Shows board a j p) (hu : p.used = true) : p.candidate ↔ j ≠ a := by
  rw [Peer.candidate, ne_eq, h.role]
  exact ⟨And.right, fun hne => ⟨hu, hne⟩⟩

/-- A board that starts its search below the best finds it. -/
theorem Known.finds (h : Known board a now) (hb : Best board a b) (hv : Ticked (board i) v) (hib : i ≠ b)
    (hlow : (fieldSelf (peerAge v (UInt32.ofNat (now i)))).backupRank < (board b).rank) :
    (field (peerAge v (UInt32.ofNat (now i)))).backupAddr = (board b).cfg.addr ∧
      (field (peerAge v (UInt32.ofNat (now i)))).backupIsSelf = false := by
  obtain ⟨honly, hfull⟩ := h.aged hv
  have hsearch := field_backup (peerAge v (UInt32.ofNat (now i)))
  obtain ⟨p, hp, hu, hshows⟩ := hfull b hib.symm
  have hmost := hsearch.most p hp ((hshows.candidate hu).mpr hb.other)
  rw [hshows.rank] at hmost
  obtain ⟨hsame, -⟩ | ⟨-, hself, q, hq, hcand, hrank, haddr⟩ := hsearch.chosen
  · omega
  · obtain ⟨j, -, hj⟩ := honly q hq hcand.1
    have hja := (hj.candidate hcand.1).mp hcand
    rw [hj.rank] at hrank
    -- nobody but the best is as good
    have hjb : j = b := by
      by_contra hne
      have := hb.most j hja hne
      omega
    exact ⟨haddr.symm.trans (hj.addr.trans (by rw [hjb])), hself⟩

/-- The best starts its search with itself, and finds nobody better. -/
theorem Known.finds_self (h : Known board a now) (hb : Best board a b) (hv : Ticked (board b) v) :
    (field (peerAge v (UInt32.ofNat (now b)))).backupAddr = (board b).cfg.addr ∧
      (field (peerAge v (UInt32.ofNat (now b)))).backupIsSelf = true := by
  obtain ⟨honly, -⟩ := h.aged hv
  have hsearch := field_backup (peerAge v (UInt32.ofNat (now b)))
  have hidle : (peerAge v (UInt32.ofNat (now b))).state ≠ .active := hv.state.symm ▸ (h.others b hb.other).1
  have hcfg : (peerAge v (UInt32.ofNat (now b))).cfg = (board b).cfg := hv.cfg
  rw [fieldSelf_idle hidle, hcfg] at hsearch
  obtain ⟨-, haddr, hself⟩ | ⟨hlt, -, q, hq, hcand, hrank, -⟩ := hsearch.chosen
  · exact ⟨haddr, hself⟩
  · obtain ⟨j, hjb, hj⟩ := honly q hq hcand.1
    have hover := hb.most j ((hj.candidate hcand.1).mp hcand) hjb
    rw [hj.rank] at hrank
    have hlt : (board b).rank < (field (peerAge v (UInt32.ofNat (now b)))).backupRank := hlt
    omega

/-- The board after its tick. -/
structure Elected (board : Fin n → Uhrp) (a b i : Fin n) (u : Uhrp) : Prop where
  standby : u.standby = (board b).cfg.addr
  backup : u.state = .standby ↔ i = b
  listens : i ≠ a → i ≠ b → u.state = .listen

theorem Known.elected (h : Known board a now) (hb : Best board a b) (i : Fin n) :
    Elected board a b i (tick (board i) (UInt32.ofNat (now i))) := by
  obtain ⟨v, hv, hstate, hstandby⟩ := ticked (h.started i) (now i)
  by_cases hia : i = a
  · have hactive : v.state = .active := by rw [hv.state, hia, h.holder]
    have hlow : (fieldSelf (peerAge v (UInt32.ofNat (now i)))).backupRank < (board b).rank := by
      rw [fieldSelf_active (u := peerAge v _) hactive]
      have hpriority : 1 ≤ (board b).cfg.priority.toNat := h.priority b
      show Election.rank 0 0 < Election.rank (board b).cfg.priority (board b).cfg.uid
      unfold Election.rank
      simp
      omega
    have hib : i ≠ b := fun he => hb.other (he.symm.trans hia)
    have hstays : (reevaluate v (UInt32.ofNat (now i))).state ≠ .standby := by
      obtain ⟨-, hres | hkept⟩ := reevaluate_active hv.started hactive (UInt32.ofNat (now i))
      · rw [hres.state]
        decide
      · rw [hkept.state]
        decide
    exact ⟨hstandby.trans (h.finds hb hv hib hlow).1, ⟨fun hs => absurd (hstate.symm.trans hs) hstays, fun he => absurd he hib⟩,
      fun hne => absurd hia hne⟩
  · obtain ⟨hidle, hlearnt⟩ := h.others i hia
    rw [← hv.state] at hidle hlearnt
    have hspeaker : (findActivePeer (peerAge v (UInt32.ofNat (now i)))).isSome = true := by
      obtain ⟨p, hp, hu, hshows⟩ := (h.aged hv).2 a (Ne.symm hia)
      exact List.find?_isSome.mpr ⟨p, hp, by simp [hu, hshows.role.mpr rfl]⟩
    have hbackup := reevaluate_backup hv.started hidle hlearnt hspeaker
    by_cases hib : i = b
    · subst hib
      obtain ⟨haddr, hself⟩ := h.finds_self hb hv
      rw [standbyOrListen, if_pos hself] at hbackup
      exact ⟨hstandby.trans haddr, ⟨fun _ => rfl, fun _ => hstate.trans hbackup⟩, fun _ hne => absurd rfl hne⟩
    · have hlow : (fieldSelf (peerAge v (UInt32.ofNat (now i)))).backupRank < (board b).rank := by
        rw [fieldSelf_idle (u := peerAge v _) hidle]
        show Election.rank v.cfg.priority v.cfg.uid < _
        rw [hv.cfg]
        exact hb.most i hia hib
      obtain ⟨haddr, hself⟩ := h.finds hb hv hib hlow
      rw [standbyOrListen, if_neg (by rw [hself]; decide)] at hbackup
      have hlistens := hstate.trans hbackup
      refine ⟨hstandby.trans haddr, ⟨fun hs => ?_, fun he => absurd he hib⟩, fun _ _ => hlistens⟩
      rw [hlistens] at hs
      cases hs

/-- With nobody else there is no backup. -/
theorem Known.alone (h : Known board a now) (hall : ∀ i, i = a) : (tick (board a) (UInt32.ofNat (now a))).standby = addrNone := by
  obtain ⟨v, hv, -, hstandby⟩ := ticked (h.started a) (now a)
  have hactive : v.state = .active := hv.state.trans h.holder
  have hself : (fieldSelf (peerAge v (UInt32.ofNat (now a)))).backupAddr = addrNone := by
    rw [fieldSelf_active (u := peerAge v _) hactive]
  rw [hstandby]
  obtain ⟨-, haddr, -⟩ | ⟨-, -, q, hq, hcand, -⟩ := (field_backup (peerAge v (UInt32.ofNat (now a)))).chosen
  · rw [haddr, hself]
  · obtain ⟨j, hj, -⟩ := (h.aged hv).1 q hq hcand.1
    exact absurd (hall j) hj

/-- After one tick of every board, whenever that is, they agree on the backup: the best of
    the boards not in the role. It is in STANDBY, and nobody else is. -/
theorem backup_agreed (h : Known board a now) :
    ((∀ i, i = a) ∧ ∀ i, (tick (board i) (UInt32.ofNat (now i))).standby = addrNone) ∨
      ∃ b, Best board a b ∧ ∀ i, Elected board a b i (tick (board i) (UInt32.ofNat (now i))) := by
  by_cases hne : ∃ i, i ≠ a
  · obtain ⟨b, hb⟩ := h.exists_best hne
    exact .inr ⟨b, hb, h.elected hb⟩
  · simp only [not_exists, not_not] at hne
    refine .inl ⟨hne, fun i => ?_⟩
    rw [hne i]
    exact h.alone hne

def trioConfig (i : Fin 3) : Config :=
  ⟨UInt64.ofNat (i.val + 7), UInt16.ofNat (i.val + 1), if i.val = 0 then 200 else 120, 0, false, timingDefault⟩

def trioHello (i : Fin 3) : Hello :=
  { state := if i.val = 0 then UhrpState.active.toByte else UhrpState.listen.toByte, priority := (trioConfig i).priority
    flags := 0, holdCs := 15, uid := (trioConfig i).uid, caps := 0, reserved := 0 }

/-- Three boards that have heard each other, the first of them in the role. -/
def trio (i : Fin 3) : Uhrp :=
  tick ((List.finRange 3).foldl (fun u j => rxHello u (trioConfig j).addr (trioHello j) 100)
    (uhrpStart (uhrpInit (trioConfig i)) 0)) 200

theorem trio_agreed :
    ((∀ i : Fin 3, i = 0) ∧ ∀ i, (tick (trio i) (UInt32.ofNat 210)).standby = addrNone) ∨
      ∃ b, Best trio 0 b ∧ ∀ i, Elected trio 0 b i (tick (trio i) (UInt32.ofNat 210)) := by
  have hknown : Known trio 0 fun _ => 210 :=
    ⟨by decide +kernel, by decide +kernel, by decide +kernel, by decide +kernel, by decide +kernel, by decide +kernel,
      by decide +kernel⟩
  exact backup_agreed hknown

end DeskHop.Election
