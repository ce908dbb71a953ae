/-
  DeskHop.Routing.Levels — what the level of a chain says (`core/src/level.c`).

  A level is never set: it is worked out again from what is within reach, after every tick and every
  message of the election. Beside the router stands what each board has said it can contribute
  (`Reckoned`); time goes by in ticks of a millisecond.

  Proved, of every run with no more boards than the table has slots: whenever it is worked out, the level
  means what it should (`level_current`). Who has said nothing for the hold time does not count, and
  everybody else does. Once no frame has come for that long, the level says what the board can do by
  itself (`cut_off`).
-/

import DeskHop.Election.Offers
import DeskHop.Routing.Live

namespace DeskHop.Routing

open DeskHop.Lib DeskHop.Election DeskHop.Wire

/-! ## What a level means -/

def Level.Means (elected : Prop) (offered : UInt16 → Prop) : Level → Prop
  | .isolated => ¬ (elected ∧ offered capHidOut ∧ offered capHidIn)
  | .elected => (elected ∧ offered capHidOut ∧ offered capHidIn) ∧ ¬ (offered capDisplay ∧ offered capConfig)
  | .coordinated => (elected ∧ offered capHidOut ∧ offered capHidIn) ∧ (offered capDisplay ∧ offered capConfig) ∧
      ¬ offered capClipboard
  | .rich => (elected ∧ offered capHidOut ∧ offered capHidIn) ∧ (offered capDisplay ∧ offered capConfig) ∧ offered capClipboard

theorem and_absorbs (a b : UInt16) : (a ||| b) &&& a = a := by
  refine UInt16.toBitVec_inj.mp (BitVec.eq_of_getElem_eq fun i hi => ?_)
  simp only [UInt16.toBitVec_and, UInt16.toBitVec_or, BitVec.getElem_and, BitVec.getElem_or]
  cases a.toBitVec[i] <;> simp

theorem there_of_both {caps a b : UInt16} (h : caps &&& (a ||| b) = a ||| b) : caps &&& a = a :=
  calc caps &&& a = caps &&& ((a ||| b) &&& a) := by rw [and_absorbs]
    _ = caps &&& (a ||| b) &&& a := (UInt16.and_assoc ..).symm
    _ = a := by rw [h, and_absorbs]

theorem both_there {caps a b : UInt16} : caps &&& (a ||| b) = a ||| b ↔ caps &&& a = a ∧ caps &&& b = b := by
  constructor
  · intro h
    refine ⟨there_of_both h, there_of_both (b := a) ?_⟩
    rw [UInt16.or_comm b a]
    exact h
  · rintro ⟨ha, hb⟩
    rw [UInt16.and_comm, and_or_distrib, UInt16.and_comm a, UInt16.and_comm b, ha, hb]

/-- A capability is a single bit. -/
theorem there_iff {bit : UInt16} (hb : bit ∈ [capHidOut, capHidIn, capDisplay, capConfig, capClipboard]) (caps : UInt16) :
    caps &&& bit = bit ↔ hasCap caps bit = true := by
  have hsmall : bit ≤ 16 ∧ ∀ n < 17, UInt16.ofNat n &&& bit = UInt16.ofNat n → (UInt16.ofNat n = bit ↔ UInt16.ofNat n ≠ 0) := by
    simp only [List.mem_cons, List.not_mem_nil, or_false] at hb
    rcases hb with rfl | rfl | rfl | rfl | rfl <;> exact ⟨by decide, by decide⟩
  obtain ⟨hle, hall⟩ := hsmall
  have hlt : (caps &&& bit).toNat < 17 := Nat.lt_succ_of_le (Nat.le_trans (UInt16.le_iff_toNat_le.mp UInt16.and_le_right)
    (UInt16.le_iff_toNat_le.mp hle))
  have h := hall (caps &&& bit).toNat hlt
  rw [UInt16.ofNat_toNat, UInt16.and_assoc, UInt16.and_self] at h
  rw [hasCap, decide_eq_true_iff]
  exact h rfl

theorem levelOf_means (caps : UInt16) (elected : Bool) :
    (levelOf caps elected).Means (elected = true) fun bit => hasCap caps bit = true := by
  have h1 : caps &&& capsLevel1 = capsLevel1 ↔ hasCap caps capHidOut = true ∧ hasCap caps capHidIn = true := by
    rw [capsLevel1, both_there, there_iff (by decide), there_iff (by decide)]
  have h2 : caps &&& capsLevel2 = capsLevel2 ↔ hasCap caps capDisplay = true ∧ hasCap caps capConfig = true := by
    rw [capsLevel2, both_there, there_iff (by decide), there_iff (by decide)]
  have h3 : caps &&& capsLevel3 = capsLevel3 ↔ hasCap caps capClipboard = true := there_iff (by decide) caps
  unfold levelOf
  split
  · rename_i hno
    rw [Bool.or_eq_true, Bool.not_eq_true', decide_eq_true_iff, ne_eq, h1] at hno
    rintro ⟨he, hio⟩
    rcases hno with hno | hno
    · rw [he] at hno
      cases hno
    · exact hno hio
  rename_i hyes
  have hbase : elected = true ∧ hasCap caps capHidOut = true ∧ hasCap caps capHidIn = true := by
    rw [Bool.or_eq_true, Bool.not_eq_true', decide_eq_true_iff, ne_eq, h1, not_or, not_not, Bool.not_eq_false] at hyes
    exact hyes
  split
  · rename_i hno
    exact ⟨hbase, fun hd => hno (h2.mpr hd)⟩
  rename_i hcfg
  have hcfg := h2.mp (not_not.mp hcfg)
  split
  · rename_i hno
    exact ⟨hbase, hcfg, fun hd => hno (h3.mpr hd)⟩
  · rename_i hclip
    exact ⟨hbase, hcfg, h3.mp (not_not.mp hclip)⟩

/-! ## A router, and what it has been told -/

structure Reckoned where
  s : Living
  acc : Account

/-- What an event asks of the election. -/
def asked (s : Living) : Happening → Option Call
  | .ms => some (.tick (s.now + 1))
  | .rx f _ =>
    if f.type = msgHello then
      if f.src = s.r.cfg.self then none else (helloUnpack f.payload).map fun h => .hello f.src h s.now
    else if f.type = msgResign then some (.resign f.src s.now)
    else none
  | _ => none

namespace Reckoned

def step (k : Reckoned) (e : Happening) : Reckoned where
  s := k.s.step e
  acc := match asked k.s e with
    | some c => k.acc.after (holdOf k.s.r.uhrp) k.s.now c
    | none => k.acc

def run (k : Reckoned) (es : List Happening) : Reckoned := es.foldl step k

def start (cfg : RouterCfg) (t0 : Nat) : Reckoned := ⟨Living.start cfg t0, fun _ => none⟩

/-- Who says hello is one of `S`. -/
def Among (S : Finset Addr) (k : Reckoned) (e : Happening) : Prop := (asked k.s e).all (fun c => c.helloFrom?.all (· ∈ S)) = true

instance (S : Finset Addr) (k : Reckoned) (e : Happening) : Decidable (Among S k e) := inferInstanceAs (Decidable (_ = true))

/-- The board itself, or one it counts on, can contribute this. -/
def Offered (k : Reckoned) (bit : UInt16) : Prop :=
  hasCap k.s.r.cfg.caps bit = true ∨
    ∃ a q, k.acc a = some q ∧ q.stands (holdOf k.s.r.uhrp) k.s.now ∧ hasCap q.caps bit = true

end Reckoned

/-! ## What an operation does to the table of peers -/

/-- All an event changes of what the table is judged by. -/
structure SameTable (u v : Uhrp) : Prop where
  peers : v.peers = u.peers
  timing : v.cfg.timing = u.cfg.timing
  addr : v.cfg.addr = u.cfg.addr
  started : v.started = u.started

theorem SameTable.of_eq {u v : Uhrp} (h : v = u) : SameTable u v := by
  subst h
  exact ⟨rfl, rfl, rfl, rfl⟩

theorem sameTable_drain {r s : Router} (h : SameTable r.uhrp s.uhrp) : SameTable r.uhrp (drainUhrp s).uhrp := by
  rw [drainUhrp_uhrp]
  exact ⟨h.peers, h.timing, h.addr, h.started⟩

theorem sameTable_note {r s : Router} (h : s.uhrp = r.uhrp) : SameTable r.uhrp (noteKeysHeld s).uhrp := by
  refine sameTable_drain ?_
  rw [← h]
  exact ⟨rfl, rfl, rfl, rfl⟩

theorem sameTable_localKbd (r : Router) (rep : KbdReport) : SameTable r.uhrp (routerLocalKbd r rep).uhrp := by
  unfold routerLocalKbd
  split
  · rename_i r' h
    rcases (forwardInput_some h).2 with rfl | rfl <;> exact ⟨rfl, rfl, rfl, rfl⟩
  · exact sameTable_note (sendKbdTo_uhrp r r.focus rep)

theorem sameTable_localMouse (r : Router) (rep : MouseReport) (now : Time) :
    SameTable r.uhrp (routerLocalMouse r rep now).uhrp := by
  simp only [routerLocalMouse]
  split
  · rename_i r' h
    rcases (forwardInput_some h).2 with rfl | rfl <;> exact ⟨rfl, rfl, rfl, rfl⟩
  split
  · exact .of_eq (applyFocus_uhrp _ _ _ _ _ _)
  · exact sameTable_note (sendMouseTo_uhrp _ _ rep)

theorem sameTable_rxInput (r : Router) (f : Frame) (now : Time) : SameTable r.uhrp (rxInput r f now).uhrp := by
  unfold rxInput
  split
  · exact .of_eq rfl
  split
  · exact .of_eq rfl
  split
  · exact .of_eq rfl
  split
  · split
    · exact .of_eq rfl
    · exact sameTable_localKbd r _
  split
  · split
    · exact .of_eq rfl
    · exact sameTable_localMouse r _ now
  · exact .of_eq rfl

theorem sameTable_rxFocus (r : Router) (fo : Focus) : SameTable r.uhrp (rxFocus r fo).uhrp := by
  simp only [rxFocus]
  split
  · exact .of_eq rfl
  split
  · exact .of_eq (releaseMachine_uhrp _ _)
  · exact .of_eq rfl

/-- A frame that is neither a HELLO nor a RESIGN. -/
theorem sameTable_rx (r : Router) {f : Frame} (hh : f.type ≠ msgHello ∨ helloUnpack f.payload = none ∨ f.src = r.uhrp.cfg.addr)
    (hr : f.type ≠ msgResign) (inPort : Port) (now : Time) : SameTable r.uhrp (routerRx r f inPort now).uhrp := by
  have hu := learnPosition_uhrp r f inPort now
  have hsame : SameTable r.uhrp (learnPosition r f inPort now).uhrp := .of_eq hu
  have hgo {v : Uhrp} (h : SameTable (learnPosition r f inPort now).uhrp v) : SameTable r.uhrp v := by
    rw [hu] at h
    exact h
  simp only [routerRx, if_neg hr]
  split
  · split
    · exact hsame
    · rename_i ht _ h hunpack
      rcases hh with hh | hh | hh
      · exact absurd ht hh
      · rw [hunpack] at hh
        cases hh
      · have hown : rxHello (learnCaps (learnPosition r f inPort now) f.src h).uhrp f.src h now = r.uhrp := by
          rw [learnCaps_uhrp, hu, rxHello, if_pos (by simp [hh])]
        show SameTable r.uhrp (recomputeLevel (drainUhrp _)).uhrp
        rw [recomputeLevel_uhrp]
        exact sameTable_drain (.of_eq hown)
  split
  · split <;> exact hsame
  split
  · split <;> exact hsame
  split
  · split
    · exact hsame
    · exact hgo (sameTable_rxFocus _ _)
  split
  · exact hsame
  split
  · exact hgo (sameTable_rxInput _ _ _)
  split <;> exact hsame

theorem sameTable_setCaps (r : Router) (caps : UInt16) : SameTable r.uhrp (routerSetCaps r caps).uhrp := by
  unfold routerSetCaps
  split <;> exact ⟨rfl, rfl, rfl, rfl⟩

/-! ## What an event does to the router -/

theorem recomputeLevel_level (r : Router) :
    (recomputeLevel r).level = levelOf (reachableCaps (recomputeLevel r).uhrp)
      (isActive (recomputeLevel r) || (recomputeLevel r).uhrp.active != addrNone) := by
  have hact : isActive (recomputeLevel r) = isActive r := by rw [isActive, recomputeLevel_uhrp, isActive]
  rw [hact, recomputeLevel_uhrp]
  simp only [recomputeLevel]
  split
  · rfl
  · rename_i h
    exact (not_not.mp h).symm

/-- The election has been asked, what it said has been acted on, and the level worked out again. -/
structure Settled (c : Call) (r t : Router) : Prop where
  uhrp : t.uhrp = { call r.uhrp c with ev := Events.none }
  level : t.level = levelOf (reachableCaps t.uhrp) (isActive t || t.uhrp.active != addrNone)

theorem settled_drain {c : Call} {r s : Router} (h : s.uhrp = call r.uhrp c) : Settled c r (recomputeLevel (drainUhrp s)) := by
  refine ⟨?_, recomputeLevel_level _⟩
  rw [recomputeLevel_uhrp, drainUhrp_uhrp, h]
  rfl

theorem settled_asked {s : Living} {e : Happening} {c : Call} (h : asked s e = some c) : Settled c s.r (s.step e).r := by
  cases e with
  | ms =>
    cases h
    exact settled_drain rfl
  | rx f inPort =>
    have hu := learnPosition_uhrp { s.r with out := [] } f inPort (UInt32.ofNat s.now)
    simp only [asked] at h
    show Settled c s.r (routerRx { s.r with out := [] } f inPort (UInt32.ofNat s.now))
    split at h
    · rename_i ht
      split at h
      · cases h
      · obtain ⟨m, hm, rfl⟩ := Option.map_eq_some_iff.mp h
        simp only [routerRx, if_pos ht, hm, rxHelloFrame]
        refine settled_drain ?_
        show rxHello (learnCaps _ f.src m).uhrp f.src m _ = _
        rw [learnCaps_uhrp, hu]
        rfl
    · rename_i ht
      split at h
      · rename_i hr
        cases h
        simp only [routerRx, if_neg ht, if_pos hr]
        refine settled_drain ?_
        show rxResign (learnPosition _ f inPort _).uhrp f.src _ = _
        rw [hu]
        rfl
      · cases h
  | _ => cases h

theorem sameTable_unasked {s : Living} {e : Happening} (hown : s.r.uhrp.cfg.addr = s.r.cfg.self) (h : asked s e = none) :
    SameTable s.r.uhrp (s.step e).r.uhrp := by
  cases e with
  | ms => cases h
  | rx f inPort =>
    simp only [asked] at h
    split at h
    · rename_i ht
      refine sameTable_rx { s.r with out := [] } (Or.inr ?_) (by rw [ht]; decide) inPort (UInt32.ofNat s.now)
      split at h
      · rename_i hself
        exact Or.inr (hself.trans hown.symm)
      · exact Or.inl (Option.map_eq_none_iff.mp h)
    · rename_i ht
      split at h
      · cases h
      · rename_i hr
        exact sameTable_rx { s.r with out := [] } (Or.inl ht) hr inPort (UInt32.ofNat s.now)
  | localKbd rep => exact sameTable_localKbd { s.r with out := [] } rep
  | localMouse rep => exact sameTable_localMouse { s.r with out := [] } rep _
  | button =>
    show SameTable s.r.uhrp (routerButton { s.r with out := [] } _).uhrp
    simp only [routerButton]
    split
    · exact .of_eq rfl
    · exact .of_eq (applyFocus_uhrp _ _ _ _ _ _)
  | setFocus target reason => exact .of_eq (applyFocus_uhrp { s.r with out := [] } _ _ _ _ _)
  | setCaps caps => exact sameTable_setCaps { s.r with out := [] } caps

/-! ## Every run -/

/-- The election knows the board's own capabilities and address. -/
structure Briefed (r : Router) : Prop where
  caps : r.uhrp.cfg.caps = r.cfg.caps
  self : r.uhrp.cfg.addr = r.cfg.self

theorem briefed_step {r : Router} (hs : Sound r) (h : Briefed r) (op : Op) : Briefed (step r op) := by
  by_cases hcaps : ∃ caps, op = .setCaps caps
  · obtain ⟨caps, rfl⟩ := hcaps
    show Briefed (routerSetCaps _ caps)
    unfold routerSetCaps
    split
    · exact ⟨h.caps, h.self⟩
    · exact ⟨rfl, h.self⟩
  · have ht := sameTables_step r hs.drained op fun caps hc => hcaps ⟨caps, hc⟩
    have hinformed : (informed r op).cfg = r.cfg ∧ (informed r op).uhrp = r.uhrp := by
      cases op with
      | rx f inPort now =>
        refine ⟨informed_cfg r f inPort now, ?_⟩
        have hu := learnPosition_uhrp { r with out := [] } f inPort now
        simp only [informed]
        split
        · exact hu
        split
        · exact (learnCaps_uhrp _ _ _).trans hu
        · exact hu
      | _ => exact ⟨rfl, rfl⟩
    refine ⟨?_, ?_⟩
    · rw [ht.election, ht.cfg, hinformed.1, hinformed.2]
      exact h.caps
    · rw [ht.election, ht.cfg, hinformed.1, hinformed.2]
      exact h.self

namespace Reckoned

/-- Router and account agree. -/
structure Agrees (S : Finset Addr) (k : Reckoned) : Prop where
  sound : Sound k.s.r
  briefed : Briefed k.s.r
  roster : Roster S k.acc k.s.now k.s.r.uhrp

theorem agrees_start (S : Finset Addr) (cfg : RouterCfg) (t0 : Nat) : Agrees S (start cfg t0) := by
  have hu : (start cfg t0).s.r.uhrp = { uhrpStart (routerInit cfg).uhrp (UInt32.ofNat t0) with ev := Events.none } :=
    drainUhrp_uhrp _
  have hcfg : (start cfg t0).s.r.uhrp.cfg.caps = cfg.caps ∧ (start cfg t0).s.r.uhrp.cfg.addr = cfg.self := by
    rw [hu]
    show (routerInit cfg).uhrp.cfg.caps = cfg.caps ∧ (routerInit cfg).uhrp.cfg.addr = cfg.self
    simp only [routerInit, uhrpInit, if_true]
    split <;> exact ⟨rfl, rfl⟩
  have hself : (start cfg t0).s.r.cfg = cfg := (settles_start (routerInit cfg) (UInt32.ofNat t0)).keeps.cfg
  have hsound : Sound (start cfg t0).s.r := sound_step (sound_init cfg) (.start (UInt32.ofNat t0))
  refine ⟨hsound, ⟨hcfg.1.trans (congrArg RouterCfg.caps hself).symm,
    hcfg.2.trans (congrArg RouterCfg.self hself).symm⟩, ?_⟩
  refine ⟨?_, ?_, fun a p hp => ?_, fun _ _ hq => (by cases hq), fun _ _ hq => (by cases hq), rfl⟩
  · rw [hu]
    rfl
  · rw [hu]
    exact Slots.unique_replicate rfl
  · have hnone : (start cfg t0).s.r.uhrp.peers.find? a = none := by
      rw [hu]
      exact Slots.find?_replicate_none rfl a
    rw [hnone] at hp
    cases hp

theorem step_drained {u : Uhrp} (h : u.ev = Events.none) (c : Call) : Election.step u c = call u c := by
  have htaken : (takeEvents u).2 = u := by
    show ({ u with ev := Events.none } : Uhrp) = u
    rw [← h]
  rw [Election.step, htaken]

/-- A message to heed, or a tick. -/
theorem asked_cases {s : Living} {e : Happening} {c : Call} (h : Routing.asked s e = some c) :
    e = .ms ∧ c = .tick (s.now + 1) ∨
      (s.step e).now = s.now ∧ ((∃ src m, c = .hello src m s.now ∧ src ≠ s.r.cfg.self) ∨ ∃ src, c = .resign src s.now) := by
  cases e with
  | ms => exact Or.inl ⟨rfl, (Option.some.inj h).symm⟩
  | rx f inPort =>
    refine Or.inr ⟨rfl, ?_⟩
    simp only [Routing.asked] at h
    split at h
    · split at h
      · cases h
      · rename_i hne
        obtain ⟨m, -, rfl⟩ := Option.map_eq_some_iff.mp h
        exact Or.inl ⟨f.src, m, rfl, hne⟩
    · split at h
      · exact Or.inr ⟨f.src, (Option.some.inj h).symm⟩
      · cases h
  | _ => cases h

theorem Agrees.roster_asked {S : Finset Addr} {k : Reckoned} (hS : S.card ≤ maxBoards) (h : Agrees S k) {e : Happening} {c : Call}
    (hc : Routing.asked k.s e = some c) (ho : Among S k e) :
    Roster S (k.acc.after (holdOf k.s.r.uhrp) k.s.now c) (k.s.step e).now (k.s.step e).r.uhrp := by
  have hset := settled_asked hc
  have hgo {acc : Account} {now : Nat} (hr : Roster S acc now (Election.step k.s.r.uhrp c)) :
      Roster S acc now (k.s.step e).r.uhrp := by
    rw [step_drained h.sound.drained] at hr
    rw [hset.uhrp]
    exact hr.congr hr.started rfl rfl rfl
  rcases asked_cases hc with ⟨rfl, rfl⟩ | ⟨hnow, hmsg⟩
  · exact hgo (h.roster.tick (Nat.le_succ _) (show k.s.now + 1 < k.s.now + 2 ^ 31 by omega))
  · rw [hnow]
    rcases hmsg with ⟨src, m, rfl, hne⟩ | ⟨src, rfl⟩
    · have hsrc : src ∈ S := by
        have ho : (Routing.asked k.s e).all (fun c => c.helloFrom?.all (· ∈ S)) = true := ho
        rw [hc] at ho
        exact of_decide_eq_true ho
      exact hgo (h.roster.hello (Nat.le_refl _) (by omega) hS hsrc (h.briefed.self.symm ▸ hne) m)
    · exact hgo (h.roster.resign (Nat.le_refl _) (by omega) src)

theorem Agrees.step {S : Finset Addr} {k : Reckoned} (hS : S.card ≤ maxBoards) (h : Agrees S k) {e : Happening}
    (ho : Among S k e) : Agrees S (k.step e) := by
  refine ⟨sound_step h.sound _, briefed_step h.sound h.briefed _, ?_⟩
  cases hc : Routing.asked k.s e with
  | some c =>
    have hr := h.roster_asked hS hc ho
    simp only [Reckoned.step, hc]
    exact hr
  | none =>
    have ht := sameTable_unasked h.briefed.self hc
    have hnow : (k.s.step e).now = k.s.now := by
      cases e with
      | ms => cases hc
      | _ => rfl
    simp only [Reckoned.step, hc, hnow]
    exact h.roster.congr (ht.started.trans h.roster.started) ht.peers ht.timing ht.addr

theorem agrees_reached {S : Finset Addr} (hS : S.card ≤ maxBoards) {cfg : RouterCfg} {k : Reckoned}
    (h : Reach (fun k => ∃ t0, k = start cfg t0) (Among S) Reckoned.step k) : Agrees S k := by
  refine h.inv (I := Agrees S) (fun k hk => ?_) fun k e hi ho => hi.step hS ho
  obtain ⟨t0, rfl⟩ := hk
  exact agrees_start S cfg t0

theorem Agrees.means {S : Finset Addr} {k : Reckoned} {e : Happening} (hto : Agrees S (k.step e))
    (hasked : Routing.asked k.s e ≠ none) :
    (k.step e).s.r.level.Means (isActive (k.step e).s.r = true ∨ (k.step e).s.r.uhrp.active ≠ addrNone)
      (k.step e).Offered := by
  obtain ⟨c, hc⟩ := Option.ne_none_iff_exists'.mp hasked
  have hlevel := (settled_asked hc).level
  have hmeans := levelOf_means (reachableCaps (k.s.step e).r.uhrp)
    (isActive (k.s.step e).r || (k.s.step e).r.uhrp.active != addrNone)
  rw [← hlevel] at hmeans
  have hbits : (fun bit => hasCap (reachableCaps (k.s.step e).r.uhrp) bit = true) = (k.step e).Offered := by
    funext bit
    have hiff := hto.roster.reachable_iff bit
    rw [hto.briefed.caps] at hiff
    exact propext hiff
  rw [hbits, Bool.or_eq_true, bne_iff_ne] at hmeans
  exact hmeans

/-- Whenever the level is worked out, it means what it should. -/
theorem level_current {S : Finset Addr} (hS : S.card ≤ maxBoards) {cfg : RouterCfg} {k : Reckoned}
    (h : Reach (fun k => ∃ t0, k = start cfg t0) (Among S) Reckoned.step k) {e : Happening} (he : Among S k e)
    (hasked : Routing.asked k.s e ≠ none) :
    (k.step e).s.r.level.Means (isActive (k.step e).s.r = true ∨ (k.step e).s.r.uhrp.active ≠ addrNone)
      (k.step e).Offered :=
  ((agrees_reached hS h).step hS he).means hasked

/-! ## A board that is cut off -/

def isMs : Happening → Bool
  | .ms => true
  | _ => false

/-- No frame comes in. -/
def Local (e : Happening) : Prop := ∀ f inPort, e ≠ .rx f inPort

/-- Nobody's pledge stands any more once `left` more ticks have gone by. -/
def Running (left : Nat) (k : Reckoned) : Prop :=
  ∀ a q, k.acc a = some q → ¬ q.stands (holdOf k.s.r.uhrp) (k.s.now + left)

theorem hold_step {S : Finset Addr} {k : Reckoned} (h : Agrees S k) (e : Happening) :
    holdOf (k.step e).s.r.uhrp = holdOf k.s.r.uhrp := by
  show holdOf (k.s.step e).r.uhrp = _
  cases hc : Routing.asked k.s e with
  | none => rw [holdOf, holdOf, (sameTable_unasked h.briefed.self hc).timing]
  | some c =>
    have hcfg := Election.step_cfg k.s.r.uhrp c
    rw [step_drained h.sound.drained] at hcfg
    rw [(settled_asked hc).uhrp, holdOf, holdOf]
    exact congrArg (fun cfg => cfg.timing.holdMs.toNat) hcfg

/-- Alone with its clock, a board hears of nobody. -/
theorem acc_step (k : Reckoned) {e : Happening} (he : Local e) : (k.step e).acc = k.acc := by
  cases e with
  | rx f inPort => exact absurd rfl (he f inPort)
  | _ => rfl

theorem now_step (k : Reckoned) (e : Happening) : (k.step e).s.now = k.s.now + if isMs e then 1 else 0 := by
  cases e <;> rfl

theorem Running.local_run {S : Finset Addr} (hS : S.card ≤ maxBoards) {es : List Happening} (hes : ∀ e ∈ es, Local e) {left : Nat}
    {k : Reckoned} (hk : Agrees S k) (h : Running left k) :
    Agrees S (es.foldl Reckoned.step k) ∧ Running (left - es.countP isMs) (es.foldl Reckoned.step k) := by
  induction es generalizing k left with
  | nil => exact ⟨hk, h⟩
  | cons e es ih =>
    have hlocal := hes e List.mem_cons_self
    have hamong : Among S k e := by
      cases e with
      | rx f inPort => exact absurd rfl (hlocal f inPort)
      | _ => rfl
    have hnext : Running (left - if isMs e then 1 else 0) (k.step e) := by
      intro a q hq
      rw [acc_step k hlocal] at hq
      have hnot : ¬ k.s.now + left < q.time + holdOf k.s.r.uhrp := h a q hq
      rw [hold_step hk, now_step]
      show ¬ _ < q.time + holdOf k.s.r.uhrp
      split <;> omega
    obtain ⟨hto, hleft⟩ := ih (fun e he => hes e (List.mem_cons_of_mem _ he)) (hk.step hS hamong) hnext
    refine ⟨hto, ?_⟩
    rw [List.countP_cons]
    rwa [Nat.sub_sub, Nat.add_comm] at hleft

/-- A pledge runs out within the hold time. -/
theorem running_hold {S : Finset Addr} {k : Reckoned} (h : Agrees S k) : Running (holdOf k.s.r.uhrp) k := by
  intro a q hq hs
  have hs : k.s.now + holdOf k.s.r.uhrp < q.time + holdOf k.s.r.uhrp := hs
  obtain ⟨p, hp⟩ := h.roster.listed a q hq (show k.s.now < q.time + holdOf k.s.r.uhrp by omega)
  obtain ⟨q', hq', -, -, hle, -⟩ := h.roster.entry a p hp
  rw [hq] at hq'
  cases hq'
  omega

/-- Whatever happens at the board itself: once no frame has come for the hold time, its level says
    what the board can do by itself. -/
theorem cut_off {S : Finset Addr} (hS : S.card ≤ maxBoards) {cfg : RouterCfg} {k : Reckoned}
    (h : Reach (fun k => ∃ t0, k = start cfg t0) (Among S) Reckoned.step k) {es : List Happening} (hes : ∀ e ∈ es, Local e)
    (hlong : holdOf k.s.r.uhrp ≤ (es ++ [Happening.ms]).countP isMs) :
    (k.run (es ++ [.ms])).s.r.level.Means
      (isActive (k.run (es ++ [.ms])).s.r = true ∨ (k.run (es ++ [.ms])).s.r.uhrp.active ≠ addrNone)
      fun bit => hasCap (k.run (es ++ [.ms])).s.r.cfg.caps bit = true := by
  have hk := agrees_reached hS h
  have hlocal : ∀ e ∈ es ++ [Happening.ms], Local e := by
    intro e he
    rcases List.mem_append.mp he with he | he
    · exact hes e he
    · rw [List.mem_singleton.mp he]
      exact fun _ _ h => by cases h
  obtain ⟨hagrees, hrun⟩ := (running_hold hk).local_run hS hlocal hk
  rw [Nat.sub_eq_zero_of_le hlong] at hrun
  have hlast : k.run (es ++ [.ms]) = (es.foldl Reckoned.step k).step .ms := List.foldl_append
  have hown : (k.run (es ++ [.ms])).Offered = fun bit => hasCap (k.run (es ++ [.ms])).s.r.cfg.caps bit = true := by
    funext bit
    refine propext (or_iff_left ?_)
    rintro ⟨a, q, hq, hs, -⟩
    exact hrun a q hq hs
  rw [← hown, hlast]
  have hagrees : Agrees S (k.run (es ++ [.ms])) := hagrees
  rw [hlast] at hagrees
  exact hagrees.means fun h => by cases h

/-! ## A coordinator comes and goes -/

/-- It can show the chain's state, and configure it. -/
def coordinatorHello : Frame :=
  { type := msgHello, ttl := ttlDefault, src := 2, dst := addrBroadcast, seq := 0,
    payload := helloPack ⟨UhrpState.listen.toByte, 10, 0, 15, 2, capDisplay ||| capConfig, 0⟩, body := [] }

/-- It holds on for five milliseconds. -/
def quickCfg : RouterCfg := { screenCfg with timing := ⟨2, 5, 3, 20⟩ }

/-- A board with a keyboard has taken the role. -/
def inRole : Reckoned := (start quickCfg 0).run (List.replicate 4 .ms)

def greeted : Reckoned := inRole.step (.rx coordinatorHello .up)

theorem reach_inRole : Reach (fun k => ∃ t0, k = start quickCfg t0) (Among {2}) Reckoned.step inRole := by
  have h0 : Reach (fun k => ∃ t0, k = start quickCfg t0) (Among {2}) Reckoned.step (start quickCfg 0) := .init ⟨0, rfl⟩
  unfold inRole run
  exact h0.run (List.replicate 4 .ms) (by decide +kernel)

theorem level_current_of_coordinator :
    greeted.s.r.level = .coordinated ∧ greeted.Offered capDisplay ∧ greeted.Offered capConfig ∧
      ¬ greeted.Offered capClipboard := by
  have hlevel : greeted.s.r.level = .coordinated := by decide +kernel
  have hamong : Among {2} inRole (.rx coordinatorHello .up) := by decide +kernel
  have hasked : Routing.asked inRole.s (.rx coordinatorHello .up) ≠ none := by decide +kernel
  have hreach := reach_inRole
  unfold greeted at hlevel ⊢
  generalize inRole = k at *
  have hmeans := level_current (by decide) hreach hamong hasked
  rw [hlevel] at hmeans
  exact ⟨hlevel, hmeans.2.1.1, hmeans.2.1.2, hmeans.2.2⟩

theorem reach_greeted : Reach (fun k => ∃ t0, k = start quickCfg t0) (Among {2}) Reckoned.step greeted := by
  have hamong : Among {2} inRole (.rx coordinatorHello .up) := by decide +kernel
  have hbefore := reach_inRole
  unfold greeted
  generalize inRole = k at hamong hbefore ⊢
  exact hbefore.step (.rx coordinatorHello .up) hamong

/-- The coordinator is not heard of any more. -/
def forgotten : Reckoned := greeted.run (List.replicate 4 .ms ++ [.ms])

theorem cut_off_of_lost_coordinator : greeted.s.r.level = .coordinated ∧ forgotten.s.r.level = .elected ∧
    hasCap forgotten.s.r.cfg.caps capHidOut = true ∧ hasCap forgotten.s.r.cfg.caps capHidIn = true := by
  have hticks : ∀ e ∈ List.replicate 4 Happening.ms, Local e := by
    intro e he
    rw [List.eq_of_mem_replicate he]
    exact fun _ _ h => by cases h
  have hbefore : greeted.s.r.level = .coordinated := by decide +kernel
  have hafter : forgotten.s.r.level = .elected := by decide +kernel
  have hlong : holdOf greeted.s.r.uhrp ≤ (List.replicate 4 Happening.ms ++ [Happening.ms]).countP isMs := by decide +kernel
  have hreach := reach_greeted
  unfold forgotten at hafter ⊢
  -- Neither the board nor its run is to be worked out when the level is looked at.
  generalize greeted = k at *
  generalize List.replicate 4 Happening.ms = es at *
  have hmeans := cut_off (by decide) hreach hticks hlong
  rw [hafter] at hmeans
  exact ⟨hbefore, hafter, hmeans.1.2⟩

end Reckoned

end DeskHop.Routing
