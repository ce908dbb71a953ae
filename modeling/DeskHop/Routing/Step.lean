/-
  DeskHop.Routing.Step — the router, operation after operation.

  Proved, for every state the router can reach (`routed_sound`): its own entry stands in
  its own slot of the chain table, no event of the election is left to act on, and a
  tracker slot that was never used holds nothing. Each function comes with what it keeps
  (`Keeps`), each operation with the fact that it settles the election (`Settles`).
-/

import DeskHop.Lib.Reach
import DeskHop.Routing.Router

namespace DeskHop.Routing

open DeskHop.Lib DeskHop.Election DeskHop.Wire

/-! ## The router by itself -/

inductive Op where
  | start (now : Time)
  | localKbd (rep : KbdReport)
  | localMouse (rep : MouseReport) (now : Time)
  | button (now : Time)
  | setFocus (target : Addr) (reason : UInt8) (now : Time)
  | rx (f : Frame) (inPort : Port) (now : Time)
  | tick (now : Time)
  | setCaps (caps : UInt16)

def apply (r : Router) : Op → Router
  | .start now => routerStart r now
  | .localKbd rep => routerLocalKbd r rep
  | .localMouse rep now => routerLocalMouse r rep now
  | .button now => routerButton r now
  | .setFocus target reason now => routerSetFocus r target reason now
  | .rx f inPort now => routerRx r f inPort now
  | .tick now => routerTick r now
  | .setCaps caps => routerSetCaps r caps

/-- The caller takes what one operation asked for before it makes the next. -/
def step (r : Router) (op : Op) : Router := apply { r with out := [] } op

def Routed (cfg : RouterCfg) : Router → Prop := Reach (· = routerInit cfg) (fun _ _ => True) step

/-- What holds of a router in every state. -/
structure Sound (r : Router) : Prop where
  /-- Our own entry is in our own slot. -/
  own : r.chain.index? r.cfg.self = some r.selfSlot
  /-- The events of the election have been acted on. -/
  drained : r.uhrp.ev = Events.none
  /-- A slot that was never used holds nothing. -/
  blank : ∀ slot, (r.hid.sent slot).used = false → (r.hid.sent slot).told = .nothing

/-- What every function of the router keeps of a sound state, its events aside. -/
structure Keeps (r r' : Router) : Prop where
  cfg : r'.cfg = r.cfg
  selfSlot : r'.selfSlot = r.selfSlot
  chain : ∀ a i, r.chain.index? a = some i → r'.chain.index? a = some i
  blank : (∀ slot, (r.hid.sent slot).used = false → (r.hid.sent slot).told = .nothing) →
    ∀ slot, (r'.hid.sent slot).used = false → (r'.hid.sent slot).told = .nothing

namespace Keeps

theorem refl (r : Router) : Keeps r r := ⟨rfl, rfl, fun _ _ h => h, fun h => h⟩

theorem trans {r s t : Router} (h1 : Keeps r s) (h2 : Keeps s t) : Keeps r t :=
  ⟨h2.cfg.trans h1.cfg, h2.selfSlot.trans h1.selfSlot, fun a i h => h2.chain a i (h1.chain a i h),
    fun h => h2.blank (h1.blank h)⟩

theorem emit {r s : Router} (h : Keeps r s) (a : Act) : Keeps r (s.emit a) := ⟨h.cfg, h.selfSlot, h.chain, h.blank⟩

theorem setLevel {r s : Router} (h : Keeps r s) (l : Level) : Keeps r { s with level := l } :=
  ⟨h.cfg, h.selfSlot, h.chain, h.blank⟩

theorem setFocus {r s : Router} (h : Keeps r s) (f : Addr) : Keeps r { s with focus := f } :=
  ⟨h.cfg, h.selfSlot, h.chain, h.blank⟩

theorem setUhrp {r s : Router} (h : Keeps r s) (u : Uhrp) : Keeps r { s with uhrp := u } :=
  ⟨h.cfg, h.selfSlot, h.chain, h.blank⟩

theorem setPointer {r s : Router} (h : Keeps r s) (p : Pointer) : Keeps r { s with pointer := p } :=
  ⟨h.cfg, h.selfSlot, h.chain, h.blank⟩

end Keeps

theorem blank_upd {t : HidTracker} {slot : Nat} {f : HidSent → HidSent}
    (hf : ∀ s, (f s).used = true ∨ (f s).told = .nothing)
    (h : ∀ i, (t.sent i).used = false → (t.sent i).told = .nothing) (i : Nat) (hi : ((t.upd slot f).sent i).used = false) :
    ((t.upd slot f).sent i).told = .nothing := by
  by_cases hs : i = slot
  · subst hs
    by_cases hlt : i < maxBoards
    · rw [HidTracker.sent_upd_self t hlt] at hi ⊢
      rcases hf (t.sent i) with hu | hn
      · rw [hu] at hi
        cases hi
      · exact hn
    · rw [HidTracker.sent_upd_past t hlt] at hi ⊢
      exact h i hi
  · rw [HidTracker.sent_upd_ne t hs] at hi ⊢
    exact h i hi

theorem keeps_hid {r : Router} {hid : HidTracker}
    (h : (∀ slot, (r.hid.sent slot).used = false → (r.hid.sent slot).told = .nothing) →
      ∀ slot, (hid.sent slot).used = false → (hid.sent slot).told = .nothing) : Keeps r { r with hid := hid } :=
  ⟨rfl, rfl, fun _ _ h => h, h⟩

theorem keeps_sendKbdTo (r : Router) (dst : Addr) (rep : KbdReport) : Keeps r (sendKbdTo r dst rep) := by
  have h : Keeps r { r with hid := hidNoteKbd r.hid (slotOf r dst) rep } :=
    keeps_hid (blank_upd fun _ => Or.inl rfl)
  simp only [sendKbdTo]
  split <;> exact h.emit _

theorem keeps_sendMouseTo (r : Router) (dst : Addr) (rep : MouseReport) : Keeps r (sendMouseTo r dst rep) := by
  have h : Keeps r { r with hid := hidNoteMouse r.hid (slotOf r dst) rep.buttons } :=
    keeps_hid (blank_upd fun _ => Or.inl rfl)
  simp only [sendMouseTo]
  split <;> exact h.emit _

theorem keeps_releaseMachine (r : Router) (addr : Addr) : Keeps r (releaseMachine r addr) := by
  simp only [releaseMachine]
  split
  · exact Keeps.refl r
  · rename_i k m hid hb
    obtain ⟨rfl, rfl, rfl⟩ := hidBuildRelease_some hb
    have hk : Keeps r { r with
        hid := r.hid.upd (slotOf r addr) fun s => { s with modifiers := 0, buttons := 0, keys := Bytes.zero 6 }
        nReleasesSent := r.nReleasesSent + 1 } :=
      ⟨rfl, rfl, fun _ _ h => h, blank_upd fun _ => Or.inr rfl⟩
    split <;> exact (hk.emit _).emit _

theorem keeps_applyFocus (r : Router) (target : Addr) (reason : UInt8) (edge : Edge) (now : Time) (announce : Bool) :
    Keeps r (applyFocus r target reason edge now announce) := by
  simp only [applyFocus]
  split
  · exact Keeps.refl r
  · have h := keeps_releaseMachine r r.focus
    have hk : Keeps r { releaseMachine r r.focus with
        focus := target, nSwitches := (releaseMachine r r.focus).nSwitches + 1,
        pointer := pointerArrive (releaseMachine r r.focus).pointer edge now } := ⟨h.cfg, h.selfSlot, h.chain, h.blank⟩
    cases announce
    · exact hk.emit _
    · exact (hk.emit _).emit _

theorem keeps_recomputeLevel (r : Router) : Keeps r (recomputeLevel r) := by
  simp only [recomputeLevel]
  split
  · exact ((Keeps.refl r).setLevel _).emit _
  · exact Keeps.refl r

theorem keeps_announceFocus (r : Router) : Keeps r (announceFocus r) := by
  simp only [announceFocus]
  split
  · exact Keeps.refl r
  · have h : Keeps r (r.emit (.send msgFocus addrBroadcast (focusPack ⟨inheritedFocus r, focusRFailover, Edge.none.toByte⟩))) :=
      (Keeps.refl r).emit _
    split
    · exact (h.setFocus _).emit _
    · exact h

theorem blank_forgetChain (r : Router) (h : ∀ slot, (r.hid.sent slot).used = false → (r.hid.sent slot).told = .nothing) :
    ∀ slot, ((forgetChain r).sent slot).used = false → ((forgetChain r).sent slot).told = .nothing := by
  refine List.foldlRecOn (motive := fun t : HidTracker => ∀ slot, (t.sent slot).used = false → (t.sent slot).told = .nothing)
    (List.range maxBoards) _ h fun t ht i _ => ?_
  split
  · exact blank_upd (fun _ => Or.inr rfl) ht
  · exact ht

theorem keeps_broadcastReleaseAll (r : Router) : Keeps r (broadcastReleaseAll r) := by
  have h : Keeps r { r.emit (.send msgRelease addrBroadcast []) with
      hid := forgetChain (r.emit (.send msgRelease addrBroadcast [])) } :=
    ⟨rfl, rfl, fun _ _ h => h, blank_forgetChain (r.emit _)⟩
  exact (h.emit _).emit _

theorem keeps_drainUhrp (r : Router) : Keeps r (drainUhrp r) := by
  have h0 := (Keeps.refl r).setUhrp (takeEvents r.uhrp).2
  simp only [drainUhrp]
  -- each event in turn: release, resign, hello, new state
  generalize { r with uhrp := (takeEvents r.uhrp).2 } = r0 at h0
  have h1 : Keeps r (if (takeEvents r.uhrp).1.broadcastRelease then broadcastReleaseAll r0 else r0) := by
    split
    · exact h0.trans (keeps_broadcastReleaseAll r0)
    · exact h0
  generalize (if (takeEvents r.uhrp).1.broadcastRelease then broadcastReleaseAll r0 else r0) = r1 at h1
  have h2 : Keeps r (if (takeEvents r.uhrp).1.sendResign then r1.emit (.send msgResign addrBroadcast []) else r1) := by
    split
    · exact h1.emit _
    · exact h1
  generalize (if (takeEvents r.uhrp).1.sendResign then r1.emit (.send msgResign addrBroadcast []) else r1) = r2 at h2
  have h3 : Keeps r (if (takeEvents r.uhrp).1.sendHello then
      r2.emit (.send msgHello addrBroadcast (helloPack (buildHello r2.uhrp))) else r2) := by
    split
    · exact h2.emit _
    · exact h2
  generalize (if (takeEvents r.uhrp).1.sendHello then
    r2.emit (.send msgHello addrBroadcast (helloPack (buildHello r2.uhrp))) else r2) = r3 at h3
  split
  · refine h3.trans (Keeps.trans ?_ (keeps_recomputeLevel _))
    split
    · exact keeps_announceFocus r3
    · exact Keeps.refl r3
  · exact h3

/-! ## Drained -/

theorem recomputeLevel_uhrp (r : Router) : (recomputeLevel r).uhrp = r.uhrp := by
  simp only [recomputeLevel]
  split <;> rfl

theorem announceFocus_uhrp (r : Router) : (announceFocus r).uhrp = r.uhrp := by
  simp only [announceFocus]
  split
  · rfl
  · split <;> rfl

theorem drainUhrp_uhrp (r : Router) : (drainUhrp r).uhrp = (takeEvents r.uhrp).2 := by
  have h1 : ∀ (b : Bool) (s : Router), (if b then broadcastReleaseAll s else s).uhrp = s.uhrp := by
    intro b s
    cases b <;> rfl
  have h2 : ∀ (b : Bool) (s : Router) (a : Act), (if b then s.emit a else s).uhrp = s.uhrp := by
    intro b s a
    cases b <;> rfl
  have h3 : ∀ (b : Bool) (s : Router), (if b then announceFocus s else s).uhrp = s.uhrp := by
    intro b s
    cases b
    · rfl
    · exact announceFocus_uhrp s
  have h4 : ∀ (b c : Bool) (s : Router),
      (if b then recomputeLevel (if c then announceFocus s else s) else s).uhrp = s.uhrp := by
    intro b c s
    cases b
    · rfl
    · exact (recomputeLevel_uhrp _).trans (h3 c s)
  simp only [drainUhrp, h4, h2, h1]

/-- An election that raised nothing leaves nothing to act on. -/
theorem drainUhrp_of_drained {r : Router} (h : r.uhrp.ev = Events.none) : drainUhrp r = r := by
  have hu : (takeEvents r.uhrp).2 = r.uhrp := by
    show ({ r.uhrp with ev := Events.none } : Uhrp) = r.uhrp
    rw [← h]
  simp only [drainUhrp, hu]
  simp [takeEvents, h, Events.none]

theorem noteKeysHeld_same {r : Router} (hd : r.uhrp.ev = Events.none) :
    noteKeysHeld r = { r with uhrp := setKeysHeld r.uhrp (hidAnyHeld r.hid) } :=
  drainUhrp_of_drained (r := { r with uhrp := setKeysHeld r.uhrp (hidAnyHeld r.hid) }) hd

theorem sendKbdTo_uhrp (r : Router) (dst : Addr) (rep : KbdReport) : (sendKbdTo r dst rep).uhrp = r.uhrp := by
  simp only [sendKbdTo]
  split <;> rfl

theorem sendMouseTo_uhrp (r : Router) (dst : Addr) (rep : MouseReport) : (sendMouseTo r dst rep).uhrp = r.uhrp := by
  simp only [sendMouseTo]
  split <;> rfl

theorem releaseMachine_uhrp (r : Router) (addr : Addr) : (releaseMachine r addr).uhrp = r.uhrp := by
  simp only [releaseMachine]
  split
  · rfl
  · split <;> rfl

theorem applyFocus_uhrp (r : Router) (target : Addr) (reason : UInt8) (edge : Edge) (now : Time) (announce : Bool) :
    (applyFocus r target reason edge now announce).uhrp = r.uhrp := by
  simp only [applyFocus]
  split
  · rfl
  · cases announce <;> exact releaseMachine_uhrp r r.focus

/-! ## One operation -/

/-- An operation keeps what it must and leaves no event behind. -/
structure Settles (r r' : Router) : Prop where
  keeps : Keeps r r'
  drained : r.uhrp.ev = Events.none → r'.uhrp.ev = Events.none

theorem Settles.sound {r r' : Router} (h : Settles r r') (hs : Sound r) : Sound r' :=
  ⟨by rw [h.keeps.cfg, h.keeps.selfSlot]; exact h.keeps.chain _ _ hs.own, h.drained hs.drained, h.keeps.blank hs.blank⟩

theorem Settles.of_same {r r' : Router} (hk : Keeps r r') (hu : r'.uhrp = r.uhrp) : Settles r r' :=
  ⟨hk, fun h => by rw [hu]; exact h⟩

theorem settles_drain {r s : Router} (hk : Keeps r s) : Settles r (drainUhrp s) :=
  ⟨hk.trans (keeps_drainUhrp s), fun _ => by rw [drainUhrp_uhrp]; rfl⟩

theorem settles_drain_level {r s : Router} (hk : Keeps r s) : Settles r (recomputeLevel (drainUhrp s)) :=
  ⟨(hk.trans (keeps_drainUhrp s)).trans (keeps_recomputeLevel _), fun _ => by
    rw [recomputeLevel_uhrp, drainUhrp_uhrp]; rfl⟩

theorem forwardInput_some {r r' : Router} {kind : Byte} {report : List Byte} (h : forwardInput r kind report = some r') :
    isActive r = false ∧ (r' = r ∨ r' = r.emit (.send msgInput r.uhrp.active (kind :: report))) := by
  unfold forwardInput at h
  split at h
  · cases h
  rename_i ha
  refine ⟨Bool.eq_false_iff.mpr ha, ?_⟩
  split at h
  · exact Or.inl (Option.some.inj h).symm
  split at h
  · exact Or.inl (Option.some.inj h).symm
  · exact Or.inr (Option.some.inj h).symm

theorem settles_forwardInput {r r' : Router} {kind : Byte} {report : List Byte}
    (h : forwardInput r kind report = some r') : Settles r r' := by
  rcases (forwardInput_some h).2 with rfl | rfl
  · exact .of_same (Keeps.refl _) rfl
  · exact .of_same ((Keeps.refl r).emit _) rfl

theorem settles_localKbd (r : Router) (rep : KbdReport) : Settles r (routerLocalKbd r rep) := by
  unfold routerLocalKbd
  split
  · rename_i h
    exact settles_forwardInput h
  · exact settles_drain ((keeps_sendKbdTo r r.focus rep).setUhrp _)

theorem settles_localMouse (r : Router) (rep : MouseReport) (now : Time) : Settles r (routerLocalMouse r rep now) := by
  simp only [routerLocalMouse]
  split
  · rename_i h
    exact settles_forwardInput h
  · have hp := (Keeps.refl r).setPointer (pointerFeed r.pointer rep.dx rep.dy now).2
    split
    · exact .of_same (hp.trans (keeps_applyFocus _ _ _ _ _ _)) (applyFocus_uhrp _ _ _ _ _ _)
    · exact settles_drain ((hp.trans (keeps_sendMouseTo _ _ rep)).setUhrp _)

theorem keeps_setEntry {r : Router} {t : Chain} {a e : ChainEntry} (h : r.chain.ensure a = some (e, t)) (k : Addr)
    {f : ChainEntry → ChainEntry} (hf : ∀ x, Slotted.used (f x) = Slotted.used x ∧ Slotted.key (f x) = Slotted.key x) :
    Keeps r { r with chain := t.modify k f } :=
  ⟨rfl, rfl, fun b _ hi => (Slots.index?_modify t k b hf).trans (Slots.index?_ensure h hi), fun h => h⟩

theorem keeps_learnPosition (r : Router) (f : Frame) (inPort : Port) (now : Time) :
    Keeps r (learnPosition r f inPort now) := by
  unfold learnPosition
  split
  · exact Keeps.refl r
  · split
    · exact Keeps.refl r
    · rename_i chain hc
      obtain ⟨⟨e, t⟩, he, rfl⟩ := Option.map_eq_some_iff.mp hc
      exact keeps_setEntry he _ fun _ => ⟨rfl, rfl⟩

theorem learnPosition_uhrp (r : Router) (f : Frame) (inPort : Port) (now : Time) :
    (learnPosition r f inPort now).uhrp = r.uhrp := by
  unfold learnPosition
  split
  · rfl
  · split <;> rfl

theorem keeps_learnCaps (r : Router) (src : Addr) (h : Hello) : Keeps r (learnCaps r src h) := by
  unfold learnCaps
  split
  · exact Keeps.refl r
  · rename_i chain hc
    obtain ⟨⟨e, t⟩, he, rfl⟩ := Option.map_eq_some_iff.mp hc
    exact keeps_setEntry he _ fun _ => ⟨rfl, rfl⟩

theorem learnCaps_uhrp (r : Router) (src : Addr) (h : Hello) : (learnCaps r src h).uhrp = r.uhrp := by
  unfold learnCaps
  split <;> rfl

theorem settles_rxHelloFrame (r : Router) (src : Addr) (h : Hello) (now : Time) : Settles r (rxHelloFrame r src h now) :=
  settles_drain_level ((keeps_learnCaps r src h).setUhrp _)

theorem settles_rxFocus (r : Router) (fo : Focus) : Settles r (rxFocus r fo) := by
  simp only [rxFocus]
  split
  · exact .of_same (Keeps.refl r) rfl
  · have h := ((Keeps.refl r).setFocus fo.target).emit (.focusChanged fo.target (fo.target == r.cfg.self))
    split
    · exact .of_same (h.trans (keeps_releaseMachine _ _)) (releaseMachine_uhrp _ _)
    · exact .of_same h rfl

theorem settles_rxInput (r : Router) (f : Frame) (now : Time) : Settles r (rxInput r f now) := by
  have h : Settles r r := .of_same (Keeps.refl r) rfl
  unfold rxInput
  split
  · exact h
  split
  · exact h
  split
  · exact h
  split
  · split
    · exact h
    · exact settles_localKbd r _
  split
  · split
    · exact h
    · exact settles_localMouse r _ now
  · exact h

theorem settles_rxRelease (r : Router) : Settles r (rxRelease r) := by
  have h : Keeps r { r with hid := hidForget r.hid r.selfSlot } := keeps_hid (blank_upd fun _ => Or.inr rfl)
  exact .of_same ((h.emit _).emit _) rfl

theorem settles_rx (r : Router) (f : Frame) (inPort : Port) (now : Time) : Settles r (routerRx r f inPort now) := by
  have hk := keeps_learnPosition r f inPort now
  have hu := learnPosition_uhrp r f inPort now
  have h : Settles r (learnPosition r f inPort now) := .of_same hk hu
  have htrans : ∀ {s : Router}, Settles (learnPosition r f inPort now) s → Settles r s := fun hs =>
    ⟨hk.trans hs.keeps, fun he => hs.drained (by rw [hu]; exact he)⟩
  simp only [routerRx]
  split
  · split
    · exact h
    · exact htrans (settles_rxHelloFrame _ _ _ _)
  split
  · exact settles_drain_level (hk.setUhrp _)
  split
  · split
    · exact h
    · exact .of_same (hk.emit _) hu
  split
  · split
    · exact h
    · exact .of_same (hk.emit _) hu
  split
  · split
    · exact h
    · exact htrans (settles_rxFocus _ _)
  split
  · exact .of_same (hk.emit _) hu
  split
  · exact htrans (settles_rxInput _ _ _)
  split
  · exact htrans (settles_rxRelease _)
  · exact h

theorem settles_button (r : Router) (now : Time) : Settles r (routerButton r now) := by
  simp only [routerButton]
  split
  · exact .of_same (Keeps.refl r) rfl
  · exact .of_same (keeps_applyFocus _ _ _ _ _ _) (applyFocus_uhrp _ _ _ _ _ _)

theorem settles_setFocus (r : Router) (target : Addr) (reason : UInt8) (now : Time) :
    Settles r (routerSetFocus r target reason now) :=
  .of_same (keeps_applyFocus _ _ _ _ _ _) (applyFocus_uhrp _ _ _ _ _ _)

theorem settles_start (r : Router) (now : Time) : Settles r (routerStart r now) :=
  settles_drain (((Keeps.refl r).setUhrp (uhrpStart r.uhrp now)).setPointer (pointerArrive r.pointer .none now))

theorem settles_tick (r : Router) (now : Time) : Settles r (routerTick r now) :=
  settles_drain_level (((Keeps.refl r).emit (.linkTick now)).setUhrp _)

theorem sound_setCaps {r : Router} (h : Sound r) (caps : UInt16) : Sound (routerSetCaps r caps) := by
  unfold routerSetCaps
  split
  · exact h
  · refine ⟨?_, h.drained, h.blank⟩
    exact (Slots.index?_modify r.chain r.cfg.self r.cfg.self (f := fun e => { e with caps := caps })
      fun _ => ⟨rfl, rfl⟩).trans h.own

/-! ## Every state -/

theorem sound_init (cfg : RouterCfg) : Sound (routerInit cfg) := by
  refine ⟨?_, rfl, fun slot _ => ?_⟩
  · simp [routerInit, Slots.claim, Slots.replicate, Slots.index?, maxBoards, List.replicate, updFirst, freshEntry,
      Slotted.used, Slots.holds, Slotted.key, List.findIdx?_cons]
  · show ((hidTrackerInit).sent slot).told = _
    rw [HidTracker.sent_init]
    rfl

theorem sound_step {r : Router} (h : Sound r) (op : Op) : Sound (step r op) := by
  -- taking what was asked for touches nothing the invariant reads
  have h0 : Sound { r with out := [] } := ⟨h.own, h.drained, h.blank⟩
  cases op with
  | start now => exact (settles_start _ now).sound h0
  | localKbd rep => exact (settles_localKbd _ rep).sound h0
  | localMouse rep now => exact (settles_localMouse _ rep now).sound h0
  | button now => exact (settles_button _ now).sound h0
  | setFocus target reason now => exact (settles_setFocus _ target reason now).sound h0
  | rx f inPort now => exact (settles_rx _ f inPort now).sound h0
  | tick now => exact (settles_tick _ now).sound h0
  | setCaps caps => exact sound_setCaps h0 caps

theorem routed_sound {cfg : RouterCfg} {r : Router} (h : Routed cfg r) : Sound r := by
  refine Reach.inv (I := Sound) (fun s hi => ?_) (fun s op hs _ => sound_step hs op) h
  rw [hi]
  exact sound_init cfg

end DeskHop.Routing
