/-
  DeskHop.Routing.Tables — what an operation does to the chain table and to the two
  configurations.

  Only a received frame writes the table: the position of its sender, and of a HELLO also
  what it says of itself (`informed`). Nothing but a change of capabilities touches the
  configurations. Proved: every other operation leaves the tables as `informed` has them
  (`sameTables_step`), and one that is handed no frame of the board's own keeps the
  board's own entry (`own_step`).
-/

import DeskHop.Election.Table
import DeskHop.Routing.Announce

namespace DeskHop.Routing

open DeskHop.Lib DeskHop.Election DeskHop.Wire

/-- Neither the chain table nor a configuration changes. -/
structure SameTables (r t : Router) : Prop where
  cfg : t.cfg = r.cfg
  chain : t.chain = r.chain
  election : t.uhrp.cfg = r.uhrp.cfg

namespace SameTables

theorem refl (r : Router) : SameTables r r := ⟨rfl, rfl, rfl⟩

theorem trans {r s t : Router} (h1 : SameTables r s) (h2 : SameTables s t) : SameTables r t :=
  ⟨h2.cfg.trans h1.cfg, h2.chain.trans h1.chain, h2.election.trans h1.election⟩

theorem emit {r s : Router} (h : SameTables r s) (a : Act) : SameTables r (s.emit a) := ⟨h.cfg, h.chain, h.election⟩

theorem ite {r s t : Router} (b : Bool) (h : SameTables r s) (hst : SameTables s t) :
    SameTables r (if b then t else s) := by
  cases b
  · exact h
  · exact h.trans hst

end SameTables

variable (r : Router)

theorem sameTables_sendKbdTo (dst : Addr) (rep : KbdReport) : SameTables r (sendKbdTo r dst rep) := by
  simp only [sendKbdTo]
  split <;> exact ⟨rfl, rfl, rfl⟩

theorem sameTables_sendMouseTo (dst : Addr) (rep : MouseReport) : SameTables r (sendMouseTo r dst rep) := by
  simp only [sendMouseTo]
  split <;> exact ⟨rfl, rfl, rfl⟩

theorem sameTables_releaseMachine (addr : Addr) : SameTables r (releaseMachine r addr) := by
  simp only [releaseMachine]
  split
  · exact .refl r
  · split <;> exact ⟨rfl, rfl, rfl⟩

theorem sameTables_applyFocus (target : Addr) (reason : UInt8) (edge : Edge) (now : Time) (announce : Bool) :
    SameTables r (applyFocus r target reason edge now announce) := by
  have h := sameTables_releaseMachine r r.focus
  simp only [applyFocus]
  split
  · exact .refl r
  · cases announce <;> exact ⟨h.cfg, h.chain, h.election⟩

theorem sameTables_recomputeLevel : SameTables r (recomputeLevel r) := by
  simp only [recomputeLevel]
  split <;> exact ⟨rfl, rfl, rfl⟩

theorem sameTables_announceFocus : SameTables r (announceFocus r) := by
  simp only [announceFocus]
  split
  · exact .refl r
  · split <;> exact ⟨rfl, rfl, rfl⟩

theorem sameTables_drainUhrp : SameTables r (drainUhrp r) := by
  let r0 : Router := { r with uhrp := (takeEvents r.uhrp).2 }
  let r1 := if r.uhrp.ev.broadcastRelease then broadcastReleaseAll r0 else r0
  let r2 := if r.uhrp.ev.sendResign then r1.emit (.send msgResign addrBroadcast []) else r1
  let r3 := if r.uhrp.ev.sendHello then r2.emit (.send msgHello addrBroadcast (helloPack (buildHello r2.uhrp))) else r2
  have h0 : SameTables r r0 := ⟨rfl, rfl, rfl⟩
  have h1 : SameTables r r1 := h0.ite _ ⟨rfl, rfl, rfl⟩
  have h2 : SameTables r r2 := h1.ite _ ((SameTables.refl r1).emit _)
  have h3 : SameTables r r3 := h2.ite _ ((SameTables.refl r2).emit _)
  have h4 : SameTables r3 (if isActive r3 then announceFocus r3 else r3) :=
    (SameTables.refl r3).ite _ (sameTables_announceFocus r3)
  exact h3.ite r.uhrp.ev.stateChanged (h4.trans (sameTables_recomputeLevel _))

/-- The election is asked, and what it asks for is done. -/
theorem sameTables_settle (hd : r.uhrp.ev = Events.none) (c : Call) :
    SameTables r (recomputeLevel (drainUhrp { r with uhrp := call r.uhrp c })) := by
  have hc : SameTables r { r with uhrp := call r.uhrp c } := by
    have hu : (takeEvents r.uhrp).2 = r.uhrp := by
      show ({ r.uhrp with ev := Events.none } : Uhrp) = r.uhrp
      rw [← hd]
    refine ⟨rfl, rfl, ?_⟩
    rw [← hu]
    exact Election.step_cfg r.uhrp c
  exact (hc.trans (sameTables_drainUhrp _)).trans (sameTables_recomputeLevel _)

theorem sameTables_noteKeysHeld : SameTables r (noteKeysHeld r) := by
  have h : SameTables r { r with uhrp := setKeysHeld r.uhrp (hidAnyHeld r.hid) } := ⟨rfl, rfl, rfl⟩
  exact h.trans (sameTables_drainUhrp _)

theorem sameTables_forwardInput {r' : Router} {kind : Byte} {report : List Byte} (h : forwardInput r kind report = some r') :
    SameTables r r' := by
  rcases (forwardInput_some h).2 with rfl | rfl
  · exact .refl _
  · exact (SameTables.refl r).emit _

/-! ## Operation by operation -/

theorem sameTables_localKbd (rep : KbdReport) : SameTables r (routerLocalKbd r rep) := by
  unfold routerLocalKbd
  split
  · rename_i h
    exact sameTables_forwardInput r h
  · exact (sameTables_sendKbdTo r r.focus rep).trans (sameTables_noteKeysHeld _)

theorem sameTables_localMouse (rep : MouseReport) (now : Time) : SameTables r (routerLocalMouse r rep now) := by
  simp only [routerLocalMouse]
  split
  · rename_i h
    exact sameTables_forwardInput r h
  · have hp : SameTables r { r with pointer := (pointerFeed r.pointer rep.dx rep.dy now).2 } := ⟨rfl, rfl, rfl⟩
    split
    · exact hp.trans (sameTables_applyFocus _ _ _ _ _ _)
    · exact (hp.trans (sameTables_sendMouseTo _ _ rep)).trans (sameTables_noteKeysHeld _)

theorem sameTables_button (now : Time) : SameTables r (routerButton r now) := by
  simp only [routerButton]
  split
  · exact .refl r
  · exact sameTables_applyFocus _ _ _ _ _ _

theorem sameTables_rxFocus (fo : Focus) : SameTables r (rxFocus r fo) := by
  simp only [rxFocus]
  split
  · exact .refl r
  · have h : SameTables r ({ r with focus := fo.target }.emit (.focusChanged fo.target (fo.target == r.cfg.self))) :=
      ⟨rfl, rfl, rfl⟩
    split
    · exact h.trans (sameTables_releaseMachine _ _)
    · exact h

theorem sameTables_rxInput (f : Frame) (now : Time) : SameTables r (rxInput r f now) := by
  unfold rxInput
  split
  · exact .refl r
  split
  · exact .refl r
  split
  · exact .refl r
  split
  · split
    · exact .refl r
    · exact sameTables_localKbd r _
  split
  · split
    · exact .refl r
    · exact sameTables_localMouse r _ now
  · exact .refl r

theorem informed_other {f : Frame} (hf : f.type ≠ msgHello) (inPort : Port) (now : Time) :
    informed r (.rx f inPort now) = learnPosition { r with out := [] } f inPort now := by
  simp only [informed]
  split
  · rfl
  · exact if_neg hf

/-- Past the learning, no frame changes the tables. -/
theorem sameTables_rx (hd : r.uhrp.ev = Events.none) (f : Frame) (inPort : Port) (now : Time) :
    SameTables (informed r (.rx f inPort now)) (step r (.rx f inPort now)) := by
  have hl := learnPosition_same { r with out := [] } f inPort now
  have hev : (learnPosition { r with out := [] } f inPort now).uhrp.ev = Events.none := by rw [hl.uhrp]; exact hd
  by_cases hh : f.type = msgHello
  · simp only [step, apply, routerRx, informed, if_pos hh]
    generalize learnPosition { r with out := [] } f inPort now = s at hev
    cases helloUnpack f.payload with
    | none => exact .refl s
    | some h =>
      have hc := learnCaps_same s f.src h
      have hs := sameTables_settle (learnCaps s f.src h) (by rw [hc.uhrp]; exact hev) (.hello f.src h now.toNat)
      simp only [call, UInt32.ofNat_toNat] at hs
      exact hs
  · rw [informed_other r hh]
    simp only [step, apply, routerRx, if_neg hh]
    generalize learnPosition { r with out := [] } f inPort now = s at hev
    split
    · have hs := sameTables_settle s hev (.resign f.src now.toNat)
      simp only [call, UInt32.ofNat_toNat] at hs
      exact hs
    split
    · split
      · exact .refl s
      · exact (SameTables.refl s).emit _
    split
    · split
      · exact .refl s
      · exact (SameTables.refl s).emit _
    split
    · split
      · exact .refl s
      · exact sameTables_rxFocus s _
    split
    · exact (SameTables.refl s).emit _
    split
    · exact sameTables_rxInput s f now
    split
    · exact ⟨rfl, rfl, rfl⟩
    · exact .refl s

/-- No operation but a change of capabilities touches more of the tables than a received
    frame tells. -/
theorem sameTables_step (hd : r.uhrp.ev = Events.none) (op : Op) (hop : ∀ caps, op ≠ .setCaps caps) :
    SameTables (informed r op) (step r op) := by
  cases op with
  | start now =>
    have hs : SameTables { r with out := [] } { r with
        out := [], uhrp := uhrpStart r.uhrp now, pointer := pointerArrive r.pointer .none now } := by
      refine ⟨rfl, rfl, ?_⟩
      simp only [uhrpStart, enterState]
      split <;> rfl
    exact hs.trans (sameTables_drainUhrp _)
  | localKbd rep => exact sameTables_localKbd { r with out := [] } rep
  | localMouse rep now => exact sameTables_localMouse { r with out := [] } rep now
  | button now => exact sameTables_button { r with out := [] } now
  | setFocus target reason now => exact sameTables_applyFocus { r with out := [] } target reason .none now true
  | rx f inPort now => exact sameTables_rx r hd f inPort now
  | tick now =>
    have hs := sameTables_settle (informed r (.tick now)) hd (.tick now.toNat)
    simp only [call, UInt32.ofNat_toNat] at hs
    exact hs
  | setCaps caps => exact absurd rfl (hop caps)

/-- A frame of another board leaves the board's own entry alone. -/
theorem informed_own {op : Op} (hop : ∀ f inPort now, op = .rx f inPort now → f.src ≠ r.cfg.self) :
    (informed r op).cfg = r.cfg ∧ (informed r op).uhrp = r.uhrp ∧
      (informed r op).chain.find? r.cfg.self = r.chain.find? r.cfg.self := by
  have hlearn : ∀ {s : Router} {addr : Addr} {chain : Chain} (g : ChainEntry → ChainEntry),
      (∀ e, (g e).addr = e.addr) → addr ≠ r.cfg.self → chainGet s addr = some chain →
      (chain.modify addr g).find? r.cfg.self = s.chain.find? r.cfg.self := by
    intro s addr chain g hg hne hc
    obtain ⟨⟨e, t⟩, he, rfl⟩ := Option.map_eq_some_iff.mp hc
    rw [Slots.find?_modify_ne t hne.symm g fun e _ hk _ => (hg e).trans hk]
    exact Slots.find?_ensure_ne he hne.symm
  cases op with
  | rx f inPort now =>
    have hne := hop f inPort now rfl
    have hl := learnPosition_same { r with out := [] } f inPort now
    have hf : (learnPosition { r with out := [] } f inPort now).chain.find? r.cfg.self = r.chain.find? r.cfg.self := by
      unfold learnPosition
      split
      · rfl
      split
      · rfl
      · rename_i chain hc
        exact hlearn _ (fun _ => rfl) hne hc
    simp only [informed]
    split
    · exact ⟨hl.cfg, hl.uhrp, hf⟩
    split
    · rename_i h _ _
      have hc := learnCaps_same (learnPosition { r with out := [] } f inPort now) f.src h
      refine ⟨hc.cfg.trans hl.cfg, hc.uhrp.trans hl.uhrp, Eq.trans ?_ hf⟩
      unfold learnCaps
      split
      · rfl
      · rename_i chain hc
        exact hlearn _ (fun _ => rfl) hne hc
    · exact ⟨hl.cfg, hl.uhrp, hf⟩
  | _ => exact ⟨rfl, rfl, rfl⟩

/-- An operation on no frame of the board's own keeps the configurations and the board's
    own entry, if it does not change the capabilities. -/
theorem own_step (hd : r.uhrp.ev = Events.none) {op : Op} (hop : ∀ caps, op ≠ .setCaps caps)
    (hsrc : ∀ f inPort now, op = .rx f inPort now → f.src ≠ r.cfg.self) :
    (step r op).cfg = r.cfg ∧ (step r op).uhrp.cfg = r.uhrp.cfg ∧
      (step r op).chain.find? r.cfg.self = r.chain.find? r.cfg.self := by
  have h := sameTables_step r hd op hop
  obtain ⟨h1, h2, h3⟩ := informed_own r hsrc
  exact ⟨h.cfg.trans h1, h.election.trans (congrArg (·.cfg) h2), (congrArg (·.find? r.cfg.self) h.chain).trans h3⟩

end DeskHop.Routing
