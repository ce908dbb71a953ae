/-
  DeskHop.Routing.Alone — a router that hears no frame.

  Such is the router of a board without a chain key. It is ticked all the same, for the board
  is a keyboard and mouse to its own machine: it listens for as long as any board does, takes
  the role, and has the focus on its own machine from then on.

  Proved: what it is given while it listens goes nowhere (`Listening.early`, `Listening.step`), and
  each report it is given later goes to its own machine as it is (`Listening.ripe`, `Serving.step`);
  no button and no gesture leads away, for there is nowhere to go.
-/

import DeskHop.Election.Table
import DeskHop.Routing.Effect
import DeskHop.Routing.Screens

namespace DeskHop.Routing

open DeskHop.Lib DeskHop.Election DeskHop.Wire

/-- What the board's own machine is given. -/
def isDelivery : Act → Bool
  | .deliverKbd _ => true
  | .deliverMouse _ => true
  | _ => false

def toMachine (acts : List Act) : List Act := acts.filter isDelivery

/-- A report of the board's own devices, for its own machine. -/
def ownReport : Op → List Act
  | .localKbd rep => [.deliverKbd rep]
  | .localMouse rep _ => [.deliverMouse rep]
  | _ => []

/-- What a router is asked that hears no frame and is not told where to look. -/
def Unasked : Op → Prop
  | .start _ => False
  | .setFocus _ _ _ => False
  | .rx _ _ _ => False
  | .setCaps caps => hasCap caps capHidOut = true
  | _ => True

/-! ## The election -/

theorem foldl_stays {α β : Type} {f : β → α → β} {b : β} {l : List α} (h : ∀ a ∈ l, f b a = b) : l.foldl f b = b := by
  induction l with
  | nil => rfl
  | cons a l ih =>
    rw [List.foldl_cons, h a List.mem_cons_self]
    exact ih fun x hx => h x (List.mem_cons_of_mem a hx)

/-- Nobody has been heard. -/
def Unheard (u : Uhrp) : Prop := ∀ p ∈ u.peers.cells, p.used = false

section

variable {u : Uhrp} (h : Unheard u)

include h

theorem Unheard.active : findActivePeer u = none := by
  refine List.find?_eq_none.mpr fun p hp => ?_
  simp [h p hp]

theorem Unheard.field : field u = fieldSelf u := by
  refine foldl_stays fun p hp => ?_
  simp [fieldPeer, h p hp]

theorem Unheard.aged (now : Time) : peerAge u now = u := by
  have hpeers : (peerAge u now).peers = u.peers := aged_peers fun p hp hused => by
    rw [h p hp] at hused
    cases hused
  show ({ u with peers := (peerAge u now).peers } : Uhrp) = u
  rw [hpeers]

/-- An evaluation that leaves the role where it is says at most hello. -/
theorem Unheard.tick_greets {v : Uhrp} {now : Time} (hs : u.started = true) (hv : vacated u now = false)
    (hd : decideRole u now = v) : ∃ b t, tick u now = { v with ev := { v.ev with sendHello := b }, tNextHello := t } := by
  have hre : reevaluate u now = v := by
    rw [reevaluate, if_neg (by simp [hs]), h.aged, hd]
  simp only [tick, hs, hv, hre, Bool.not_true, Bool.false_eq_true, if_false]
  split
  · exact ⟨true, _, rfl⟩
  · exact ⟨v.ev.sendHello, v.tNextHello, rfl⟩

theorem Unheard.learning {now : Time} (hl : u.state = .learn)
    (hnot : timeAfter now (u.tStateEntered + u.cfg.timing.learnMs.toUInt32) = false) :
    decideRole u now = { u with standby := (Election.field u).backupAddr } := by
  simp [decideRole, hl, reevaluateLearn, h.active, hnot]

/-- The field it has learnt holds nobody but itself. -/
theorem Unheard.learnt {now : Time} (hl : u.state = .learn)
    (hdue : timeAfter now (u.tStateEntered + u.cfg.timing.learnMs.toUInt32) = true) :
    decideRole u now = becomeActive { u with standby := (Election.field u).backupAddr } now true := by
  have hbest : (Election.field u).bestIsSelf = true := by
    rw [h.field, fieldSelf]
    split <;> rfl
  simp [decideRole, hl, reevaluateLearn, h.active, hdue, hbest]

theorem Unheard.holding {now : Time} (ha : u.state = .active) (hp : u.resignPending = false) :
    decideRole u now = { u with standby := (Election.field u).backupAddr } := by
  have hbest : (Election.field u).bestIsSelf = true := by
    rw [h.field, fieldSelf]
    split <;> rfl
  simp [decideRole, ha, reevaluateActive, outPrioritised, h.active, hbest, serviceResign, hp]

end

/-! ## What its machine is told -/

/-- The machine is told nothing, and the focus stays. -/
structure Mum (r s : Router) : Prop where
  cfg : s.cfg = r.cfg
  chain : s.chain = r.chain
  focus : s.focus = r.focus
  out : toMachine s.out = toMachine r.out

theorem Mum.refl (r : Router) : Mum r r := ⟨rfl, rfl, rfl, rfl⟩

theorem Mum.trans {r s t : Router} (h : Mum r s) (h' : Mum s t) : Mum r t :=
  ⟨h'.cfg.trans h.cfg, h'.chain.trans h.chain, h'.focus.trans h.focus, h'.out.trans h.out⟩

theorem toMachine_snoc (acts : List Act) {a : Act} (h : isDelivery a = false) : toMachine (acts ++ [a]) = toMachine acts := by
  rw [toMachine, List.filter_append, List.filter_singleton, h]
  exact List.append_nil _

theorem mum_emit (r : Router) {a : Act} (h : isDelivery a = false) : Mum r (r.emit a) :=
  ⟨rfl, rfl, rfl, toMachine_snoc r.out h⟩

theorem mum_recomputeLevel (r : Router) : Mum r (recomputeLevel r) := by
  simp only [recomputeLevel]
  split
  · exact ⟨rfl, rfl, rfl, toMachine_snoc r.out rfl⟩
  · exact Mum.refl r

/-- What an election says that changes nothing. -/
theorem mum_drain {r : Router} {b : Bool} (h : r.uhrp.ev = { Events.none with sendHello := b }) : Mum r (drainUhrp r) := by
  simp only [drainUhrp, takeEvents, h, Events.none, Bool.false_eq_true, if_false]
  split
  · exact ⟨rfl, rfl, rfl, toMachine_snoc r.out rfl⟩
  · exact ⟨rfl, rfl, rfl, rfl⟩

theorem mum_entered {r : Router} (h : r.uhrp.ev = { Events.none with stateChanged := true }) (hidle : isActive r = false) :
    Mum r (drainUhrp r) := by
  simp only [drainUhrp, takeEvents, h, Events.none, Bool.false_eq_true, if_false, if_true]
  split
  · rename_i hact
    exact absurd (show isActive r = true from hact) (by simp [hidle])
  · refine Mum.trans ?_ (mum_recomputeLevel _)
    exact ⟨rfl, rfl, rfl, rfl⟩

/-- A board that takes the role, and looks nowhere yet, looks at its own machine. -/
theorem drain_promoted {r : Router} (hev : r.uhrp.ev.broadcastRelease = false ∧ r.uhrp.ev.stateChanged = true)
    (ha : isActive r = true) (hf : r.focus = addrNone) (hn : r.cfg.self ≠ addrNone) (hc : hasCap r.cfg.caps capHidOut = true) :
    Mum { r with focus := r.cfg.self } (drainUhrp r) := by
  have hact (s : Router) (hs : s.uhrp = { r.uhrp with ev := Events.none }) : isActive s = true := by
    rw [isActive, hs]
    exact ha
  have htakes (s : Router) (hs : Mum r s) (hu : s.uhrp = { r.uhrp with ev := Events.none }) :
      Mum { r with focus := r.cfg.self } (recomputeLevel (if isActive s then announceFocus s else s)) := by
    have hto : inheritedFocus s = r.cfg.self := by
      rw [inheritedFocus, if_pos (Or.inl (hs.focus.trans hf)), pickDefaultFocus, hs.cfg, if_pos hc]
    have hne : r.cfg.self ≠ s.focus := by
      rw [hs.focus, hf]
      exact hn
    refine Mum.trans ?_ (mum_recomputeLevel _)
    simp only [hact s hu, if_true, announceFocus, hto, if_neg hn]
    split
    · refine ⟨hs.cfg, hs.chain, rfl, ?_⟩
      exact (toMachine_snoc _ rfl).trans ((toMachine_snoc _ rfl).trans hs.out)
    · rename_i hsame
      exact absurd hne hsame
  have hdrop : Mum r { r with uhrp := { r.uhrp with ev := Events.none } } := ⟨rfl, rfl, rfl, rfl⟩
  simp only [drainUhrp, takeEvents, hev.1, hev.2, Bool.false_eq_true, if_false, if_true]
  cases r.uhrp.ev.sendResign <;> cases r.uhrp.ev.sendHello <;> simp only [Bool.false_eq_true, if_false, if_true]
  · exact htakes _ hdrop rfl
  · exact htakes _ (hdrop.trans (mum_emit _ rfl)) rfl
  · exact htakes _ (hdrop.trans (mum_emit _ rfl)) rfl
  · exact htakes _ ((hdrop.trans (mum_emit _ rfl)).trans (mum_emit _ rfl)) rfl

/-! ## A router that hears no frame -/

structure Alone (r : Router) : Prop where
  named : r.cfg.self ≠ addrNone
  screen : hasCap r.cfg.caps capHidOut = true
  drained : r.uhrp.ev = Events.none
  unheard : Unheard r.uhrp
  chain : ∀ e ∈ r.chain.cells, e.used = true → e.addr = r.cfg.self
  started : r.uhrp.started = true
  calm : r.uhrp.resignPending = false

/-- It still listens, until `due`. -/
structure Listening (due : Time) (r : Router) : Prop extends Alone r where
  state : r.uhrp.state = .learn
  follows : r.uhrp.active = addrNone
  fresh : r.uhrp.activeValid = false
  focus : r.focus = addrNone
  due : r.uhrp.tStateEntered + r.uhrp.cfg.timing.learnMs.toUInt32 = due

/-- It has the role, and looks at its own machine. -/
structure Serving (r : Router) : Prop extends Alone r where
  state : r.uhrp.state = .active
  focus : r.focus = r.cfg.self

theorem Alone.keep {r s : Router} (h : Alone r) (hcfg : s.cfg = r.cfg) (hchain : s.chain = r.chain)
    (hpeers : s.uhrp.peers = r.uhrp.peers) (hstarted : s.uhrp.started = true) (hcalm : s.uhrp.resignPending = false)
    (hev : s.uhrp.ev = Events.none) : Alone s := by
  refine ⟨?_, ?_, hev, ?_, ?_, hstarted, hcalm⟩
  · rw [hcfg]
    exact h.named
  · rw [hcfg]
    exact h.screen
  · rw [Unheard, hpeers]
    exact h.unheard
  · rw [hchain, hcfg]
    exact h.chain

theorem step_tick_uhrp (r : Router) (now : Time) : (step r (.tick now)).uhrp = { tick r.uhrp now with ev := Events.none } := by
  show (routerTick _ now).uhrp = _
  rw [routerTick, recomputeLevel_uhrp, drainUhrp_uhrp]
  rfl

/-- What a tick finds before its events are acted on. -/
def ticked (r : Router) (now : Time) : Router := { r with uhrp := tick r.uhrp now, out := [.linkTick now] }

theorem step_tick_ticked (r : Router) (now : Time) : step r (.tick now) = recomputeLevel (drainUhrp (ticked r now)) := rfl

/-- New capabilities, among them the screen, which every chain board has. -/
theorem Alone.setCaps {r : Router} (h : Alone r) {caps : UInt16} (hc : hasCap caps capHidOut = true) :
    Alone (step r (.setCaps caps)) := by
  show Alone (routerSetCaps _ caps)
  unfold routerSetCaps
  split
  · exact h.keep rfl rfl rfl h.started h.calm h.drained
  · refine ⟨h.named, hc, h.drained, h.unheard, fun e he hu => ?_, h.started, h.calm⟩
    rcases Slots.mem_modify he with he | ⟨x, hx, hused, -, rfl⟩
    · exact h.chain e he hu
    · exact h.chain x hx hused

/-! ## The start -/

theorem alone_init {cfg : RouterCfg} (hn : cfg.self ≠ addrNone) (hc : hasCap cfg.caps capHidOut = true) (now : Time) :
    Alone { routerInit cfg with uhrp := { uhrpStart (routerInit cfg).uhrp now with ev := Events.none } } := by
  refine ⟨hn, hc, rfl, fun p hp => ?_, fun e he hu => ?_, rfl, rfl⟩
  · exact (List.eq_of_mem_replicate (n := maxBoards) hp) ▸ rfl
  · obtain ⟨t, hchain, ht⟩ := claim_init cfg
    have he : e ∈ (routerInit cfg).chain.cells := he
    rw [hchain] at he
    rcases Slots.mem_claim ht he with he | rfl
    · rw [List.eq_of_mem_replicate he] at hu
      cases hu
    · rfl

/-- A board listens before it speaks. -/
theorem listening_start {cfg : RouterCfg} (hn : cfg.self ≠ addrNone) (hc : hasCap cfg.caps capHidOut = true)
    (ht : cfg.timing.helloMs ≠ 0) (now : Time) :
    Listening (now + cfg.timing.learnMs.toUInt32) (step (routerInit cfg) (.start now)) ∧
      toMachine (step (routerInit cfg) (.start now)).out = [] := by
  have halone := alone_init hn hc now
  have htiming : (routerInit cfg).uhrp.cfg.timing = cfg.timing := by
    simp only [routerInit, uhrpInit, if_true, if_neg ht]
  let q : Router := { routerInit cfg with
    uhrp := uhrpStart (routerInit cfg).uhrp now, pointer := pointerArrive (routerInit cfg).pointer .none now, out := [] }
  have hev : q.uhrp.ev = { Events.none with stateChanged := true } := rfl
  have hmum : Mum q (drainUhrp q) := mum_entered hev rfl
  have hu : (drainUhrp q).uhrp = { uhrpStart (routerInit cfg).uhrp now with ev := Events.none } := drainUhrp_uhrp q
  have hstep : step (routerInit cfg) (.start now) = drainUhrp q := rfl
  rw [hstep]
  refine ⟨⟨halone.keep hmum.cfg hmum.chain ?_ ?_ ?_ ?_, ?_, ?_, ?_, hmum.focus, ?_⟩, hmum.out⟩
  · rw [hu]
  · rw [hu]
    rfl
  · rw [hu]
    rfl
  · rw [hu]
  · rw [hu]
    rfl
  · rw [hu]
    rfl
  · rw [hu]
    rfl
  · rw [hu]
    show now + (routerInit cfg).uhrp.cfg.timing.learnMs.toUInt32 = _
    rw [htiming]

/-! ## While it listens -/

namespace Listening

variable {due : Time} {r : Router} (h : Listening due r)

include h

theorem idle : isActive r = false := by
  rw [isActive, Election.isActive, h.state]
  rfl

theorem not_vacated (now : Time) : vacated r.uhrp now = false := by
  simp [vacated, h.follows]

/-- A tick before the time has come. -/
theorem early {now : Time} (hnot : timeAfter now due = false) :
    Listening due (step r (.tick now)) ∧ toMachine (step r (.tick now)).out = [] := by
  obtain ⟨b, t, htick⟩ := h.unheard.tick_greets h.started (h.not_vacated now)
    (h.unheard.learning h.state (h.due.symm ▸ hnot))
  have hmum : Mum (ticked r now) (step r (.tick now)) := by
    rw [step_tick_ticked]
    refine (mum_drain (b := b) ?_).trans (mum_recomputeLevel _)
    show (tick r.uhrp now).ev = _
    rw [htick]
    show ({ r.uhrp.ev with sendHello := b } : Events) = _
    rw [h.drained]
  have hu := step_tick_uhrp r now
  rw [htick] at hu
  refine ⟨⟨h.keep hmum.cfg hmum.chain ?_ ?_ ?_ ?_, ?_, ?_, ?_, hmum.focus.trans h.focus, ?_⟩, hmum.out⟩
  all_goals rw [hu]
  · exact h.started
  · exact h.calm
  · exact h.state
  · exact h.follows
  · exact h.fresh
  · exact h.due

/-- The tick that takes the role. -/
theorem ripe {now : Time} (hdue : timeAfter now due = true) :
    Serving (step r (.tick now)) ∧ toMachine (step r (.tick now)).out = [] := by
  obtain ⟨b, t, htick⟩ := h.unheard.tick_greets h.started (h.not_vacated now)
    (h.unheard.learnt h.state (h.due.symm ▸ hdue))
  have hrole : tick r.uhrp now = { tick r.uhrp now with
      state := .active, resignPending := false, peers := r.uhrp.peers, started := r.uhrp.started
      ev := { (tick r.uhrp now).ev with broadcastRelease := false, stateChanged := true } } := by
    rw [htick]
    simp [becomeActive, enterState, h.state, h.fresh, h.drained, Events.none]
  have hpromoted : Mum { ticked r now with focus := r.cfg.self } (drainUhrp (ticked r now)) := by
    refine drain_promoted ⟨?_, ?_⟩ ?_ h.focus h.named h.screen
    · show (tick r.uhrp now).ev.broadcastRelease = false
      rw [hrole]
    · show (tick r.uhrp now).ev.stateChanged = true
      rw [hrole]
    · show Election.isActive (tick r.uhrp now) = true
      rw [hrole]
      rfl
  have hmum := hpromoted.trans (mum_recomputeLevel _)
  have hu := step_tick_uhrp r now
  rw [hrole] at hu
  refine ⟨⟨h.keep hmum.cfg hmum.chain ?_ ?_ ?_ ?_, ?_, hmum.focus.trans (congrArg RouterCfg.self hmum.cfg).symm⟩, hmum.out⟩
  all_goals rw [hu]
  exact h.started

/-- What it is given goes nowhere. -/
theorem forwards (kind : Byte) (report : List Byte) :
    forwardInput { r with out := [] } kind report = some { r with out := [] } := by
  have hidle : isActive { r with out := [] } = false := h.idle
  have hnobody : ({ r with out := [] } : Router).uhrp.active = addrNone := h.follows
  rw [forwardInput, if_neg (by simp [hidle]), if_pos hnobody]
  split <;> rfl

theorem cleared : Listening due { r with out := [] } :=
  ⟨h.keep rfl rfl rfl h.started h.calm h.drained, h.state, h.follows, h.fresh, h.focus, h.due⟩

/-- Whatever it is asked but to let time pass. -/
theorem step {op : Op} (ho : Unasked op) (hnot : ∀ now, op ≠ .tick now) :
    Listening due (step r op) ∧ toMachine (Routing.step r op).out = [] := by
  cases op with
  | start now => exact ho.elim
  | setFocus target reason now => exact ho.elim
  | rx f inPort now => exact ho.elim
  | tick now => exact absurd rfl (hnot now)
  | localKbd rep =>
    have hsame : Routing.step r (.localKbd rep) = { r with out := [] } := by
      show routerLocalKbd _ rep = _
      rw [routerLocalKbd, h.forwards]
    rw [hsame]
    exact ⟨h.cleared, rfl⟩
  | localMouse rep now =>
    have hsame : Routing.step r (.localMouse rep now) = { r with out := [] } := by
      show routerLocalMouse _ rep now = _
      rw [routerLocalMouse, h.forwards]
    rw [hsame]
    exact ⟨h.cleared, rfl⟩
  | button now =>
    have hsame : Routing.step r (.button now) = { r with out := [] } := by
      have hidle : isActive { r with out := [] } = false := h.idle
      show routerButton _ now = _
      rw [routerButton, if_pos (by simp [hidle])]
    rw [hsame]
    exact ⟨h.cleared, rfl⟩
  | setCaps caps =>
    have halone := h.toAlone.setCaps ho
    revert halone
    show Alone (routerSetCaps _ caps) → Listening due (routerSetCaps _ caps) ∧ toMachine (routerSetCaps _ caps).out = []
    unfold routerSetCaps
    intro halone
    split
    · exact ⟨h.cleared, rfl⟩
    · rename_i hne
      rw [if_neg hne] at halone
      exact ⟨⟨halone, h.state, h.follows, h.fresh, h.focus, h.due⟩, rfl⟩

end Listening

/-! ## With the role -/

namespace Serving

variable {r : Router} (h : Serving r)

include h

theorem cleared : Serving { r with out := [] } := ⟨h.keep rfl rfl rfl h.started h.calm h.drained, h.state, h.focus⟩

theorem active : isActive r = true := by
  rw [isActive, Election.isActive, h.state]
  rfl

theorem mine (kind : Byte) (report : List Byte) : forwardInput r kind report = none := if_pos h.active

/-- There is nowhere to go. -/
theorem stays (edge : Edge) : crossingTarget r edge = addrNone := by
  have hown : r.chain.cells.foldl (neighbourStep r r.cfg.self 0 (if edge = .left ∨ edge = .up then -1 else 1)) (addrNone, 0) =
      (addrNone, 0) := by
    refine foldl_stays fun e he => ?_
    cases hu : e.used with
    | false => simp [neighbourStep, hu]
    | true => simp [neighbourStep, hu, h.chain e he hu]
  rw [crossingTarget, h.focus, neighbourOf, if_pos rfl]
  exact congrArg Prod.fst hown

/-- The button goes round the board's own machine. -/
theorem tours {t : Tour} (ht : t = r.chain.cells.foldl (tourStep r 0) ⟨addrNone, 0, addrNone, 0⟩) :
    t.next = addrNone ∧ (t.wrap = addrNone ∨ t.wrap = r.cfg.self) := by
  subst ht
  refine List.foldlRecOn (motive := fun t : Tour => t.next = addrNone ∧ (t.wrap = addrNone ∨ t.wrap = r.cfg.self)) _ _
    ⟨rfl, Or.inl rfl⟩ fun t ht e he => ?_
  by_cases hout : !e.used || !hasCap e.caps capHidOut
  · rw [tourStep, if_pos hout]
    exact ht
  · have hused : e.used = true := by
      cases hu : e.used with
      | true => rfl
      | false => simp [hu] at hout
    have haddr : e.addr = r.cfg.self := h.chain e he hused
    have hpos : posOf r e = 0 := by rw [posOf, if_pos haddr]
    rw [tourStep, if_neg hout]
    simp only [hpos, Int.lt_irrefl, gt_iff_lt, false_and, if_false]
    split
    · exact ⟨ht.1, Or.inr haddr⟩
    · exact ht

theorem button (now : Time) : routerButton r now = r := by
  have hcur : (if r.focus = r.cfg.self then (0 : Int) else ((chainFind r r.focus).map (·.relPos)).getD 0) = 0 := if_pos h.focus
  obtain ⟨hnext, hwrap⟩ := h.tours rfl
  simp only [routerButton, h.active, Bool.not_true, Bool.false_eq_true, if_false, hcur, hnext, if_true]
  rw [applyFocus, if_pos]
  rcases hwrap with hw | hw
  · exact Or.inl hw
  · exact Or.inr (hw.trans h.focus.symm)

/-- What tells the machine something leaves the router where it is. -/
theorem told {s : Router} (hcfg : s.cfg = r.cfg) (hchain : s.chain = r.chain) (hfocus : s.focus = r.focus)
    (hu : s.uhrp = r.uhrp) : Serving (noteKeysHeld s) ∧ (noteKeysHeld s).out = s.out := by
  have hsame := noteKeysHeld_same (r := s) (hu.symm ▸ h.drained)
  rw [hsame]
  refine ⟨⟨h.keep hcfg hchain ?_ ?_ ?_ ?_, ?_, ?_⟩, rfl⟩
  · show s.uhrp.peers = r.uhrp.peers
    rw [hu]
  · show s.uhrp.started = true
    rw [hu]
    exact h.started
  · show s.uhrp.resignPending = false
    rw [hu]
    exact h.calm
  · show s.uhrp.ev = Events.none
    rw [hu]
    exact h.drained
  · show s.uhrp.state = .active
    rw [hu]
    exact h.state
  · exact hfocus.trans (h.focus.trans (congrArg RouterCfg.self hcfg).symm)

theorem localKbd (rep : KbdReport) :
    Serving (step r (.localKbd rep)) ∧ (step r (.localKbd rep)).out = [.deliverKbd rep] := by
  show Serving (routerLocalKbd _ rep) ∧ (routerLocalKbd _ rep).out = _
  rw [routerLocalKbd, h.cleared.mine]
  have hto : sendKbdTo { r with out := [] } r.focus rep =
      { r with hid := hidNoteKbd r.hid (slotOf { r with out := [] } r.focus) rep, out := [.deliverKbd rep] } := by
    rw [sendKbdTo]
    exact if_pos h.focus
  show Serving (noteKeysHeld (sendKbdTo _ r.focus rep)) ∧ (noteKeysHeld (sendKbdTo _ r.focus rep)).out = _
  rw [hto]
  exact h.told rfl rfl rfl rfl

theorem localMouse (rep : MouseReport) (now : Time) :
    Serving (step r (.localMouse rep now)) ∧ (step r (.localMouse rep now)).out = [.deliverMouse rep] := by
  show Serving (routerLocalMouse _ rep now) ∧ (routerLocalMouse _ rep now).out = _
  rw [routerLocalMouse, h.cleared.mine]
  generalize pointerFeed r.pointer rep.dx rep.dy now = fed
  obtain ⟨edge, pointer⟩ := fed
  have hserving : Serving { r with pointer := pointer, out := [] } :=
    ⟨h.keep rfl rfl rfl h.started h.calm h.drained, h.state, h.focus⟩
  have hto : sendMouseTo { r with pointer := pointer, out := [] } r.focus rep =
      { r with
        pointer := pointer
        hid := hidNoteMouse r.hid (slotOf { r with pointer := pointer, out := [] } r.focus) rep.buttons
        out := [.deliverMouse rep] } := by
    rw [sendMouseTo]
    exact if_pos h.focus
  simp only [hserving.stays, ne_eq, not_true_eq_false, and_false, if_false]
  show Serving (noteKeysHeld (sendMouseTo _ r.focus rep)) ∧ (noteKeysHeld (sendMouseTo _ r.focus rep)).out = _
  rw [hto]
  exact h.told rfl rfl rfl rfl

theorem tick (now : Time) : Serving (step r (.tick now)) ∧ toMachine (step r (.tick now)).out = [] := by
  have hnv : vacated r.uhrp now = false := by simp [vacated, h.state]
  obtain ⟨b, t, htick⟩ := h.unheard.tick_greets h.started hnv (h.unheard.holding h.state h.calm)
  have hmum : Mum (ticked r now) (step r (.tick now)) := by
    rw [step_tick_ticked]
    refine (mum_drain (b := b) ?_).trans (mum_recomputeLevel _)
    show (Election.tick r.uhrp now).ev = _
    rw [htick]
    show ({ r.uhrp.ev with sendHello := b } : Events) = _
    rw [h.drained]
  have hu := step_tick_uhrp r now
  rw [htick] at hu
  refine ⟨⟨h.keep hmum.cfg hmum.chain ?_ ?_ ?_ ?_, ?_, ?_⟩, hmum.out⟩
  · rw [hu]
  · rw [hu]
    exact h.started
  · rw [hu]
    exact h.calm
  · rw [hu]
  · rw [hu]
    exact h.state
  · exact hmum.focus.trans (h.focus.trans (congrArg RouterCfg.self hmum.cfg).symm)

/-- Whatever it is asked, each report goes to its machine as it is, and nothing else does. -/
theorem step {op : Op} (ho : Unasked op) : Serving (step r op) ∧ toMachine (Routing.step r op).out = ownReport op := by
  cases op with
  | start now => exact ho.elim
  | setFocus target reason now => exact ho.elim
  | rx f inPort now => exact ho.elim
  | tick now => exact h.tick now
  | localKbd rep =>
    obtain ⟨hs, hout⟩ := h.localKbd rep
    exact ⟨hs, congrArg toMachine hout⟩
  | localMouse rep now =>
    obtain ⟨hs, hout⟩ := h.localMouse rep now
    exact ⟨hs, congrArg toMachine hout⟩
  | button now =>
    have hsame : Routing.step r (.button now) = { r with out := [] } := h.cleared.button now
    rw [hsame]
    exact ⟨h.cleared, rfl⟩
  | setCaps caps =>
    have halone := h.toAlone.setCaps ho
    revert halone
    show Alone (routerSetCaps _ caps) → Serving (routerSetCaps _ caps) ∧ toMachine (routerSetCaps _ caps).out = []
    unfold routerSetCaps
    intro halone
    split
    · exact ⟨h.cleared, rfl⟩
    · rename_i hne
      rw [if_neg hne] at halone
      exact ⟨⟨halone, h.state, h.focus⟩, rfl⟩

end Serving

end DeskHop.Routing
