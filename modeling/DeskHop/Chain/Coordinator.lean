/-
  DeskHop.Chain.Coordinator — the coordinator daemon (`coordinator/src/main.c`): its link
  and pairing machine, its router, its control socket and its status panel, and the loop
  that ties them. One turn of the loop is a `Pass`; what it draws is logged.

  `asked` is a ghost: something in the turn wants the panel redrawn at its end.

  Proved: a turn that changes the focus or the level asks for that (`work_changed`), and
  only a turn that asks moves the time of the next redraw (`work_due`).
-/

import DeskHop.Chain.Config
import DeskHop.Client.ClientLink
import DeskHop.Routing.Hooks

namespace DeskHop.Chain

open DeskHop.Election DeskHop.Routing DeskHop.Trust DeskHop.Wire

/-! ## State -/

structure DspBoard where
  addr : Addr
  relPos : Int
  isSelf : Bool
  isFocus : Bool
  hasInput : Bool
  isCoord : Bool
  deriving DecidableEq

/-- What the panel shows. -/
structure DspStatus where
  level : Level
  weAreActive : Bool
  state : UhrpState
  linkBaud : UInt32
  uptimeS : UInt32
  pairing : Bool
  sas : Option String
  message : Option String
  board : List DspBoard
  deriving DecidableEq

structure Coordinator where
  cfg : CoordConfig
  node : Coord
  router : Router
  started : Time
  asked : Bool
  /-- Everything drawn so far, and when. -/
  drawn : List (Time × DspStatus)

/-- What comes in on the control socket. -/
inductive Command where
  | status
  | pair (fresh : Fresh)
  | focus (target : Addr)
  | set (key value : String)
  | save
  | other

/-- One turn of the loop. -/
structure Pass where
  /-- What the clock says after the wait. -/
  now : Time
  /-- What it says to whoever asks later in the turn. -/
  wall : Time
  serial : List Byte
  ctl : Option Command
  /-- The key file can be written. -/
  saved : Bool

namespace Coordinator

/-! ## The hooks -/

def nextRender (k : Coordinator) : Time := k.node.panel.nextRender

/-- Redraw promptly. -/
def renderSoon (k : Coordinator) : Coordinator :=
  { k with node := { k.node with panel := { k.node.panel with nextRender := 0 } }, asked := true }

def onLevel (k : Coordinator) (level : Level) (wall : Time) : Coordinator :=
  { k with node := Coord.notice k.node ("LEVEL " ++ toString (Client.levelByte level).toNat) wall }.renderSoon

/-- Input routed to the coordinator has nowhere to go, and it takes no bulk data. -/
def perform (wall : Time) (k : Coordinator) : Act → Coordinator
  | .send type dst payload => { k with node := k.node.send type dst payload }
  | .linkTick now => { k with node := k.node.linkTick now }
  | .focusChanged _ _ => k.renderSoon
  | .levelChanged level => k.onLevel level wall
  | .deliverKbd _ => k
  | .deliverMouse _ => k
  | .deliverData _ => k

def route (k : Coordinator) (op : Routing.Op) (wall : Time) : Coordinator :=
  let r := step k.router op
  r.out.foldl (perform wall) { k with router := { r with out := [] } }

/-! ## One turn of the loop -/

/-- The one cable is a board's down port at the head of the chain, its up port at the tail. -/
def serialPort (k : Coordinator) : Port := if k.cfg.atHead then .down else .up

section

variable (c : Crypto)

def rxByte (p : Pass) (k : Coordinator) (byte : Byte) : Coordinator :=
  let k' := { k with node := k.node.rxByte c k.serialPort byte p.now }
  match (linkRxByte k.node.link k.serialPort byte p.now).2 with
  | .error _ => k'
  | .ok f => if f.type ≠ msgPair && k.node.paired then k'.route (.rx f k.serialPort p.now) p.wall else k'

/-- Pointer and timing changes take effect immediately. -/
def reconfigure (k : Coordinator) (cfg : CoordConfig) : Coordinator :=
  { k with
    cfg := cfg
    router := { k.router with
      pointer := { k.router.pointer with cfg := cfg.pointer }
      uhrp := { k.router.uhrp with cfg := { k.router.uhrp.cfg with timing := cfg.timing } } } }

def ctlHandle (k : Coordinator) (cmd : Command) (wall : Time) : Coordinator :=
  match cmd with
  | .pair fresh => { k with node := Coord.startPairing k.node wall fresh }
  | .focus target => if !isActive k.router then k else k.route (.setFocus target focusRCfg wall) wall
  | .set key value =>
    match coordConfigSet k.cfg key value with
    | .ok cfg => k.reconfigure cfg
    | .error _ => k
  | .status => k
  | .save => k
  | .other => k

def dspBoard (k : Coordinator) (e : ChainEntry) : DspBoard :=
  ⟨e.addr, e.relPos, e.addr == k.router.cfg.self, e.addr == k.router.focus, hasCap e.caps capHidIn,
    hasCap e.caps capCoord⟩

/-- A message is shown for its five seconds. -/
def message (k : Coordinator) (now : Time) : Option String :=
  if k.node.panel.messageActive && !timeAfter now k.node.panel.messageUntil then some k.node.panel.message else none

def dspStatus (k : Coordinator) (now : Time) : DspStatus :=
  { level := k.router.level, weAreActive := isActive k.router, state := k.router.uhrp.state
    linkBaud := k.cfg.linkBaud, uptimeS := (now - k.started) / 1000
    pairing := k.node.pair.state == .waiting || k.node.pair.state == .confirmWait
    sas := if k.node.panel.sas = "" then none else some k.node.panel.sas
    message := k.message now
    board := (k.router.chain.cells.filter (·.used)).map k.dspBoard }

def render (k : Coordinator) (now : Time) : Coordinator :=
  let panel := { k.node.panel with messageActive := (k.message now).isSome }
  { k with node := { k.node with panel := panel }, drawn := k.drawn ++ [(now, k.dspStatus now)] }

/-- The short authentication string is to be seen at once. -/
def pairingDrain (k : Coordinator) (p : Pass) : Coordinator :=
  { k with
    node := Coord.pairingDrain c k.node p.now p.saved
    asked := k.asked || (pairTakeEvents k.node.pair).1.sendConfirm }

def control (k : Coordinator) (p : Pass) : Coordinator :=
  match p.ctl with
  | some cmd => k.ctlHandle cmd p.wall
  | none => k

/-- All of a turn but the panel. -/
def work (k : Coordinator) (p : Pass) : Coordinator :=
  let k := { k with asked := false }
  let k := p.serial.foldl (rxByte c p) k
  let k := k.control p
  let k := { k with node := k.node.tick p.now }
  let k := k.pairingDrain c p
  if k.node.paired then k.route (.tick p.now) p.wall else k

/-- Four times a second is plenty. -/
def refresh (k : Coordinator) (now : Time) : Coordinator :=
  if timeAfter now k.nextRender then
    let k := k.render now
    { k with node := { k.node with panel := { k.node.panel with nextRender := now + 250 } } }
  else k

def pass (k : Coordinator) (p : Pass) : Coordinator := (k.work c p).refresh p.now

end

/-- The start of `main`, with the key in its file, if there is one. -/
def boot (cfg : CoordConfig) (self : Addr) (uid : Uid) (caps : UInt16) (stored : Option Key) (now : Time) : Coordinator :=
  let k : Coordinator :=
    { cfg := cfg, node := Node.boot self uid stored ⟨"", "", 0, false, 0⟩
      router := routerInit ⟨self, uid, caps, true, cfg.timing, cfg.pointer⟩
      started := now, asked := false, drawn := [] }
  let k := k.route (.start now) now
  { k with node := Coord.notice k.node "STARTING" now }

/-! ## What asks for a redraw -/

/-- What of a turn has been done has drawn nothing; if it moved the focus or the level, or
    the time of the next redraw, it has asked for a redraw. -/
structure Asks (k k' : Coordinator) : Prop where
  drawn : k'.drawn = k.drawn
  kept : k'.asked = false → k.asked = false ∧ k'.nextRender = k.nextRender ∧ k'.router.focus = k.router.focus ∧
    k'.router.level = k.router.level
  due : (k.asked = true → k.nextRender = 0) → k'.asked = true → k'.nextRender = 0

namespace Asks

theorem of_same {k k' : Coordinator} (hd : k'.drawn = k.drawn) (ha : k'.asked = k.asked)
    (hn : k'.nextRender = k.nextRender) (hf : k'.router.focus = k.router.focus) (hl : k'.router.level = k.router.level) :
    Asks k k' :=
  ⟨hd, fun h => ⟨ha.symm.trans h, hn, hf, hl⟩, fun h0 h => hn.trans (h0 (ha.symm.trans h))⟩

theorem refl (k : Coordinator) : Asks k k := of_same rfl rfl rfl rfl rfl

theorem trans {k k' k'' : Coordinator} (h1 : Asks k k') (h2 : Asks k' k'') : Asks k k'' := by
  refine ⟨h2.drawn.trans h1.drawn, fun h => ?_, fun h0 => h2.due (h1.due h0)⟩
  obtain ⟨ha2, hn2, hf2, hl2⟩ := h2.kept h
  obtain ⟨ha1, hn1, hf1, hl1⟩ := h1.kept ha2
  exact ⟨ha1, hn2.trans hn1, hf2.trans hf1, hl2.trans hl1⟩

theorem foldl {α : Type} {f : Coordinator → α → Coordinator} (h : ∀ k a, Asks k (f k a)) (l : List α) (k : Coordinator) :
    Asks k (l.foldl f k) := by
  induction l generalizing k with
  | nil => exact refl k
  | cons a l ih => exact (h k a).trans (ih (f k a))

end Asks

/-- The calls of the router change nothing of it, and one that shows something asks. -/
theorem perform_asks (wall : Time) (k : Coordinator) (acts : List Act) :
    (acts.foldl (perform wall) k).router = k.router ∧ (acts.foldl (perform wall) k).drawn = k.drawn ∧
      (acts.foldl (perform wall) k).asked = (k.asked || acts.any Act.shows) ∧
      (acts.foldl (perform wall) k).nextRender = if acts.any Act.shows then 0 else k.nextRender := by
  induction acts generalizing k with
  | nil => simp
  | cons a acts ih =>
    obtain ⟨hr, hd, ha, hn⟩ := ih (perform wall k a)
    rw [List.foldl_cons, hr, hd, ha, hn, List.any_cons]
    have hone : (perform wall k a).router = k.router ∧ (perform wall k a).drawn = k.drawn ∧
        (perform wall k a).asked = (k.asked || a.shows) ∧
        (perform wall k a).nextRender = if a.shows then 0 else k.nextRender := by
      cases a <;> simp [perform, onLevel, renderSoon, nextRender, Act.shows, Node.send, Node.linkTick]
    obtain ⟨hr1, hd1, ha1, hn1⟩ := hone
    refine ⟨hr1, hd1, by rw [ha1, Bool.or_assoc], ?_⟩
    rw [hn1]
    cases a.shows <;> simp

theorem route_asks (k : Coordinator) (op : Routing.Op) (wall : Time) : Asks k (k.route op wall) := by
  obtain ⟨hr, hd, ha, hn⟩ :=
    perform_asks wall { k with router := { step k.router op with out := [] } } (step k.router op).out
  have htells := step_tells k.router op
  unfold route
  refine ⟨hd, fun h => ?_, fun h0 h => ?_⟩
  · rw [ha, Bool.or_eq_false_iff] at h
    obtain ⟨hf, hl⟩ := htells.resolve_right (by rw [h.2]; exact Bool.false_ne_true)
    rw [hn, h.2, hr]
    exact ⟨h.1, rfl, hf, hl⟩
  · rw [hn]
    rw [ha, Bool.or_eq_true] at h
    split
    · rfl
    · rename_i hs
      exact h0 (h.resolve_right hs)

section

variable (c : Crypto)

theorem rxByte_asks (p : Pass) (k : Coordinator) (byte : Byte) : Asks k (rxByte c p k byte) := by
  have hnode : (k.node.rxByte c k.serialPort byte p.now).panel = k.node.panel := by
    unfold Node.rxByte
    generalize linkRxByte k.node.link k.serialPort byte p.now = res
    obtain ⟨link, r⟩ := res
    cases r with
    | error e => rfl
    | ok f =>
      dsimp only
      split <;> rfl
  have h0 : Asks k { k with node := k.node.rxByte c k.serialPort byte p.now } :=
    .of_same rfl rfl (congrArg (·.nextRender) hnode) rfl rfl
  unfold rxByte
  dsimp only
  split
  · exact h0
  split
  · exact h0.trans (route_asks _ _ _)
  · exact h0

theorem ctlHandle_asks (k : Coordinator) (cmd : Command) (wall : Time) : Asks k (k.ctlHandle cmd wall) := by
  cases cmd with
  | pair fresh => exact .of_same rfl rfl rfl rfl rfl
  | focus target =>
    simp only [ctlHandle]
    split
    · exact .refl k
    · exact route_asks k _ wall
  | set key value =>
    simp only [ctlHandle]
    split
    · exact .of_same rfl rfl rfl rfl rfl
    · exact .refl k
  | status => exact .refl k
  | save => exact .refl k
  | other => exact .refl k

theorem pairingDrain_asks (k : Coordinator) (p : Pass) : Asks k (k.pairingDrain c p) := by
  have hnext : (k.pairingDrain c p).nextRender =
      if (pairTakeEvents k.node.pair).1.sendConfirm then 0 else k.nextRender := by
    simp only [pairingDrain, nextRender, Coord.pairingDrain]
    generalize pairTakeEvents k.node.pair = taken
    obtain ⟨ev, pair⟩ := taken
    cases ev.sendConfirm <;> cases ev.sendAbort <;> cases ev.completed <;>
      simp only [Bool.false_eq_true, if_true, if_false, Coord.notice] <;> cases pairChainKey pair <;>
      cases p.saved <;> rfl
  refine ⟨rfl, fun h => ?_, fun h0 h => ?_⟩
  · obtain ⟨ha, hc⟩ := Bool.or_eq_false_iff.mp h
    rw [hnext, hc]
    exact ⟨ha, rfl, rfl, rfl⟩
  · rw [hnext]
    split
    · rfl
    · rename_i hc
      exact h0 ((Bool.or_eq_true _ _ ▸ h).resolve_right hc)

theorem work_asks (k : Coordinator) (p : Pass) : Asks { k with asked := false } (k.work c p) := by
  have hctl : ∀ k : Coordinator, Asks k (k.control p) := by
    intro k
    unfold control
    split
    · exact ctlHandle_asks k _ _
    · exact .refl k
  have htick : ∀ k : Coordinator, Asks k { k with node := k.node.tick p.now } := fun k => .of_same rfl rfl rfl rfl rfl
  have hworked := (((Asks.foldl (rxByte_asks c p) p.serial { k with asked := false }).trans (hctl _)).trans
    (htick _)).trans (pairingDrain_asks c _ p)
  unfold work
  dsimp only
  split
  · exact hworked.trans (route_asks _ _ _)
  · exact hworked

/-- A turn that changes the focus or the level asks for a redraw. -/
theorem work_changed {k : Coordinator} {p : Pass}
    (h : (k.work c p).router.focus ≠ k.router.focus ∨ (k.work c p).router.level ≠ k.router.level) :
    (k.work c p).asked = true := by
  by_contra hasked
  obtain ⟨-, -, hf, hl⟩ := (work_asks c k p).kept (Bool.eq_false_iff.mpr hasked)
  exact h.elim (absurd hf) (absurd hl)

theorem work_due (k : Coordinator) (p : Pass) :
    (k.work c p).nextRender = if (k.work c p).asked then 0 else k.nextRender := by
  split
  · rename_i h
    exact (work_asks c k p).due nofun h
  · rename_i h
    exact ((work_asks c k p).kept (Bool.eq_false_iff.mpr h)).2.1

end

end Coordinator

end DeskHop.Chain
