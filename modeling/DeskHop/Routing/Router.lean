/-
  DeskHop.Routing.Router — where the election, the pointer gesture, the sent-state
  tracker and the chain topology meet (`core/include/dhp/router.h`,
  `core/src/router.c`, `core/src/level.c`).

  The router never reads its link: what it asks of the link, and of the hooks, collects
  in `out`, in order, until the caller takes it. Every board installs the keyboard and
  mouse hooks, so they are always there.
-/

import DeskHop.Election.Uhrp
import DeskHop.Routing.Hid
import DeskHop.Routing.Pointer
import DeskHop.Wire.Frame

namespace DeskHop.Routing

open DeskHop.Lib DeskHop.Election DeskHop.Wire

/-! ## Level -/

inductive Level where
  | isolated
  | elected
  | coordinated
  | rich
  deriving DecidableEq, Repr

def capsLevel1 : UInt16 := capHidOut ||| capHidIn
def capsLevel2 : UInt16 := capDisplay ||| capConfig
def capsLevel3 : UInt16 := capClipboard

def levelOf (caps : UInt16) (elected : Bool) : Level :=
  if !elected || caps &&& capsLevel1 ≠ capsLevel1 then .isolated
  else if caps &&& capsLevel2 ≠ capsLevel2 then .elected
  else if caps &&& capsLevel3 ≠ capsLevel3 then .coordinated
  else .rich

/-! ## State -/

structure ChainEntry where
  used : Bool
  addr : Addr
  uid : Uid
  caps : UInt16
  /-- Negative = up-chain, positive = down-chain. -/
  relPos : Int
  lastSeen : Time
  deriving DecidableEq, Repr, Inhabited

instance : Slotted ChainEntry Addr := ⟨ChainEntry.used, ChainEntry.addr⟩

abbrev Chain := Slots ChainEntry maxBoards

structure RouterCfg where
  self : Addr
  uid : Uid
  caps : UInt16
  preempt : Bool
  timing : Timing
  pointer : PointerCfg
  deriving DecidableEq, Repr

/-- What the router asks of its link and of its hooks. -/
inductive Act where
  | send (type : MsgType) (dst : Addr) (payload : List Byte)
  | linkTick (now : Time)
  | deliverKbd (r : KbdReport)
  | deliverMouse (r : MouseReport)
  | focusChanged (focus : Addr) (isSelf : Bool)
  | levelChanged (level : Level)
  | deliverData (f : Frame)
  deriving DecidableEq

structure Router where
  cfg : RouterCfg
  uhrp : Uhrp
  pointer : Pointer
  hid : HidTracker
  chain : Chain
  selfSlot : Nat
  focus : Addr
  level : Level
  nSwitches : UInt32
  nReleasesSent : UInt32
  /-- What it has asked for since the caller last looked. -/
  out : List Act
  deriving DecidableEq

def Router.emit (r : Router) (a : Act) : Router := { r with out := r.out ++ [a] }

def isActive (r : Router) : Bool := Election.isActive r.uhrp

/-! ## Chain table -/

def chainFind (r : Router) (addr : Addr) : Option ChainEntry := r.chain.find? addr

def freshEntry (addr : Addr) : ChainEntry := ⟨true, addr, 0, 0, 0, 0⟩

/-- The table with an entry for `addr`, if there is room. -/
def chainGet (r : Router) (addr : Addr) : Option Chain := (r.chain.ensure (freshEntry addr)).map (·.2)

/-- The tracker is indexed by chain slot. -/
def slotOf (r : Router) (addr : Addr) : Nat :=
  if addr = r.cfg.self then r.selfSlot
  else
    match r.chain.index? addr with
    | none => r.selfSlot
    | some i => i

/-- Position relative to us, from arrival port and hop-limit decay. -/
def relPosFromFrame (f : Frame) (inPort : Port) : Int :=
  let distance : Int := ttlDefault.toNat - f.ttl.toNat + 1
  let distance := if distance < 1 then 1 else distance
  let distance := if distance > 127 then 127 else distance
  if inPort = .up then -distance else distance

/-- An entry's position; our own is 0. -/
def posOf (r : Router) (e : ChainEntry) : Int := if e.addr = r.cfg.self then 0 else e.relPos

/-- One entry, in the search for the nearest board on one side. -/
def neighbourStep (r : Router) (src : Addr) (fromPos direction : Int) (best : Addr × Int) (e : ChainEntry) : Addr × Int :=
  if !e.used || e.addr == src then best
  else if !hasCap e.caps capHidOut && e.addr != r.cfg.self then best
  else
    let pos := posOf r e
    if direction > 0 ∧ pos > fromPos ∧ (best.1 = addrNone ∨ pos < best.2) then (e.addr, pos)
    else if direction < 0 ∧ pos < fromPos ∧ (best.1 = addrNone ∨ pos > best.2) then (e.addr, pos)
    else best

/-- Nearest board one step from `src` in the given direction. -/
def neighbourOf (r : Router) (src : Addr) (direction : Int) : Addr :=
  let search (fromPos : Int) : Addr := (r.chain.cells.foldl (neighbourStep r src fromPos direction) (addrNone, 0)).1
  if src = r.cfg.self then search 0
  else
    match chainFind r src with
    | none => addrNone
    | some e => search e.relPos

/-! ## Sending input onward -/

def sendKbdTo (r : Router) (dst : Addr) (rep : KbdReport) : Router :=
  let r := { r with hid := hidNoteKbd r.hid (slotOf r dst) rep }
  if dst = r.cfg.self then r.emit (.deliverKbd rep) else r.emit (.send msgKbd dst (kbdPack rep))

def sendMouseTo (r : Router) (dst : Addr) (rep : MouseReport) : Router :=
  let r := { r with hid := hidNoteMouse r.hid (slotOf r dst) rep.buttons }
  if dst = r.cfg.self then r.emit (.deliverMouse rep) else r.emit (.send msgMouse dst (mousePack rep))

/-- Undo everything outstanding on a machine that is losing focus. -/
def releaseMachine (r : Router) (addr : Addr) : Router :=
  match hidBuildRelease r.hid (slotOf r addr) with
  | none => r
  | some (k, m, hid) =>
    let r := { r with hid := hid, nReleasesSent := r.nReleasesSent + 1 }
    if addr = r.cfg.self then (r.emit (.deliverKbd k)).emit (.deliverMouse m)
    else (r.emit (.send msgKbd addr (kbdPack k))).emit (.send msgMouse addr (mousePack m))

/-! ## Focus -/

/-- The release comes first, so that the abandoned machine has been told to let go even
    if the link dies during the switch. -/
def applyFocus (r : Router) (target : Addr) (reason : UInt8) (edge : Edge) (now : Time) (announce : Bool) : Router :=
  if target = addrNone ∨ target = r.focus then r
  else
    let r := releaseMachine r r.focus
    let r := { r with focus := target, nSwitches := r.nSwitches + 1, pointer := pointerArrive r.pointer edge now }
    let r := if announce then r.emit (.send msgFocus addrBroadcast (focusPack ⟨target, reason, edge.toByte⟩)) else r
    r.emit (.focusChanged target (target == r.cfg.self))

def routerSetFocus (r : Router) (target : Addr) (reason : UInt8) (now : Time) : Router :=
  applyFocus r target reason .none now true

/-- The nearest screen down-chain, and the farthest one up-chain to wrap to. -/
structure Tour where
  next : Addr
  bestPos : Int
  wrap : Addr
  wrapPos : Int

def tourStep (r : Router) (curPos : Int) (t : Tour) (e : ChainEntry) : Tour :=
  if !e.used || !hasCap e.caps capHidOut then t
  else
    let pos := posOf r e
    let t := if pos > curPos ∧ (t.next = addrNone ∨ pos < t.bestPos) then { t with next := e.addr, bestPos := pos } else t
    if t.wrap = addrNone ∨ pos < t.wrapPos then { t with wrap := e.addr, wrapPos := pos } else t

/-- Step one place down-chain, wrapping to the far up-chain end. -/
def routerButton (r : Router) (now : Time) : Router :=
  if !isActive r then r
  else
    let curPos := if r.focus = r.cfg.self then 0 else ((chainFind r r.focus).map (·.relPos)).getD 0
    let t := r.chain.cells.foldl (tourStep r curPos) ⟨addrNone, 0, addrNone, 0⟩
    applyFocus r (if t.next = addrNone then t.wrap else t.next) focusRButton .none now true

/-! ## Level and election -/

def recomputeLevel (r : Router) : Router :=
  let elected := isActive r || r.uhrp.active != addrNone
  let l := levelOf (reachableCaps r.uhrp) elected
  if l ≠ r.level then { r with level := l }.emit (.levelChanged l) else r

/-- Forget every slot of a board in the chain table. -/
def forgetChain (r : Router) : HidTracker :=
  (List.range maxBoards).foldl (fun t i => if ((r.chain.cells[i]?).map (·.used)).getD false then hidForget t i else t) r.hid

/-- Rule 2: tell every board to let go of everything. -/
def broadcastReleaseAll (r : Router) : Router :=
  let r := r.emit (.send msgRelease addrBroadcast [])
  let r := { r with hid := forgetChain r }
  (r.emit (.deliverKbd kbdZero)).emit (.deliverMouse mouseZero)

def defaultStep (r : Router) (best : Addr × Int) (e : ChainEntry) : Addr × Int :=
  if !e.used || e.addr == r.cfg.self || !hasCap e.caps capHidOut then best
  else
    let dist := if e.relPos < 0 then -e.relPos else e.relPos
    if best.1 = addrNone ∨ dist < best.2 then (e.addr, dist) else best

/-- A sensible target when nothing better is known: our own machine, else the nearest. -/
def pickDefaultFocus (r : Router) : Addr :=
  if hasCap r.cfg.caps capHidOut then r.cfg.self else (r.chain.cells.foldl (defaultStep r) (addrNone, 0)).1

/-- What a board that has just become ACTIVE announces as the focus. -/
def inheritedFocus (r : Router) : Addr :=
  if r.focus = addrNone ∨ (chainFind r r.focus).isNone then pickDefaultFocus r else r.focus

/-- Announced unconditionally: the chain has a new authority. -/
def announceFocus (r : Router) : Router :=
  let f := inheritedFocus r
  if f = addrNone then r
  else
    let r := r.emit (.send msgFocus addrBroadcast (focusPack ⟨f, focusRFailover, Edge.none.toByte⟩))
    if f ≠ r.focus then { r with focus := f }.emit (.focusChanged f (f == r.cfg.self)) else r

def drainUhrp (r : Router) : Router :=
  let (ev, uhrp) := takeEvents r.uhrp
  let r := { r with uhrp := uhrp }
  let r := if ev.broadcastRelease then broadcastReleaseAll r else r
  let r := if ev.sendResign then r.emit (.send msgResign addrBroadcast []) else r
  let r := if ev.sendHello then r.emit (.send msgHello addrBroadcast (helloPack (buildHello r.uhrp))) else r
  if ev.stateChanged then recomputeLevel (if isActive r then announceFocus r else r) else r

/-! ## Public -/

def routerInit (cfg : RouterCfg) : Router :=
  let chain : Chain := Slots.replicate maxBoards { freshEntry 0 with used := false }
  let self : ChainEntry := { freshEntry cfg.self with uid := cfg.uid, caps := cfg.caps }
  { cfg := cfg
    uhrp := uhrpInit ⟨cfg.uid, cfg.self, 0, cfg.caps, cfg.preempt, cfg.timing⟩
    pointer := pointerInit cfg.pointer
    hid := hidTrackerInit
    -- the table is empty, so our own entry takes the first slot
    chain := (chain.claim self).getD chain
    selfSlot := 0
    focus := addrNone
    level := .isolated
    nSwitches := 0
    nReleasesSent := 0
    out := [] }

def routerStart (r : Router) (now : Time) : Router :=
  drainUhrp { r with uhrp := uhrpStart r.uhrp now, pointer := pointerArrive r.pointer .none now }

/-- Forward locally captured input to the active speaker; none when we are it. -/
def forwardInput (r : Router) (kind : Byte) (report : List Byte) : Option Router :=
  if isActive r then none
  else if !hasCap r.cfg.caps capHidIn then some r
  else if r.uhrp.active = addrNone then some r
  else some (r.emit (.send msgInput r.uhrp.active (kind :: report)))

/-- Feeds rule 1: a planned handover waits for this to go false. -/
def noteKeysHeld (r : Router) : Router := drainUhrp { r with uhrp := setKeysHeld r.uhrp (hidAnyHeld r.hid) }

def routerLocalKbd (r : Router) (rep : KbdReport) : Router :=
  match forwardInput r inputKindKbd (kbdPack rep) with
  | some r => r
  | none => noteKeysHeld (sendKbdTo r r.focus rep)

/-- Where a completed gesture leads: left and up go up-chain. -/
def crossingTarget (r : Router) (edge : Edge) : Addr :=
  neighbourOf r r.focus (if edge = .left ∨ edge = .up then -1 else 1)

def routerLocalMouse (r : Router) (rep : MouseReport) (now : Time) : Router :=
  match forwardInput r inputKindMouse (mousePack rep) with
  | some r => r
  | none =>
    let (edge, pointer) := pointerFeed r.pointer rep.dx rep.dy now
    let r := { r with pointer := pointer }
    if edge ≠ .none ∧ crossingTarget r edge ≠ addrNone then
      -- the report is dropped: it is the tail of the shove
      applyFocus r (crossingTarget r edge) focusREdge edge now true
    else noteKeysHeld (sendMouseTo r r.focus rep)

/-- Every authenticated frame is evidence of where its sender sits. -/
def learnPosition (r : Router) (f : Frame) (inPort : Port) (now : Time) : Router :=
  if f.src = r.cfg.self then r
  else
    match chainGet r f.src with
    | none => r
    | some chain =>
      { r with chain := chain.modify f.src fun e => { e with relPos := relPosFromFrame f inPort, lastSeen := now } }

/-- A HELLO tells who its sender is and what it can contribute. -/
def learnCaps (r : Router) (src : Addr) (h : Hello) : Router :=
  match chainGet r src with
  | none => r
  | some chain => { r with chain := chain.modify src fun e => { e with uid := h.uid, caps := h.caps } }

def rxHelloFrame (r : Router) (src : Addr) (h : Hello) (now : Time) : Router :=
  let r := learnCaps r src h
  recomputeLevel (drainUhrp { r with uhrp := rxHello r.uhrp src h now })

def rxFocus (r : Router) (fo : Focus) : Router :=
  if isActive r then r
  else
    let wasSelf := r.focus = r.cfg.self
    let r := { r with focus := fo.target }.emit (.focusChanged fo.target (fo.target == r.cfg.self))
    if wasSelf ∧ fo.target ≠ r.cfg.self then releaseMachine r r.cfg.self else r

/-- Raw input is accepted only from a board that has input devices attached. -/
def rxInput (r : Router) (f : Frame) (now : Time) : Router :=
  if !isActive r || f.payload.isEmpty then r
  else
    match chainFind r f.src with
    | none => r
    | some e =>
      if !hasCap e.caps capHidIn then r
      else if byteAt f.payload 0 = inputKindKbd then
        match kbdUnpack f.payload.tail with
        | none => r
        | some rep => routerLocalKbd r rep
      else if byteAt f.payload 0 = inputKindMouse then
        match mouseUnpack f.payload.tail with
        | none => r
        | some rep => routerLocalMouse r rep now
      else r

def rxRelease (r : Router) : Router :=
  let r := { r with hid := hidForget r.hid r.selfSlot }
  (r.emit (.deliverKbd kbdZero)).emit (.deliverMouse mouseZero)

def routerRx (r : Router) (f : Frame) (inPort : Port) (now : Time) : Router :=
  let r := learnPosition r f inPort now
  if f.type = msgHello then
    match helloUnpack f.payload with
    | none => r
    | some h => rxHelloFrame r f.src h now
  else if f.type = msgResign then recomputeLevel (drainUhrp { r with uhrp := rxResign r.uhrp f.src now })
  else if f.type = msgKbd then
    match kbdUnpack f.payload with
    | none => r
    | some rep => r.emit (.deliverKbd rep)
  else if f.type = msgMouse then
    match mouseUnpack f.payload with
    | none => r
    | some rep => r.emit (.deliverMouse rep)
  else if f.type = msgFocus then
    match focusUnpack f.payload with
    | none => r
    | some fo => rxFocus r fo
  else if f.type = msgData then r.emit (.deliverData f)
  else if f.type = msgInput then rxInput r f now
  else if f.type = msgRelease then rxRelease r
  else r

/-- The caps this board advertises, and the priority they give it. -/
def withCaps (caps : UInt16) (u : Uhrp) : Uhrp :=
  { u with cfg := { u.cfg with caps := caps, priority := priorityFromCaps caps } }

def routerSetCaps (r : Router) (caps : UInt16) : Router :=
  if caps = r.cfg.caps then r
  else
    { r with
      cfg := { r.cfg with caps := caps }
      uhrp := withCaps caps r.uhrp
      chain := r.chain.modify r.cfg.self fun e => { e with caps := caps } }

def routerTick (r : Router) (now : Time) : Router :=
  let r := r.emit (.linkTick now)
  recomputeLevel (drainUhrp { r with uhrp := tick r.uhrp now })

end DeskHop.Routing
