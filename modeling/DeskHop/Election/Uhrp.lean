/-
  DeskHop.Election.Uhrp — the role election of one board (`core/include/dhp/uhrp.h`,
  `core/src/uhrp.c`).

  Every entry point edits the peer table or a flag and then calls `reevaluate`, which
  ages the table and derives the state from what is left. Actions come out as events,
  which accumulate in `ev` until the caller takes them.
-/

import DeskHop.Core.Msg
import DeskHop.Lib.Slots

namespace DeskHop.Election

open DeskHop.Lib

structure Timing where
  helloMs : UInt16
  holdMs : UInt16
  learnMs : UInt16
  handoverDeferMaxMs : UInt16
  deriving DecidableEq, Repr, Inhabited

def timingDefault : Timing := ⟨50, 150, 150, 2000⟩

structure Config where
  uid : Uid
  addr : Addr
  /-- 0 = derive from caps. -/
  priority : UInt8
  caps : UInt16
  /-- Willing to take the role from a weaker holder. -/
  preempt : Bool
  timing : Timing
  deriving DecidableEq, Repr, Inhabited

structure Peer where
  used : Bool
  uid : Uid
  addr : Addr
  priority : UInt8
  state : Byte
  flags : UInt8
  caps : UInt16
  lastSeen : Time
  deriving DecidableEq, Repr, Inhabited

instance : Slotted Peer Addr := ⟨Peer.used, Peer.addr⟩

abbrev Peers := Slots Peer maxBoards

structure Events where
  sendHello : Bool
  sendResign : Bool
  /-- Rule 2 fired. -/
  broadcastRelease : Bool
  stateChanged : Bool
  /-- Became active because the old one vanished. -/
  promotedByTimeout : Bool
  prevState : UhrpState
  deriving DecidableEq, Repr, Inhabited

def Events.none : Events := ⟨false, false, false, false, false, .init⟩

structure Uhrp where
  cfg : Config
  state : UhrpState
  /-- Current active speaker, `addrNone` if unknown. -/
  active : Addr
  /-- Pre-elected backup. -/
  standby : Addr
  activePriority : UInt8
  activeUid : Uid
  tStateEntered : Time
  tNextHello : Time
  tActiveExpiry : Time
  /-- Set by the HID layer, drives rule 1. -/
  keysHeld : Bool
  /-- Out-prioritised, waiting for keys to clear. -/
  resignPending : Bool
  tResignDeadline : Time
  /-- Have we ever heard from an active? -/
  activeValid : Bool
  started : Bool
  /-- The previous active stood down cleanly. -/
  vacancyClean : Bool
  peers : Peers
  ev : Events
  deriving DecidableEq

/-! ## Ordering -/

/-- Higher priority wins; equal priority is broken by the larger uid. -/
def better (pa : UInt8) (ua : Uid) (pb : UInt8) (ub : Uid) : Bool :=
  if pa ≠ pb then decide (pa > pb) else decide (ua > ub)

def capHidOut : UInt16 := 1
def capHidIn : UInt16 := 2
def capDisplay : UInt16 := 4
def capConfig : UInt16 := 8
def capClipboard : UInt16 := 16
def capCoord : UInt16 := 256

/-- `caps & bit`, as a truth value. -/
def hasCap (caps bit : UInt16) : Bool := caps &&& bit ≠ 0

def priorityFromCaps (caps : UInt16) : UInt8 :=
  let p : Nat := 50
  let p := if hasCap caps capCoord then p + 100 else p
  let p := if hasCap caps capHidIn then p + 40 else p
  let p := if hasCap caps capDisplay then p + 10 else p
  let p := if hasCap caps capConfig then p + 5 else p
  UInt8.ofNat (if p > 255 then 255 else p)

/-! ## Peer table -/

def peerFind (u : Uhrp) (addr : Addr) : Option Peer := u.peers.find? addr

/-- A zeroed entry for `addr`. -/
def freshPeer (addr : Addr) : Peer := ⟨true, 0, addr, 0, 0, 0, 0, 0⟩

/-- The table with an entry for `addr`: the one there is, or a new one in the first
    free slot; none when the chain is larger than the table. -/
def peerGet (u : Uhrp) (addr : Addr) : Option Peers := (u.peers.ensure (freshPeer addr)).map (·.2)

/-- Not heard from within the hold time. -/
def expired (u : Uhrp) (now : Time) (p : Peer) : Bool :=
  timeAfter now (p.lastSeen + u.cfg.timing.holdMs.toUInt32)

def peerAge (u : Uhrp) (now : Time) : Uhrp :=
  { u with peers := u.peers.map fun p => if p.used && expired u now p then { p with used := false } else p }

def findActivePeer (u : Uhrp) : Option Peer :=
  u.peers.cells.find? fun p => p.used && p.state == UhrpState.active.toByte

/-! ## State entry -/

def enterState (u : Uhrp) (s : UhrpState) (now : Time) : Uhrp :=
  if u.state = s then u
  else { u with ev := { u.ev with prevState := u.state, stateChanged := true }, state := s, tStateEntered := now }

def becomeActive (u : Uhrp) (now : Time) (clean : Bool) : Uhrp :=
  let succeededSomeone := u.activeValid
  let u := enterState u .active now
  let u := { u with active := u.cfg.addr, activeUid := u.cfg.uid, activePriority := u.cfg.priority,
                    activeValid := true, resignPending := false }
  let u := if succeededSomeone && !clean then
      { u with ev := { u.ev with promotedByTimeout := true, broadcastRelease := true } }
    else u
  { u with ev := { u.ev with sendHello := true }, tNextHello := now + u.cfg.timing.helloMs.toUInt32 }

/-! ## Rule 1 -/

def scheduleResign (u : Uhrp) (now : Time) : Uhrp :=
  if u.resignPending then u
  else { u with resignPending := true, tResignDeadline := now + u.cfg.timing.handoverDeferMaxMs.toUInt32 }

def serviceResign (u : Uhrp) (now : Time) : Uhrp :=
  if !u.resignPending then u
  else if u.keysHeld && !timeAfter now u.tResignDeadline then u -- rule 1: wait for the chord to finish
  else
    let u := if u.keysHeld then { u with ev := { u.ev with broadcastRelease := true } } else u
    let u := { u with ev := { u.ev with sendResign := true }, resignPending := false, active := addrNone }
    enterState u .listen now

/-! ## Central evaluation -/

/-- The best candidate overall, and the best excluding whoever is active. -/
structure Field where
  bestP : UInt8
  bestU : Uid
  bestIsSelf : Bool
  backupP : UInt8
  backupU : Uid
  backupAddr : Addr
  backupIsSelf : Bool
  deriving DecidableEq, Repr

def fieldSelf (u : Uhrp) : Field :=
  if u.state ≠ .active then ⟨u.cfg.priority, u.cfg.uid, true, u.cfg.priority, u.cfg.uid, u.cfg.addr, true⟩
  else ⟨u.cfg.priority, u.cfg.uid, true, 0, 0, addrNone, false⟩

def fieldPeer (f : Field) (p : Peer) : Field :=
  if !p.used then f
  else
    let f := if better p.priority p.uid f.bestP f.bestU then
        { f with bestP := p.priority, bestU := p.uid, bestIsSelf := false }
      else f
    if p.state != UhrpState.active.toByte && better p.priority p.uid f.backupP f.backupU then
      { f with backupP := p.priority, backupU := p.uid, backupAddr := p.addr, backupIsSelf := false }
    else f

def field (u : Uhrp) : Field := u.peers.cells.foldl fieldPeer (fieldSelf u)

/-- Record `act` as the active speaker. -/
def follow (u : Uhrp) (act : Peer) : Uhrp :=
  { u with active := act.addr, activeUid := act.uid, activePriority := act.priority, activeValid := true }

def standbyOrListen (f : Field) : UhrpState := if f.backupIsSelf then .standby else .listen

/-- LEARN: listen before speaking. -/
def reevaluateLearn (u : Uhrp) (f : Field) (act : Option Peer) (now : Time) : Uhrp :=
  match act with
  | some a => enterState (follow u a) (standbyOrListen f) now
  | none =>
    if !timeAfter now (u.tStateEntered + u.cfg.timing.learnMs.toUInt32) then u -- still learning the field
    else if f.bestIsSelf then becomeActive u now true -- initial election, nothing to clean
    else enterState u (standbyOrListen f) now

/-- The best candidate is in the table and wants the role. -/
def bestPreempts (u : Uhrp) (f : Field) : Bool :=
  u.peers.cells.any fun p => p.used && p.priority == f.bestP && p.uid == f.bestU && p.flags &&& helloFPreempt != 0

/-- Two boards believe they are active and this is the weaker, or a more capable board
    has appeared and wants the role. -/
def outPrioritised (u : Uhrp) (f : Field) (act : Option Peer) : Bool :=
  match act with
  | some a => better a.priority a.uid u.cfg.priority u.cfg.uid || (!f.bestIsSelf && bestPreempts u f)
  | none => !f.bestIsSelf && bestPreempts u f

/-- We hold the role. -/
def reevaluateActive (u : Uhrp) (f : Field) (act : Option Peer) (now : Time) : Uhrp :=
  serviceResign (if outPrioritised u f act then scheduleResign u now else u) now

/-- Somebody else holds the role, or nobody does. -/
def reevaluateIdle (u : Uhrp) (f : Field) (act : Option Peer) (now : Time) : Uhrp :=
  match act with
  | some a =>
    let u := { follow u a with tActiveExpiry := a.lastSeen + u.cfg.timing.holdMs.toUInt32 }
    enterState u (standbyOrListen f) now
  | none =>
    let u := { u with active := addrNone }
    if !f.bestIsSelf then enterState u (standbyOrListen f) now
    else if u.state = .standby then becomeActive u now u.vacancyClean
    else if u.state ≠ .speak then enterState u .speak now
    else if timeAfter now (u.tStateEntered + u.cfg.timing.holdMs.toUInt32) then becomeActive u now u.vacancyClean
    else u

/-- What `reevaluate` does once the table is aged. -/
def decideRole (u : Uhrp) (now : Time) : Uhrp :=
  let act := findActivePeer u
  let f := field u
  let u := { u with standby := f.backupAddr }
  if u.state = .learn then reevaluateLearn u f act now
  else if u.state = .active then reevaluateActive u f act now
  else reevaluateIdle u f act now

def reevaluate (u : Uhrp) (now : Time) : Uhrp := if !u.started then u else decideRole (peerAge u now) now

/-! ## Public entry points -/

def uhrpInit (cfg : Config) : Uhrp :=
  let cfg := if cfg.priority = 0 then { cfg with priority := priorityFromCaps cfg.caps } else cfg
  let cfg := if cfg.timing.helloMs = 0 then { cfg with timing := timingDefault } else cfg
  { cfg := cfg, state := .init, active := addrNone, standby := addrNone, activePriority := 0, activeUid := 0,
    tStateEntered := 0, tNextHello := 0, tActiveExpiry := 0, keysHeld := false, resignPending := false,
    tResignDeadline := 0, activeValid := false, started := false, vacancyClean := false,
    peers := Slots.replicate maxBoards { freshPeer 0 with used := false }, ev := Events.none }

def uhrpStart (u : Uhrp) (now : Time) : Uhrp :=
  let u := { u with started := true, vacancyClean := true }
  let u := enterState u .learn now
  { u with tStateEntered := now, tNextHello := now }

/-- The peer's entry after its HELLO. -/
def heard (h : Hello) (now : Time) (p : Peer) : Peer :=
  { p with uid := h.uid, priority := h.priority, state := h.state, flags := h.flags, caps := h.caps, lastSeen := now }

def rxHello (u : Uhrp) (src : Addr) (h : Hello) (now : Time) : Uhrp :=
  if !u.started || src == u.cfg.addr then u
  else
    match peerGet u src with
    | none => u
    | some peers =>
      -- a peer announcing itself active means any earlier vacancy is over
      let clean := if h.state == UhrpState.active.toByte && u.active != src then true else u.vacancyClean
      reevaluate { u with vacancyClean := clean, peers := peers.modify src (heard h now) } now

/-- The peer's entry after its RESIGN: no longer a candidate for active. -/
def demoted (now : Time) (p : Peer) : Peer := { p with state := UhrpState.listen.toByte, lastSeen := now }

def rxResign (u : Uhrp) (src : Addr) (now : Time) : Uhrp :=
  if !u.started then u
  else
    let u := { u with peers := u.peers.modify src (demoted now) }
    let u := if src == u.active then { u with vacancyClean := true, active := addrNone } else u
    reevaluate u now

def setKeysHeld (u : Uhrp) (held : Bool) : Uhrp := { u with keysHeld := held }

/-- A live active peer that stopped advertising: the vacancy is not clean. -/
def vacated (u : Uhrp) (now : Time) : Bool :=
  u.state ≠ .active && u.active != addrNone &&
    match peerFind u u.active with
    | none => true
    | some p => expired u now p

def tick (u : Uhrp) (now : Time) : Uhrp :=
  if !u.started then u
  else
    let u := reevaluate (if vacated u now then { u with vacancyClean := false } else u) now
    if timeAfter now u.tNextHello then
      { u with ev := { u.ev with sendHello := true }, tNextHello := now + u.cfg.timing.helloMs.toUInt32 }
    else u

def takeEvents (u : Uhrp) : Events × Uhrp := (u.ev, { u with ev := Events.none })

def buildHello (u : Uhrp) : Hello :=
  let f : UInt8 := 0
  let f := if u.cfg.preempt then f ||| helloFPreempt else f
  let f := if u.keysHeld then f ||| helloFKeysHeld else f
  let f := if hasCap u.cfg.caps capHidIn then f ||| helloFHasInput else f
  let f := if hasCap u.cfg.caps capCoord then f ||| helloFCoord else f
  { state := u.state.toByte, priority := u.cfg.priority, uid := u.cfg.uid, caps := u.cfg.caps,
    holdCs := (u.cfg.timing.holdMs / 10).toUInt8, flags := f, reserved := 0 }

def reachableCaps (u : Uhrp) : UInt16 :=
  u.peers.cells.foldl (fun caps p => if p.used then caps ||| p.caps else caps) u.cfg.caps

def isActive (u : Uhrp) : Bool := u.state == .active

end DeskHop.Election
