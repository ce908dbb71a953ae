/-
  DeskHop.Client.Blind — what the election and the router see of a client's capabilities.

  `low` takes the four bits a client may announce out of a capability field. `view` takes
  them out of all of a router: its own capabilities, those of every board in its table,
  and those of every HELLO it sends, and forgets the level. Two routers are `Alike` when
  they look the same through it.

  Proved: the election never looks at its own capabilities (`tick_recap`, `rxHello_recap`,
  `rxResign_recap`), and of two routers that are alike every operation makes two that are
  alike (`alike_step`).
-/

import DeskHop.Client.ClientLink
import DeskHop.Routing.Tables

namespace DeskHop.Client

open DeskHop.Lib DeskHop.Election DeskHop.Routing DeskHop.Wire

/-! ## Capabilities -/

def low (caps : UInt16) : UInt16 := caps &&& 0xFF0F

theorem low_low (caps : UInt16) : low (low caps) = low caps := by
  rw [low, low, UInt16.and_assoc, UInt16.and_self]

theorem hasCap_low (caps : UInt16) {bit : UInt16} (h : 0xFF0F &&& bit = bit) : hasCap (low caps) bit = hasCap caps bit := by
  rw [hasCap, hasCap, low, UInt16.and_assoc, h]

/-- The client's bits are none that a priority comes from. -/
theorem priorityFromCaps_low (caps : UInt16) : priorityFromCaps (low caps) = priorityFromCaps caps := by
  simp only [priorityFromCaps, hasCap_low caps (show 0xFF0F &&& capCoord = capCoord by decide),
    hasCap_low caps (show 0xFF0F &&& capHidIn = capHidIn by decide),
    hasCap_low caps (show 0xFF0F &&& capDisplay = capDisplay by decide),
    hasCap_low caps (show 0xFF0F &&& capConfig = capConfig by decide)]

theorem low_or (a b : UInt16) : low (a ||| b) = low a ||| low b := by
  simp only [low]
  apply UInt16.toBitVec_inj.mp
  simp only [UInt16.toBitVec_and, UInt16.toBitVec_or]
  exact BitVec.and_or_distrib_right

/-! ## The election -/

/-- With other capabilities, but the priority it has. -/
def recap (c : UInt16) (u : Uhrp) : Uhrp := { u with cfg := { u.cfg with caps := c } }

variable (c : UInt16) (u : Uhrp)

theorem enterState_recap (s : UhrpState) (now : Time) : enterState (recap c u) s now = recap c (enterState u s now) := by
  unfold enterState
  rw [apply_ite (recap c)]
  rfl

theorem becomeActive_recap (now : Time) (clean : Bool) :
    becomeActive (recap c u) now clean = recap c (becomeActive u now clean) := by
  have hv : (recap c u).activeValid = u.activeValid := rfl
  simp only [becomeActive, enterState_recap, hv]
  cases u.activeValid && !clean <;> rfl

theorem scheduleResign_recap (now : Time) : scheduleResign (recap c u) now = recap c (scheduleResign u now) := by
  unfold scheduleResign
  rw [apply_ite (recap c)]
  rfl

theorem serviceResign_recap (now : Time) : serviceResign (recap c u) now = recap c (serviceResign u now) := by
  have h1 : (recap c u).resignPending = u.resignPending := rfl
  have h2 : (recap c u).keysHeld = u.keysHeld := rfl
  have h3 : (recap c u).tResignDeadline = u.tResignDeadline := rfl
  unfold serviceResign
  rw [h1, h2, h3, apply_ite (recap c), apply_ite (recap c)]
  refine if_congr Iff.rfl rfl (if_congr Iff.rfl rfl ?_)
  dsimp only
  rw [← enterState_recap]
  cases u.keysHeld <;> rfl

theorem field_recap : field (recap c u) = field u := rfl

theorem reevaluateLearn_recap (f : Field) (act : Option Peer) (now : Time) :
    reevaluateLearn (recap c u) f act now = recap c (reevaluateLearn u f act now) := by
  cases act with
  | some a => exact enterState_recap c (follow u a) _ now
  | none =>
    simp only [reevaluateLearn]
    rw [apply_ite (recap c), apply_ite (recap c), becomeActive_recap, enterState_recap]
    rfl

theorem reevaluateActive_recap (f : Field) (act : Option Peer) (now : Time) :
    reevaluateActive (recap c u) f act now = recap c (reevaluateActive u f act now) := by
  unfold reevaluateActive
  rw [← serviceResign_recap, apply_ite (recap c), scheduleResign_recap]
  rfl

theorem reevaluateIdle_recap (f : Field) (act : Option Peer) (now : Time) :
    reevaluateIdle (recap c u) f act now = recap c (reevaluateIdle u f act now) := by
  cases act with
  | some a => exact enterState_recap c { follow u a with tActiveExpiry := a.lastSeen + u.cfg.timing.holdMs.toUInt32 } _ now
  | none =>
    have h : ({ recap c u with active := addrNone } : Uhrp) = recap c { u with active := addrNone } := rfl
    simp only [reevaluateIdle, h]
    rw [apply_ite (recap c), apply_ite (recap c), apply_ite (recap c), apply_ite (recap c), enterState_recap, becomeActive_recap,
      enterState_recap]
    rfl

theorem decideRole_recap (now : Time) : decideRole (recap c u) now = recap c (decideRole u now) := by
  have h1 : findActivePeer (recap c u) = findActivePeer u := rfl
  have h2 : ∀ a, ({ recap c u with standby := a } : Uhrp) = recap c { u with standby := a } := fun _ => rfl
  simp only [decideRole, h1, field_recap, h2]
  rw [apply_ite (recap c), apply_ite (recap c), reevaluateLearn_recap, reevaluateActive_recap, reevaluateIdle_recap]
  rfl

theorem reevaluate_recap (now : Time) : reevaluate (recap c u) now = recap c (reevaluate u now) := by
  unfold reevaluate
  rw [apply_ite (recap c), ← decideRole_recap]
  rfl

theorem rxHello_recap (src : Addr) (h : Hello) (now : Time) :
    rxHello (recap c u) src h now = recap c (rxHello u src h now) := by
  unfold rxHello
  rw [apply_ite (recap c)]
  refine if_congr Iff.rfl rfl ?_
  rw [show peerGet (recap c u) src = peerGet u src from rfl]
  cases peerGet u src with
  | none => rfl
  | some peers => exact reevaluate_recap c { u with vacancyClean := _, peers := _ } now

theorem rxResign_recap (src : Addr) (now : Time) : rxResign (recap c u) src now = recap c (rxResign u src now) := by
  unfold rxResign
  rw [apply_ite (recap c)]
  refine if_congr Iff.rfl rfl ?_
  dsimp only
  rw [← reevaluate_recap, apply_ite (recap c)]
  rfl

theorem tick_recap (now : Time) : tick (recap c u) now = recap c (tick u now) := by
  have h : (if vacated (recap c u) now then { recap c u with vacancyClean := false } else recap c u) =
      recap c (if vacated u now then { u with vacancyClean := false } else u) := by
    rw [apply_ite (recap c)]
    rfl
  unfold tick
  rw [apply_ite (recap c)]
  refine if_congr Iff.rfl rfl ?_
  dsimp only
  rw [h, reevaluate_recap, apply_ite (recap c)]
  rfl

/-! ## The router, less its client's bits -/

def maskEntry (e : ChainEntry) : ChainEntry := { e with caps := low e.caps }

/-- The low byte of the capabilities is byte 12 of a HELLO. -/
def maskHello (payload : List Byte) : List Byte := payload.modify 12 (· &&& 0x0F)

def maskPayload (type : MsgType) (payload : List Byte) : List Byte :=
  if type = msgHello then maskHello payload else payload

def seenAct : Act → Option Act
  | .send type dst payload => some (.send type dst (maskPayload type payload))
  | .levelChanged _ => none
  | a => some a

def view (r : Router) : Router :=
  { r with
    cfg := { r.cfg with caps := low r.cfg.caps }
    uhrp := recap (low r.uhrp.cfg.caps) r.uhrp
    chain := r.chain.map maskEntry
    level := .isolated
    out := r.out.filterMap seenAct }

/-- Two routers that look the same. -/
def Alike (r s : Router) : Prop := view r = view s

theorem maskEntry_keeps (e : ChainEntry) :
    Slotted.used (maskEntry e) = Slotted.used e ∧ Slotted.key (maskEntry e) = Slotted.key e := ⟨rfl, rfl⟩

theorem maskEntry_maskEntry (e : ChainEntry) : maskEntry (maskEntry e) = maskEntry e := by
  simp only [maskEntry, low_low]

theorem low_byte_mask (caps : UInt16) : (caps &&& 0xFF).toUInt8 &&& 0x0F = (low caps &&& 0xFF).toUInt8 := by
  apply UInt8.toBitVec_inj.mp
  simp only [low, UInt8.toBitVec_and, UInt16.toBitVec_toUInt8, UInt16.toBitVec_and, BitVec.setWidth_and]
  rw [BitVec.and_assoc, BitVec.and_assoc]
  congr 1

theorem high_byte_low (caps : UInt16) : (caps >>> 8).toUInt8 = (low caps >>> 8).toUInt8 := by
  apply UInt8.toBitVec_inj.mp
  simp only [low, UInt16.toBitVec_toUInt8, UInt16.toBitVec_shiftRight, UInt16.toBitVec_and]
  show BitVec.setWidth 8 (caps.toBitVec >>> 8) = BitVec.setWidth 8 ((caps.toBitVec &&& 0xFF0F#16) >>> 8)
  rw [BitVec.ushiftRight_and_distrib, BitVec.setWidth_and]
  exact (BitVec.and_allOnes (x := BitVec.setWidth 8 (caps.toBitVec >>> 8))).symm

theorem maskHello_pack (h : Hello) : maskHello (helloPack h) = helloPack { h with caps := low h.caps } := by
  show [h.state, h.priority, h.flags, h.holdCs] ++ put64 h.uid ++
      [(h.caps &&& 0xFF).toUInt8 &&& 0x0F, (h.caps >>> 8).toUInt8] ++ put16 h.reserved = _
  rw [low_byte_mask, high_byte_low]
  rfl

/-- The HELLO a board sends tells its own capabilities and otherwise nothing of them but
    what its flags say. -/
theorem buildHello_low (u : Uhrp) :
    buildHello (recap (low u.cfg.caps) u) = { buildHello u with caps := low u.cfg.caps } := by
  have h1 := hasCap_low u.cfg.caps (show 0xFF0F &&& capHidIn = capHidIn by decide)
  have h2 := hasCap_low u.cfg.caps (show 0xFF0F &&& capCoord = capCoord by decide)
  simp only [buildHello, recap, h1, h2]
  rfl

/-! ## Function by function -/

variable (r : Router)

@[simp] theorem view_view : view (view r) = view r := by
  have h1 : (r.chain.map maskEntry).map maskEntry = r.chain.map maskEntry := by
    simp only [Slots.map, List.map_map, Function.comp_def, maskEntry_maskEntry]
  have h2 : ∀ a, (seenAct a).bind seenAct = seenAct a := by
    intro a
    cases a with
    | send type dst payload =>
      have hm : ∀ b : Byte, b &&& 0x0F &&& 0x0F = b &&& 0x0F := fun b => by rw [UInt8.and_assoc, UInt8.and_self]
      simp only [seenAct, Option.bind_some, maskPayload]
      split
      · simp only [maskHello, List.modify_modify_eq, Function.comp_def, hm]
      · rfl
    | _ => rfl
  have h3 : (r.out.filterMap seenAct).filterMap seenAct = r.out.filterMap seenAct := by
    rw [List.filterMap_filterMap]
    exact congrArg (fun f => r.out.filterMap f) (funext h2)
  simp only [view, recap, low_low, h1, h3]

theorem emit_view (a : Act) (h : seenAct a = some a) : (view r).emit a = view (r.emit a) := by
  simp [view, Router.emit, h]

theorem emit_emit_view (a b : Act) (ha : seenAct a = some a) (hb : seenAct b = some b) :
    ((view r).emit a).emit b = view ((r.emit a).emit b) := by
  rw [emit_view _ a ha, emit_view _ b hb]

theorem view_emit_level (l : Level) : view (r.emit (.levelChanged l)) = view r := by
  simp [view, Router.emit, seenAct]

theorem slotOf_view (addr : Addr) : slotOf (view r) addr = slotOf r addr := by
  simp only [slotOf, view, Slots.map_index? maskEntry_keeps]

theorem chainFind_view (addr : Addr) : chainFind (view r) addr = (chainFind r addr).map maskEntry :=
  Slots.map_find? maskEntry_keeps r.chain addr

theorem sendKbdTo_view (dst : Addr) (rep : KbdReport) : sendKbdTo (view r) dst rep = view (sendKbdTo r dst rep) := by
  simp only [sendKbdTo, slotOf_view]
  rw [apply_ite view]
  let s : Router := { r with hid := hidNoteKbd r.hid (slotOf r dst) rep }
  exact if_congr Iff.rfl (emit_view s _ rfl) (emit_view s _ rfl)

theorem sendMouseTo_view (dst : Addr) (rep : MouseReport) :
    sendMouseTo (view r) dst rep = view (sendMouseTo r dst rep) := by
  simp only [sendMouseTo, slotOf_view]
  rw [apply_ite view]
  let s : Router := { r with hid := hidNoteMouse r.hid (slotOf r dst) rep.buttons }
  exact if_congr Iff.rfl (emit_view s _ rfl) (emit_view s _ rfl)

theorem releaseMachine_view (addr : Addr) : releaseMachine (view r) addr = view (releaseMachine r addr) := by
  have h : (view r).hid = r.hid := rfl
  simp only [releaseMachine, slotOf_view, h]
  split
  · rfl
  · rename_i k m hid _
    rw [apply_ite view]
    let s : Router := { r with hid := hid, nReleasesSent := r.nReleasesSent + 1 }
    exact if_congr Iff.rfl (emit_emit_view s _ _ rfl rfl) (emit_emit_view s _ _ rfl rfl)

theorem applyFocus_view (target : Addr) (reason : UInt8) (edge : Edge) (now : Time) (announce : Bool) :
    applyFocus (view r) target reason edge now announce = view (applyFocus r target reason edge now announce) := by
  have h : (view r).focus = r.focus := rfl
  simp only [applyFocus, h]
  rw [apply_ite view]
  refine if_congr Iff.rfl rfl ?_
  rw [releaseMachine_view]
  let s : Router :=
    { releaseMachine r r.focus with
      focus := target, nSwitches := (releaseMachine r r.focus).nSwitches + 1,
      pointer := pointerArrive (releaseMachine r r.focus).pointer edge now }
  cases announce
  · exact emit_view s _ rfl
  · exact emit_emit_view s _ _ rfl rfl

theorem neighbourStep_view (src : Addr) (fromPos direction : Int) (best : Addr × Int) (e : ChainEntry) :
    neighbourStep (view r) src fromPos direction best (maskEntry e) = neighbourStep r src fromPos direction best e := by
  have h := hasCap_low e.caps (show 0xFF0F &&& capHidOut = capHidOut by decide)
  simp only [neighbourStep, maskEntry, h]
  rfl

theorem neighbourOf_view (src : Addr) (direction : Int) : neighbourOf (view r) src direction = neighbourOf r src direction := by
  have h : ∀ fromPos, (view r).chain.cells.foldl (neighbourStep (view r) src fromPos direction) (addrNone, 0) =
      r.chain.cells.foldl (neighbourStep r src fromPos direction) (addrNone, 0) := by
    intro fromPos
    show (r.chain.cells.map maskEntry).foldl _ _ = _
    rw [List.foldl_map]
    simp only [neighbourStep_view]
  simp only [neighbourOf, h, chainFind_view]
  cases chainFind r src <;> rfl

theorem crossingTarget_view (edge : Edge) : crossingTarget (view r) edge = crossingTarget r edge :=
  neighbourOf_view r r.focus _

theorem tourStep_view (curPos : Int) (t : Tour) (e : ChainEntry) :
    tourStep (view r) curPos t (maskEntry e) = tourStep r curPos t e := by
  have h := hasCap_low e.caps (show 0xFF0F &&& capHidOut = capHidOut by decide)
  simp only [tourStep, maskEntry, h]
  rfl

theorem routerButton_view (now : Time) : routerButton (view r) now = view (routerButton r now) := by
  have h : ∀ curPos, (view r).chain.cells.foldl (tourStep (view r) curPos) ⟨addrNone, 0, addrNone, 0⟩ =
      r.chain.cells.foldl (tourStep r curPos) ⟨addrNone, 0, addrNone, 0⟩ := by
    intro curPos
    show (r.chain.cells.map maskEntry).foldl _ _ = _
    rw [List.foldl_map]
    simp only [tourStep_view]
  have hpos : (chainFind r r.focus).map ((·.relPos) ∘ maskEntry) = (chainFind r r.focus).map (·.relPos) := rfl
  have hf : (view r).focus = r.focus := rfl
  simp only [routerButton, h, hf, chainFind_view, Option.map_map, hpos, applyFocus_view]
  rw [apply_ite view]
  rfl

theorem pickDefaultFocus_view : pickDefaultFocus (view r) = pickDefaultFocus r := by
  have h1 := hasCap_low r.cfg.caps (show 0xFF0F &&& capHidOut = capHidOut by decide)
  have h2 : ∀ best e, defaultStep (view r) best (maskEntry e) = defaultStep r best e := by
    intro best e
    have h := hasCap_low e.caps (show 0xFF0F &&& capHidOut = capHidOut by decide)
    simp only [defaultStep, maskEntry, h]
    rfl
  have h3 : (view r).chain.cells.foldl (defaultStep (view r)) (addrNone, 0) =
      r.chain.cells.foldl (defaultStep r) (addrNone, 0) := by
    show (r.chain.cells.map maskEntry).foldl _ _ = _
    rw [List.foldl_map]
    simp only [h2]
  simp only [pickDefaultFocus, h3]
  rw [show hasCap (view r).cfg.caps capHidOut = hasCap r.cfg.caps capHidOut from h1]
  rfl

theorem inheritedFocus_view : inheritedFocus (view r) = inheritedFocus r := by
  have h : (view r).focus = r.focus := rfl
  simp only [inheritedFocus, h, chainFind_view, Option.isNone_map, pickDefaultFocus_view]

theorem announceFocus_view : announceFocus (view r) = view (announceFocus r) := by
  simp only [announceFocus, inheritedFocus_view]
  rw [apply_ite view, apply_ite view, ← emit_view r _ rfl]
  exact if_congr Iff.rfl rfl (if_congr Iff.rfl (emit_emit_view { r with focus := inheritedFocus r } _ _ rfl rfl) rfl)

theorem forgetChain_view : forgetChain (view r) = forgetChain r := by
  have h : ∀ i : Nat, ((view r).chain.cells[i]?).map (·.used) = (r.chain.cells[i]?).map (·.used) := by
    intro i
    show ((r.chain.cells.map maskEntry)[i]?).map _ = _
    rw [List.getElem?_map, Option.map_map]
    rfl
  simp only [forgetChain, h]
  rfl

theorem broadcastReleaseAll_view : broadcastReleaseAll (view r) = view (broadcastReleaseAll r) := by
  have h : (view r).emit (.send msgRelease addrBroadcast []) = view (r.emit (.send msgRelease addrBroadcast [])) :=
    emit_view r _ rfl
  simp only [broadcastReleaseAll, h, forgetChain_view]
  let s : Router :=
    { r.emit (.send msgRelease addrBroadcast []) with hid := forgetChain (r.emit (.send msgRelease addrBroadcast [])) }
  exact emit_emit_view s _ _ rfl rfl

/-- The level is all that the view forgets. -/
theorem recomputeLevel_view : view (recomputeLevel r) = view r := by
  simp only [recomputeLevel]
  split
  · exact view_emit_level { r with level := _ } _
  · rfl


/-! ## What the election asks for -/

theorem drainUhrp_view : view (drainUhrp (view r)) = view (drainUhrp r) := by
  have hev : takeEvents (view r).uhrp =
      ((takeEvents r.uhrp).1, recap (low r.uhrp.cfg.caps) (takeEvents r.uhrp).2) := rfl
  simp only [drainUhrp, hev]
  -- each event in turn: release, resign, hello, new state
  have h0 : ({ view r with uhrp := recap (low r.uhrp.cfg.caps) (takeEvents r.uhrp).2 } : Router) =
      view { r with uhrp := (takeEvents r.uhrp).2 } := rfl
  rw [h0]
  generalize ({ r with uhrp := (takeEvents r.uhrp).2 } : Router) = r0
  have h1 : (if (takeEvents r.uhrp).1.broadcastRelease then broadcastReleaseAll (view r0) else view r0) =
      view (if (takeEvents r.uhrp).1.broadcastRelease then broadcastReleaseAll r0 else r0) := by
    rw [apply_ite view, broadcastReleaseAll_view]
  rw [h1]
  generalize (if (takeEvents r.uhrp).1.broadcastRelease then broadcastReleaseAll r0 else r0) = r1
  have h2 : (if (takeEvents r.uhrp).1.sendResign then (view r1).emit (.send msgResign addrBroadcast []) else view r1) =
      view (if (takeEvents r.uhrp).1.sendResign then r1.emit (.send msgResign addrBroadcast []) else r1) := by
    rw [apply_ite view, emit_view r1 _ rfl]
  rw [h2]
  generalize (if (takeEvents r.uhrp).1.sendResign then r1.emit (.send msgResign addrBroadcast []) else r1) = r2
  have h3 : (if (takeEvents r.uhrp).1.sendHello then
      (view r2).emit (.send msgHello addrBroadcast (helloPack (buildHello (view r2).uhrp))) else view r2) =
      view (if (takeEvents r.uhrp).1.sendHello then
        r2.emit (.send msgHello addrBroadcast (helloPack (buildHello r2.uhrp))) else r2) := by
    rw [apply_ite view]
    refine if_congr Iff.rfl ?_ rfl
    have hb : maskPayload msgHello (helloPack (buildHello r2.uhrp)) = helloPack (buildHello (view r2).uhrp) :=
      (maskHello_pack _).trans (congrArg helloPack (buildHello_low r2.uhrp).symm)
    simp [view, Router.emit, seenAct, hb]
  rw [h3]
  generalize (if (takeEvents r.uhrp).1.sendHello then
    r2.emit (.send msgHello addrBroadcast (helloPack (buildHello r2.uhrp))) else r2) = r3
  have h4 : (if isActive (view r3) then announceFocus (view r3) else view r3) =
      view (if isActive r3 then announceFocus r3 else r3) := by
    rw [apply_ite view, announceFocus_view]
    rfl
  rw [h4]
  generalize (if isActive r3 then announceFocus r3 else r3) = r4
  cases (takeEvents r.uhrp).1.stateChanged with
  | false => exact view_view r3
  | true => exact (recomputeLevel_view _).trans ((view_view r4).trans (recomputeLevel_view r4).symm)

/-! ## Operation by operation -/

theorem forwardInput_view (kind : Byte) (report : List Byte) :
    forwardInput (view r) kind report = (forwardInput r kind report).map view := by
  have h : hasCap (view r).cfg.caps capHidIn = hasCap r.cfg.caps capHidIn :=
    hasCap_low r.cfg.caps (show 0xFF0F &&& capHidIn = capHidIn by decide)
  simp only [forwardInput, h]
  rw [apply_ite (Option.map view), apply_ite (Option.map view), apply_ite (Option.map view), Option.map_some, Option.map_some,
    ← emit_view r _ rfl]
  rfl

theorem noteKeysHeld_view : view (noteKeysHeld (view r)) = view (noteKeysHeld r) := by
  have h : ({ view r with uhrp := setKeysHeld (view r).uhrp (hidAnyHeld (view r).hid) } : Router) =
      view { r with uhrp := setKeysHeld r.uhrp (hidAnyHeld r.hid) } := rfl
  rw [noteKeysHeld, h, drainUhrp_view]
  rfl

theorem routerLocalKbd_view (rep : KbdReport) : view (routerLocalKbd (view r) rep) = view (routerLocalKbd r rep) := by
  simp only [routerLocalKbd, forwardInput_view]
  cases forwardInput r inputKindKbd (kbdPack rep) with
  | some s => exact view_view s
  | none =>
    show view (noteKeysHeld (sendKbdTo (view r) r.focus rep)) = _
    rw [sendKbdTo_view, noteKeysHeld_view]

theorem routerLocalMouse_view (rep : MouseReport) (now : Time) :
    view (routerLocalMouse (view r) rep now) = view (routerLocalMouse r rep now) := by
  simp only [routerLocalMouse, forwardInput_view]
  cases forwardInput r inputKindMouse (mousePack rep) with
  | some s => exact view_view s
  | none =>
    have hp : pointerFeed (view r).pointer rep.dx rep.dy now = pointerFeed r.pointer rep.dx rep.dy now := rfl
    simp only [Option.map_none, hp]
    generalize pointerFeed r.pointer rep.dx rep.dy now = fed
    have h : ({ view r with pointer := fed.2 } : Router) = view { r with pointer := fed.2 } := rfl
    rw [h, crossingTarget_view, applyFocus_view, sendMouseTo_view, apply_ite view, apply_ite view, view_view, noteKeysHeld_view]
    rfl

/-- An election that does not look at its capabilities keeps them, and looks the same. -/
theorem elect_view (f : Uhrp → Uhrp) (hf : ∀ c u, f (recap c u) = recap c (f u)) :
    ({ view r with uhrp := f (view r).uhrp } : Router) = view { r with uhrp := f r.uhrp } := by
  have hcaps : (f r.uhrp).cfg.caps = r.uhrp.cfg.caps := by
    have h : f r.uhrp = recap r.uhrp.cfg.caps (f r.uhrp) := (hf r.uhrp.cfg.caps r.uhrp).symm ▸ rfl
    rw [h]
    rfl
  show ({ view r with uhrp := f (recap (low r.uhrp.cfg.caps) r.uhrp) } : Router) = _
  rw [hf, ← hcaps]
  rfl

theorem chainGet_view (addr : Addr) : chainGet (view r) addr = (chainGet r addr).map fun chain => chain.map maskEntry := by
  have hfresh : maskEntry (freshEntry addr) = freshEntry addr := by simp [maskEntry, freshEntry, low]
  unfold chainGet
  rw [show (view r).chain = r.chain.map maskEntry from rfl, Slots.map_ensure maskEntry_keeps r.chain hfresh]
  cases r.chain.ensure (freshEntry addr) <;> rfl

theorem learn_view (chain : Chain) (addr : Addr) {g : ChainEntry → ChainEntry}
    (hg : ∀ e, maskEntry (g (maskEntry e)) = maskEntry (g e)) :
    view { view r with chain := (chain.map maskEntry).modify addr g } = view { r with chain := chain.modify addr g } := by
  have h := Slots.map_modify_map maskEntry_keeps chain addr maskEntry_maskEntry hg
  have hv := view_view r
  simp only [view, h] at hv ⊢
  injection hv with h1 h2 h3 h4 h5 h6 h7 h8 h9 h10 h11
  rw [h1, h2, h11]

theorem learnPosition_view (f : Frame) (inPort : Port) (now : Time) :
    view (learnPosition (view r) f inPort now) = view (learnPosition r f inPort now) := by
  unfold learnPosition
  rw [chainGet_view, apply_ite view, apply_ite view, view_view]
  refine if_congr Iff.rfl rfl ?_
  cases chainGet r f.src with
  | none => exact view_view r
  | some chain =>
    refine learn_view r chain f.src fun e => ?_
    simp only [maskEntry, low_low]

theorem learnCaps_view (src : Addr) (h : Hello) : view (learnCaps (view r) src h) = view (learnCaps r src h) := by
  unfold learnCaps
  rw [chainGet_view]
  cases chainGet r src with
  | none => exact view_view r
  | some chain => exact learn_view r chain src fun _ => rfl

/-- The election takes a step, and what it asks for is done. -/
theorem settle_view (f : Uhrp → Uhrp) (hf : ∀ c u, f (recap c u) = recap c (f u)) :
    view (recomputeLevel (drainUhrp { view r with uhrp := f (view r).uhrp })) =
      view (recomputeLevel (drainUhrp { r with uhrp := f r.uhrp })) := by
  rw [elect_view r f hf, recomputeLevel_view, recomputeLevel_view, drainUhrp_view]

theorem routerTick_view (now : Time) : view (routerTick (view r) now) = view (routerTick r now) := by
  have h : (view r).emit (.linkTick now) = view (r.emit (.linkTick now)) := emit_view r _ rfl
  unfold routerTick
  rw [h]
  exact settle_view (r.emit (.linkTick now)) (fun u => tick u now) fun c u => tick_recap c u now

theorem uhrpStart_recap (c : UInt16) (u : Uhrp) (now : Time) : uhrpStart (recap c u) now = recap c (uhrpStart u now) := by
  have h := enterState_recap c { u with started := true, vacancyClean := true } .learn now
  exact congrArg (fun u : Uhrp => { u with tStateEntered := now, tNextHello := now }) h

theorem routerStart_view (now : Time) : view (routerStart (view r) now) = view (routerStart r now) := by
  have h := elect_view { r with pointer := pointerArrive r.pointer .none now } (fun u => uhrpStart u now)
    fun c u => uhrpStart_recap c u now
  exact (congrArg (fun s => view (drainUhrp s)) h).trans (drainUhrp_view _)

theorem rxHelloFrame_view (src : Addr) (h : Hello) (now : Time) :
    view (rxHelloFrame (view r) src h now) = view (rxHelloFrame r src h now) := by
  have hs := fun s => settle_view s (fun u => rxHello u src h now) fun c u => rxHello_recap c u src h now
  have hr := learnCaps_view r src h
  unfold rxHelloFrame
  exact (hs (learnCaps (view r) src h)).symm.trans (hr ▸ hs (learnCaps r src h))

theorem rxFocus_view (fo : Focus) : rxFocus (view r) fo = view (rxFocus r fo) := by
  let s : Router := { r with focus := fo.target }
  have h : ({ view r with focus := fo.target } : Router).emit (.focusChanged fo.target (fo.target == r.cfg.self)) =
      view (s.emit (.focusChanged fo.target (fo.target == r.cfg.self))) := emit_view s _ rfl
  simp only [rxFocus]
  rw [apply_ite view, apply_ite view, ← releaseMachine_view, ← h]
  rfl

theorem rxInput_view (f : Frame) (now : Time) : view (rxInput (view r) f now) = view (rxInput r f now) := by
  have hcap : ∀ e : ChainEntry, hasCap (maskEntry e).caps capHidIn = hasCap e.caps capHidIn := fun e =>
    hasCap_low e.caps (show 0xFF0F &&& capHidIn = capHidIn by decide)
  have hact : isActive (view r) = isActive r := rfl
  unfold rxInput
  rw [hact, chainFind_view]
  split
  · exact view_view r
  cases chainFind r f.src with
  | none => exact view_view r
  | some e =>
    simp only [Option.map_some, hcap]
    split
    · exact view_view r
    split
    · cases kbdUnpack f.payload.tail with
      | none => exact view_view r
      | some rep => exact routerLocalKbd_view r rep
    split
    · cases mouseUnpack f.payload.tail with
      | none => exact view_view r
      | some rep => exact routerLocalMouse_view r rep now
    · exact view_view r

theorem rxRelease_view : rxRelease (view r) = view (rxRelease r) := by
  let s : Router := { r with hid := hidForget r.hid r.selfSlot }
  exact emit_emit_view s _ _ rfl rfl

theorem routerRx_view (f : Frame) (inPort : Port) (now : Time) :
    view (routerRx (view r) f inPort now) = view (routerRx r f inPort now) := by
  have hs := learnPosition_view r f inPort now
  simp only [routerRx]
  generalize learnPosition (view r) f inPort now = s' at hs
  generalize learnPosition r f inPort now = s at hs
  -- what looks the same before a branch looks the same after it
  have hF : ∀ F : Router → Router, (∀ t, view (F (view t)) = view (F t)) → view (F s') = view (F s) := fun F h => by
    rw [← h s', hs, h s]
  split_ifs
  · cases helloUnpack f.payload with
    | none => exact hs
    | some h => exact hF (fun t => rxHelloFrame t f.src h now) fun t => rxHelloFrame_view t f.src h now
  · exact hF (fun t => recomputeLevel (drainUhrp { t with uhrp := rxResign t.uhrp f.src now })) fun t =>
      settle_view t (fun u => rxResign u f.src now) fun c u => rxResign_recap c u f.src now
  · cases kbdUnpack f.payload with
    | none => exact hs
    | some rep => exact hF (fun t => t.emit (.deliverKbd rep)) fun t => by rw [emit_view t _ rfl, view_view]
  · cases mouseUnpack f.payload with
    | none => exact hs
    | some rep => exact hF (fun t => t.emit (.deliverMouse rep)) fun t => by rw [emit_view t _ rfl, view_view]
  · cases focusUnpack f.payload with
    | none => exact hs
    | some fo => exact hF (fun t => rxFocus t fo) fun t => by rw [rxFocus_view, view_view]
  · exact hF (fun t => t.emit (.deliverData f)) fun t => by rw [emit_view t _ rfl, view_view]
  · exact hF (fun t => rxInput t f now) fun t => rxInput_view t f now
  · exact hF rxRelease fun t => by rw [rxRelease_view, view_view]
  · exact hs

theorem apply_view (op : Routing.Op) (hop : ∀ caps, op ≠ .setCaps caps) : view (apply (view r) op) = view (apply r op) := by
  cases op with
  | start now => exact routerStart_view r now
  | localKbd rep => exact routerLocalKbd_view r rep
  | localMouse rep now => exact routerLocalMouse_view r rep now
  | button now => exact (congrArg view (routerButton_view r now)).trans (view_view _)
  | setFocus target reason now =>
    exact (congrArg view (applyFocus_view r target reason .none now true)).trans (view_view _)
  | rx f inPort now => exact routerRx_view r f inPort now
  | tick now => exact routerTick_view r now
  | setCaps caps => exact absurd rfl (hop caps)

/-- Routers that look the same still do after an operation. -/
theorem alike_step {r s : Router} (h : Alike r s) (op : Routing.Op) (hop : ∀ caps, op ≠ .setCaps caps) :
    Alike (step r op) (step s op) := by
  have h0 : ({ view r with out := [] } : Router) = { view s with out := [] } := by rw [h]
  have hr := apply_view { r with out := [] } op hop
  have hs := apply_view { s with out := [] } op hop
  exact hr.symm.trans ((congrArg (fun t => view (apply t op)) h0).trans hs)


/-! ## Other capabilities -/

/-- What a router takes its own capabilities from. -/
structure Capped (r : Router) : Prop where
  caps : r.uhrp.cfg.caps = r.cfg.caps
  priority : r.uhrp.cfg.priority = priorityFromCaps r.cfg.caps
  own : ∀ e, r.chain.find? r.cfg.self = some e → e.caps = r.cfg.caps

def restate (caps : UInt16) (r : Router) : Router :=
  { r with
    cfg := { r.cfg with caps := caps }
    uhrp := withCaps caps r.uhrp
    chain := r.chain.modify r.cfg.self fun e => { e with caps := caps } }

/-- Telling a router the capabilities it has changes nothing. -/
theorem setCaps_eq {r : Router} (h : Capped r) (caps : UInt16) : routerSetCaps r caps = restate caps r := by
  unfold routerSetCaps
  split
  · rename_i hc
    have hchain : (r.chain.modify r.cfg.self fun e => { e with caps := r.cfg.caps }) = r.chain :=
      Slots.modify_eq_self fun e he => by rw [← h.own e he]
    have hu : withCaps r.cfg.caps r.uhrp = r.uhrp := by
      rw [withCaps, ← h.priority, ← h.caps]
    rw [hc, restate, hchain, hu]
  · rfl

theorem restate_view (r : Router) (caps : UInt16) : view (restate caps r) = restate (low caps) (view r) := by
  have hchain : (r.chain.modify r.cfg.self fun e => { e with caps := caps }).map maskEntry =
      (r.chain.map maskEntry).modify r.cfg.self fun e => { e with caps := low caps } :=
    Slots.map_modify maskEntry_keeps r.chain r.cfg.self fun _ => rfl
  simp only [view, restate, withCaps, recap, hchain, priorityFromCaps_low]

/-- Routers that look the same still do when their capabilities change to what differs
    only in a client's bits. -/
theorem alike_setCaps {r s : Router} (h : Alike r s) (hr : Capped r) (hs : Capped s) {caps caps' : UInt16}
    (hc : low caps = low caps') : Alike (routerSetCaps r caps) (routerSetCaps s caps') := by
  rw [setCaps_eq hr, setCaps_eq hs, Alike, restate_view, restate_view, hc, h]

theorem capped_setCaps {r : Router} (h : Capped r) (caps : UInt16) : Capped (routerSetCaps r caps) := by
  rw [setCaps_eq h]
  refine ⟨rfl, rfl, fun e he => ?_⟩
  have hf := Slots.find?_modify_self r.chain r.cfg.self (fun e => { e with caps := caps }) fun _ hu hk => ⟨hu, hk⟩
  rw [show (restate caps r).chain.find? (restate caps r).cfg.self = _ from hf] at he
  obtain ⟨e0, _, rfl⟩ := Option.map_eq_some_iff.mp he
  rfl

theorem capped_step {r : Router} (h : Capped r) (hd : r.uhrp.ev = Events.none) {op : Routing.Op} (hop : ∀ caps, op ≠ .setCaps caps)
    (hsrc : ∀ f inPort now, op = .rx f inPort now → f.src ≠ r.cfg.self) : Capped (step r op) := by
  obtain ⟨h1, h2, h3⟩ := own_step r hd hop hsrc
  exact ⟨by rw [h1, h2]; exact h.caps, by rw [h1, h2]; exact h.priority, by rw [h1, h3]; exact h.own⟩

theorem capped_init (cfg : RouterCfg) : Capped (routerInit cfg) := by
  have hu : ∀ c : Config, c.priority = 0 → (uhrpInit c).cfg.caps = c.caps ∧
      (uhrpInit c).cfg.priority = priorityFromCaps c.caps := by
    intro c hp
    simp only [uhrpInit, if_pos hp]
    split <;> exact ⟨rfl, rfl⟩
  obtain ⟨h1, h2⟩ := hu ⟨cfg.uid, cfg.self, 0, cfg.caps, cfg.preempt, cfg.timing⟩ rfl
  refine ⟨h1, h2, fun e he => ?_⟩
  have hc : ((Slots.replicate maxBoards { freshEntry 0 with used := false } : Chain).claim
      { freshEntry cfg.self with uid := cfg.uid, caps := cfg.caps }).isSome = true := by
    simp [Slots.claim, Slots.replicate, maxBoards, Slotted.used]
  obtain ⟨t, ht⟩ := Option.isSome_iff_exists.mp hc
  have hf := Slots.find?_claim_self ht rfl (Slots.find?_replicate_none rfl cfg.self)
  have hchain : (routerInit cfg).chain = t := by
    simp only [routerInit, ht, Option.getD_some]
  rw [hchain, show (routerInit cfg).cfg.self = cfg.self from rfl] at he
  cases hf.symm.trans he
  rfl

end DeskHop.Client
