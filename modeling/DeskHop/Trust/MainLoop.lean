/-
  DeskHop.Trust.MainLoop — what the two main loops do with pairing: the chain board's
  (`firmware/rp2040/src/main.c`) and the coordinator's (`coordinator/src/main.c`).

  Both hold a link, a pairing machine, the flag that lets frames through to the router
  and a stored key (`Node`); they differ in what they show (`panel`). The rest of
  either loop (router, client link) reaches the link only by sending through it and
  ticking it.
-/

import DeskHop.Trust.Pair
import DeskHop.Wire.Link

namespace DeskHop.Trust

open DeskHop.Wire

structure Node (π : Type) where
  link : Link
  pair : Pair
  paired : Bool
  /-- The key in flash, or in the key file. -/
  stored : Option Key
  panel : π
  deriving DecidableEq

variable (c : Crypto)

/-- What both `main`s start with: the link, the stored key if there is one, the machine. -/
def Node.boot {π : Type} (self : Addr) (uid : Uid) (stored : Option Key) (panel : π) : Node π :=
  { link := match stored with
      | some key => linkSetKey (linkInit self) key
      | none => linkInit self
    pair := pairInit uid, paired := stored.isSome, stored := stored, panel := panel }

/-- One received byte: a pairing frame is the machine's, any other the router's. -/
def Node.rxByte {π : Type} (n : Node π) (p : Port) (byte : Byte) (now : Time) : Node π :=
  let (link, r) := linkRxByte n.link p byte now
  let n := { n with link := link }
  match r with
  | .error _ => n
  | .ok f => if f.type = msgPair then { n with pair := pairRx c n.pair f.payload now } else n

def Node.tick {π : Type} (n : Node π) (now : Time) : Node π := { n with pair := pairTick n.pair now }

/-- What the router and the client link send. -/
def Node.send {π : Type} (n : Node π) (type : MsgType) (dst : Addr) (payload : List Byte) : Node π :=
  { n with link := (linkSend n.link type dst payload).2 }

def Node.linkTick {π : Type} (n : Node π) (now : Time) : Node π := { n with link := Wire.linkTick n.link now }

/-- What either loop does besides pairing. -/
inductive Common where
  | byte (p : Port) (b : Byte) (now : Time)
  | tick (now : Time)
  | send (type : MsgType) (dst : Addr) (payload : List Byte)
  | linkTick (now : Time)

def Node.step {π : Type} (n : Node π) : Common → Node π
  | .byte p b now => n.rxByte c p b now
  | .tick now => n.tick now
  | .send type dst payload => n.send type dst payload
  | .linkTick now => n.linkTick now

/-- The size of the buffer the payloads are built in. -/
def pairBuf : Nat := 64

/-- A pairing payload, unless it is empty. -/
def sendPair (l : Link) (payload : List Byte) : Link :=
  if payload.length ≠ 0 then (linkSend l msgPair addrBroadcast payload).2 else l

/-- The sends `ev` asks for, the offer before the confirmation. -/
def answer (l : Link) (p : Pair) (ev : PairEvents) : Link :=
  let l := if ev.sendOffer then sendPair l (pairBuildOffer p pairBuf) else l
  let l := if ev.sendConfirm then sendPair l (pairBuildConfirm c p pairBuf) else l
  if ev.sendAbort then sendPair l (pairBuildAbort p pairBuf) else l

/-! ## The chain board -/

structure ErrorLed where
  errorUntil : Time
  errorActive : Bool
  deriving DecidableEq

abbrev Board := Node ErrorLed

namespace Board

def pairingDrain (b : Board) (now : Time) : Board :=
  let (ev, pair) := pairTakeEvents b.pair
  let b := { b with pair := pair, link := answer c b.link pair ev }
  let b := if ev.sendAbort then { b with panel := ⟨now + 4000, true⟩ } else b
  if ev.completed then
    match pairChainKey b.pair with
    | some key =>
      { b with
        stored := some key, link := linkSetKey b.link key, paired := true, panel := { b.panel with errorActive := false } }
    | none => b
  else b

/-- `BOARD_PAIR_BTN_PAIR`. -/
def pairButton (b : Board) (now : Time) (fresh : Fresh) : Board :=
  if b.pair.state ≠ .waiting then { b with pair := pairBegin b.pair now 30000 fresh } else b

/-- `BOARD_PAIR_BTN_UNPAIR`. -/
def unpairButton (b : Board) (now : Time) : Board :=
  { b with
    stored := none, link := linkClearKey b.link, paired := false, pair := pairInit b.pair.selfUid,
    panel := ⟨now + 1500, true⟩ }

inductive Event where
  | common (e : Common)
  | drain (now : Time)
  | pairButton (now : Time) (fresh : Fresh)
  | unpairButton (now : Time)

def act (b : Board) : Event → Board
  | .common e => b.step c e
  | .drain now => pairingDrain c b now
  | .pairButton now fresh => pairButton b now fresh
  | .unpairButton now => unpairButton b now

end Board

/-! ## The coordinator -/

structure Panel where
  sas : String
  message : String
  messageUntil : Time
  messageActive : Bool
  nextRender : Time
  deriving DecidableEq

abbrev Coord := Node Panel

namespace Coord

/-- `snprintf` into 32 bytes. -/
def printed (s : String) : String := String.ofList (s.toList.take 31)

def notice (n : Coord) (msg : String) (now : Time) : Coord :=
  { n with panel := { n.panel with message := printed msg, messageUntil := now + 5000, messageActive := true } }

/-- `saved`: the key file could be written. -/
def pairingDrain (n : Coord) (now : Time) (saved : Bool) : Coord :=
  let (ev, pair) := pairTakeEvents n.pair
  let n := { n with pair := pair, link := answer c n.link pair ev }
  let n := if ev.sendConfirm then { n with panel := { n.panel with sas := pairSasString pair, nextRender := 0 } } else n
  let n :=
    if ev.sendAbort then
      let n := notice n (printed ("PAIR FAILED: " ++ pair.abortReason.name)) now
      { n with panel := { n.panel with sas := "" } }
    else n
  if ev.completed then
    match pairChainKey n.pair with
    | some key =>
      let n := if saved then notice { n with stored := some key } "PAIRED" now else notice n "PAIR OK, SAVE FAILED" now
      { n with link := linkSetKey n.link key, paired := true, panel := { n.panel with sas := "" } }
    | none => n
  else n

/-- The `pair` command. -/
def startPairing (n : Coord) (now : Time) (fresh : Fresh) : Coord :=
  notice { n with pair := pairBegin n.pair now 30000 fresh, panel := { n.panel with sas := "" } } "PAIRING" now

inductive Event where
  | common (e : Common)
  | drain (now : Time) (saved : Bool)
  | startPairing (now : Time) (fresh : Fresh)

def act (n : Coord) : Event → Coord
  | .common e => n.step c e
  | .drain now saved => pairingDrain c n now saved
  | .startPairing now fresh => startPairing n now fresh

end Coord

/-! ## What a loop leaves alone -/

theorem sendPair_same (l : Link) (payload : List Byte) : (sendPair l payload).hasKey = l.hasKey ∧
    (sendPair l payload).key = l.key := by
  unfold sendPair
  split
  · exact ⟨(linkSend_same _ _ _ _).1, (linkSend_same _ _ _ _).2.1⟩
  · exact ⟨rfl, rfl⟩

theorem answer_same (l : Link) (p : Pair) (ev : PairEvents) : (answer c l p ev).hasKey = l.hasKey ∧
    (answer c l p ev).key = l.key := by
  have key (b : Bool) (l' : Link) (payload : List Byte) (h : l'.hasKey = l.hasKey ∧ l'.key = l.key) :
      (if b then sendPair l' payload else l').hasKey = l.hasKey ∧
        (if b then sendPair l' payload else l').key = l.key := by
    cases b with
    | false => exact h
    | true => exact ⟨(sendPair_same l' payload).1.trans h.1, (sendPair_same l' payload).2.trans h.2⟩
  exact key _ _ _ (key _ _ _ (key _ _ _ ⟨rfl, rfl⟩))

end DeskHop.Trust
