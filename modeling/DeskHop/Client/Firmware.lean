/-
  DeskHop.Client.Firmware — a whole chain board (`firmware/rp2040/src/main.c`): its link
  and pairing machine, its router, its client, and the main loop that ties them.

  The main loop is taken apart into its steps, which may come in any order and with any
  data. The board's machine is what the client runs on: what the client sends and when it
  fetches what waits for it are events of their own (`Event.seen`).

  `history` and `proxied` are ghosts: what came from the client under its key, and what the
  board sent on its behalf.

  Proved, of every run (`gated_run`): the capabilities the board has told its router hold
  no bit of a client's but the four it may announce, and each frame sent on the client's
  behalf is DATA of the board's own that copies a frame the attached client sent.
-/

import DeskHop.Client.Frames
import DeskHop.Trust.MainLoop

namespace DeskHop.Client

open DeskHop.Lib DeskHop.Election DeskHop.Routing DeskHop.Wire DeskHop.Trust

/-! ## State -/

/-- What a machine is given. -/
inductive Input where
  | kbd (r : KbdReport)
  | mouse (r : MouseReport)
  deriving DecidableEq

/-- What a client does, as the board notices it. -/
inductive Heard where
  | frame (f : Frame)
  | silence
  deriving DecidableEq

/-- A client is attached from an ATTACH to the next silence. -/
def attachedAfter (history : List Heard) : Bool :=
  history.foldl (fun attached e => match e with
    | .frame f => attached || announcesCaps f
    | .silence => false) false

structure Firmware where
  node : Board
  router : Router
  client : ClientLink
  lastCaps : UInt16
  /-- An input device is plugged in. -/
  hasInput : Bool
  delivered : List Input
  history : List Heard
  proxied : List Frame

/-! ## The main loop -/

namespace Firmware

/-- The hooks of the router, and its link. -/
def perform (d : Firmware) : Act → Firmware
  | .send type dst payload => { d with node := d.node.send type dst payload }
  | .linkTick now => { d with node := d.node.linkTick now }
  | .deliverKbd r => { d with delivered := d.delivered ++ [.kbd r] }
  | .deliverMouse r => { d with delivered := d.delivered ++ [.mouse r] }
  | .deliverData f => { d with client := clientDeliver d.client f }
  | .focusChanged _ _ => d
  | .levelChanged _ => d

def route (d : Firmware) (op : Routing.Op) : Firmware :=
  let r := step d.router op
  r.out.foldl perform { d with router := { r with out := [] } }

def currentCaps (d : Firmware) : UInt16 :=
  let caps := capHidOut
  let caps := if d.hasInput then caps ||| capHidIn else caps
  caps ||| clientCapsOf d.client

/-- The start of `main`, with the key in flash, if there is one. -/
def boot (self : Addr) (uid : Uid) (stored : Option Key) (hasInput : Bool) (now : Time) : Firmware :=
  let caps := if hasInput then capHidOut ||| capHidIn else capHidOut
  let d : Firmware :=
    { node := Node.boot self uid stored ⟨0, false⟩
      router := routerInit ⟨self, uid, caps, false, timingDefault, pointerCfgDefault⟩
      client := clientInit, lastCaps := caps, hasInput := hasInput, delivered := [], history := [], proxied := [] }
  d.route (.start now)

variable (c : Crypto)

/-- A received byte; the frame it completes is the pairing machine's, or the router's. -/
def rxByte (d : Firmware) (p : Port) (byte : Byte) (now : Time) : Firmware :=
  let d' := { d with node := d.node.rxByte c p byte now }
  match (linkRxByte d.node.link p byte now).2 with
  | .error _ => d'
  | .ok f => if f.type ≠ msgPair && d.node.paired then d'.route (.rx f p now) else d'

def checkCaps (d : Firmware) : Firmware :=
  let caps := d.currentCaps
  if caps ≠ d.lastCaps then { d.route (.setCaps caps) with lastCaps := caps } else d

/-- One byte of a report of the client. -/
def clientByte (d : Firmware) (byte : Byte) (now : Time) : Firmware :=
  let (client, link) := clientRxByte d.client d.node.link byte now
  let d' := { d with client := client, node := { d.node with link := link } }
  match (framerPush d.client.framer byte (some d.client.key)).2 with
  | .ok f =>
    { d' with history := d.history ++ [.frame f], proxied := d.proxied ++ (Client.proxied d.client d.node.link f).toList }
  | .error _ => d'

def task (d : Firmware) (ready : Bool) (now : Time) : Firmware :=
  let (client, _) := clientTask d.client d.router ready now
  let d' := { d with client := client }
  if d.client.attached && !client.attached then { d' with history := d.history ++ [.silence] } else d'

end Firmware

inductive Event where
  | byte (p : Port) (b : Byte) (now : Time)
  | localKbd (rep : KbdReport)
  | localMouse (rep : MouseReport) (now : Time)
  | switchButton (now : Time)
  | pairButton (now : Time) (fresh : Fresh)
  | unpairButton (now : Time)
  | plug (hasInput : Bool)
  | caps
  | pairTick (now : Time)
  | drain (now : Time)
  | tick (now : Time)
  /-- A report of the client. -/
  | report (data : List Byte) (now : Time)
  /-- The client's periodic work; `ready`: the client has fetched the last report. -/
  | task (ready : Bool) (now : Time)

/-- What an observer of the chain and of the machine's input sees of an event: all but the
    client's. -/
def Event.seen : Event → Option Event
  | .report _ _ => none
  | .task _ _ => none
  | e => some e

namespace Firmware

def act (c : Crypto) (d : Firmware) : Event → Firmware
  | .byte p b now => d.rxByte c p b now
  | .localKbd rep => d.route (.localKbd rep)
  | .localMouse rep now => d.route (.localMouse rep now)
  | .switchButton now => d.route (.button now)
  | .pairButton now fresh => { d with node := Board.pairButton d.node now fresh }
  | .unpairButton now => { d with node := Board.unpairButton d.node now }
  | .plug hasInput => { d with hasInput := hasInput }
  | .caps => d.checkCaps
  | .pairTick now => { d with node := d.node.tick now }
  | .drain now => { d with node := Board.pairingDrain c d.node now }
  | .tick now => d.route (.tick now)
  | .report data now => data.foldl (fun d b => d.clientByte b now) d
  | .task ready now => d.task ready now

end Firmware

/-- The pairing machine once the link has judged a byte. -/
def heardPair (c : Crypto) (p : Pair) (r : Except Result Frame) (now : Time) : Pair :=
  match r with
  | .error _ => p
  | .ok f => if f.type = msgPair then pairRx c p f.payload now else p

theorem rxByte_node (c : Crypto) (n : Board) (p : Port) (byte : Byte) (now : Time) : n.rxByte c p byte now =
    { n with
      link := (linkRxByte n.link p byte now).1, pair := heardPair c n.pair (linkRxByte n.link p byte now).2 now } := by
  unfold Node.rxByte heardPair
  generalize linkRxByte n.link p byte now = res
  obtain ⟨link, r⟩ := res
  cases r with
  | error e => rfl
  | ok f =>
    dsimp only
    split <;> rfl

/-- The link once the events of the pairing machine have been acted on. -/
def drainedLink (c : Crypto) (l : Link) (p : Pair) : Link :=
  let (ev, pair) := pairTakeEvents p
  let l := answer c l pair ev
  if ev.completed then
    match pairChainKey pair with
    | some key => linkSetKey l key
    | none => l
  else l

theorem pairingDrain_link (c : Crypto) (b : Board) (now : Time) :
    (Board.pairingDrain c b now).link = drainedLink c b.link b.pair := by
  simp only [Board.pairingDrain, drainedLink]
  generalize pairTakeEvents b.pair = taken
  obtain ⟨ev, pair⟩ := taken
  cases ha : ev.sendAbort <;> cases hc : ev.completed <;> simp only [Bool.false_eq_true, if_true, if_false] <;>
    cases pairChainKey pair <;> rfl

/-- Of the rest of the board, nothing depends on the link. -/
theorem pairingDrain_rest (c : Crypto) (b : Board) (l l' : Link) (now : Time) :
    { Board.pairingDrain c { b with link := l } now with link := l' } =
      { Board.pairingDrain c b now with link := l' } := by
  simp only [Board.pairingDrain]
  generalize pairTakeEvents b.pair = taken
  obtain ⟨ev, pair⟩ := taken
  cases ha : ev.sendAbort <;> cases hc : ev.completed <;> simp only [Bool.false_eq_true, if_true, if_false] <;>
    cases pairChainKey pair <;> rfl

theorem drainedLink_self (c : Crypto) (l : Link) (p : Pair) : (drainedLink c l p).self = l.self := by
  have hsend : ∀ (b : Bool) (l : Link) (payload : List Byte), (if b then sendPair l payload else l).self = l.self := by
    intro b l payload
    cases b
    · rfl
    · unfold sendPair
      simp only [if_true]
      split
      · exact (linkSend_same _ _ _ _).2.2.2
      · rfl
  have hans : ∀ (l : Link) (p : Pair) (ev : PairEvents), (answer c l p ev).self = l.self := by
    intro l p ev
    simp only [answer, hsend]
  simp only [drainedLink]
  split
  · split
    · exact hans l _ _
    · exact hans l _ _
  · exact hans l _ _

/-- `g` is DATA of the board's own, and copies a DATA frame the client sent under its key
    while attached. -/
def OnBehalf (self : Addr) (history : List Heard) (g : Frame) : Prop :=
  g.type = msgData ∧ g.src = self ∧ ∃ pre f post, history = pre ++ .frame f :: post ∧ attachedAfter pre = true ∧
    frameMacValid f.body localKey = true ∧ f.type = msgData ∧ g.dst = f.dst ∧ g.payload = f.payload

theorem OnBehalf.later {self : Addr} {history : List Heard} {g : Frame} (h : OnBehalf self history g) (e : Heard) :
    OnBehalf self (history ++ [e]) g := by
  obtain ⟨ht, hs, pre, f, post, rfl, hf⟩ := h
  exact ⟨ht, hs, pre, f, post ++ [e], by rw [List.append_assoc, List.cons_append], hf⟩

/-- What holds of a board in every run. -/
structure Gated (d : Firmware) : Prop where
  self : d.node.link.self = d.router.cfg.self
  sound : Sound d.router
  taken : d.router.out = []
  capped : Capped d.router
  last : d.lastCaps = d.router.cfg.caps
  key : d.client.key = localKey
  masked : Masked d.client
  attached : d.client.attached = attachedAfter d.history
  behalf : ∀ g ∈ d.proxied, OnBehalf d.node.link.self d.history g

namespace Gated

open Firmware

variable {d : Firmware}

theorem setNode (h : Gated d) {node : Board} (hs : node.link.self = d.node.link.self) : Gated { d with node := node } :=
  ⟨hs.trans h.self, h.sound, h.taken, h.capped, h.last, h.key, h.masked, h.attached, by rw [hs]; exact h.behalf⟩

theorem setClient (h : Gated d) {cl : ClientLink} (hk : cl.key = d.client.key) (hm : Masked cl)
    (ha : cl.attached = d.client.attached) : Gated { d with client := cl } :=
  ⟨h.self, h.sound, h.taken, h.capped, h.last, hk.trans h.key, hm, ha.trans h.attached, h.behalf⟩

theorem perform (h : Gated d) (a : Act) : Gated (d.perform a) := by
  cases a with
  | send type dst payload => exact h.setNode (linkSend_same _ _ _ _).2.2.2
  | linkTick now => exact h.setNode (linkTick_same _ _).2.2.2
  | deliverData f =>
    obtain ⟨h1, h2, h3⟩ := clientDeliver_same d.client f
    exact h.setClient h1 (by rw [Masked, h2]; exact h.masked) h3
  | _ => exact ⟨h.self, h.sound, h.taken, h.capped, h.last, h.key, h.masked, h.attached, h.behalf⟩

theorem route (h : Gated d) {op : Routing.Op} (hop : ∀ caps, op ≠ .setCaps caps)
    (hsrc : ∀ f inPort now, op = .rx f inPort now → f.src ≠ d.router.cfg.self) : Gated (d.route op) := by
  have hc := capped_step h.capped h.sound.drained hop hsrc
  have hs := sound_step h.sound op
  have hcfg := (own_step d.router h.sound.drained hop hsrc).1
  have h0 : Gated { d with router := { step d.router op with out := [] } } :=
    ⟨h.self.trans (congrArg RouterCfg.self hcfg).symm, ⟨hs.own, hs.drained, hs.blank⟩, rfl,
      ⟨hc.caps, hc.priority, hc.own⟩, h.last.trans (congrArg RouterCfg.caps hcfg).symm, h.key, h.masked, h.attached,
      h.behalf⟩
  exact List.foldlRecOn (motive := Gated) _ _ h0 fun d hd a _ => hd.perform a

/-- The capabilities the board has are those its router knows of afterwards. -/
theorem checkCaps_eq (h : Gated d) :
    d.checkCaps = { d with router := routerSetCaps d.router d.currentCaps, lastCaps := d.currentCaps } := by
  have hr : ({ d.router with out := [] } : Router) = d.router := by rw [← h.taken]
  have hset : routerSetCaps d.router d.lastCaps = d.router := by rw [h.last]; exact if_pos rfl
  unfold checkCaps
  dsimp only
  split
  · have hstep : step d.router (.setCaps d.currentCaps) = routerSetCaps d.router d.currentCaps := by
      show routerSetCaps { d.router with out := [] } d.currentCaps = _
      rw [hr]
    have hout : (routerSetCaps d.router d.currentCaps).out = [] := by
      unfold routerSetCaps
      split <;> exact h.taken
    have hr' : ({ routerSetCaps d.router d.currentCaps with out := [] } : Router) = routerSetCaps d.router d.currentCaps := by
      rw [← hout]
    simp only [Firmware.route, hstep, hout, hr', List.foldl_nil]
  · rename_i hsame
    rw [not_not.mp hsame, hset]

theorem checkCaps (h : Gated d) : Gated d.checkCaps := by
  rw [h.checkCaps_eq]
  have hself : (routerSetCaps d.router d.currentCaps).cfg.self = d.router.cfg.self ∧
      (routerSetCaps d.router d.currentCaps).cfg.caps = d.currentCaps ∧
      (routerSetCaps d.router d.currentCaps).out = d.router.out := by
    rw [setCaps_eq h.capped]
    exact ⟨rfl, rfl, rfl⟩
  exact ⟨h.self.trans hself.1.symm, sound_setCaps h.sound _, hself.2.2.trans h.taken, capped_setCaps h.capped _,
    hself.2.1.symm, h.key, h.masked, h.attached, h.behalf⟩

/-- A frame that came from the client is noted; what the board sends for it copies it. -/
theorem clientByte (h : Gated d) (byte : Byte) (now : Time) : Gated (d.clientByte byte now) := by
  simp only [Firmware.clientByte, clientRxByte]
  cases hr : (framerPush d.client.framer byte (some d.client.key)).2 with
  | error e => exact h.setClient rfl h.masked rfl
  | ok f =>
    let cl : ClientLink := { d.client with framer := (framerPush d.client.framer byte (some d.client.key)).1 }
    have hmac : frameMacValid f.body localKey = true := h.key ▸ framerPush_mac hr
    have hself : (handleFromClient cl d.node.link f now).2.self = d.node.link.self := by
      rw [handleFromClient_chain]
      split
      · exact (linkSend_same _ _ _ _).2.2.2
      · rfl
    have hatt : (handleFromClient cl d.node.link f now).1.attached = attachedAfter (d.history ++ [.frame f]) := by
      rw [handleFromClient_attached, attachedAfter, List.foldl_concat]
      exact congrArg (· || announcesCaps f) h.attached
    have hmask := handleFromClient_masked (show Masked cl from h.masked) d.node.link f now
    refine ⟨hself.trans h.self, h.sound, h.taken, h.capped, h.last, (handleFromClient_key ..).trans h.key, hmask, hatt,
      fun g hg => ?_⟩
    show OnBehalf (handleFromClient cl d.node.link f now).2.self _ g
    rw [hself]
    rcases List.mem_append.mp hg with hg | hg
    · exact (h.behalf g hg).later _
    · have hp : Client.proxied d.client d.node.link f = some g := Option.mem_toList.mp hg
      unfold Client.proxied at hp
      split at hp
      · rename_i hd
        cases hp
        exact ⟨rfl, rfl, d.history, f, [], rfl, h.attached.symm.trans hd.2, hmac, hd.1, rfl, rfl⟩
      · cases hp

theorem task (h : Gated d) (ready : Bool) (now : Time) : Gated (d.task ready now) := by
  obtain ⟨hk, hs⟩ := clientTask_same d.client d.router ready now
  simp only [Firmware.task]
  generalize (clientTask d.client d.router ready now).1 = cl at hk hs
  rcases hs with ⟨hc, ha⟩ | ⟨hatt, hc, ha⟩
  · rw [if_neg (by rw [ha]; simp)]
    exact h.setClient hk (by rw [Masked, hc]; exact h.masked) ha
  · rw [if_pos (by rw [hatt, ha]; rfl)]
    refine ⟨h.self, h.sound, h.taken, h.capped, h.last, hk.trans h.key, by rw [Masked, hc]; exact UInt16.zero_and, ?_,
      fun g hg => (h.behalf g hg).later _⟩
    show cl.attached = attachedAfter (d.history ++ [.silence])
    rw [ha, attachedAfter, List.foldl_concat]

variable (c : Crypto)

theorem rxByte (h : Gated d) (p : Port) (byte : Byte) (now : Time) : Gated (d.rxByte c p byte now) := by
  have hself : (d.node.rxByte c p byte now).link.self = d.node.link.self := by
    rw [rxByte_node]
    exact (linkRxByte_same d.node.link p byte now).2.2
  have hn := h.setNode hself
  unfold Firmware.rxByte
  cases hr : (linkRxByte d.node.link p byte now).2 with
  | error e => exact hn
  | ok f =>
    dsimp only
    split
    · refine hn.route (by intro caps; simp) fun g q t hop => ?_
      cases hop
      rw [← h.self]
      exact linkRxByte_src hr
    · exact hn

theorem act (h : Gated d) (e : Event) : Gated (d.act c e) := by
  cases e with
  | byte p b now => exact h.rxByte c p b now
  | localKbd rep => exact h.route (by intro caps; simp) (by intro f p t; simp)
  | localMouse rep now => exact h.route (by intro caps; simp) (by intro f p t; simp)
  | switchButton now => exact h.route (by intro caps; simp) (by intro f p t; simp)
  | pairButton now fresh =>
    refine h.setNode ?_
    unfold Board.pairButton
    split <;> rfl
  | unpairButton now => exact h.setNode rfl
  | plug hasInput => exact ⟨h.self, h.sound, h.taken, h.capped, h.last, h.key, h.masked, h.attached, h.behalf⟩
  | caps => exact h.checkCaps
  | pairTick now => exact h.setNode rfl
  | drain now =>
    refine h.setNode ?_
    rw [pairingDrain_link, drainedLink_self]
  | tick now => exact h.route (by intro caps; simp) (by intro f p t; simp)
  | report data now => exact List.foldlRecOn (motive := Gated) _ _ h fun d hd b _ => hd.clientByte b now
  | task ready now => exact h.task ready now

end Gated

theorem gated_boot (self : Addr) (uid : Uid) (stored : Option Key) (hasInput : Bool) (now : Time) :
    Gated (Firmware.boot self uid stored hasInput now) := by
  refine Gated.route ?_ (by intro caps; simp) (by intro f p t; simp)
  refine ⟨?_, sound_init _, rfl, capped_init _, rfl, rfl, UInt16.zero_and, rfl, fun g hg => ?_⟩
  · unfold Node.boot
    cases stored <;> rfl
  · cases hg

/-- What holds of a board in every run. -/
theorem gated_run (c : Crypto) {d : Firmware} (h : Gated d) (es : List Event) : Gated (es.foldl (Firmware.act c) d) :=
  List.foldlRecOn (motive := Gated) _ _ h fun _ hd e _ => hd.act c e

end DeskHop.Client
