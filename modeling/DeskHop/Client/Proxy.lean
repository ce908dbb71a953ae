/-
  DeskHop.Client.Proxy — two boards that differ in their clients only.

  Both are given the same bytes on the chain, the same input, the same buttons and the
  same clock; what their clients send, in what reports, and when they fetch what waits for
  them, differs in any way.

  Proved (`client_is_blind`): at every step the election, the advertised priority, the
  focus and the delivered input are the same, what the two have put on the chain matches,
  and each frame sent on a client's behalf is DATA of the board's own that copies a DATA
  frame the attached client sent.
-/

import DeskHop.Client.Firmware
import DeskHop.Lib.Twin

namespace DeskHop.Client

open DeskHop.Lib DeskHop.Election DeskHop.Routing DeskHop.Wire DeskHop.Trust

/-! ## The pairing machine's sends -/

theorem Abreast.sendPair {own own' : List Frame} {l l' : Link} (h : Abreast own own' l l') (b : Bool)
    (payload : List Byte) :
    Abreast own own' (if b then Trust.sendPair l payload else l) (if b then Trust.sendPair l' payload else l') := by
  cases b
  · exact h
  · simp only [Trust.sendPair, if_true]
    split
    · exact h.send msgPair addrBroadcast rfl
    · exact h

theorem Abreast.drained {own own' : List Frame} {l l' : Link} (h : Abreast own own' l l') (c : Crypto) (p : Pair) :
    Abreast own own' (drainedLink c l p) (drainedLink c l' p) := by
  have hans := fun (ev : PairEvents) (pair : Pair) =>
    ((h.sendPair ev.sendOffer (pairBuildOffer pair pairBuf)).sendPair ev.sendConfirm
      (pairBuildConfirm c pair pairBuf)).sendPair ev.sendAbort (pairBuildAbort pair pairBuf)
  simp only [drainedLink, answer]
  split
  · split
    · exact (hans _ _).setKey _
    · exact hans _ _
  · exact hans _ _

/-! ## What the two share -/

structure Agree (d d' : Firmware) : Prop where
  links : Abreast d.proxied d'.proxied d.node.link d'.node.link
  pair : d.node.pair = d'.node.pair
  paired : d.node.paired = d'.node.paired
  stored : d.node.stored = d'.node.stored
  panel : d.node.panel = d'.node.panel
  routers : Alike d.router d'.router
  hasInput : d.hasInput = d'.hasInput
  delivered : d.delivered = d'.delivered

namespace Agree

variable {d d' : Firmware}

theorem symm (h : Agree d d') : Agree d' d :=
  ⟨h.links.symm, h.pair.symm, h.paired.symm, h.stored.symm, h.panel.symm, h.routers.symm, h.hasInput.symm,
    h.delivered.symm⟩

theorem setLinks (h : Agree d d') {l l' : Link} (hl : Abreast d.proxied d'.proxied l l') :
    Agree { d with node := { d.node with link := l } } { d' with node := { d'.node with link := l' } } :=
  ⟨hl, h.pair, h.paired, h.stored, h.panel, h.routers, h.hasInput, h.delivered⟩

theorem setClients (h : Agree d d') (cl cl' : ClientLink) : Agree { d with client := cl } { d' with client := cl' } :=
  ⟨h.links, h.pair, h.paired, h.stored, h.panel, h.routers, h.hasInput, h.delivered⟩

theorem deliver (h : Agree d d') (i : Input) :
    Agree { d with delivered := d.delivered ++ [i] } { d' with delivered := d'.delivered ++ [i] } :=
  ⟨h.links, h.pair, h.paired, h.stored, h.panel, h.routers, h.hasInput, by rw [h.delivered]⟩

/-! ## What the router asks for -/

theorem perform (h : Agree d d') {a a' : Act} (ha : seenAct a = seenAct a') (hs : (seenAct a).isSome = true) :
    Agree (d.perform a) (d'.perform a') := by
  cases a with
  | send type dst payload =>
    cases a' with
    | send type' dst' payload' =>
      simp only [seenAct, Option.some.injEq, Act.send.injEq] at ha
      obtain ⟨rfl, rfl, hp⟩ := ha
      exact h.setLinks (h.links.send type dst hp)
    | _ => simp [seenAct] at ha
  | levelChanged l => cases hs
  | linkTick now =>
    cases a' with
    | linkTick now' =>
      simp only [seenAct, Option.some.injEq, Act.linkTick.injEq] at ha
      subst ha
      exact h.setLinks (h.links.tick now)
    | _ => simp [seenAct] at ha
  | deliverKbd r =>
    cases a' with
    | deliverKbd r' =>
      simp only [seenAct, Option.some.injEq, Act.deliverKbd.injEq] at ha
      subst ha
      exact h.deliver _
    | _ => simp [seenAct] at ha
  | deliverMouse r =>
    cases a' with
    | deliverMouse r' =>
      simp only [seenAct, Option.some.injEq, Act.deliverMouse.injEq] at ha
      subst ha
      exact h.deliver _
    | _ => simp [seenAct] at ha
  | focusChanged f s =>
    cases a' with
    | focusChanged f' s' => exact h
    | _ => simp [seenAct] at ha
  | deliverData f =>
    cases a' with
    | deliverData f' => exact h.setClients _ _
    | _ => simp [seenAct] at ha

theorem perform_unseen {a : Act} (ha : seenAct a = none) : d.perform a = d := by
  cases a with
  | levelChanged l => rfl
  | _ => cases ha

/-- Both routers make the same operation. -/
theorem route (h : Agree d d') {op : Routing.Op} (hop : ∀ caps, op ≠ .setCaps caps) : Agree (d.route op) (d'.route op) := by
  have hr : view (step d.router op) = view (step d'.router op) := alike_step h.routers op hop
  have hout : (step d.router op).out.filterMap seenAct = (step d'.router op).out.filterMap seenAct :=
    congrArg Router.out hr
  have htaken : Alike { step d.router op with out := [] } { step d'.router op with out := [] } := by
    have h0 := congrArg (fun r : Router => ({ r with out := [] } : Router)) hr
    exact h0
  have h0 : Agree { d with router := { step d.router op with out := [] } }
      { d' with router := { step d'.router op with out := [] } } :=
    ⟨h.links, h.pair, h.paired, h.stored, h.panel, htaken, h.hasInput, h.delivered⟩
  refine foldl_twin (fun s t a ha hst => ?_) (fun s t a ha hst => ?_) (fun s t a a' ha hs hst => hst.perform ha hs) hout h0
  · rw [perform_unseen ha]
    exact hst
  · rw [perform_unseen ha]
    exact hst

/-! ## The client's events -/

/-- Whatever a client sends, the board next to it notices nothing. -/
theorem clientByte (h : Agree d d') (byte : Byte) (now : Time) : Agree (d.clientByte byte now) d' := by
  simp only [Firmware.clientByte, clientRxByte]
  cases hr : (framerPush d.client.framer byte (some d.client.key)).2 with
  | error e => exact ⟨h.links, h.pair, h.paired, h.stored, h.panel, h.routers, h.hasInput, h.delivered⟩
  | ok f =>
    let cl : ClientLink := { d.client with framer := (framerPush d.client.framer byte (some d.client.key)).1 }
    refine ⟨?_, h.pair, h.paired, h.stored, h.panel, h.routers, h.hasInput, h.delivered⟩
    show Abreast (d.proxied ++ (Client.proxied cl d.node.link f).toList) d'.proxied
      (handleFromClient cl d.node.link f now).2 d'.node.link
    have hlink := h.links.mono fun g hg => List.mem_append_left (Client.proxied cl d.node.link f).toList hg
    rw [handleFromClient_chain]
    cases hp : Client.proxied cl d.node.link f with
    | none => rw [hp] at hlink; exact hlink
    | some g =>
      rw [hp] at hlink
      have hg : ownFrame d.node.link g.type g.dst g.payload = g := by
        unfold Client.proxied at hp
        split at hp
        · cases hp
          rfl
        · cases hp
      exact hlink.sendOne (by rw [hg]; exact List.mem_append_right _ List.mem_cons_self)

theorem report (h : Agree d d') (data : List Byte) (now : Time) :
    Agree (data.foldl (fun d b => d.clientByte b now) d) d' :=
  List.foldlRecOn (motive := (Agree · d')) _ _ h fun _ hd b _ => hd.clientByte b now

theorem task (h : Agree d d') (ready : Bool) (now : Time) : Agree (d.task ready now) d' := by
  simp only [Firmware.task]
  split <;> exact ⟨h.links, h.pair, h.paired, h.stored, h.panel, h.routers, h.hasInput, h.delivered⟩

theorem unseen (h : Agree d d') (c : Crypto) {e : Event} (he : e.seen = none) : Agree (d.act c e) d' := by
  cases e with
  | report data now => exact h.report data now
  | task ready now => exact h.task ready now
  | _ => cases he

/-! ## The other events -/

variable (c : Crypto)

theorem rxByte (h : Agree d d') (p : Port) (byte : Byte) (now : Time) :
    Agree (d.rxByte c p byte now) (d'.rxByte c p byte now) := by
  obtain ⟨hl, hres⟩ := h.links.rxByte p byte now
  have hn : Agree { d with node := d.node.rxByte c p byte now } { d' with node := d'.node.rxByte c p byte now } := by
    rw [rxByte_node, rxByte_node]
    refine ⟨hl, ?_, h.paired, h.stored, h.panel, h.routers, h.hasInput, h.delivered⟩
    show heardPair c d.node.pair _ now = heardPair c d'.node.pair _ now
    rw [h.pair, hres]
  unfold Firmware.rxByte
  rw [hres, h.paired]
  cases (linkRxByte d'.node.link p byte now).2 with
  | error e => exact hn
  | ok f =>
    dsimp only
    split
    · exact hn.route (by intro caps; simp)
    · exact hn

theorem drain (h : Agree d d') (now : Time) : Agree { d with node := Board.pairingDrain c d.node now }
    { d' with node := Board.pairingDrain c d'.node now } := by
  have hn : { d.node with link := d'.node.link } = d'.node := by
    show (⟨d'.node.link, d.node.pair, d.node.paired, d.node.stored, d.node.panel⟩ : Board) = d'.node
    rw [h.pair, h.paired, h.stored, h.panel]
  have hrest : { Board.pairingDrain c d.node now with link := d'.node.link } =
      { Board.pairingDrain c d'.node now with link := d'.node.link } := by
    rw [← pairingDrain_rest c d.node d'.node.link, hn]
  have h1 := congrArg Node.pair hrest
  have h2 := congrArg Node.paired hrest
  have h3 := congrArg Node.stored hrest
  have h4 := congrArg Node.panel hrest
  refine ⟨?_, h1, h2, h3, h4, h.routers, h.hasInput, h.delivered⟩
  show Abreast _ _ (Board.pairingDrain c d.node now).link (Board.pairingDrain c d'.node now).link
  rw [pairingDrain_link, pairingDrain_link, h.pair]
  exact h.links.drained c d'.node.pair

theorem currentCaps (h : Agree d d') (hm : Masked d.client) (hm' : Masked d'.client) :
    low d.currentCaps = low d'.currentCaps := by
  have hcl : ∀ cl : ClientLink, Masked cl → low (clientCapsOf cl) = 0 := by
    intro cl hcl
    unfold clientCapsOf
    split
    · rw [low, ← hcl, UInt16.and_assoc]
      exact UInt16.and_zero
    · exact UInt16.zero_and
  simp only [Firmware.currentCaps, low_or, hcl _ hm, hcl _ hm', h.hasInput]

theorem checkCaps (h : Agree d d') (hg : Gated d) (hg' : Gated d') : Agree d.checkCaps d'.checkCaps := by
  rw [hg.checkCaps_eq, hg'.checkCaps_eq]
  exact ⟨h.links, h.pair, h.paired, h.stored, h.panel,
    alike_setCaps h.routers hg.capped hg'.capped (h.currentCaps hg.masked hg'.masked), h.hasInput, h.delivered⟩

theorem act (h : Agree d d') (hg : Gated d) (hg' : Gated d') {e : Event} (he : e.seen.isSome = true) :
    Agree (d.act c e) (d'.act c e) := by
  cases e with
  | byte p b now => exact h.rxByte c p b now
  | localKbd rep => exact h.route (by intro caps; simp)
  | localMouse rep now => exact h.route (by intro caps; simp)
  | switchButton now => exact h.route (by intro caps; simp)
  | pairButton now fresh =>
    simp only [Firmware.act, Board.pairButton, h.pair]
    split
    · exact ⟨h.links, rfl, h.paired, h.stored, h.panel, h.routers, h.hasInput, h.delivered⟩
    · exact h
  | unpairButton now =>
    exact ⟨h.links.clearKey, congrArg (fun p : Pair => pairInit p.selfUid) h.pair, rfl, rfl, rfl, h.routers, h.hasInput,
      h.delivered⟩
  | plug hasInput => exact ⟨h.links, h.pair, h.paired, h.stored, h.panel, h.routers, rfl, h.delivered⟩
  | caps => exact h.checkCaps hg hg'
  | pairTick now =>
    exact ⟨h.links, congrArg (pairTick · now) h.pair, h.paired, h.stored, h.panel, h.routers, h.hasInput, h.delivered⟩
  | drain now => exact h.drain c now
  | tick now => exact h.route (by intro caps; simp)
  | report data now => cases he
  | task ready now => cases he

end Agree

/-! ## Two runs -/

/-- What an observer of the chain, of the election and of the machine's input can tell of
    two boards that differ in their clients. -/
structure Blind (d d' : Firmware) : Prop where
  /-- All of the election but the capabilities themselves. -/
  election : recap 0 d.router.uhrp = recap 0 d'.router.uhrp
  priority : d.router.uhrp.cfg.priority = d'.router.uhrp.cfg.priority
  caps : low d.router.uhrp.cfg.caps = low d'.router.uhrp.cfg.caps
  focus : d.router.focus = d'.router.focus
  delivered : d.delivered = d'.delivered
  wires : Matches d.proxied d'.proxied d.node.link.wire d'.node.link.wire
  behalf : ∀ g ∈ d.proxied, OnBehalf d.router.cfg.self d.history g
  behalf' : ∀ g ∈ d'.proxied, OnBehalf d'.router.cfg.self d'.history g

theorem Agree.blind {d d' : Firmware} (h : Agree d d') (hg : Gated d) (hg' : Gated d') : Blind d d' := by
  have hu : recap (low d.router.uhrp.cfg.caps) d.router.uhrp = recap (low d'.router.uhrp.cfg.caps) d'.router.uhrp :=
    congrArg Router.uhrp h.routers
  have hf : (view d.router).focus = (view d'.router).focus := congrArg Router.focus h.routers
  have hp := congrArg (fun u : Uhrp => u.cfg.priority) hu
  have hc := congrArg (fun u : Uhrp => u.cfg.caps) hu
  have he := congrArg (recap 0) hu
  refine ⟨he, hp, hc, hf, h.delivered, h.links.wires, ?_, ?_⟩
  · rw [← hg.self]
    exact hg.behalf
  · rw [← hg'.self]
    exact hg'.behalf

theorem Event.seen_inj {e e' : Event} (h : e.seen = e'.seen) (hs : e.seen.isSome = true) : e = e' := by
  have hself : ∀ e : Event, e.seen = none ∨ e.seen = some e := fun e => by
    cases e <;> first | exact Or.inl rfl | exact Or.inr rfl
  rcases hself e with he | he
  · rw [he] at hs
    cases hs
  rcases hself e' with he' | he'
  · rw [h, he'] at hs
    cases hs
  · exact Option.some.inj (he.symm.trans (h.trans he'))

theorem agree_run (c : Crypto) {es es' : List Event} (hs : es.filterMap Event.seen = es'.filterMap Event.seen)
    {d d' : Firmware} (h : Agree d d') (hg : Gated d) (hg' : Gated d') :
    Agree (es.foldl (Firmware.act c) d) (es'.foldl (Firmware.act c) d') := by
  let Twins (s t : Firmware) : Prop := Agree s t ∧ Gated s ∧ Gated t
  have htwins : Twins (es.foldl (Firmware.act c) d) (es'.foldl (Firmware.act c) d') := by
    refine foldl_twin (fun s t e he hst => ?_) (fun s t e he hst => ?_) (fun s t e e' he hsome hst => ?_) hs ⟨h, hg, hg'⟩
    · exact ⟨hst.1.unseen c he, hst.2.1.act c e, hst.2.2⟩
    · exact ⟨(hst.1.symm.unseen c he).symm, hst.2.1, hst.2.2.act c e⟩
    · obtain rfl := Event.seen_inj he hsome
      exact ⟨hst.1.act c hst.2.1 hst.2.2 hsome, hst.2.1.act c e, hst.2.2.act c e⟩
  exact htwins.1

/-- Two boards that start alike and are given the same, but for their clients, cannot be
    told apart by the chain. The runs being any, this holds at every step of them. -/
theorem client_is_blind (c : Crypto) (self : Addr) (uid : Uid) (stored : Option Key) (hasInput : Bool) (now : Time)
    (es es' : List Event) (h : es.filterMap Event.seen = es'.filterMap Event.seen) :
    Blind (es.foldl (Firmware.act c) (Firmware.boot self uid stored hasInput now))
      (es'.foldl (Firmware.act c) (Firmware.boot self uid stored hasInput now)) := by
  let d := Firmware.boot self uid stored hasInput now
  have hg : Gated d := gated_boot self uid stored hasInput now
  have hd : Agree d d := by
    refine ⟨⟨rfl, ?_⟩, rfl, rfl, rfl, rfl, rfl, rfl, rfl⟩
    simpa using Matches.nil.append d.node.link.wire
  exact (agree_run c h hd hg hg).blind (gated_run c hg es) (gated_run c hg es')

/-- A client attaches, claiming every capability there is, and sends DATA to board 2; then
    the board looks at its capabilities and ticks. -/
def pushyClient : List Event :=
  let attach : Frame := ⟨msgCap, ttlDefault, clientAddr, 1, 1, [localAttach, 0xFF, 0xFF], []⟩
  let data : Frame := ⟨msgData, ttlDefault, clientAddr, 2, 2, [0xAA], []⟩
  [.report (onWire attach localKey) 10, .report (onWire data localKey) 20, .caps, .tick 50]

/-- The same without the client. -/
def noClient : List Event := [.caps, .tick 50]

theorem pushy_client_is_blind :
    (pushyClient.foldl (Firmware.act mockCrypto) (Firmware.boot 1 0x1111 (some localKey) true 0)).proxied.length = 1 ∧
      Blind (pushyClient.foldl (Firmware.act mockCrypto) (Firmware.boot 1 0x1111 (some localKey) true 0))
        (noClient.foldl (Firmware.act mockCrypto) (Firmware.boot 1 0x1111 (some localKey) true 0)) :=
  ⟨by decide +kernel, client_is_blind mockCrypto 1 0x1111 (some localKey) true 0 pushyClient noClient rfl⟩

end DeskHop.Client
