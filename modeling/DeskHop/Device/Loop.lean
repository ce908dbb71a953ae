/-
  DeskHop.Device.Loop — a whole chain board between its buttons and its flash
  (`main` of `firmware/rp2040/src/main.c`).

  A pass of the main loop hands what has arrived to the board's parts in a fixed order. The
  power can be taken away between two passes, and while a pass saves a key; what is left
  then is the flash.

  `readings` is a ghost: the readings of the pair button since the power came on.

  Proved, of every run: the flash holds the key the board works with, so that a power cycle
  changes no credentials (`power_keeps`); one in the middle of a save leaves the new key or
  none (`cut_leaves`, with the exception it names). A pass changes them only once somebody has
  held the pair button for three seconds since the power came on, and takes a key away only in
  the pass in which it has been held for ten, whatever the chain and the client send
  (`changed_held`).
-/

import DeskHop.Device.Buttons
import DeskHop.Device.KeyRecord
import DeskHop.Client.Firmware
import DeskHop.Trust.Revoke

namespace DeskHop.Device

open DeskHop.Lib DeskHop.Election DeskHop.Routing DeskHop.Wire DeskHop.Trust DeskHop.Client

/-! ## State -/

structure Machine where
  fw : Firmware
  switch : Switch
  pairButton : PairButton
  flash : Sector
  readings : List Poll

/-- What one pass of the main loop finds. -/
structure Pass where
  now : Nat
  /-- The reports of the client that `tud_task` hands over, and when. -/
  reports : List (List Byte × Nat)
  /-- The bytes of both ports. -/
  up : List Byte
  down : List Byte
  kbd : List KbdReport
  mouse : List MouseReport
  switch : Poll
  pair : Poll
  fresh : Fresh
  hasInput : Bool
  /-- The client has fetched the last report. -/
  ready : Bool

namespace Pass

def clock (p : Pass) : Time := UInt32.ofNat p.now

/-- What the board hears before it reads its buttons. -/
def heard (p : Pass) : List Client.Event :=
  p.reports.map (fun r => .report r.1 (UInt32.ofNat r.2)) ++ (p.up.map fun b => .byte .up b p.clock) ++
    (p.down.map fun b => .byte .down b p.clock) ++ p.kbd.map .localKbd ++ p.mouse.map fun r => .localMouse r p.clock

/-- What the loop does on its buttons. -/
def pressed (p : Pass) (switched : Bool) (asked : PairBtn) : List Client.Event :=
  (if switched then [.switchButton p.clock] else []) ++
    match asked with
    | .none => []
    | .pair => [.pairButton p.clock p.fresh]
    | .unpair => [.unpairButton p.clock]

/-- The rest of a pass, up to the drain. -/
def kept (p : Pass) : List Client.Event := [.plug p.hasInput, .caps, .task p.ready p.clock, .pairTick p.clock]

end Pass

/-! ## The main loop -/

/-- The key a drain would save. -/
def drainSaves (p : Pair) : Option Key := if p.ev.completed then pairChainKey (pairTakeEvents p).2 else none

namespace Machine

variable (c : Crypto)

/-- The start of `main`. -/
def powerOn (self : Addr) (uid : Uid) (flash : Sector) (hasInput : Bool) (now : Time) : Machine :=
  { fw := Firmware.boot self uid (boardKeyLoad flash) hasInput now
    switch := switchInit, pairButton := pairButtonInit, flash := flash, readings := [] }

/-- A pass, up to its drain. -/
def beforeDrain (m : Machine) (p : Pass) : Machine :=
  let (switched, switch) := boardSwitchPressed m.switch p.switch
  let (asked, pairButton) := boardPairButton m.pairButton p.pair
  { fw := (p.heard ++ p.pressed switched asked ++ p.kept).foldl (Firmware.act c) m.fw
    switch := switch, pairButton := pairButton
    flash := if asked = .unpair then boardKeyErase m.flash else m.flash
    readings := m.readings ++ [p.pair] }

def pass (m : Machine) (p : Pass) : Machine :=
  let m := m.beforeDrain c p
  { m with
    fw := [Event.drain p.clock, .tick p.clock].foldl (Firmware.act c) m.fw
    flash := match drainSaves m.fw.node.pair with
      | some key => boardKeySave m.flash key
      | none => m.flash }

/-- The power fails in the drain of a pass, `k` bytes into the page if it saves a key. -/
def tornFlash (m : Machine) (p : Pass) (k : Nat) : Sector :=
  let m := m.beforeDrain c p
  match drainSaves m.fw.node.pair with
  | some key => tornSave key k
  | none => m.flash

end Machine

inductive Happening where
  | pass (p : Pass)
  | power (hasInput : Bool) (now : Time)
  | cut (p : Pass) (k : Nat) (hasInput : Bool) (now : Time)

namespace Machine

variable (c : Crypto) (self : Addr) (uid : Uid)

def step (m : Machine) : Happening → Machine
  | .pass p => m.pass c p
  | .power hasInput now => powerOn self uid m.flash hasInput now
  | .cut p k hasInput now => powerOn self uid (m.tornFlash c p k) hasInput now

def run (flash : Sector) (hasInput : Bool) (now : Time) (hs : List Happening) : Machine :=
  hs.foldl (step c self uid) (powerOn self uid flash hasInput now)

end Machine

/-! ## Credentials -/

/-- The credentials of a board that has just found this in its flash. -/
def credentialsOf : Option Key → Credentials
  | none => ⟨false, Bytes.zero 16, false, none⟩
  | some key => ⟨true, key, true, some key⟩

/-- Neither the pair button nor the drain. -/
def Quiet : Client.Event → Prop
  | .pairButton _ _ => False
  | .unpairButton _ => False
  | .drain _ => False
  | _ => True

section

variable (c : Crypto)

theorem route_node (d : Firmware) (op : Routing.Op) :
    (d.route op).node.credentials = d.node.credentials ∧ (d.route op).node.pair = d.node.pair := by
  unfold Firmware.route
  refine List.foldlRecOn (motive := fun e : Firmware =>
    e.node.credentials = d.node.credentials ∧ e.node.pair = d.node.pair) _ _ ⟨rfl, rfl⟩ fun e he a _ => ?_
  cases a with
  | send type dst payload => exact ⟨(Node.step_credentials mockCrypto e.node (.send type dst payload)).trans he.1, he.2⟩
  | linkTick now => exact ⟨(Node.step_credentials mockCrypto e.node (.linkTick now)).trans he.1, he.2⟩
  | _ => exact he

theorem clientByte_node (d : Firmware) (b : Byte) (now : Time) :
    (d.clientByte b now).node.credentials = d.node.credentials ∧ (d.clientByte b now).node.pair = d.node.pair := by
  have hlink : (clientRxByte d.client d.node.link b now).2.hasKey = d.node.link.hasKey ∧
      (clientRxByte d.client d.node.link b now).2.key = d.node.link.key := by
    unfold clientRxByte
    dsimp only
    split
    · rw [handleFromClient_chain]
      split
      · exact ⟨(linkSend_same _ _ _ _).1, (linkSend_same _ _ _ _).2.1⟩
      · exact ⟨rfl, rfl⟩
    · exact ⟨rfl, rfl⟩
  have hnode : (d.clientByte b now).node = { d.node with link := (clientRxByte d.client d.node.link b now).2 } := by
    unfold Firmware.clientByte
    dsimp only
    split <;> rfl
  rw [hnode, Node.credentials, hlink.1, hlink.2]
  exact ⟨rfl, rfl⟩

theorem rxByte_idle {n : Board} (h : n.pair.state = .idle) (p : Port) (b : Byte) (now : Time) :
    (n.rxByte c p b now).pair.state = .idle := by
  rw [rxByte_node]
  show (heardPair c n.pair (linkRxByte n.link p b now).2 now).state = .idle
  unfold heardPair
  split
  · exact h
  · split
    · simp [pairRx, h]
    · exact h

/-- A quiet event changes no credentials, and begins no exchange. -/
theorem quiet_act (d : Firmware) {e : Client.Event} (h : Quiet e) :
    (d.act c e).node.credentials = d.node.credentials ∧
      (d.node.pair.state = .idle → (d.act c e).node.pair.state = .idle) := by
  have hroute (d : Firmware) (op : Routing.Op) : (d.route op).node.credentials = d.node.credentials ∧
      (d.node.pair.state = .idle → (d.route op).node.pair.state = .idle) := by
    obtain ⟨h1, h2⟩ := route_node d op
    exact ⟨h1, fun hi => by rw [h2]; exact hi⟩
  cases e with
  | byte p b now =>
    have hcred := Node.step_credentials c d.node (.byte p b now)
    show (d.rxByte c p b now).node.credentials = _ ∧ (_ → (d.rxByte c p b now).node.pair.state = _)
    unfold Firmware.rxByte
    split
    · exact ⟨hcred, fun hi => rxByte_idle c hi p b now⟩
    · split
      · obtain ⟨h1, h2⟩ := hroute { d with node := d.node.rxByte c p b now } (.rx _ p now)
        exact ⟨h1.trans hcred, fun hi => h2 (rxByte_idle c hi p b now)⟩
      · exact ⟨hcred, fun hi => rxByte_idle c hi p b now⟩
  | caps =>
    show d.checkCaps.node.credentials = _ ∧ (_ → d.checkCaps.node.pair.state = _)
    unfold Firmware.checkCaps
    dsimp only
    split
    · exact hroute d _
    · exact ⟨rfl, id⟩
  | pairTick now => exact ⟨rfl, fun hi => by simp [Firmware.act, Node.tick, pairTick, hi]⟩
  | report data now =>
    refine List.foldlRecOn (motive := fun e : Firmware => e.node.credentials = d.node.credentials ∧
      (d.node.pair.state = .idle → e.node.pair.state = .idle)) _ _ ⟨rfl, id⟩ fun e he b _ => ?_
    obtain ⟨h1, h2⟩ := clientByte_node e b now
    exact ⟨h1.trans he.1, fun hi => by rw [h2]; exact he.2 hi⟩
  | task ready now =>
    show (d.task ready now).node.credentials = _ ∧ (_ → (d.task ready now).node.pair.state = _)
    unfold Firmware.task
    dsimp only
    split <;> exact ⟨rfl, id⟩
  | plug hasInput => exact ⟨rfl, id⟩
  | localKbd rep => exact hroute d _
  | localMouse rep now => exact hroute d _
  | switchButton now => exact hroute d _
  | tick now => exact hroute d _
  | _ => exact h.elim

theorem quiet_fold (d : Firmware) {es : List Client.Event} (h : ∀ e ∈ es, Quiet e) :
    (es.foldl (Firmware.act c) d).node.credentials = d.node.credentials ∧
      (d.node.pair.state = .idle → (es.foldl (Firmware.act c) d).node.pair.state = .idle) := by
  refine List.foldlRecOn (motive := fun e : Firmware => e.node.credentials = d.node.credentials ∧
    (d.node.pair.state = .idle → e.node.pair.state = .idle)) _ _ ⟨rfl, id⟩ fun e he a ha => ?_
  obtain ⟨h1, h2⟩ := quiet_act c e (h a ha)
  exact ⟨h1.trans he.1, fun hi => h2 (he.2 hi)⟩

/-- What a drain does to the credentials. -/
theorem drain_credentials (b : Board) (now : Time) : (Board.pairingDrain c b now).credentials =
    match drainSaves b.pair with
    | some key => credentialsOf (some key)
    | none => b.credentials := by
  have hk := answer_same c b.link (pairTakeEvents b.pair).2 (pairTakeEvents b.pair).1
  have hev : b.pair.ev = (pairTakeEvents b.pair).1 := rfl
  simp only [Board.pairingDrain, drainSaves, hev]
  generalize pairTakeEvents b.pair = taken at hk ⊢
  obtain ⟨ev, pair⟩ := taken
  cases hc : ev.completed <;> cases ha : ev.sendAbort <;> cases hkey : pairChainKey pair <;>
    simp_all [Node.credentials, credentialsOf, linkSetKey]

end

/-! ## The flash and the key in use -/

section

variable (c : Crypto)

/-- The board works with the key in its flash. -/
def Machine.Kept (m : Machine) : Prop := m.fw.node.credentials = credentialsOf (boardKeyLoad m.flash)

theorem kept_powerOn (self : Addr) (uid : Uid) (flash : Sector) (hasInput : Bool) (now : Time) :
    (Machine.powerOn self uid flash hasInput now).Kept := by
  have hboot : ∀ stored, (Firmware.boot self uid stored hasInput now).node.credentials = credentialsOf stored := by
    intro stored
    refine (route_node _ _).1.trans ?_
    cases stored <;> rfl
  exact hboot _

theorem heard_quiet (p : Pass) : ∀ e ∈ p.heard, Quiet e := by
  intro e he
  simp only [Pass.heard, List.mem_append, List.mem_map] at he
  rcases he with (((⟨r, _, rfl⟩ | ⟨b, _, rfl⟩) | ⟨b, _, rfl⟩) | ⟨r, _, rfl⟩) | ⟨r, _, rfl⟩ <;> trivial

theorem kept_quiet (p : Pass) : ∀ e ∈ p.kept, Quiet e := by
  intro e he
  simp only [Pass.kept, List.mem_cons, List.not_mem_nil, or_false] at he
  rcases he with rfl | rfl | rfl | rfl <;> trivial

theorem pairButton_credentials (b : Board) (now : Time) (fresh : Fresh) :
    (Board.pairButton b now fresh).credentials = b.credentials := by
  unfold Board.pairButton
  split <;> rfl

/-- What the buttons of a pass do. -/
theorem pressed_node (d : Firmware) (p : Pass) (switched : Bool) (asked : PairBtn) :
    ((p.pressed switched asked).foldl (Firmware.act c) d).node.credentials =
        (if asked = .unpair then credentialsOf none else d.node.credentials) ∧
      (asked ≠ .pair → d.node.pair.state = .idle →
        ((p.pressed switched asked).foldl (Firmware.act c) d).node.pair.state = .idle) := by
  have hswitch : ∀ e ∈ (if switched then [Event.switchButton p.clock] else []), Quiet e := by
    intro e he
    cases switched <;> simp only [Bool.false_eq_true, if_false, if_true, List.not_mem_nil, List.mem_singleton] at he
    rw [he]
    trivial
  obtain ⟨hcred, hidle⟩ := quiet_fold c d hswitch
  unfold Pass.pressed
  rw [List.foldl_append]
  cases asked with
  | none => exact ⟨hcred, fun _ => hidle⟩
  | pair =>
    have hif : (if PairBtn.pair = .unpair then credentialsOf none else d.node.credentials) = d.node.credentials :=
      if_neg (by decide)
    refine ⟨?_, fun hne => absurd rfl hne⟩
    rw [hif, ← hcred]
    exact pairButton_credentials _ _ _
  | unpair => exact ⟨rfl, fun _ _ => rfl⟩

/-- What a pass has done when it comes to its drain. -/
theorem beforeDrain_node (m : Machine) (p : Pass) :
    (m.beforeDrain c p).fw.node.credentials =
        (if (boardPairButton m.pairButton p.pair).1 = .unpair then credentialsOf none else m.fw.node.credentials) ∧
      ((boardPairButton m.pairButton p.pair).1 ≠ .pair → m.fw.node.pair.state = .idle →
        (m.beforeDrain c p).fw.node.pair.state = .idle) := by
  obtain ⟨h1, h1'⟩ := quiet_fold c m.fw (heard_quiet p)
  obtain ⟨h2, h2'⟩ := pressed_node c (p.heard.foldl (Firmware.act c) m.fw) p (boardSwitchPressed m.switch p.switch).1
    (boardPairButton m.pairButton p.pair).1
  obtain ⟨h3, h3'⟩ := quiet_fold c ((p.pressed (boardSwitchPressed m.switch p.switch).1
    (boardPairButton m.pairButton p.pair).1).foldl (Firmware.act c) (p.heard.foldl (Firmware.act c) m.fw)) (kept_quiet p)
  have hfw : (m.beforeDrain c p).fw = (p.heard ++ p.pressed (boardSwitchPressed m.switch p.switch).1
      (boardPairButton m.pairButton p.pair).1 ++ p.kept).foldl (Firmware.act c) m.fw := rfl
  rw [hfw, List.foldl_append, List.foldl_append, h3, h2, h1]
  exact ⟨rfl, fun ha hi => h3' (h2' ha (h1' hi))⟩

theorem pass_node (m : Machine) (p : Pass) :
    (m.pass c p).fw.node.credentials = (match drainSaves (m.beforeDrain c p).fw.node.pair with
      | some key => credentialsOf (some key)
      | none => (m.beforeDrain c p).fw.node.credentials) ∧
    ((m.beforeDrain c p).fw.node.pair.state = .idle → (m.pass c p).fw.node.pair.state = .idle) := by
  have hfw : (m.pass c p).fw = [Event.drain p.clock, .tick p.clock].foldl (Firmware.act c) (m.beforeDrain c p).fw := by
    simp only [Machine.pass]
  have hlast (d : Firmware) : [Event.drain p.clock, .tick p.clock].foldl (Firmware.act c) d =
      (d.act c (.drain p.clock)).route (.tick p.clock) := rfl
  obtain ⟨h1, h2⟩ := route_node ((m.beforeDrain c p).fw.act c (.drain p.clock)) (.tick p.clock)
  rw [hfw, hlast, h1, h2]
  refine ⟨drain_credentials c _ _, fun hi => ?_⟩
  show (Board.pairingDrain c (m.beforeDrain c p).fw.node p.clock).pair.state = .idle
  rw [Board.pairingDrain_pair]
  exact hi

theorem kept_beforeDrain {m : Machine} (h : m.Kept) (p : Pass) : (m.beforeDrain c p).Kept := by
  have hflash : (m.beforeDrain c p).flash =
      if (boardPairButton m.pairButton p.pair).1 = .unpair then boardKeyErase m.flash else m.flash := rfl
  unfold Machine.Kept
  rw [(beforeDrain_node c m p).1, hflash]
  by_cases ha : (boardPairButton m.pairButton p.pair).1 = .unpair
  · rw [if_pos ha, if_pos ha, load_erase]
  · rw [if_neg ha, if_neg ha]
    exact h

theorem kept_pass {m : Machine} (h : m.Kept) (p : Pass) : (m.pass c p).Kept := by
  have hb := kept_beforeDrain c h p
  have hflash : (m.pass c p).flash = match drainSaves (m.beforeDrain c p).fw.node.pair with
      | some key => boardKeySave (m.beforeDrain c p).flash key
      | none => (m.beforeDrain c p).flash := rfl
  unfold Machine.Kept
  rw [(pass_node c m p).1, hflash]
  cases drainSaves (m.beforeDrain c p).fw.node.pair with
  | none => exact hb
  | some key => exact congrArg credentialsOf (load_save _ key).symm

theorem kept_step (self : Addr) (uid : Uid) {m : Machine} (hm : m.Kept) (h : Happening) : (m.step c self uid h).Kept := by
  cases h with
  | pass p => exact kept_pass c hm p
  | power hasInput now => exact kept_powerOn ..
  | cut p k hasInput now => exact kept_powerOn ..

theorem kept_run (self : Addr) (uid : Uid) (flash : Sector) (hasInput : Bool) (now : Time) (hs : List Happening) :
    (Machine.run c self uid flash hasInput now hs).Kept :=
  List.foldlRecOn (motive := Machine.Kept) _ _ (kept_powerOn ..) fun _ hm h _ => kept_step c self uid hm h

theorem Machine.Kept.stored {m : Machine} (h : m.Kept) : m.fw.node.stored = boardKeyLoad m.flash := by
  refine (congrArg Credentials.stored h).trans ?_
  cases boardKeyLoad m.flash <;> rfl

/-- The power fails in the drain of a pass. If that was saving a key, the board comes back with
    the new one, or, when the record was not written to its end, with none, or with the bytes
    that were written if they happen to pass for a key. -/
theorem cut_leaves (self : Addr) (uid : Uid) (flash : Sector) (hasInput : Bool) (now : Time) (hs : List Happening)
    (p : Pass) (k : Nat) (hasInput' : Bool) (now' : Time) :
    let m := (Machine.run c self uid flash hasInput now hs).beforeDrain c p
    let after := (Machine.run c self uid flash hasInput now (hs ++ [.cut p k hasInput' now'])).fw.node
    after.credentials = credentialsOf after.stored ∧
      match drainSaves m.fw.node.pair with
      | none => after.credentials = m.fw.node.credentials
      | some key => after.stored = some key ∨
          k < keyRecordBytes ∧ (after.stored = none ∨ (4 ≤ k ∧ k < 20 ∧ after.stored = some (keyTorn key (k - 4)) ∧
            keyCheck (keyTorn key (k - 4)) = 0xFFFFFFFF)) := by
  have hrun : Machine.run c self uid flash hasInput now (hs ++ [.cut p k hasInput' now']) =
      Machine.powerOn self uid ((Machine.run c self uid flash hasInput now hs).tornFlash c p k) hasInput' now' :=
    List.foldl_concat ..
  have hb := kept_beforeDrain c (kept_run c self uid flash hasInput now hs) p
  dsimp only
  rw [hrun]
  generalize Machine.run c self uid flash hasInput now hs = m at hb ⊢
  have hafter := kept_powerOn self uid (m.tornFlash c p k) hasInput' now'
  have hstored : _ = boardKeyLoad (m.tornFlash c p k) := hafter.stored
  refine ⟨by rw [hstored]; exact hafter, ?_⟩
  have hflash : m.tornFlash c p k = match drainSaves (m.beforeDrain c p).fw.node.pair with
      | some key => tornSave key k
      | none => (m.beforeDrain c p).flash := rfl
  cases hsave : drainSaves (m.beforeDrain c p).fw.node.pair with
  | none =>
    rw [hsave] at hflash
    exact (hafter.trans (congrArg (fun s => credentialsOf (boardKeyLoad s)) hflash)).trans hb.symm
  | some key =>
    rw [hsave] at hflash
    rw [hstored, hflash]
    by_cases hk : keyRecordBytes ≤ k
    · exact Or.inl (key_of_whole hk)
    · cases hload : boardKeyLoad (tornSave key k) with
      | none => exact Or.inr ⟨Nat.not_le.mp hk, Or.inl rfl⟩
      | some key' =>
        rcases load_torn hload with rfl | ⟨h4, h20, rfl, hcheck⟩
        · exact Or.inl rfl
        · exact Or.inr ⟨Nat.not_le.mp hk, Or.inr ⟨h4, h20, rfl, hcheck⟩⟩

/-- Whenever the power is taken away between two passes, the board comes back as it was. -/
theorem power_keeps (self : Addr) (uid : Uid) (flash : Sector) (hasInput : Bool) (now : Time) (hs : List Happening)
    (hasInput' : Bool) (now' : Time) :
    (Machine.run c self uid flash hasInput now (hs ++ [.power hasInput' now'])).fw.node.credentials =
      (Machine.run c self uid flash hasInput now hs).fw.node.credentials := by
  have hrun : Machine.run c self uid flash hasInput now (hs ++ [.power hasInput' now']) =
      Machine.powerOn self uid (Machine.run c self uid flash hasInput now hs).flash hasInput' now' := List.foldl_concat ..
  rw [hrun]
  exact (kept_powerOn ..).trans (kept_run c self uid flash hasInput now hs).symm

end

/-! ## Nothing but the button -/

/-- The button was down at every reading for this long, up to the reading `p`. -/
def HeldTo (ms : Nat) (ps : List Poll) (p : Poll) : Prop :=
  ∃ before y after, ps = before ++ y :: after ∧ (∀ q ∈ y :: after ++ [p], q.down = true) ∧ y.time + ms ≤ p.time

/-- Among these readings there is such a hold. -/
def HeldFor (ms : Nat) (ps : List Poll) : Prop := ∃ before p after, ps = before ++ p :: after ∧ HeldTo ms before p

theorem HeldFor.later {ms : Nat} {ps : List Poll} (h : HeldFor ms ps) (p : Poll) : HeldFor ms (ps ++ [p]) := by
  obtain ⟨before, q, after, rfl, hq⟩ := h
  exact ⟨before, q, after ++ [p], by simp, hq⟩

theorem HeldTo.held {ms ms' : Nat} {ps : List Poll} {p : Poll} (h : HeldTo ms ps p) (hle : ms' ≤ ms) :
    HeldFor ms' (ps ++ [p]) := by
  obtain ⟨before, y, after, hps, hall, ht⟩ := h
  exact ⟨ps, p, [], rfl, before, y, after, hps, hall, by omega⟩

section

variable (c : Crypto)

/-- No exchange is under way but one that was asked for. -/
structure Machine.Asked (m : Machine) : Prop where
  button : m.pairButton = pairAfter pairButtonInit m.readings
  held : InOrder m.readings → m.fw.node.pair.state = .idle ∨ HeldFor 3000 m.readings

theorem asked_powerOn (self : Addr) (uid : Uid) (flash : Sector) (hasInput : Bool) (now : Time) :
    (Machine.powerOn self uid flash hasInput now).Asked := by
  refine ⟨rfl, fun _ => Or.inl ?_⟩
  have hboot : ∀ stored, (Firmware.boot self uid stored hasInput now).node.pair.state = .idle := by
    intro stored
    refine (congrArg Pair.state (route_node _ _).2).trans ?_
    cases stored <;> rfl
  exact hboot _

/-- What the pair button of a pass asks for has been held for. -/
theorem Machine.Asked.heldTo {m : Machine} (h : m.Asked) {p : Pass} (horder : InOrder (m.readings ++ [p.pair]))
    (hne : (boardPairButton m.pairButton p.pair).1 ≠ .none) :
    HeldTo (holdMs (boardPairButton m.pairButton p.pair).1) m.readings p.pair := by
  rw [h.button] at hne ⊢
  exact asked_held horder hne

theorem asked_beforeDrain {m : Machine} (h : m.Asked) (p : Pass) : (m.beforeDrain c p).Asked := by
  refine ⟨?_, fun horder => ?_⟩
  · show (boardPairButton m.pairButton p.pair).2 = pairAfter pairButtonInit (m.readings ++ [p.pair])
    rw [pairAfter, List.foldl_concat, ← pairAfter, ← h.button]
  · by_cases hp : (boardPairButton m.pairButton p.pair).1 = .pair
    · have hto := h.heldTo horder (by rw [hp]; decide)
      rw [hp] at hto
      exact Or.inr (hto.held (Nat.le_refl _))
    · rcases h.held (List.pairwise_append.mp horder).1 with hi | hh
      · exact Or.inl ((beforeDrain_node c m p).2 hp hi)
      · exact Or.inr (hh.later p.pair)

theorem asked_pass {m : Machine} (h : m.Asked) (p : Pass) : (m.pass c p).Asked := by
  have hb := asked_beforeDrain c h p
  exact ⟨hb.button, fun horder => (hb.held horder).imp_left (pass_node c m p).2⟩

theorem asked_run (self : Addr) (uid : Uid) (flash : Sector) (hasInput : Bool) (now : Time) (hs : List Happening) :
    (Machine.run c self uid flash hasInput now hs).Asked := by
  refine List.foldlRecOn (motive := Machine.Asked) _ _ (asked_powerOn ..) fun m hm h _ => ?_
  cases h with
  | pass p => exact asked_pass c hm p
  | power hasInput now => exact asked_powerOn ..
  | cut p k hasInput now => exact asked_powerOn ..

/-- A key is only saved once the button has been held. -/
theorem Machine.Asked.saves {m : Machine} (h : m.Asked) {p : Pass} (horder : InOrder (m.readings ++ [p.pair])) {key : Key}
    (hs : drainSaves (m.beforeDrain c p).fw.node.pair = some key) : HeldFor 3000 (m.readings ++ [p.pair]) := by
  refine ((asked_beforeDrain c h p).held horder).resolve_left fun hi => ?_
  have hdone : pairChainKey (pairTakeEvents (m.beforeDrain c p).fw.node.pair).2 = none := by
    refine if_neg ?_
    show ¬ (m.beforeDrain c p).fw.node.pair.state = .done
    rw [hi]
    decide
  rw [drainSaves, hdone] at hs
  split at hs <;> cases hs

/-- Whatever arrives from the chain and from the client, a pass that changes the credentials
    comes after a hold of the pair button of three seconds since the power came on; one that
    leaves the board without a key ends a hold of ten. -/
theorem changed_held (self : Addr) (uid : Uid) (flash : Sector) (hasInput : Bool) (now : Time) (hs : List Happening)
    (p : Pass) (horder : InOrder ((Machine.run c self uid flash hasInput now hs).readings ++ [p.pair]))
    (hch : (Machine.run c self uid flash hasInput now (hs ++ [.pass p])).fw.node.credentials ≠
      (Machine.run c self uid flash hasInput now hs).fw.node.credentials) :
    HeldFor 3000 ((Machine.run c self uid flash hasInput now hs).readings ++ [p.pair]) ∧
      ((Machine.run c self uid flash hasInput now (hs ++ [.pass p])).fw.node.stored = none →
        HeldTo 10000 (Machine.run c self uid flash hasInput now hs).readings p.pair) := by
  have hrun : Machine.run c self uid flash hasInput now (hs ++ [.pass p]) =
      (Machine.run c self uid flash hasInput now hs).pass c p := List.foldl_concat ..
  have hasked := asked_run c self uid flash hasInput now hs
  rw [hrun] at hch ⊢
  generalize Machine.run c self uid flash hasInput now hs = m at *
  obtain ⟨hpass, -⟩ := pass_node c m p
  cases hsave : drainSaves (m.beforeDrain c p).fw.node.pair with
  | some key =>
    rw [hsave] at hpass
    refine ⟨hasked.saves c horder hsave, fun hnone => ?_⟩
    have hstored := congrArg Credentials.stored hpass
    rw [Node.credentials, hnone] at hstored
    cases hstored
  | none =>
    rw [hsave] at hpass
    have hunpair : (boardPairButton m.pairButton p.pair).1 = .unpair := by
      by_contra hne
      refine hch (hpass.trans ?_)
      rw [(beforeDrain_node c m p).1, if_neg hne]
    have hto := hasked.heldTo horder (by rw [hunpair]; decide)
    rw [hunpair] at hto
    exact ⟨hto.held (by decide), fun _ => hto⟩

/-- A pass with nothing in it but the pair button. -/
def holding (t : Nat) : Pass :=
  { now := t, reports := [], up := [], down := [], kbd := [], mouse := [], switch := ⟨false, t⟩, pair := ⟨true, t⟩
    fresh := mockFresh 1, hasInput := false, ready := false }

theorem changed_held_of_ten_seconds :
    HeldFor 3000 ((Machine.run mockCrypto 1 0x1111 (sectorOf ⟨keyMagic, countingKey, keyCheck countingKey⟩) false 0
      [.pass (holding 1000)]).readings ++ [(holding 11001).pair]) ∧
    ((Machine.run mockCrypto 1 0x1111 (sectorOf ⟨keyMagic, countingKey, keyCheck countingKey⟩) false 0
      ([.pass (holding 1000)] ++ [.pass (holding 11001)])).fw.node.stored = none →
        HeldTo 10000 (Machine.run mockCrypto 1 0x1111 (sectorOf ⟨keyMagic, countingKey, keyCheck countingKey⟩) false 0
          [.pass (holding 1000)]).readings (holding 11001).pair) :=
  changed_held mockCrypto 1 0x1111 (sectorOf ⟨keyMagic, countingKey, keyCheck countingKey⟩) false 0
    [.pass (holding 1000)] (holding 11001) (by decide +kernel) (by decide +kernel)

end

end DeskHop.Device
