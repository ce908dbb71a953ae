/-
  DeskHop.Device.Indicator — the LED of a chain board (`refresh_led` of
  `firmware/rp2040/src/main.c`, `board_led` to `board_led_task` of `firmware/rp2040/src/board.c`).

  What the LED stands for is set by `refresh_led` alone, from the whole state of the board; what
  it shows is rendered at most every 16 ms. Both go by a millisecond clock that wraps.

  The rest of `Lit` is ghosts: the true time, until when the last fault is to be shown, and the
  pixels pushed.

  Proved, of every run in which the main loop does not stop for twelve days: at each refresh the
  LED stands for an error just while the last fault is to be shown, and else for the board's role
  (`error_shown`). Pixels are pushed 16 ms apart or more, no two in a row alike, and after a
  turn of the task that was not too early the last one is the colour of now (`pixels_current`).
  Two states that look alike are the two ambers, or an error in the dark half of its blink and
  an LED that is off (`told_apart`).
-/

import DeskHop.Device.Loop
import Mathlib.Data.List.Chain

namespace DeskHop.Device

open DeskHop.Lib DeskHop.Election DeskHop.Routing DeskHop.Wire DeskHop.Trust DeskHop.Client

/-! ## Colours -/

inductive LedState where
  /-- On the chain, neither focused nor routing. -/
  | off
  | focused
  | active
  | activeFocused
  | standby
  | pairing
  | unpaired
  | error
  deriving DecidableEq

/-- Green first, from the top of the word. -/
def grb (r g b : Byte) : UInt32 := g.toUInt32 <<< 24 ||| r.toUInt32 <<< 16 ||| b.toUInt32 <<< 8

def scale (v pct : Byte) : Byte := (v.toUInt32 * pct.toUInt32 / 100).toUInt8

/-- A triangle wave. -/
def breathe (now : Time) (periodMs : UInt32) (lo hi : Byte) : Byte :=
  let phase := now % periodMs
  let half := periodMs / 2
  let up := if phase < half then phase else periodMs - phase
  (lo.toUInt32 + (hi.toUInt32 - lo.toUInt32) * up / half).toUInt8

def colourFor (s : LedState) (now : Time) : UInt32 :=
  match s with
  | .focused => grb 120 120 120
  | .active => grb 0 0 150
  | .activeFocused => grb 0 140 140
  | .standby => grb 0 0 20
  | .pairing =>
    let v := breathe now 1600 20 255
    grb v (scale v 55) 0
  | .unpaired => grb 40 22 0
  | .error => if now % 300 < 150 then grb 200 0 0 else 0
  | .off => 0

/-! ## The LED -/

structure Led where
  ready : Bool
  unavailable : Bool
  state : LedState
  next : Time
  lastGrb : UInt32

/-- No colour ends in ones, so the first is pushed. -/
def ledInit : Led := ⟨false, false, .off, 0, 0xFFFFFFFF⟩

/-- `claimed`: the USB host has left a state machine. -/
def boardLedHwInit (l : Led) (claimed : Bool) : Led :=
  if l.ready || l.unavailable then l
  else if !claimed then { l with unavailable := true }
  else { l with ready := true }

def boardLed (l : Led) (s : LedState) : Led := { l with state := s }

/-- With the pixel it pushes, if it does; `full`: the FIFO has no room. -/
def boardLedTask (l : Led) (now : Time) (full : Bool) : Option UInt32 × Led :=
  if !l.ready then (none, l)
  else if !timeAfter now l.next then (none, l)
  else
    let l := { l with next := now + 16 }
    let c := colourFor l.state now
    if c = l.lastGrb then (none, l)
    else if full then (none, l)
    else (some c, { l with lastGrb := c })

/-- What the board has to show when nothing has gone wrong. -/
def roleOf (d : Firmware) : LedState :=
  if d.node.pair.state = .waiting ∨ d.node.pair.state = .confirmWait then .pairing
  else if !d.node.paired then .unpaired
  else
    let focused := d.router.focus == d.router.cfg.self
    let active := Routing.isActive d.router
    if active && focused then .activeFocused
    else if active then .active
    else if focused then .focused
    else if d.router.uhrp.state = .standby then .standby
    else .off

def refreshLed (d : Firmware) (now : Time) : LedState × Firmware :=
  let panel := d.node.panel
  if panel.errorActive && !timeAfter now panel.errorUntil then (.error, d)
  else
    let d := { d with node := { d.node with panel := { panel with errorActive := false } } }
    (roleOf d, d)

/-! ## Runs -/

structure Lit where
  fw : Firmware
  led : Led
  clock : Nat
  /-- When `refresh_led` and `board_led_task` were last called. -/
  refreshed : Nat
  called : Nat
  /-- When a pixel was last looked for. -/
  tried : Option Nat
  /-- Until when the last fault is shown, unless a pairing has succeeded since. -/
  fault : Option Nat
  pixels : List (Nat × UInt32)

inductive Glow where
  | act (e : Client.Event)
  | hwInit (claimed : Bool)
  /-- At the end of a pass, or by the hook for a change of focus. -/
  | refresh
  | task (full : Bool)

/-- A pairing that fails is shown for four seconds, an unpairing for one and a half. -/
def faultAfter (d : Firmware) (now : Nat) (old : Option Nat) : Client.Event → Option Nat
  | .drain _ =>
    if (drainSaves d.node.pair).isSome then none else if d.node.pair.ev.sendAbort then some (now + 4000) else old
  | .unpairButton _ => some (now + 1500)
  | _ => old

namespace Lit

variable (c : Crypto)

def step (l : Lit) (e : Nat × Glow) : Lit :=
  let l := { l with clock := e.1 }
  match e.2 with
  | .act a => { l with fw := l.fw.act c a, fault := faultAfter l.fw e.1 l.fault a }
  | .hwInit claimed => { l with led := boardLedHwInit l.led claimed }
  | .refresh =>
    let (s, fw) := refreshLed l.fw (UInt32.ofNat e.1)
    { l with fw := fw, led := boardLed l.led s, refreshed := e.1 }
  | .task full =>
    let tried := if l.led.ready && timeAfter (UInt32.ofNat e.1) l.led.next then some e.1 else l.tried
    let (pixel, led) := boardLedTask l.led (UInt32.ofNat e.1) full
    { l with
      led := led, called := e.1, tried := tried, pixels := l.pixels ++ (pixel.map fun colour => (e.1, colour)).toList }

/-- The event goes by the clock. -/
def OnTime (now : Nat) : Client.Event → Prop
  | .drain t | .unpairButton t => t = UInt32.ofNat now
  | _ => True

/-- The true time goes on, and the main loop does not stop for 2^30 ms, nor core 1 before it
    has set up the LED. -/
def Prompt (l : Lit) (e : Nat × Glow) : Prop :=
  l.clock ≤ e.1 ∧ e.1 < l.refreshed + 2 ^ 30 ∧ e.1 < l.called + 2 ^ 30 ∧
    match e.2 with
    | .act a => OnTime e.1 a
    | .hwInit _ => e.1 < 2 ^ 30
    | _ => True

instance (now : Nat) (e : Client.Event) : Decidable (OnTime now e) := by
  unfold OnTime
  split <;> infer_instance

instance (l : Lit) (e : Nat × Glow) : Decidable (Prompt l e) := by
  unfold Prompt
  refine @instDecidableAnd _ _ inferInstance (@instDecidableAnd _ _ inferInstance (@instDecidableAnd _ _ inferInstance ?_))
  split <;> infer_instance

/-- Just switched on. -/
def Start (l : Lit) : Prop :=
  l.fw.node.panel = ⟨0, false⟩ ∧ l.led = ledInit ∧ l.refreshed = l.clock ∧ l.called = l.clock ∧ l.clock < 2 ^ 30 ∧
    l.tried = none ∧ l.fault = none ∧ l.pixels = []

end Lit

/-! ## What sets the error -/

section

variable (c : Crypto)

theorem route_panel (d : Firmware) (op : Routing.Op) : (d.route op).node.panel = d.node.panel := by
  unfold Firmware.route
  refine List.foldlRecOn (motive := fun e : Firmware => e.node.panel = d.node.panel) _ _ rfl fun e he a _ => ?_
  cases a <;> exact he

theorem clientByte_panel (d : Firmware) (b : Byte) (now : Time) : (d.clientByte b now).node.panel = d.node.panel := by
  unfold Firmware.clientByte
  dsimp only
  split <;> rfl

/-- Neither the drain nor the unpairing. -/
theorem act_panel (d : Firmware) {e : Client.Event} (hdrain : ∀ now, e ≠ .drain now) (hunpair : ∀ now, e ≠ .unpairButton now) :
    (d.act c e).node.panel = d.node.panel := by
  cases e with
  | byte p b now =>
    have hnode : (d.node.rxByte c p b now).panel = d.node.panel := by rw [rxByte_node]
    show (d.rxByte c p b now).node.panel = _
    unfold Firmware.rxByte
    split
    · exact hnode
    · split
      · rw [route_panel]
        exact hnode
      · exact hnode
  | localKbd rep => exact route_panel d _
  | localMouse rep now => exact route_panel d _
  | switchButton now => exact route_panel d _
  | pairButton now fresh =>
    show (Board.pairButton d.node now fresh).panel = _
    unfold Board.pairButton
    split <;> rfl
  | unpairButton now => exact absurd rfl (hunpair now)
  | plug hasInput => rfl
  | caps =>
    show d.checkCaps.node.panel = _
    unfold Firmware.checkCaps
    dsimp only
    split
    · exact route_panel d _
    · rfl
  | pairTick now => rfl
  | drain now => exact absurd rfl (hdrain now)
  | tick now => exact route_panel d _
  | report data now =>
    refine List.foldlRecOn (motive := fun e : Firmware => e.node.panel = d.node.panel) _ _ rfl fun e he b _ => ?_
    rw [clientByte_panel, he]
  | task ready now =>
    show (d.task ready now).node.panel = _
    unfold Firmware.task
    dsimp only
    split <;> rfl

/-- A key saved clears the error; a pairing that fails sets it. -/
theorem drain_panel (b : Board) (now : Time) :
    ((drainSaves b.pair).isSome = true → (Board.pairingDrain c b now).panel.errorActive = false) ∧
    ((drainSaves b.pair).isSome = false →
      (Board.pairingDrain c b now).panel = if b.pair.ev.sendAbort then ⟨now + 4000, true⟩ else b.panel) := by
  have hev : b.pair.ev = (pairTakeEvents b.pair).1 := rfl
  simp only [Board.pairingDrain, drainSaves, hev]
  generalize pairTakeEvents b.pair = taken
  obtain ⟨ev, pair⟩ := taken
  cases ev.completed <;> cases ev.sendAbort <;> cases hkey : pairChainKey pair <;> simp [hkey]

end

/-! ## Errors on the LED -/

namespace Lit

variable {c : Crypto} {l : Lit}

/-- The flag and the deadline are those of the last fault. -/
structure Marked (l : Lit) : Prop where
  order : l.refreshed ≤ l.clock
  active : l.fw.node.panel.errorActive = true →
    ∃ d, l.fault = some d ∧ l.fw.node.panel.errorUntil = UInt32.ofNat d ∧ l.refreshed ≤ d ∧ d ≤ l.clock + 4000
  done : l.fw.node.panel.errorActive = false → ∀ d, l.fault = some d → d ≤ l.clock

/-- Time goes on, and nothing of this changes. -/
theorem Marked.wait (h : l.Marked) {l' : Lit} (hpanel : l'.fw.node.panel = l.fw.node.panel) (hfault : l'.fault = l.fault)
    (hrefreshed : l'.refreshed = l.refreshed) (hclock : l.clock ≤ l'.clock) : l'.Marked := by
  refine ⟨hrefreshed ▸ h.order.trans hclock, fun ha => ?_, fun ha d hd => ?_⟩
  · obtain ⟨d, hd, huntil, hle, hsoon⟩ := h.active (hpanel ▸ ha)
    exact ⟨d, hfault.trans hd, hpanel ▸ huntil, hrefreshed ▸ hle, by omega⟩
  · exact (h.done (hpanel ▸ ha) d (hfault ▸ hd)).trans hclock

/-- A fault that has just come up. -/
theorem marked_fault (ms : Nat) (hms : ms ≤ 4000) {l' : Lit} (hpanel : l'.fw.node.panel = ⟨UInt32.ofNat (l'.clock + ms), true⟩)
    (hfault : l'.fault = some (l'.clock + ms)) (horder : l'.refreshed ≤ l'.clock) : l'.Marked := by
  refine ⟨horder, fun _ => ⟨_, hfault, ?_, by omega, by omega⟩, fun ha => ?_⟩
  · rw [hpanel]
  · rw [hpanel] at ha
    cases ha

theorem Marked.act (h : l.Marked) {now : Nat} {e : Client.Event} (hp : l.Prompt (now, .act e)) :
    (l.step c (now, .act e)).Marked := by
  obtain ⟨hclock, -, -, htime⟩ := hp
  have horder : l.refreshed ≤ now := h.order.trans hclock
  cases e with
  | drain t =>
    obtain rfl : t = UInt32.ofNat now := htime
    obtain ⟨hcleared, hkept⟩ := drain_panel c l.fw.node (UInt32.ofNat now)
    cases hsaves : (drainSaves l.fw.node.pair).isSome with
    | true =>
      have hfault : (l.step c (now, .act (.drain (UInt32.ofNat now)))).fault = none := if_pos hsaves
      have hflag : (l.step c (now, .act (.drain (UInt32.ofNat now)))).fw.node.panel.errorActive = false := hcleared hsaves
      refine ⟨horder, fun ha => ?_, fun _ d hd => ?_⟩
      · rw [hflag] at ha
        cases ha
      · rw [hfault] at hd
        cases hd
    | false =>
      have hpanel := hkept hsaves
      cases habort : l.fw.node.pair.ev.sendAbort with
      | true =>
        refine marked_fault 4000 (Nat.le_refl _) ?_ ?_ horder
        · refine (hpanel.trans (if_pos habort)).trans ?_
          rw [show (4000 : Time) = UInt32.ofNat 4000 from rfl, ← UInt32.ofNat_add]
          rfl
        · show (if (drainSaves l.fw.node.pair).isSome then none
            else if l.fw.node.pair.ev.sendAbort then some (now + 4000) else l.fault) = some (now + 4000)
          rw [hsaves, habort]
          rfl
      | false =>
        refine h.wait (hpanel.trans (if_neg (by rw [habort]; decide))) ?_ rfl hclock
        show (if (drainSaves l.fw.node.pair).isSome then none
          else if l.fw.node.pair.ev.sendAbort then some (now + 4000) else l.fault) = l.fault
        rw [hsaves, habort]
        rfl
  | unpairButton t =>
    obtain rfl : t = UInt32.ofNat now := htime
    refine marked_fault 1500 (by decide) ?_ rfl horder
    show (⟨UInt32.ofNat now + 1500, true⟩ : ErrorLed) = ⟨UInt32.ofNat (now + 1500), true⟩
    rw [UInt32.ofNat_add]
    rfl
  | _ => exact h.wait (act_panel c l.fw (fun _ he => by cases he) (fun _ he => by cases he)) rfl rfl hclock

/-- What a refresh makes of the flag and the deadline. -/
theorem Marked.refreshed (h : l.Marked) {now : Nat} (hp : l.Prompt (now, .refresh)) :
    (l.step c (now, .refresh)).Marked ∧
      (l.step c (now, .refresh)).led.state = if ∃ d, l.fault = some d ∧ now < d then .error else roleOf l.fw := by
  obtain ⟨hclock, hsoon, -, -⟩ := hp
  have horder := h.order
  by_cases hshown : l.fw.node.panel.errorActive = true ∧ timeAfter (UInt32.ofNat now) l.fw.node.panel.errorUntil = false
  · obtain ⟨ha, hearly⟩ := hshown
    obtain ⟨d, hd, huntil, hle, hnear⟩ := h.active ha
    have hnow : now < d := by
      by_contra hlate
      rw [huntil, DeskHop.timeAfter_of_le (by omega) (by omega)] at hearly
      cases hearly
    have hstep : refreshLed l.fw (UInt32.ofNat now) = (.error, l.fw) := by
      unfold refreshLed
      dsimp only
      rw [ha, hearly]
      rfl
    simp only [step, hstep]
    refine ⟨⟨Nat.le_refl _, fun _ => ⟨d, hd, huntil, hnow.le, by dsimp only; omega⟩, fun hoff => ?_⟩, ?_⟩
    · rw [ha] at hoff
      cases hoff
    · exact (if_pos ⟨d, hd, hnow⟩).symm
  · have hover : ∀ d, l.fault = some d → d ≤ now := by
      intro d hd
      cases ha : l.fw.node.panel.errorActive with
      | false => exact (h.done ha d hd).trans hclock
      | true =>
        obtain ⟨d', hd', huntil, -, hnear⟩ := h.active ha
        obtain rfl : d = d' := Option.some.inj (hd.symm.trans hd')
        by_contra hearly
        refine hshown ⟨ha, ?_⟩
        rw [huntil]
        exact timeAfter_of_lt (by omega) (by omega)
    have hstep : refreshLed l.fw (UInt32.ofNat now) = (roleOf l.fw,
        { l.fw with node := { l.fw.node with panel := { l.fw.node.panel with errorActive := false } } }) := by
      unfold refreshLed
      dsimp only
      rw [if_neg]
      · rfl
      · rintro hboth
        rw [Bool.and_eq_true, Bool.not_eq_true'] at hboth
        exact hshown hboth
    simp only [step, hstep]
    refine ⟨⟨Nat.le_refl _, fun ha => ?_, fun _ d hd => hover d hd⟩, ?_⟩
    · cases ha
    · refine (if_neg ?_).symm
      rintro ⟨d, hd, hearly⟩
      exact absurd (hover d hd) (by omega)

theorem Marked.step (h : l.Marked) {e : Nat × Glow} (hp : l.Prompt e) : (l.step c e).Marked := by
  obtain ⟨now, e⟩ := e
  cases e with
  | act a => exact h.act hp
  | hwInit claimed => exact h.wait rfl rfl rfl hp.1
  | refresh => exact (h.refreshed hp).1
  | task full => exact h.wait rfl rfl rfl hp.1

theorem Start.marked (h : l.Start) : l.Marked := by
  obtain ⟨hpanel, -, hrefreshed, -, -, -, hfault, -⟩ := h
  refine ⟨hrefreshed.le, fun ha => ?_, fun _ d hd => ?_⟩
  · rw [hpanel] at ha
    cases ha
  · rw [hfault] at hd
    cases hd

theorem roleOf_ne (d : Firmware) : roleOf d ≠ .error := by
  unfold roleOf
  dsimp only
  repeat' split
  all_goals exact fun he => by cases he

/-- At a refresh the LED stands for an error just while the last fault is to be shown: for
    four seconds after a pairing that failed, unless another has succeeded, and for one and a
    half after an unpairing. Else it stands for the role of the board. -/
theorem error_shown (h : Reach Start Prompt (step c) l) {now : Nat} (hp : l.Prompt (now, .refresh)) :
    ((l.step c (now, .refresh)).led.state = .error ↔ ∃ d, l.fault = some d ∧ now < d) ∧
    ((l.step c (now, .refresh)).led.state ≠ .error → (l.step c (now, .refresh)).led.state = roleOf l.fw) := by
  have hm : l.Marked := h.inv (fun _ h0 => h0.marked) fun _ _ hm hp => hm.step hp
  rw [(hm.refreshed (c := c) hp).2]
  split
  · rename_i hfault
    exact ⟨iff_of_true rfl hfault, fun hne => absurd rfl hne⟩
  · rename_i hfault
    exact ⟨iff_of_false (roleOf_ne _) hfault, fun _ => rfl⟩

end Lit

namespace Lit

/-- A board that has never been paired, switched on. -/
def switchedOn : Lit :=
  ⟨Firmware.boot 1 7 none false 0, ledInit, 0, 0, 0, none, none, []⟩

theorem switchedOn_start : switchedOn.Start :=
  ⟨route_panel _ _, rfl, rfl, rfl, by decide, rfl, rfl, rfl⟩

/-- Unpaired after a second, by a hold of the button. -/
def unpaired : List (Nat × Glow) :=
  [(5, .hwInit true), (20, .refresh), (20, .task false), (1000, .act (.unpairButton 1000)), (1000, .refresh), (1000, .task false)]

theorem unpaired_reach : Reach Start Prompt (step mockCrypto) (unpaired.foldl (step mockCrypto) switchedOn) :=
  Reach.run (.init switchedOn_start) unpaired (by decide +kernel)

theorem error_shown_of_unpaired :
    ((unpaired.foldl (step mockCrypto) switchedOn).step mockCrypto (2499, .refresh)).led.state = .error ∧
    ((unpaired.foldl (step mockCrypto) switchedOn).step mockCrypto (2500, .refresh)).led.state ≠ .error := by
  have hfault : (unpaired.foldl (step mockCrypto) switchedOn).fault = some 2500 := by decide +kernel
  refine ⟨(error_shown unpaired_reach (by decide +kernel)).1.mpr ⟨2500, hfault, by decide⟩, fun h => ?_⟩
  obtain ⟨d, hd, hlt⟩ := (error_shown unpaired_reach (by decide +kernel)).1.mp h
  obtain rfl : 2500 = d := Option.some.inj (hfault.symm.trans hd)
  exact absurd hlt (by decide)

end Lit

/-! ## Colours as bytes -/

theorem grb_get32 (r g b : Byte) : grb r g b = get32 [0, b, r, g] 0 := by
  simp [grb, get32, byteAt, List.range_succ]
  grind

theorem put32_grb (r g b : Byte) : put32 (grb r g b) = [0, b, r, g] := by rw [grb_get32, put32_get32]

theorem put32_off : put32 0 = [0, 0, 0, 0] := by decide

/-- The light never goes out while it breathes. -/
theorem breathe_lit (now : Time) : 20 ≤ (breathe now 1600 20 255).toNat := by
  have hup : (if now % 1600 < 1600 / 2 then now % 1600 else 1600 - now % 1600).toNat ≤ 800 := by
    have hphase : (now % 1600).toNat < 1600 := by
      rw [UInt32.toNat_mod]
      exact Nat.mod_lt _ (by decide)
    split
    · rename_i hlt
      exact (UInt32.lt_iff_toNat_lt.mp hlt).le
    · rename_i hge
      have hhalf : ¬ (now % 1600).toNat < 800 := fun hlt => hge (UInt32.lt_iff_toNat_lt.mpr hlt)
      rw [UInt32.toNat_sub_of_le _ _ (UInt32.le_iff_toNat_le.mpr hphase.le)]
      show 1600 - (now % 1600).toNat ≤ 800
      omega
  unfold breathe
  dsimp only
  generalize (if now % 1600 < 1600 / 2 then now % 1600 else 1600 - now % 1600) = up at hup ⊢
  rw [UInt32.toNat_toUInt8, UInt32.toNat_add, UInt32.toNat_div, UInt32.toNat_mul]
  show 20 ≤ (20 + 235 * up.toNat % 2 ^ 32 / 800) % 2 ^ 32 % 2 ^ 8
  have hrise : 235 * up.toNat % 2 ^ 32 / 800 ≤ 235 := by
    rw [Nat.mod_eq_of_lt (by omega)]
    omega
  generalize 235 * up.toNat % 2 ^ 32 / 800 = rise at hrise ⊢
  rw [Nat.mod_eq_of_lt (by omega), Nat.mod_eq_of_lt (by omega)]
  exact Nat.le_add_right 20 rise

/-- The ambers are one family, as are an error and an LED that is off. -/
def family : LedState → LedState
  | .unpaired => .pairing
  | .off => .error
  | s => s

/-- The bytes of the colours of a family. -/
def Shade : LedState → List Byte → Prop
  | .focused, p => p = [0, 120, 120, 120]
  | .active, p => p = [0, 150, 0, 0]
  | .activeFocused, p => p = [0, 140, 0, 140]
  | .standby, p => p = [0, 20, 0, 0]
  | .pairing, p => ∃ v : Byte, 20 ≤ v.toNat ∧ p = [0, 0, v, scale v 55]
  | .error, p => p = [0, 0, 200, 0] ∨ p = [0, 0, 0, 0]
  | .unpaired, _ | .off, _ => False

theorem shade_colour (s : LedState) (t : Time) : Shade (family s) (put32 (colourFor s t)) := by
  cases s with
  | focused => exact put32_grb 120 120 120
  | active => exact put32_grb 0 0 150
  | activeFocused => exact put32_grb 0 140 140
  | standby => exact put32_grb 0 0 20
  | pairing => exact ⟨breathe t 1600 20 255, breathe_lit t, put32_grb _ _ 0⟩
  | unpaired => exact ⟨40, by decide, put32_grb 40 22 0⟩
  | error =>
    show Shade .error (put32 (if t % 300 < 150 then grb 200 0 0 else 0))
    split
    · exact Or.inl (put32_grb 200 0 0)
    · exact Or.inr put32_off
  | off => exact Or.inr put32_off

/-- An amber is of no other family. -/
theorem amber_family {v : Byte} (hv : 20 ≤ v.toNat) {f : LedState} (h : Shade f [0, 0, v, scale v 55]) : f = .pairing := by
  cases f with
  | pairing => rfl
  | error =>
    rcases h with h | h
    · obtain ⟨rfl, hscale⟩ : v = 200 ∧ scale v 55 = 0 := by simpa using h
      exact absurd hscale (by decide)
    · obtain rfl : v = 0 := by simpa using (List.cons.inj (List.cons.inj (List.cons.inj h).2).2).1
      exact absurd hv (by decide)
  | focused | active | activeFocused | standby => exact absurd (List.cons.inj (List.cons.inj h).2).1 (by decide)
  | unpaired | off => exact h.elim

theorem shade_unique {f f' : LedState} {p : List Byte} (h : Shade f p) (h' : Shade f' p) : f = f' := by
  by_cases hamber : f = .pairing
  · subst hamber
    obtain ⟨v, hv, rfl⟩ := h
    exact (amber_family hv h').symm
  by_cases hamber' : f' = .pairing
  · subst hamber'
    obtain ⟨v, hv, rfl⟩ := h'
    exact amber_family hv h
  have hshown : f ≠ .unpaired ∧ f ≠ .off ∧ f' ≠ .unpaired ∧ f' ≠ .off := by
    refine ⟨?_, ?_, ?_, ?_⟩
    · rintro rfl
      exact h
    · rintro rfl
      exact h
    · rintro rfl
      exact h'
    · rintro rfl
      exact h'
  cases f <;> cases f' <;> simp_all [Shade]

/-- A colour tells the state it is of, up to its family, whenever it is seen. -/
theorem told_apart {s s' : LedState} {t t' : Time} (h : colourFor s t = colourFor s' t') : family s = family s' :=
  shade_unique (shade_colour s t) (h ▸ shade_colour s' t')

/-- The breathing amber is at times the steady one. -/
theorem told_apart_of_ambers : family .pairing = family .unpaired :=
  told_apart (show colourFor .pairing 69 = colourFor .unpaired 0 by decide)

/-- No colour is the word the LED begins with. -/
theorem colour_ne_init (s : LedState) (t : Time) : colourFor s t ≠ ledInit.lastGrb := by
  intro h
  have hshade := shade_colour s t
  rw [h, show put32 ledInit.lastGrb = [255, 255, 255, 255] by decide] at hshade
  generalize family s = f at hshade
  cases f with
  | pairing =>
    obtain ⟨v, -, hv⟩ := hshade
    cases (List.cons.inj hv).1
  | error => rcases hshade with h | h <;> cases (List.cons.inj h).1
  | focused | active | activeFocused | standby => cases (List.cons.inj hshade).1
  | unpaired | off => exact hshade

/-! ## Pixels on the wire -/

namespace Lit

variable {c : Crypto} {l : Lit}

/-- 16 ms apart or more, and not alike. -/
def Apart (p q : Nat × UInt32) : Prop := p.1 + 16 ≤ q.1 ∧ p.2 ≠ q.2

/-- The LED's variables, and the pixels so far. -/
structure Rendered (l : Lit) : Prop where
  order : l.called ≤ l.clock
  unready : l.led.ready = false → l.tried = none
  idle : l.tried = none → l.led.next = 0 ∧ (l.led.ready = true → l.called < 2 ^ 30) ∧ l.pixels = []
  tried : ∀ t, l.tried = some t → l.led.next = UInt32.ofNat (t + 16) ∧ l.called < t + 16 ∧ t ≤ l.clock
  since : ∀ p ∈ l.pixels, ∃ t, l.tried = some t ∧ p.1 ≤ t
  last : l.led.lastGrb = (l.pixels.getLast?.map Prod.snd).getD ledInit.lastGrb
  apart : l.pixels.IsChain Apart
  coloured : ∀ p ∈ l.pixels, ∃ s, p.2 = colourFor s (UInt32.ofNat p.1)

/-- The rate limit goes by true time. -/
theorem Rendered.due (h : l.Rendered) {now : Nat} {full : Bool} (hp : l.Prompt (now, .task full)) (hready : l.led.ready = true) :
    timeAfter (UInt32.ofNat now) l.led.next = decide (∀ t, l.tried = some t → t + 16 ≤ now) := by
  obtain ⟨hclock, -, hsoon, -⟩ := hp
  cases htried : l.tried with
  | none =>
    obtain ⟨hnext, hcalled, -⟩ := h.idle htried
    have hstart := hcalled hready
    rw [hnext, show (0 : Time) = UInt32.ofNat 0 from rfl, DeskHop.timeAfter_of_le (Nat.zero_le _) (by omega)]
    exact (decide_eq_true fun t ht => by cases ht).symm
  | some t =>
    obtain ⟨hnext, hcalled, hpast⟩ := h.tried t htried
    rw [hnext]
    by_cases hdue : t + 16 ≤ now
    · rw [DeskHop.timeAfter_of_le hdue (by omega)]
      refine (decide_eq_true fun t' ht' => ?_).symm
      obtain rfl : t = t' := Option.some.inj ht'
      exact hdue
    · rw [timeAfter_of_lt (by omega) (by omega)]
      exact (decide_eq_false fun hall => hdue (hall t rfl)).symm

/-- Neither the pixels nor what limits them. -/
theorem Rendered.wait (h : l.Rendered) {l' : Lit} (hcalled : l'.called = l.called) (hclock : l.clock ≤ l'.clock)
    (htried : l'.tried = l.tried) (hnext : l'.led.next = l.led.next) (hlast : l'.led.lastGrb = l.led.lastGrb)
    (hpixels : l'.pixels = l.pixels) (hready : l'.led.ready = true → l.led.ready = true ∨ l'.clock < 2 ^ 30)
    (hunready : l'.led.ready = false → l.led.ready = false) : l'.Rendered := by
  refine ⟨hcalled ▸ h.order.trans hclock, fun hr => htried.trans (h.unready (hunready hr)), fun hnone => ?_, fun t ht => ?_,
    ?_, ?_, hpixels ▸ h.apart, hpixels ▸ h.coloured⟩
  · obtain ⟨h0, hearly, hnil⟩ := h.idle (htried ▸ hnone)
    refine ⟨hnext.trans h0, fun hr => ?_, hpixels.trans hnil⟩
    rcases hready hr with hr | hstart
    · exact hcalled ▸ hearly hr
    · exact hcalled ▸ (h.order.trans hclock).trans_lt hstart
  · obtain ⟨h1, h2, h3⟩ := h.tried t (htried ▸ ht)
    exact ⟨hnext.trans h1, hcalled ▸ h2, h3.trans hclock⟩
  · rw [hpixels, htried]
    exact h.since
  · rw [hlast, hpixels]
    exact h.last

/-- A turn of the task that does not look for a pixel: there is no LED, or it is too early. -/
theorem Rendered.early (h : l.Rendered) {now : Nat} (hclock : l.clock ≤ now) (hready : l.tried = none → l.led.ready = false)
    (hearly : ∀ t, l.tried = some t → now < t + 16) : ({ l with clock := now, called := now } : Lit).Rendered := by
  refine ⟨Nat.le_refl _, h.unready, fun hnone => ?_, fun t ht => ?_, h.since, h.last, h.apart, h.coloured⟩
  · obtain ⟨h0, -, hnil⟩ := h.idle hnone
    refine ⟨h0, fun hr => ?_, hnil⟩
    rw [show l.led.ready = false from hready hnone] at hr
    cases hr
  · obtain ⟨h1, -, h3⟩ := h.tried t ht
    exact ⟨h1, hearly t ht, h3.trans hclock⟩

/-- A turn that looks for one, and finds none or has no room for it. -/
theorem Rendered.looked (h : l.Rendered) {now : Nat} (hclock : l.clock ≤ now) (hready : l.led.ready = true) :
    ({ l with clock := now, called := now, tried := some now, led := { l.led with next := UInt32.ofNat now + 16 } } :
      Lit).Rendered := by
  refine ⟨Nat.le_refl _, fun hr => ?_, fun hnone => ?_, fun t ht => ?_, fun p hp => ⟨now, rfl, ?_⟩, h.last, h.apart,
    h.coloured⟩
  · rw [show l.led.ready = false from hr] at hready
    cases hready
  · cases hnone
  · obtain rfl : now = t := Option.some.inj ht
    refine ⟨?_, Nat.lt_add_of_pos_right (by decide), Nat.le_refl _⟩
    rw [UInt32.ofNat_add]
    rfl
  · obtain ⟨t, ht, hle⟩ := h.since p hp
    exact (hle.trans (h.tried t ht).2.2).trans hclock

/-- A pixel pushed, 16 ms after the last or later. -/
theorem Rendered.pushed (h : l.Rendered) {now : Nat} (htried : l.tried = some now) {colour : UInt32}
    (happart : ∀ p ∈ l.pixels, p.1 + 16 ≤ now) (hnew : colour ≠ l.led.lastGrb)
    (hcolour : ∃ s, colour = colourFor s (UInt32.ofNat now)) :
    ({ l with led := { l.led with lastGrb := colour }, pixels := l.pixels ++ [(now, colour)] } : Lit).Rendered := by
  refine ⟨h.order, h.unready, fun hnone => ?_, h.tried, fun p hp => ?_, ?_, ?_, fun p hp => ?_⟩
  · rw [show l.tried = none from hnone] at htried
    cases htried
  · rcases List.mem_append.mp hp with hp | hp
    · exact h.since p hp
    · rw [List.mem_singleton.mp hp]
      exact ⟨now, htried, Nat.le_refl _⟩
  · rw [List.getLast?_append]
    rfl
  · refine h.apart.append (.singleton _) fun p hp q hq => ?_
    obtain rfl : q = (now, colour) := (Option.some.inj hq).symm
    refine ⟨happart p (List.mem_of_getLast? hp), fun hsame => hnew ?_⟩
    rw [h.last, hp]
    exact hsame.symm
  · rcases List.mem_append.mp hp with hp | hp
    · exact h.coloured p hp
    · rw [List.mem_singleton.mp hp]
      exact hcolour

theorem boardLedTask_due {led : Led} {now : Time} (hready : led.ready = true) (hdue : timeAfter now led.next = true)
    (full : Bool) : boardLedTask led now full =
      if colourFor led.state now = led.lastGrb then (none, { led with next := now + 16 })
      else if full then (none, { led with next := now + 16 })
      else (some (colourFor led.state now), { led with next := now + 16, lastGrb := colourFor led.state now }) := by
  rw [boardLedTask, if_neg (by rw [hready]; decide), if_neg (by rw [hdue]; decide)]

/-- A turn of the task, too early or not. -/
theorem Rendered.task (h : l.Rendered) {now : Nat} {full : Bool} (hp : l.Prompt (now, .task full)) :
    (l.step c (now, .task full)).Rendered ∧
      (full = false → l.led.ready = true → (∃ t, l.tried = some t ∧ now < t + 16) ∨
        (l.step c (now, .task full)).pixels.getLast?.map Prod.snd = some (colourFor l.led.state (UInt32.ofNat now))) := by
  have hclock : l.clock ≤ now := hp.1
  have hmissed (hmiss : boardLedTask l.led (UInt32.ofNat now) full = (none, l.led))
      (hsame : (l.led.ready && timeAfter (UInt32.ofNat now) l.led.next) = false) :
      l.step c (now, .task full) = { l with clock := now, called := now } := by
    simp only [step, hmiss, hsame, Option.map_none, Option.toList_none, List.append_nil]
    rfl
  cases hready : l.led.ready with
  | false =>
    have htask : boardLedTask l.led (UInt32.ofNat now) full = (none, l.led) := by
      unfold boardLedTask
      rw [hready]
      rfl
    rw [hmissed htask (by rw [hready, Bool.false_and])]
    have hnone := h.unready hready
    refine ⟨h.early hclock (fun _ => hready) fun t ht => ?_, fun _ hr => by cases hr⟩
    rw [hnone] at ht
    cases ht
  | true =>
    have hdue : timeAfter (UInt32.ofNat now) l.led.next = _ := h.due hp hready
    by_cases hlate : ∀ t, l.tried = some t → t + 16 ≤ now
    · rw [decide_eq_true hlate] at hdue
      have hlooked := h.looked hclock hready
      have hsame : (l.led.ready && timeAfter (UInt32.ofNat now) l.led.next) = true := by rw [hready, hdue]; rfl
      -- what was looked for and not pushed
      have hkept (htask : boardLedTask l.led (UInt32.ofNat now) full = (none, { l.led with next := UInt32.ofNat now + 16 })) :
          l.step c (now, .task full) =
            { l with clock := now, called := now, tried := some now, led := { l.led with next := UInt32.ofNat now + 16 } } := by
        simp only [step, htask, hsame, Option.map_none, Option.toList_none, List.append_nil, if_true]
      by_cases hold : colourFor l.led.state (UInt32.ofNat now) = l.led.lastGrb
      · have htask : boardLedTask l.led (UInt32.ofNat now) full = (none, { l.led with next := UInt32.ofNat now + 16 }) := by
          rw [boardLedTask_due hready hdue, if_pos hold]
        rw [hkept htask]
        refine ⟨hlooked, fun _ _ => Or.inr ?_⟩
        have hlast := h.last
        rw [← hold] at hlast
        cases hpixel : l.pixels.getLast? with
        | none =>
          rw [hpixel] at hlast
          exact absurd hlast (colour_ne_init _ _)
        | some p =>
          rw [hpixel] at hlast
          exact congrArg some hlast.symm
      cases full with
      | true =>
        have htask : boardLedTask l.led (UInt32.ofNat now) true = (none, { l.led with next := UInt32.ofNat now + 16 }) := by
          rw [boardLedTask_due hready hdue, if_neg hold, if_pos rfl]
        rw [hkept htask]
        exact ⟨hlooked, fun hfull => by cases hfull⟩
      | false =>
        have htask : boardLedTask l.led (UInt32.ofNat now) false = (some (colourFor l.led.state (UInt32.ofNat now)),
            { l.led with next := UInt32.ofNat now + 16, lastGrb := colourFor l.led.state (UInt32.ofNat now) }) := by
          rw [boardLedTask_due hready hdue, if_neg hold, if_neg (by decide)]
        have hpushed := hlooked.pushed rfl (fun p hp => ?_) hold ⟨l.led.state, rfl⟩
        · simp only [step, htask, hsame, Option.map_some, Option.toList_some, if_true]
          refine ⟨hpushed, fun _ _ => Or.inr ?_⟩
          rw [List.getLast?_append]
          rfl
        · obtain ⟨t, ht, hle⟩ := h.since p hp
          have hwait := hlate t ht
          omega
    · rw [decide_eq_false hlate] at hdue
      have htask : boardLedTask l.led (UInt32.ofNat now) full = (none, l.led) := by
        unfold boardLedTask
        rw [hready, hdue]
        rfl
      rw [hmissed htask (by rw [hready, hdue, Bool.true_and])]
      obtain ⟨t, ht⟩ := not_forall.mp hlate
      obtain ⟨htried, hearly⟩ := Classical.not_imp.mp ht
      refine ⟨h.early hclock (fun hnone => ?_) fun t' ht' => ?_, fun _ _ => Or.inl ⟨t, htried, by omega⟩⟩
      · rw [hnone] at htried
        cases htried
      · obtain rfl : t = t' := Option.some.inj (htried.symm.trans ht')
        omega

theorem Rendered.step (h : l.Rendered) {e : Nat × Glow} (hp : l.Prompt e) : (l.step c e).Rendered := by
  obtain ⟨now, e⟩ := e
  cases e with
  | act a => exact h.wait rfl hp.1 rfl rfl rfl rfl Or.inl id
  | hwInit claimed =>
    have hnext : (boardLedHwInit l.led claimed).next = l.led.next ∧
        (boardLedHwInit l.led claimed).lastGrb = l.led.lastGrb ∧
        ((boardLedHwInit l.led claimed).ready = false → l.led.ready = false) := by
      unfold boardLedHwInit
      split
      · exact ⟨rfl, rfl, id⟩
      split
      · exact ⟨rfl, rfl, id⟩
      · exact ⟨rfl, rfl, fun hr => by cases hr⟩
    exact h.wait rfl hp.1 rfl hnext.1 hnext.2.1 rfl (fun _ => Or.inr hp.2.2.2) hnext.2.2
  | refresh =>
    unfold Lit.step
    dsimp only
    generalize refreshLed l.fw (UInt32.ofNat now) = r
    obtain ⟨s, fw⟩ := r
    exact h.wait rfl hp.1 rfl rfl rfl rfl Or.inl id
  | task full => exact (h.task hp).1

theorem Start.rendered (h : l.Start) : l.Rendered := by
  obtain ⟨-, hled, -, hcalled, hearly, htried, -, hpixels⟩ := h
  refine ⟨hcalled.le, fun _ => htried, fun _ => ⟨by rw [hled]; rfl, fun _ => hcalled ▸ hearly, hpixels⟩, fun t ht => ?_,
    fun p hp => ?_, ?_, ?_, fun p hp => ?_⟩
  · rw [htried] at ht
    cases ht
  · rw [hpixels] at hp
    cases hp
  · rw [hled, hpixels]
    rfl
  · rw [hpixels]
    exact .nil
  · rw [hpixels] at hp
    cases hp

/-- Pixels are 16 ms apart or more, no two in a row alike, and each a colour of its time. Once
    there is an LED and room for a pixel, a turn of the task leaves the last pixel the colour
    of now, unless the task has looked for one less than 16 ms ago. -/
theorem pixels_current (h : Reach Start Prompt (step c) l) :
    l.pixels.IsChain Apart ∧ (∀ p ∈ l.pixels, ∃ s, p.2 = colourFor s (UInt32.ofNat p.1)) ∧
    ∀ now, l.Prompt (now, .task false) → l.led.ready = true →
      (∃ t, l.tried = some t ∧ now < t + 16) ∨
      (l.step c (now, .task false)).pixels.getLast?.map Prod.snd = some (colourFor l.led.state (UInt32.ofNat now)) := by
  have hr : l.Rendered := h.inv (fun _ h0 => h0.rendered) fun _ _ hr hp => hr.step hp
  exact ⟨hr.apart, hr.coloured, fun now hp hready => (hr.task hp).2 rfl hready⟩

theorem pixels_current_of_unpaired :
    ((unpaired.foldl (step mockCrypto) switchedOn).step mockCrypto (1020, .task false)).pixels.getLast?.map Prod.snd =
      some (grb 200 0 0) := by
  have h := (pixels_current unpaired_reach).2.2 1020 (by decide +kernel) (by decide +kernel)
  rcases h with ⟨t, ht, hearly⟩ | h
  · have htried : (unpaired.foldl (step mockCrypto) switchedOn).tried = some 1000 := by decide +kernel
    obtain rfl : 1000 = t := Option.some.inj (htried.symm.trans ht)
    exact absurd hearly (by decide)
  · rw [h]
    decide +kernel

end Lit

end DeskHop.Device
