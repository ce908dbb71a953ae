/-
  DeskHop.Routing.Release — no abandoned machine is left holding anything.

  A run is one router on a link that holds a key, and beside them what each machine was
  last told: the keyboard report and the button byte last delivered to it, or last sent
  to it by a `dhp_link_send` that succeeded (`Desk`). It starts from any state the
  router can reach in which it is ACTIVE, its focus is in the chain table and nothing is
  held.

  Proved, for every run in which the router stays ACTIVE (`nothing_left_held`): after
  every operation every machine but the focused one has been told to hold nothing, and
  the focused one was told exactly what the tracker has down for it.
-/

import DeskHop.Election.Step
import DeskHop.Routing.Step
import DeskHop.Wire.Link
import Mathlib.Logic.Function.Basic

namespace DeskHop.Routing

open DeskHop.Lib DeskHop.Election DeskHop.Wire

/-! ## What the machines are told -/

structure Desk where
  r : Router
  link : Link
  /-- What each machine was last told. -/
  told : Addr → Told

namespace Desk

def tellKbd (told : Addr → Told) (m : Addr) (rep : KbdReport) : Addr → Told :=
  Function.update told m { told m with kbd := rep }

def tellButtons (told : Addr → Told) (m : Addr) (buttons : UInt8) : Addr → Told :=
  Function.update told m { told m with buttons := buttons }

/-- What a frame tells the machine behind the board it is for. -/
def hear (told : Addr → Told) (type : MsgType) (dst : Addr) (payload : List Byte) : Addr → Told :=
  if type = msgKbd then
    match kbdUnpack payload with
    | none => told
    | some rep => tellKbd told dst rep
  else if type = msgMouse then
    match mouseUnpack payload with
    | none => told
    | some rep => tellButtons told dst rep.buttons
  else told

/-- One thing the router asked for, done. -/
def perform (d : Desk) : Act → Desk
  | .send type dst payload =>
    let (res, link) := linkSend d.link type dst payload
    { d with link := link, told := if res = .ok then hear d.told type dst payload else d.told }
  | .linkTick now => { d with link := linkTick d.link now }
  | .deliverKbd rep => { d with told := tellKbd d.told d.r.cfg.self rep }
  | .deliverMouse rep => { d with told := tellButtons d.told d.r.cfg.self rep.buttons }
  | .focusChanged _ _ | .levelChanged _ | .deliverData _ => d

/-- The desk once everything `r` has asked for is done. -/
def after (d : Desk) (r : Router) : Desk := r.out.foldl perform d

def step (d : Desk) (op : Op) : Desk :=
  let r := Routing.step d.r op
  { d.after r with r := r }

/-- The operations of a run, in which the router stays ACTIVE. -/
def Stays (d : Desk) (op : Op) : Prop :=
  (match op with
    | .localKbd _ | .localMouse _ _ | .button _ => True
    | .setFocus target _ _ => (chainFind d.r target).isSome = true
    | .rx f _ _ => f.type = msgHello ∨ f.type = msgInput ∨ f.type = msgRelease
    | .start _ | .tick _ | .setCaps _ => False) ∧ isActive (d.step op).r = true

instance (d : Desk) (op : Op) : Decidable (Stays d op) := by
  unfold Stays
  cases op <;> infer_instance

/-- An ACTIVE router, on a keyed link, with nothing held anywhere. -/
structure Clear (cfg : RouterCfg) (d : Desk) : Prop where
  routed : Routed cfg d.r
  active : isActive d.r = true
  keyed : d.link.hasKey = true
  known : (chainFind d.r d.r.focus).isSome = true
  unheld : hidAnyHeld d.r.hid = false
  told : ∀ m, d.told m = .nothing

/-! ## Doing what was asked for -/

theorem perform_r (d : Desk) (a : Act) : (d.perform a).r = d.r := by cases a <;> rfl

theorem perform_keyed {d : Desk} (h : d.link.hasKey = true) (a : Act) : (d.perform a).link.hasKey = true := by
  cases a with
  | send type dst payload => exact (linkSend_same _ _ _ _).1.trans h
  | linkTick now => exact (linkTick_same _ _).1.trans h
  | deliverKbd rep => exact h
  | deliverMouse rep => exact h
  | focusChanged f b => exact h
  | levelChanged l => exact h
  | deliverData f => exact h

theorem after_r (d : Desk) (r : Router) : (d.after r).r = d.r :=
  List.foldlRecOn (motive := fun e : Desk => e.r = d.r) r.out _ rfl fun e he a _ => (perform_r e a).trans he

theorem after_keyed {d : Desk} (h : d.link.hasKey = true) (r : Router) : (d.after r).link.hasKey = true :=
  List.foldlRecOn (motive := fun e : Desk => e.link.hasKey = true) r.out _ h fun _ he a _ => perform_keyed he a

theorem after_emit (d : Desk) (r : Router) (a : Act) : d.after (r.emit a) = (d.after r).perform a := by
  simp [after, Router.emit]

theorem after_congr (d : Desk) {r s : Router} (h : s.out = r.out) : d.after s = d.after r := by
  unfold after
  rw [h]

theorem perform_send (d : Desk) (type : MsgType) (dst : Addr) (payload : List Byte) :
    (d.perform (.send type dst payload)).told =
      if (linkSend d.link type dst payload).1 = .ok then hear d.told type dst payload else d.told := rfl

section keyed

variable {d : Desk} (hk : d.link.hasKey = true)
include hk

theorem after_sendKbd (r : Router) (dst : Addr) (rep : KbdReport) :
    (d.after (r.emit (.send msgKbd dst (kbdPack rep)))).told = tellKbd (d.after r).told dst rep := by
  have hlen : (kbdPack rep).length = 7 := by simp [kbdPack, rep.keys.property]
  have hok : (linkSend (d.after r).link msgKbd dst (kbdPack rep)).1 = .ok :=
    linkSend_ok (after_keyed hk r) dst (by rw [hlen]; decide) (by decide)
  rw [after_emit, perform_send, hok, if_pos rfl, hear, if_pos rfl, kbdUnpack_pack]

theorem after_sendMouse (r : Router) (dst : Addr) (rep : MouseReport) :
    (d.after (r.emit (.send msgMouse dst (mousePack rep)))).told = tellButtons (d.after r).told dst rep.buttons := by
  have hok : (linkSend (d.after r).link msgMouse dst (mousePack rep)).1 = .ok :=
    linkSend_ok (after_keyed hk r) dst (show 7 ≤ maxPayload by decide) (by decide)
  obtain ⟨rep', hun, hb⟩ := mouseUnpack_pack_buttons rep
  rw [after_emit, perform_send, hok, if_pos rfl, hear, if_neg (by decide), if_pos rfl, hun]
  show tellButtons _ _ rep'.buttons = _
  rw [hb]

end keyed

/-- Only keyboard and mouse traffic tells a machine anything. -/
theorem after_sendOther (d : Desk) (r : Router) {type : MsgType} (h1 : type ≠ msgKbd) (h2 : type ≠ msgMouse) (dst : Addr)
    (payload : List Byte) : (d.after (r.emit (.send type dst payload))).told = (d.after r).told := by
  rw [after_emit, perform_send, hear, if_neg h1, if_neg h2, ite_self]

theorem after_deliverKbd (d : Desk) (r : Router) (rep : KbdReport) :
    (d.after (r.emit (.deliverKbd rep))).told = tellKbd (d.after r).told d.r.cfg.self rep := by
  rw [after_emit]
  show tellKbd _ (d.after r).r.cfg.self rep = _
  rw [after_r]

theorem after_deliverMouse (d : Desk) (r : Router) (rep : MouseReport) :
    (d.after (r.emit (.deliverMouse rep))).told = tellButtons (d.after r).told d.r.cfg.self rep.buttons := by
  rw [after_emit]
  show tellButtons _ (d.after r).r.cfg.self rep.buttons = _
  rw [after_r]

/-! ## The invariant -/

/-- Nothing is held anywhere, or only on the focused machine and then as tracked. -/
structure Tidy (d : Desk) (r : Router) : Prop where
  self : d.r.cfg.self = r.cfg.self
  own : r.chain.index? r.cfg.self = some r.selfSlot
  blank : ∀ slot, (r.hid.sent slot).used = false → (r.hid.sent slot).told = .nothing
  known : ∃ i, r.chain.index? r.focus = some i
  focused : (d.after r).told r.focus = (r.hid.sent (slotOf r r.focus)).told
  quietMachine : ∀ m, m ≠ r.focus → (d.after r).told m = .nothing
  quietSlot : ∀ slot, slot ≠ slotOf r r.focus → (r.hid.sent slot).told = .nothing

/-- A board in the chain table has its slot there. -/
theorem slotOf_known {r : Router} (hown : r.chain.index? r.cfg.self = some r.selfSlot) {a : Addr} {i : Nat}
    (h : r.chain.index? a = some i) : slotOf r a = i := by
  unfold slotOf
  by_cases ha : a = r.cfg.self
  · rw [if_pos ha]
    rw [ha, hown] at h
    exact Option.some.inj h
  · rw [if_neg ha, h]

theorem Tidy.slot_lt {d : Desk} {r : Router} (h : Tidy d r) : slotOf r r.focus < maxBoards := by
  obtain ⟨i, hi⟩ := h.known
  rw [slotOf_known h.own hi]
  exact Slots.index?_lt hi

/-- What changes neither the focus, the tracker nor what the machines are told. -/
theorem Tidy.congr {d : Desk} {r s : Router} (h : Tidy d r) (hk : Keeps r s) (hh : s.hid = r.hid) (hf : s.focus = r.focus)
    (ht : (d.after s).told = (d.after r).told) : Tidy d s := by
  have hown : s.chain.index? s.cfg.self = some s.selfSlot := by
    rw [hk.cfg, hk.selfSlot]
    exact hk.chain _ _ h.own
  obtain ⟨i, hi⟩ := h.known
  have hslot : slotOf s s.focus = slotOf r r.focus := by
    rw [slotOf_known hown (hf ▸ hk.chain _ _ hi), slotOf_known h.own hi]
  refine ⟨by rw [hk.cfg]; exact h.self, hown, by rw [hh]; exact h.blank, ⟨i, hf ▸ hk.chain _ _ hi⟩, ?_, ?_, ?_⟩
  · rw [ht, hh, hslot, hf]
    exact h.focused
  · intro m hm
    rw [ht]
    exact h.quietMachine m (hf ▸ hm)
  · intro slot hs
    rw [hh]
    exact h.quietSlot slot (hslot ▸ hs)

/-- The tracker changes in the slot of the focus, and the focused machine is told the
    same. -/
theorem Tidy.tell {d : Desk} {r s : Router} {f : HidSent → HidSent} {t : Told} (h : Tidy d r) (hk : Keeps r s)
    (hc : s.chain = r.chain) (hh : s.hid = r.hid.upd (slotOf r r.focus) f) (hf : s.focus = r.focus)
    (ht : (d.after s).told = Function.update (d.after r).told r.focus t)
    (hft : (f (r.hid.sent (slotOf r r.focus))).told = t) : Tidy d s := by
  have hown : s.chain.index? s.cfg.self = some s.selfSlot := by
    rw [hk.cfg, hk.selfSlot]
    exact hk.chain _ _ h.own
  have hslot : slotOf s s.focus = slotOf r r.focus := by
    unfold slotOf
    rw [hk.cfg, hk.selfSlot, hc, hf]
  refine ⟨by rw [hk.cfg]; exact h.self, hown, hk.blank h.blank, by rw [hc, hf]; exact h.known, ?_, ?_, ?_⟩
  · rw [ht, hslot, hf, hh, HidTracker.sent_upd_self _ h.slot_lt, hft, Function.update_self]
  · intro m hm
    rw [ht, Function.update_of_ne (hf ▸ hm)]
    exact h.quietMachine m (hf ▸ hm)
  · intro slot hs
    rw [hslot] at hs
    rw [hh, HidTracker.sent_upd_ne _ hs]
    exact h.quietSlot slot hs

section keyed

variable {d : Desk} (hk : d.link.hasKey = true)
include hk

theorem tidy_sendKbdTo {r : Router} (h : Tidy d r) (rep : KbdReport) : Tidy d (sendKbdTo r r.focus rep) := by
  have hkeep := keeps_sendKbdTo r r.focus rep
  have ht : (d.after (sendKbdTo r r.focus rep)).told = tellKbd (d.after r).told r.focus rep := by
    have h0 := after_congr d (r := r) (s := { r with hid := hidNoteKbd r.hid (slotOf r r.focus) rep }) rfl
    simp only [sendKbdTo]
    split
    · rename_i hs
      rw [after_deliverKbd, h0, h.self, ← hs]
    · rw [after_sendKbd hk, h0]
  refine h.tell (f := fun s => { s with used := true, modifiers := rep.modifiers, keys := rep.keys }) hkeep ?_ ?_ ?_ ht ?_
  · simp only [sendKbdTo]
    split <;> rfl
  · simp only [sendKbdTo]
    split <;> rfl
  · simp only [sendKbdTo]
    split <;> rfl
  · rw [h.focused]
    rfl

theorem tidy_sendMouseTo {r : Router} (h : Tidy d r) (rep : MouseReport) : Tidy d (sendMouseTo r r.focus rep) := by
  have hkeep := keeps_sendMouseTo r r.focus rep
  have ht : (d.after (sendMouseTo r r.focus rep)).told = tellButtons (d.after r).told r.focus rep.buttons := by
    have h0 := after_congr d (r := r) (s := { r with hid := hidNoteMouse r.hid (slotOf r r.focus) rep.buttons }) rfl
    simp only [sendMouseTo]
    split
    · rename_i hs
      rw [after_deliverMouse, h0, h.self, ← hs]
    · rw [after_sendMouse hk, h0]
  refine h.tell (f := fun s => { s with used := true, buttons := rep.buttons }) hkeep ?_ ?_ ?_ ht ?_
  · simp only [sendMouseTo]
    split <;> rfl
  · simp only [sendMouseTo]
    split <;> rfl
  · simp only [sendMouseTo]
    split <;> rfl
  · rw [h.focused]
    rfl

/-- After the release of the focused machine nothing is held anywhere. -/
theorem released {r : Router} (h : Tidy d r) : (∀ slot, ((releaseMachine r r.focus).hid.sent slot).told = .nothing) ∧
    ∀ m, (d.after (releaseMachine r r.focus)).told m = .nothing := by
  have hlt := h.slot_lt
  cases hb : hidBuildRelease r.hid (slotOf r r.focus) with
  | none =>
    -- nothing was held on the focused machine either
    have hr : releaseMachine r r.focus = r := by simp only [releaseMachine, hb]
    have hfree : (r.hid.sent (slotOf r r.focus)).told = .nothing :=
      told_of_not_held (h.blank _) (hidBuildRelease_none hlt hb)
    rw [hr]
    constructor
    · intro slot
      by_cases hs : slot = slotOf r r.focus
      · rw [hs, hfree]
      · exact h.quietSlot slot hs
    · intro m
      by_cases hm : m = r.focus
      · rw [hm, h.focused, hfree]
      · exact h.quietMachine m hm
  | some b =>
    obtain ⟨k, m, hid⟩ := b
    obtain ⟨rfl, rfl, hhid⟩ := hidBuildRelease_some hb
    have hslots : (releaseMachine r r.focus).hid = hid := by
      simp only [releaseMachine, hb]
      split <;> rfl
    have htold : (d.after (releaseMachine r r.focus)).told =
        tellButtons (tellKbd (d.after r).told r.focus kbdZero) r.focus mouseZero.buttons := by
      have h0 := after_congr d (r := r) (s := { r with hid := hid, nReleasesSent := r.nReleasesSent + 1 }) rfl
      simp only [releaseMachine, hb]
      split
      · rename_i hs
        rw [after_deliverMouse, after_deliverKbd, h0, h.self, ← hs]
      · rw [after_sendMouse hk, after_sendKbd hk, h0]
    constructor
    · intro slot
      rw [hslots, hhid]
      by_cases hs : slot = slotOf r r.focus
      · rw [hs, HidTracker.sent_upd_self _ hlt]
        rfl
      · rw [HidTracker.sent_upd_ne _ hs]
        exact h.quietSlot slot hs
    · intro m
      rw [htold]
      by_cases hm : m = r.focus
      · rw [hm, tellButtons, Function.update_self, tellKbd, Function.update_self]
        rfl
      · rw [tellButtons, Function.update_of_ne hm, tellKbd, Function.update_of_ne hm]
        exact h.quietMachine m hm

theorem tidy_applyFocus {r : Router} (h : Tidy d r) {target : Addr} (hn : ∃ i, r.chain.index? target = some i)
    (reason : UInt8) (edge : Edge) (now : Time) (announce : Bool) :
    Tidy d (applyFocus r target reason edge now announce) := by
  have hkeep := keeps_applyFocus r target reason edge now announce
  by_cases hsame : target = addrNone ∨ target = r.focus
  · have he : applyFocus r target reason edge now announce = r := if_pos hsame
    rw [he]
    exact h
  · -- everything is let go, and only then does the focus move
    obtain ⟨hslots, hmachines⟩ := released hk h
    have hfocus : (applyFocus r target reason edge now announce).focus = target := by
      simp only [applyFocus, if_neg hsame]
      cases announce <;> rfl
    have hhid : (applyFocus r target reason edge now announce).hid = (releaseMachine r r.focus).hid := by
      simp only [applyFocus, if_neg hsame]
      cases announce <;> rfl
    have htold : (d.after (applyFocus r target reason edge now announce)).told =
        (d.after (releaseMachine r r.focus)).told := by
      let s : Router := { releaseMachine r r.focus with
        focus := target, nSwitches := (releaseMachine r r.focus).nSwitches + 1,
        pointer := pointerArrive (releaseMachine r r.focus).pointer edge now }
      have h0 : (d.after s).told = (d.after (releaseMachine r r.focus)).told := congrArg told (after_congr d rfl)
      simp only [applyFocus, if_neg hsame]
      cases announce with
      | false =>
        rw [if_neg (by decide), after_emit]
        exact h0
      | true =>
        rw [if_pos rfl, after_emit]
        exact (after_sendOther d s (by decide) (by decide) _ _).trans h0
    obtain ⟨i, hi⟩ := hn
    refine ⟨by rw [hkeep.cfg]; exact h.self, ?_, hkeep.blank h.blank, ⟨i, ?_⟩, ?_, fun m _ => ?_, fun slot _ => ?_⟩
    · rw [hkeep.cfg, hkeep.selfSlot]
      exact hkeep.chain _ _ h.own
    · rw [hfocus]
      exact hkeep.chain _ _ hi
    · rw [htold, hmachines, hhid, hslots]
    · rw [htold, hmachines]
    · rw [hhid, hslots]

end keyed

/-! ## Where a gesture or the button leads -/

theorem index_of_entry {r : Router} {e : ChainEntry} (he : e ∈ r.chain.cells) (hu : e.used = true) :
    ∃ i, r.chain.index? e.addr = some i := by
  obtain ⟨a, ha⟩ := Option.isSome_iff_exists.mp (Slots.find?_isSome_of_mem he hu)
  exact Slots.index?_of_find ha

theorem neighbourOf_known {r : Router} {src : Addr} {direction : Int} (h : neighbourOf r src direction ≠ addrNone) :
    ∃ i, r.chain.index? (neighbourOf r src direction) = some i := by
  have hsearch : ∀ fromPos : Int,
      (r.chain.cells.foldl (neighbourStep r src fromPos direction) (addrNone, 0)).1 = addrNone ∨
      ∃ i, r.chain.index? (r.chain.cells.foldl (neighbourStep r src fromPos direction) (addrNone, 0)).1 = some i := by
    intro fromPos
    refine List.foldlRecOn (motive := fun b : Addr × Int => b.1 = addrNone ∨ ∃ i, r.chain.index? b.1 = some i)
      r.chain.cells _ (Or.inl rfl) fun b hb e he => ?_
    simp only [neighbourStep]
    split
    · exact hb
    rename_i hskip
    have hu : e.used = true := by
      simp only [Bool.or_eq_true, Bool.not_eq_true', not_or, Bool.not_eq_false] at hskip
      exact hskip.1
    split
    · exact hb
    split
    · exact Or.inr (index_of_entry he hu)
    split
    · exact Or.inr (index_of_entry he hu)
    · exact hb
  unfold neighbourOf at h ⊢
  split at h
  · rename_i hs
    rw [if_pos hs]
    exact (hsearch 0).resolve_left h
  · rename_i hs
    rw [if_neg hs]
    split at h
    · exact absurd rfl h
    · rename_i e hf
      exact (hsearch e.relPos).resolve_left h

theorem tour_known (r : Router) (curPos : Int) : ∀ a,
    a = (r.chain.cells.foldl (tourStep r curPos) ⟨addrNone, 0, addrNone, 0⟩).next ∨
      a = (r.chain.cells.foldl (tourStep r curPos) ⟨addrNone, 0, addrNone, 0⟩).wrap →
    a = addrNone ∨ ∃ i, r.chain.index? a = some i := by
  refine List.foldlRecOn (motive := fun t : Tour => ∀ a, a = t.next ∨ a = t.wrap →
    a = addrNone ∨ ∃ i, r.chain.index? a = some i) r.chain.cells _ (fun a ha => ?_) fun t ht e he => ?_
  · rcases ha with rfl | rfl <;> exact Or.inl rfl
  · simp only [tourStep]
    split
    · exact ht
    rename_i hskip
    have hu : e.used = true := by
      simp only [Bool.or_eq_true, Bool.not_eq_true', not_or, Bool.not_eq_false] at hskip
      exact hskip.1
    have hnext : ∀ b, b = e.addr → b = addrNone ∨ ∃ i, r.chain.index? b = some i := by
      rintro b rfl
      exact Or.inr (index_of_entry he hu)
    intro a ha
    split at ha <;> split at ha <;> rcases ha with ha | ha <;>
      first
        | exact ht a (Or.inl ha)
        | exact ht a (Or.inr ha)
        | exact hnext a ha

/-! ## One operation of an ACTIVE router -/

/-- The HELLO of another board, to a board that keeps the role, raises nothing. -/
theorem rxHello_quiet {u : Uhrp} {src : Addr} {h : Hello} {now : Time} (ha : u.state = .active)
    (hs : (rxHello u src h now).state = .active) (he : u.ev = Events.none) : (rxHello u src h now).ev = Events.none := by
  have hcall : call u (.hello src h now.toNat) = rxHello u src h now := by
    show rxHello u src h (UInt32.ofNat now.toNat) = _
    rw [UInt32.ofNat_toNat]
  rw [← hcall] at hs ⊢
  cases hp : prepared u (.hello src h now.toNat) with
  | none =>
    rcases call_of_not_prepared hp with hc | ⟨b, hb, _⟩
    · rw [hc]
      exact he
    · cases hb
  | some p =>
    obtain ⟨v, n⟩ := p
    obtain ⟨hsame, hst⟩ := prepared_same hp
    have hst' : v.started = true := hsame.started.trans hst
    have hc := call_of_prepared hp
    rw [if_neg (by simp [isTick])] at hc
    rw [hc] at hs ⊢
    obtain ⟨_, hres | hkept⟩ := reevaluate_active hst' (hsame.state.trans ha) (UInt32.ofNat n)
    · rw [hres.state] at hs
      cases hs
    · rw [hkept.ev, hsame.ev, he]

theorem tidy_uhrp {d : Desk} {r : Router} (h : Tidy d r) (u : Uhrp) : Tidy d { r with uhrp := u } :=
  h.congr ((Keeps.refl r).setUhrp u) rfl rfl (congrArg told (after_congr d rfl))

theorem tidy_pointer {d : Desk} {r : Router} (h : Tidy d r) (p : Pointer) : Tidy d { r with pointer := p } :=
  h.congr ((Keeps.refl r).setPointer p) rfl rfl (congrArg told (after_congr d rfl))

theorem tidy_chain {d : Desk} {r : Router} (h : Tidy d r) {c : Chain} (hk : Keeps r { r with chain := c }) :
    Tidy d { r with chain := c } :=
  h.congr hk rfl rfl (congrArg told (after_congr d rfl))

theorem tidy_recomputeLevel {d : Desk} {r : Router} (h : Tidy d r) : Tidy d (recomputeLevel r) := by
  refine h.congr (keeps_recomputeLevel r) ?_ ?_ ?_
  · simp only [recomputeLevel]
    split <;> rfl
  · simp only [recomputeLevel]
    split <;> rfl
  · simp only [recomputeLevel]
    split
    · rw [after_emit]
      exact congrArg told (after_congr d rfl)
    · rfl

theorem tidy_noteKeysHeld {d : Desk} {r : Router} (h : Tidy d r) (he : r.uhrp.ev = Events.none) :
    Tidy d (noteKeysHeld r) := by
  rw [noteKeysHeld_same he]
  exact tidy_uhrp h _

theorem tidy_learnPosition {d : Desk} {r : Router} (h : Tidy d r) (f : Frame) (inPort : Port) (now : Time) :
    Tidy d (learnPosition r f inPort now) := by
  have hk := keeps_learnPosition r f inPort now
  unfold learnPosition at hk ⊢
  split
  · exact h
  · rename_i hs
    rw [if_neg hs] at hk
    split
    · exact h
    · rename_i chain hc
      rw [hc] at hk
      exact tidy_chain h hk

theorem tidy_learnCaps {d : Desk} {r : Router} (h : Tidy d r) (src : Addr) (hl : Hello) : Tidy d (learnCaps r src hl) := by
  have hk := keeps_learnCaps r src hl
  unfold learnCaps at hk ⊢
  split
  · exact h
  · rename_i chain hc
    rw [hc] at hk
    exact tidy_chain h hk

theorem forwardInput_active {r : Router} (ha : isActive r = true) (kind : Byte) (report : List Byte) :
    forwardInput r kind report = none := if_pos ha

section keyed

variable {d : Desk} (hk : d.link.hasKey = true)
include hk

theorem tidy_localKbd {r : Router} (h : Tidy d r) (ha : isActive r = true) (he : r.uhrp.ev = Events.none)
    (rep : KbdReport) : Tidy d (routerLocalKbd r rep) := by
  unfold routerLocalKbd
  rw [forwardInput_active ha]
  exact tidy_noteKeysHeld (tidy_sendKbdTo hk h rep) (by rw [sendKbdTo_uhrp]; exact he)

theorem tidy_localMouse {r : Router} (h : Tidy d r) (ha : isActive r = true) (he : r.uhrp.ev = Events.none)
    (rep : MouseReport) (now : Time) : Tidy d (routerLocalMouse r rep now) := by
  have hp := tidy_pointer h (pointerFeed r.pointer rep.dx rep.dy now).2
  simp only [routerLocalMouse, forwardInput_active ha]
  split
  · rename_i hc
    exact tidy_applyFocus hk hp (neighbourOf_known hc.2) _ _ _ _
  · exact tidy_noteKeysHeld (tidy_sendMouseTo hk hp rep) (by rw [sendMouseTo_uhrp]; exact he)

theorem tidy_button {r : Router} (h : Tidy d r) (now : Time) : Tidy d (routerButton r now) := by
  unfold routerButton
  split
  · exact h
  · dsimp only
    generalize (if r.focus = r.cfg.self then (0 : Int) else ((chainFind r r.focus).map (·.relPos)).getD 0) = curPos
    have htour := tour_known r curPos
    generalize r.chain.cells.foldl (tourStep r curPos) ⟨addrNone, 0, addrNone, 0⟩ = t at htour
    have hnext : (if t.next = addrNone then t.wrap else t.next) = addrNone ∨
        ∃ i, r.chain.index? (if t.next = addrNone then t.wrap else t.next) = some i := by
      split
      · exact htour _ (Or.inr rfl)
      · exact htour _ (Or.inl rfl)
    rcases hnext with h0 | hi
    · rw [h0]
      have he : applyFocus r addrNone focusRButton .none now true = r := if_pos (Or.inl rfl)
      rw [he]
      exact h
    · exact tidy_applyFocus hk h hi _ _ _ _

omit hk in
theorem tidy_rxRelease {r : Router} (h : Tidy d r) : Tidy d (rxRelease r) := by
  have hkeep := (settles_rxRelease r).keeps
  let s : Router := { r with hid := hidForget r.hid r.selfSlot }
  have htold : (d.after (rxRelease r)).told =
      tellButtons (tellKbd (d.after r).told r.cfg.self kbdZero) r.cfg.self mouseZero.buttons := by
    have h0 := after_congr d (r := r) (s := s) rfl
    show (d.after ((s.emit (.deliverKbd kbdZero)).emit (.deliverMouse mouseZero))).told = _
    rw [after_deliverMouse, after_deliverKbd, h0, h.self]
  -- our own machine now holds nothing, the others hold what they did
  have hself : ∀ m, (d.after (rxRelease r)).told m = if m = r.cfg.self then .nothing else (d.after r).told m := by
    intro m
    rw [htold]
    split
    · rename_i hm
      rw [hm, tellButtons, Function.update_self, tellKbd, Function.update_self]
      rfl
    · rename_i hm
      rw [tellButtons, Function.update_of_ne hm, tellKbd, Function.update_of_ne hm]
  have hslot : ∀ slot, ((rxRelease r).hid.sent slot).told =
      if slot = r.selfSlot then .nothing else (r.hid.sent slot).told := by
    intro slot
    show ((r.hid.upd r.selfSlot fun _ => .zero).sent slot).told = _
    split
    · rename_i hs
      rw [hs, HidTracker.sent_upd_self _ (Slots.index?_lt h.own)]
      rfl
    · rename_i hs
      rw [HidTracker.sent_upd_ne _ hs]
  obtain ⟨i, hi⟩ := h.known
  have hof : slotOf (rxRelease r) (rxRelease r).focus = slotOf r r.focus := rfl
  refine ⟨h.self, h.own, hkeep.blank h.blank, ⟨i, hi⟩, ?_, fun m hm => ?_, fun slot hs => ?_⟩
  · show (d.after (rxRelease r)).told r.focus = _
    rw [hof, hself, hslot, slotOf_known h.own hi]
    by_cases hm : r.focus = r.cfg.self
    · have : i = r.selfSlot := by
        rw [hm, h.own] at hi
        exact (Option.some.inj hi).symm
      rw [if_pos hm, if_pos this]
    · have : i ≠ r.selfSlot := by
        intro e
        rw [e] at hi
        exact hm (Slots.index?_inj hi h.own)
      rw [if_neg hm, if_neg this, h.focused, slotOf_known h.own hi]
  · rw [hself]
    split
    · rfl
    · exact h.quietMachine m hm
  · rw [hslot]
    split
    · rfl
    · exact h.quietSlot slot hs

omit hk in
theorem tidy_rxHelloFrame {r : Router} (h : Tidy d r) (ha : isActive r = true) (he : r.uhrp.ev = Events.none) (src : Addr)
    (hl : Hello) (now : Time) (hs : isActive (rxHelloFrame r src hl now) = true) :
    Tidy d (rxHelloFrame r src hl now) := by
  have hact : r.uhrp.state = .active := by simpa [isActive, Election.isActive] using ha
  have hu := learnCaps_uhrp r src hl
  have ht := tidy_learnCaps h src hl
  have hstate : (rxHello r.uhrp src hl now).state = .active := by
    rw [← hu]
    simpa [rxHelloFrame, isActive, Election.isActive, recomputeLevel_uhrp, drainUhrp_uhrp, takeEvents] using hs
  have hdr := drainUhrp_of_drained (r := { learnCaps r src hl with uhrp := rxHello (learnCaps r src hl).uhrp src hl now })
    (by rw [hu]; exact rxHello_quiet hact hstate he)
  unfold rxHelloFrame
  dsimp only
  rw [hdr]
  exact tidy_recomputeLevel (tidy_uhrp ht _)

theorem tidy_rxInput {r : Router} (h : Tidy d r) (ha : isActive r = true) (he : r.uhrp.ev = Events.none) (f : Frame)
    (now : Time) : Tidy d (rxInput r f now) := by
  unfold rxInput
  split
  · exact h
  split
  · exact h
  split
  · exact h
  split
  · split
    · exact h
    · exact tidy_localKbd hk h ha he _
  split
  · split
    · exact h
    · exact tidy_localMouse hk h ha he _ now
  · exact h

end keyed

/-! ## Every run -/

structure Inv (d : Desk) : Prop where
  keyed : d.link.hasKey = true
  active : isActive d.r = true
  drained : d.r.uhrp.ev = Events.none
  tidy : Tidy d { d.r with out := [] }

theorem clear_inv {cfg : RouterCfg} {d : Desk} (h : Clear cfg d) : Inv d := by
  have hs := routed_sound h.routed
  have hfree : ∀ slot, (d.r.hid.sent slot).told = .nothing := by
    intro slot
    refine told_of_not_held (hs.blank slot) ?_
    by_cases hlt : slot < d.r.hid.target.length
    · have hany := List.any_eq_false.mp h.unheld (d.r.hid.target[slot]) (List.getElem_mem hlt)
      rw [HidTracker.sent, List.getD_eq_getElem?_getD, List.getElem?_eq_getElem hlt]
      exact Bool.eq_false_iff.mpr hany
    · rw [HidTracker.sent, List.getD_eq_getElem?_getD, List.getElem?_eq_none (by omega)]
      rfl
  obtain ⟨e, he⟩ := Option.isSome_iff_exists.mp h.known
  refine ⟨h.keyed, h.active, hs.drained, rfl, hs.own, hs.blank, Slots.index?_of_find he, ?_, fun m _ => h.told m,
    fun slot _ => hfree slot⟩
  exact (h.told _).trans (hfree _).symm

theorem step_inv {d : Desk} {op : Op} (hi : Inv d) (hok : Stays d op) : Inv (d.step op) := by
  let r0 : Router := { d.r with out := [] }
  have h0 : Tidy d r0 := hi.tidy
  have ha : isActive r0 = true := hi.active
  have he : r0.uhrp.ev = Events.none := hi.drained
  have hnow : isActive (apply r0 op) = true := hok.2
  have ht : Tidy d (apply r0 op) ∧ (apply r0 op).uhrp.ev = Events.none := by
    have hk := hi.keyed
    cases op with
    | start now => exact hok.1.elim
    | tick now => exact hok.1.elim
    | setCaps caps => exact hok.1.elim
    | localKbd rep => exact ⟨tidy_localKbd hk h0 ha he rep, (settles_localKbd r0 rep).drained he⟩
    | localMouse rep now => exact ⟨tidy_localMouse hk h0 ha he rep now, (settles_localMouse r0 rep now).drained he⟩
    | button now => exact ⟨tidy_button hk h0 now, (settles_button r0 now).drained he⟩
    | setFocus target reason now =>
      obtain ⟨e, hf⟩ := Option.isSome_iff_exists.mp (show (chainFind d.r target).isSome = true from hok.1)
      exact ⟨tidy_applyFocus hk h0 (Slots.index?_of_find hf) reason .none now true,
        (settles_setFocus r0 target reason now).drained he⟩
    | rx f inPort now =>
      refine ⟨?_, (settles_rx r0 f inPort now).drained he⟩
      have hl := tidy_learnPosition h0 f inPort now
      have hu := learnPosition_uhrp r0 f inPort now
      have hla : isActive (learnPosition r0 f inPort now) = true := by rw [isActive, hu]; exact ha
      have hle : (learnPosition r0 f inPort now).uhrp.ev = Events.none := by rw [hu]; exact he
      show Tidy d (routerRx r0 f inPort now)
      have hnow' : isActive (routerRx r0 f inPort now) = true := hnow
      rcases hok.1 with hty | hty | hty
      · simp only [routerRx, hty, if_true] at hnow' ⊢
        split
        · exact hl
        · rename_i hun
          rw [hun] at hnow'
          exact tidy_rxHelloFrame hl hla hle _ _ _ hnow'
      · simp only [routerRx, hty]
        exact tidy_rxInput hk hl hla hle f now
      · simp only [routerRx, hty]
        exact tidy_rxRelease hl
  obtain ⟨h1, h2⟩ := ht
  refine ⟨after_keyed hi.keyed _, hnow, h2, rfl, h1.own, h1.blank, h1.known, h1.focused, h1.quietMachine, h1.quietSlot⟩

end Desk

open Desk

/-- In every state of the run only the focused machine holds anything, and it holds what
    the tracker says. -/
theorem nothing_left_held {cfg : RouterCfg} {d : Desk} (h : Reach (Clear cfg) Stays Desk.step d) :
    (∀ m, m ≠ d.r.focus → d.told m = .nothing) ∧
      d.told d.r.focus = (d.r.hid.sent (slotOf d.r d.r.focus)).told := by
  have hi : Inv d := h.inv (I := Inv) (fun _ hc => clear_inv hc) fun _ _ hi hok => step_inv hi hok
  exact ⟨hi.tidy.quietMachine, hi.tidy.focused⟩

/-! ## A switch with Ctrl down -/

def deskCfg : RouterCfg := ⟨1, 0x11, capHidOut ||| capHidIn, false, timingDefault, pointerCfgDefault⟩

/-- Board 2, one place down-chain. -/
def neighbourHello : Frame :=
  { type := msgHello, ttl := ttlDefault, src := 2, dst := addrBroadcast, seq := 0,
    payload := helloPack ⟨UhrpState.listen.toByte, 50, 0, 15, 0x22, capHidOut, 0⟩, body := [] }

/-- The board boots, takes the role and hears its neighbour. -/
def bootOps : List Op := [.start 0, .tick 150, .rx neighbourHello .down 160]

def booted : Router := bootOps.foldl step (routerInit deskCfg)

def seated : Desk := ⟨booted, linkSetKey (linkInit 1) (Bytes.zero 16), fun _ => .nothing⟩

def ctrlDown : KbdReport := ⟨1, Bytes.zero 6⟩

def switchOps : List Op := [.localKbd ctrlDown, .setFocus 2 focusRCfg 200]

/-- The machine that had Ctrl down is told to let go when the focus leaves it. -/
theorem nothing_left_held_after_a_switch :
    ((∀ m, m ≠ (switchOps.foldl Desk.step seated).r.focus → (switchOps.foldl Desk.step seated).told m = .nothing) ∧
      (switchOps.foldl Desk.step seated).told (switchOps.foldl Desk.step seated).r.focus =
        ((switchOps.foldl Desk.step seated).r.hid.sent
          (slotOf (switchOps.foldl Desk.step seated).r (switchOps.foldl Desk.step seated).r.focus)).told) ∧
      (seated.step (.localKbd ctrlDown)).told 1 = ⟨ctrlDown, 0⟩ ∧ (switchOps.foldl Desk.step seated).r.focus = 2 := by
  have hinit : Routed deskCfg (routerInit deskCfg) := Reach.init rfl
  have hb : Routed deskCfg booted := Reach.run hinit bootOps ⟨trivial, trivial, trivial, trivial⟩
  have h0 : Clear deskCfg seated :=
    ⟨hb, by decide +kernel, rfl, by decide +kernel, by decide +kernel, fun _ => rfl⟩
  have hr : Reach (Clear deskCfg) Stays Desk.step (switchOps.foldl Desk.step seated) :=
    (Reach.init h0).run switchOps (by decide +kernel)
  exact ⟨nothing_left_held hr, by decide +kernel, by decide +kernel⟩

end DeskHop.Routing
