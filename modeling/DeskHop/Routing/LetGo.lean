/-
  DeskHop.Routing.LetGo — what a board that loses the focus does for its own machine.

  A run is one router and, beside it, the last reports it handed its machine on received
  KBD and MOUSE frames (`Watched`). A FOCUS frame that takes the focus away makes it
  release what its tracker has down for that machine. But a board that is not ACTIVE
  hands received reports straight on, without noting them.

  Proved: in no state in which the board is not ACTIVE does the tracker have anything down
  for its own machine (`idle_unheld`): what the board noted while it held the role is
  forgotten when it gives the role up. So the release of a board that loses the focus
  never happens (`focus_loss_never_releases`).
-/

import DeskHop.Routing.Held

namespace DeskHop.Routing

open DeskHop.Lib DeskHop.Election DeskHop.Wire

/-! ## What the tracker has down for the board's own machine -/

def heldHere (r : Router) : Bool := slotHeld (r.hid.sent r.selfSlot)

/-- Something is down only while the board holds the role, and the election knows of it. -/
def Noted (r : Router) : Prop := heldHere r = true → isActive r = true ∧ r.uhrp.keysHeld = true

theorem noted_of_booked {r : Router} (h : Booked r) : Noted r := by
  intro hheld
  have hany := anyHeld_iff.mpr ⟨r.selfSlot, hheld⟩
  exact ⟨h.active hany, h.told hany⟩

theorem idle_unheld {r : Router} (h : Noted r) (ha : isActive r = false) : heldHere r = false := by
  cases hheld : heldHere r with
  | false => rfl
  | true => rw [(h hheld).1] at ha; cases ha

/-! ## Losing the focus -/

/-- A router, and what it last handed its machine on received frames. -/
structure Watched where
  r : Router
  kbd : Option KbdReport
  mouse : Option MouseReport
  deriving DecidableEq

def kbdOf : Op → Option KbdReport
  | .rx f _ _ => if f.type = msgKbd then kbdUnpack f.payload else none
  | _ => none

def mouseOf : Op → Option MouseReport
  | .rx f _ _ => if f.type = msgMouse then mouseUnpack f.payload else none
  | _ => none

def Watched.step (w : Watched) (op : Op) : Watched :=
  ⟨Routing.step w.r op, (kbdOf op).or w.kbd, (mouseOf op).or w.mouse⟩

def Watch (cfg : RouterCfg) : Watched → Prop :=
  Reach (· = ⟨routerInit cfg, none, none⟩) (fun w op => NotRestarted w.r op) Watched.step

/-- A FOCUS frame takes the focus from a board that is not ACTIVE, with something down on
    its machine. -/
structure Loses (w : Watched) (f : Frame) : Prop where
  idle : isActive w.r = false
  here : w.r.focus = w.r.cfg.self
  type : f.type = msgFocus
  away : ∃ fo ∈ focusUnpack f.payload, fo.target ≠ w.r.cfg.self
  down : (∃ rep ∈ w.kbd, rep.modifiers ≠ 0 ∨ ∃ k ∈ rep.keys.val, k ≠ 0) ∨ ∃ rep ∈ w.mouse, rep.buttons ≠ 0

/-- The board tells its own machine to let go of everything. -/
def LetsGo (r : Router) : Prop := .deliverKbd kbdZero ∈ r.out ∧ .deliverMouse mouseZero ∈ r.out

instance (r : Router) : Decidable (LetsGo r) := by
  unfold LetsGo
  infer_instance

theorem watch_noted {cfg : RouterCfg} {w : Watched} (h : Watch cfg w) : Sound w.r ∧ Noted w.r := by
  have hbooked : Sound w.r ∧ Booked w.r := by
    refine h.inv (I := fun w : Watched => Sound w.r ∧ Booked w.r) (fun w hw => ?_) fun w op hi hop =>
      ⟨sound_step hi.1 op, booked_step hi.1 hi.2 hop⟩
    rw [hw]
    exact ⟨sound_init cfg, booked_init cfg⟩
  exact ⟨hbooked.1, noted_of_booked hbooked.2⟩

/-- Without a held slot, losing the focus is noted and nothing else. -/
theorem step_loses {w : Watched} {f : Frame} (hfree : heldHere w.r = false) (hl : Loses w f)
    (inPort : Port) (now : Time) : ∃ a b, (Routing.step w.r (.rx f inPort now)).out = [.focusChanged a b] := by
  obtain ⟨fo, hfo, haway⟩ := hl.away
  have hk := keeps_learnPosition { w.r with out := [] } f inPort now
  have hsame := learnPosition_same { w.r with out := [] } f inPort now
  have hhid := learnPosition_hid { w.r with out := [] } f inPort now
  have hstep : Routing.step w.r (.rx f inPort now) = rxFocus (learnPosition { w.r with out := [] } f inPort now) fo := by
    simp only [Routing.step, apply, routerRx, hl.type, Option.mem_def.mp hfo]
    rfl
  rw [hstep]
  generalize learnPosition { w.r with out := [] } f inPort now = s at hk hsame hhid
  have hidle : isActive s = false := (hsame.role).trans hl.idle
  have hnone : hidBuildRelease s.hid s.selfSlot = none := by
    have hheld : slotHeld (s.hid.sent s.selfSlot) = false := by
      rw [hhid, hk.selfSlot]
      exact hfree
    rw [hidBuildRelease, hheld]
    simp
  have hrelease : ∀ t : Router, t.hid = s.hid → t.selfSlot = s.selfSlot → releaseMachine t t.cfg.self = t := by
    intro t hh hslot
    simp only [releaseMachine, slotOf, if_true, hh, hslot, hnone]
  have hout : s.out = [] := hsame.out
  simp only [rxFocus, hidle, if_neg Bool.false_ne_true]
  refine ⟨fo.target, fo.target == s.cfg.self, ?_⟩
  have hemit : ({ s with focus := fo.target }.emit (.focusChanged fo.target (fo.target == s.cfg.self))).out =
      [.focusChanged fo.target (fo.target == s.cfg.self)] := by
    show s.out ++ _ = _
    rw [hout]
    rfl
  split
  · have hstill := hrelease ({ s with focus := fo.target }.emit (.focusChanged fo.target (fo.target == s.cfg.self))) rfl rfl
    exact (congrArg Router.out hstill).trans hemit
  · exact hemit

/-- A board that is not ACTIVE never lets go of what it was handing its machine when the
    focus leaves it. -/
theorem focus_loss_never_releases {cfg : RouterCfg} {w : Watched} (h : Watch cfg w) {f : Frame} (hl : Loses w f)
    (inPort : Port) (now : Time) : ¬ LetsGo (w.step (.rx f inPort now)).r := by
  obtain ⟨-, hn⟩ := watch_noted h
  obtain ⟨a, b, hout⟩ := step_loses (idle_unheld hn hl.idle) hl inPort now
  rintro ⟨hkbd, -⟩
  have hkbd : Act.deliverKbd kbdZero ∈ (Routing.step w.r (.rx f inPort now)).out := hkbd
  rw [hout] at hkbd
  simp at hkbd

/-! ## Ctrl down, and the focus goes -/

def frameOf (type : MsgType) (src : Addr) (payload : List Byte) : Frame :=
  { type := type, ttl := ttlDefault, src := src, dst := addrBroadcast, seq := 0, payload := payload, body := [] }

def plainCfg : RouterCfg := ⟨1, 0x11, capHidOut, false, timingDefault, pointerCfgDefault⟩

/-- Board 2 holds the role, has given us the focus, and types on our machine. -/
def typedOps : List Op :=
  [.start 0, .rx (frameOf msgHello 2 (helloPack ⟨UhrpState.active.toByte, 90, 0, 15, 2, capHidOut, 0⟩)) .down 10,
    .tick 150, .rx (frameOf msgFocus 2 (focusPack ⟨1, focusRCfg, 0⟩)) .down 160,
    .rx (frameOf msgKbd 2 (kbdPack ⟨1, Bytes.zero 6⟩)) .down 170]

def typed : Watched := typedOps.foldl Watched.step ⟨routerInit plainCfg, none, none⟩

def goneFrame : Frame := frameOf msgFocus 2 (focusPack ⟨2, focusRCfg, 0⟩)

theorem typed_loses : Watch plainCfg typed ∧ Loses typed goneFrame := by
  have h0 : Watch plainCfg ⟨routerInit plainCfg, none, none⟩ := Reach.init rfl
  refine ⟨Reach.run h0 typedOps ⟨?_, ?_, ?_, ?_, ?_, trivial⟩, by decide +kernel, by decide +kernel, rfl, ?_, ?_⟩
  · exact fun _ _ => by decide +kernel
  · exact fun _ hop => by cases hop
  · exact fun _ hop => by cases hop
  · exact fun _ hop => by cases hop
  · exact fun _ hop => by cases hop
  · exact ⟨⟨2, focusRCfg, 0⟩, focusUnpack_pack _, by decide +kernel⟩
  · exact Or.inl ⟨⟨1, Bytes.zero 6⟩, by decide +kernel, Or.inl (by decide)⟩

theorem focus_loss_never_releases_ctrl : ¬ LetsGo (typed.step (.rx goneFrame .down 180)).r :=
  focus_loss_never_releases typed_loses.1 typed_loses.2 .down 180

/-- Ctrl stays down on the machine the focus has left. -/
theorem ctrl_stays_down : ∃ w f inPort now, Watch plainCfg w ∧ Loses w f ∧ ¬ LetsGo (w.step (.rx f inPort now)).r :=
  ⟨typed, goneFrame, .down, 180, typed_loses.1, typed_loses.2, by decide +kernel⟩

end DeskHop.Routing
