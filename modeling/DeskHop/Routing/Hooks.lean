/-
  DeskHop.Routing.Hooks — the hooks hear of every change.

  Proved: an operation that moves the focus or the level calls the hook for it
  (`step_tells`), so that whoever displays them can follow.
-/

import DeskHop.Routing.Step

namespace DeskHop.Routing

open DeskHop.Election DeskHop.Wire

/-- The call tells of a focus or of a level. -/
def Act.shows : Act → Bool
  | .focusChanged _ _ => true
  | .levelChanged _ => true
  | _ => false

/-- More was asked for, and if focus or level moved the hooks were called. -/
def Tells (r t : Router) : Prop :=
  ∃ more, t.out = r.out ++ more ∧ (t.focus = r.focus ∧ t.level = r.level ∨ more.any Act.shows = true)

namespace Tells

theorem of_same {r t : Router} (ho : t.out = r.out) (hf : t.focus = r.focus) (hl : t.level = r.level) : Tells r t :=
  ⟨[], by rw [ho, List.append_nil], Or.inl ⟨hf, hl⟩⟩

theorem refl (r : Router) : Tells r r := of_same rfl rfl rfl

theorem trans {r s t : Router} (h1 : Tells r s) (h2 : Tells s t) : Tells r t := by
  obtain ⟨m1, ho1, hs1⟩ := h1
  obtain ⟨m2, ho2, hs2⟩ := h2
  refine ⟨m1 ++ m2, by rw [ho2, ho1, List.append_assoc], ?_⟩
  rw [List.any_append, Bool.or_eq_true]
  rcases hs1 with ⟨hf1, hl1⟩ | hs1
  · rcases hs2 with ⟨hf2, hl2⟩ | hs2
    · exact Or.inl ⟨hf2.trans hf1, hl2.trans hl1⟩
    · exact Or.inr (Or.inr hs2)
  · exact Or.inr (Or.inl hs1)

theorem emit {r s : Router} (h : Tells r s) (a : Act) : Tells r (s.emit a) :=
  h.trans ⟨[a], rfl, Or.inl ⟨rfl, rfl⟩⟩

/-- The state moves, and the hook hears of it. -/
theorem shown {r s t : Router} (h : Tells r s) {a : Act} (ha : a.shows = true) (ho : t.out = s.out ++ [a]) : Tells r t :=
  h.trans ⟨[a], ho, Or.inr (by rw [List.any_cons, ha, Bool.true_or])⟩

theorem ite {r s t : Router} (b : Bool) (h : Tells r s) (hst : Tells s t) : Tells r (if b then t else s) := by
  cases b
  · exact h
  · exact h.trans hst

end Tells

variable (r : Router)

theorem tells_sendKbdTo (dst : Addr) (rep : KbdReport) : Tells r (sendKbdTo r dst rep) := by
  simp only [sendKbdTo]
  split <;> exact (Tells.of_same rfl rfl rfl).emit _

theorem tells_sendMouseTo (dst : Addr) (rep : MouseReport) : Tells r (sendMouseTo r dst rep) := by
  simp only [sendMouseTo]
  split <;> exact (Tells.of_same rfl rfl rfl).emit _

theorem tells_releaseMachine (addr : Addr) : Tells r (releaseMachine r addr) := by
  unfold releaseMachine
  split
  · exact .refl r
  · dsimp only
    split <;> exact ((Tells.of_same rfl rfl rfl).emit _).emit _

theorem tells_applyFocus (target : Addr) (reason : UInt8) (edge : Edge) (now : Time) (announce : Bool) :
    Tells r (applyFocus r target reason edge now announce) := by
  simp only [applyFocus]
  split
  · exact .refl r
  · -- the hook comes last, after the release and the notice
    obtain ⟨m, ho, -⟩ := tells_releaseMachine r r.focus
    cases announce with
    | false =>
      refine ⟨m ++ [.focusChanged target (target == r.cfg.self)], ?_, Or.inr (by simp [Act.shows])⟩
      simp only [Bool.false_eq_true, if_false, Router.emit]
      rw [ho, (keeps_releaseMachine r r.focus).cfg, List.append_assoc]
    | true =>
      refine ⟨m ++ [.send msgFocus addrBroadcast (focusPack ⟨target, reason, edge.toByte⟩),
        .focusChanged target (target == r.cfg.self)], ?_, Or.inr (by simp [Act.shows])⟩
      simp only [if_true, Router.emit]
      rw [ho, (keeps_releaseMachine r r.focus).cfg, List.append_assoc, List.append_assoc]
      rfl

theorem tells_recomputeLevel : Tells r (recomputeLevel r) := by
  simp only [recomputeLevel]
  split
  · exact Tells.shown (.refl r) rfl rfl
  · exact .refl r

theorem tells_broadcastReleaseAll : Tells r (broadcastReleaseAll r) :=
  (((Tells.refl r).emit _).trans (.of_same rfl rfl rfl)).emit _ |>.emit _

theorem tells_announceFocus : Tells r (announceFocus r) := by
  simp only [announceFocus]
  split
  · exact .refl r
  split
  · exact Tells.shown ((Tells.refl r).emit _) rfl rfl
  · exact (Tells.refl r).emit _

theorem tells_drainUhrp : Tells r (drainUhrp r) := by
  simp only [drainUhrp]
  generalize takeEvents r.uhrp = taken
  obtain ⟨ev, uhrp⟩ := taken
  have h0 : Tells r { r with uhrp := uhrp } := .of_same rfl rfl rfl
  have h1 := h0.ite ev.broadcastRelease (tells_broadcastReleaseAll _)
  have h2 := h1.ite ev.sendResign ((Tells.refl _).emit (.send msgResign addrBroadcast []))
  generalize (if ev.sendResign = true then _ else _ : Router) = s at h2
  have h3 := h2.ite ev.sendHello ((Tells.refl s).emit (.send msgHello addrBroadcast (helloPack (buildHello s.uhrp))))
  generalize (if ev.sendHello = true then _ else _ : Router) = u at h3
  refine h3.ite ev.stateChanged (Tells.trans ?_ (tells_recomputeLevel _))
  exact (Tells.refl u).ite (isActive u) (tells_announceFocus u)

theorem tells_noteKeysHeld : Tells r (noteKeysHeld r) :=
  Tells.trans (s := { r with uhrp := setKeysHeld r.uhrp (hidAnyHeld r.hid) }) (.of_same rfl rfl rfl)
    (tells_drainUhrp _)

/-- The election is called, and its events are acted on. -/
theorem tells_settle (u : Uhrp) : Tells r (recomputeLevel (drainUhrp { r with uhrp := u })) :=
  (Tells.of_same (t := { r with uhrp := u }) rfl rfl rfl).trans ((tells_drainUhrp _).trans (tells_recomputeLevel _))

theorem tells_forwardInput {r' : Router} {kind : Byte} {report : List Byte} (h : forwardInput r kind report = some r') :
    Tells r r' := by
  rcases (forwardInput_some h).2 with rfl | rfl
  · exact .refl _
  · exact (Tells.refl r).emit _

theorem tells_localKbd (rep : KbdReport) : Tells r (routerLocalKbd r rep) := by
  unfold routerLocalKbd
  split
  · rename_i h
    exact tells_forwardInput r h
  · exact (tells_sendKbdTo r _ rep).trans (tells_noteKeysHeld _)

theorem tells_localMouse (rep : MouseReport) (now : Time) : Tells r (routerLocalMouse r rep now) := by
  unfold routerLocalMouse
  split
  · rename_i h
    exact tells_forwardInput r h
  dsimp only
  have h0 : Tells r { r with pointer := (pointerFeed r.pointer rep.dx rep.dy now).2 } := .of_same rfl rfl rfl
  split
  · exact h0.trans (tells_applyFocus _ _ _ _ _ _)
  · exact (h0.trans (tells_sendMouseTo _ _ rep)).trans (tells_noteKeysHeld _)

theorem tells_button (now : Time) : Tells r (routerButton r now) := by
  unfold routerButton
  split
  · exact .refl r
  · exact tells_applyFocus r _ _ _ _ _

theorem tells_rxFocus (fo : Focus) : Tells r (rxFocus r fo) := by
  unfold rxFocus
  split
  · exact .refl r
  dsimp only
  have h0 : Tells r ({ r with focus := fo.target }.emit (.focusChanged fo.target (fo.target == r.cfg.self))) :=
    Tells.shown (.refl r) rfl rfl
  split
  · exact h0.trans (tells_releaseMachine _ _)
  · exact h0

theorem tells_rxInput (f : Frame) (now : Time) : Tells r (rxInput r f now) := by
  unfold rxInput
  split
  · exact .refl r
  split
  · exact .refl r
  split
  · exact .refl r
  split
  · split
    · exact .refl r
    · exact tells_localKbd r _
  split
  · split
    · exact .refl r
    · exact tells_localMouse r _ now
  · exact .refl r

theorem tells_learnPosition (f : Frame) (inPort : Port) (now : Time) : Tells r (learnPosition r f inPort now) := by
  unfold learnPosition
  split
  · exact .refl r
  split
  · exact .refl r
  · exact .of_same rfl rfl rfl

theorem tells_learnCaps (src : Addr) (h : Hello) : Tells r (learnCaps r src h) := by
  unfold learnCaps
  split
  · exact .refl r
  · exact .of_same rfl rfl rfl

theorem tells_rx (f : Frame) (inPort : Port) (now : Time) : Tells r (routerRx r f inPort now) := by
  unfold routerRx
  refine (tells_learnPosition r f inPort now).trans ?_
  generalize learnPosition r f inPort now = s
  dsimp only
  split
  · split
    · exact .refl s
    · exact (tells_learnCaps s _ _).trans (tells_settle _ _)
  split
  · exact tells_settle s _
  split
  · split
    · exact .refl s
    · exact (Tells.refl s).emit _
  split
  · split
    · exact .refl s
    · exact (Tells.refl s).emit _
  split
  · split
    · exact .refl s
    · exact tells_rxFocus s _
  split
  · exact (Tells.refl s).emit _
  split
  · exact tells_rxInput s f now
  split
  · exact ((Tells.of_same (t := { s with hid := hidForget s.hid s.selfSlot }) rfl rfl rfl).emit _).emit _
  · exact .refl s

/-- No operation moves the focus or the level behind the back of the hooks. -/
theorem step_tells (op : Op) :
    (step r op).focus = r.focus ∧ (step r op).level = r.level ∨ (step r op).out.any Act.shows = true := by
  have h : Tells { r with out := [] } (step r op) := by
    cases op with
    | start now =>
      exact Tells.trans (s := { r with
        out := [], uhrp := uhrpStart r.uhrp now, pointer := pointerArrive r.pointer .none now })
        (.of_same rfl rfl rfl) (tells_drainUhrp _)
    | localKbd rep => exact tells_localKbd _ rep
    | localMouse rep now => exact tells_localMouse _ rep now
    | button now => exact tells_button _ now
    | setFocus target reason now => exact tells_applyFocus _ target reason .none now true
    | rx f inPort now => exact tells_rx _ f inPort now
    | tick now => exact ((Tells.refl _).emit (.linkTick now)).trans (tells_settle _ _)
    | setCaps caps =>
      show Tells _ (routerSetCaps { r with out := [] } caps)
      unfold routerSetCaps
      split
      · exact .refl _
      · exact .of_same rfl rfl rfl
  obtain ⟨more, ho, hsame⟩ := h
  rw [ho]
  exact hsame

end DeskHop.Routing
