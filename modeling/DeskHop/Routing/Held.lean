/-
  DeskHop.Routing.Held — what the tracker has down, and the election's copy of it.

  An operation leaves both alone, clears one slot without telling the election, notes a
  report and tells it, or calls it (`step_turn`); which slot it clears can be told
  beforehand (`clearedSlot`).

  Proved, of every run: something is down only while the board holds the role, in a slot of
  the chain table, and the election knows of it (`booked_step`). So a board without the
  role has nothing down (`booked_idle`).
-/

import DeskHop.Election.Step
import DeskHop.Routing.Effect

namespace DeskHop.Routing

open DeskHop.Lib DeskHop.Election DeskHop.Wire

theorem anyHeld_iff {t : HidTracker} : hidAnyHeld t = true ↔ ∃ slot, slotHeld (t.sent slot) = true := by
  rw [hidAnyHeld, List.any_eq_true]
  constructor
  · rintro ⟨s, hs, hheld⟩
    obtain ⟨slot, hlt, rfl⟩ := List.mem_iff_getElem.mp hs
    refine ⟨slot, ?_⟩
    rw [HidTracker.sent, List.getD_eq_getElem?_getD, List.getElem?_eq_getElem hlt]
    exact hheld
  · rintro ⟨slot, h⟩
    rw [HidTracker.sent, List.getD_eq_getElem?_getD] at h
    cases hs : t.target[slot]? with
    | none =>
      rw [hs] at h
      cases h
    | some s =>
      rw [hs] at h
      exact ⟨s, List.mem_of_getElem? hs, h⟩

theorem not_held_past {t : HidTracker} {slot : Nat} (h : ¬ slot < maxBoards) : slotHeld (t.sent slot) = false := by
  rw [HidTracker.sent, List.getD_eq_getElem?_getD, List.getElem?_eq_none (by rw [t.size]; omega)]
  rfl

/-- Nothing is down in a slot that is undone. -/
theorem not_held_upd {t : HidTracker} {slot : Nat} {f : HidSent → HidSent} (hf : ∀ s, (f s).told = .nothing) :
    slotHeld ((t.upd slot f).sent slot) = false := by
  by_cases h : slot < maxBoards
  · rw [HidTracker.sent_upd_self t h]
    exact not_held_of_told (hf _)
  · exact not_held_past h

/-! ## The functions of the router -/

theorem releaseMachine_free (r : Router) (addr : Addr) :
    slotHeld ((releaseMachine r addr).hid.sent (slotOf r addr)) = false ∧
      ∀ other, other ≠ slotOf r addr → (releaseMachine r addr).hid.sent other = r.hid.sent other := by
  simp only [releaseMachine]
  split
  · rename_i hb
    refine ⟨?_, fun _ _ => rfl⟩
    by_cases h : slotOf r addr < maxBoards
    · exact hidBuildRelease_none h hb
    · exact not_held_past h
  · rename_i k m hid hb
    obtain ⟨-, -, rfl⟩ := hidBuildRelease_some hb
    split <;> exact ⟨not_held_upd fun _ => rfl, fun other h => HidTracker.sent_upd_ne _ h _⟩

theorem forgetChain_sent {r : Router} {slot : Nat} (hlt : slot < maxBoards)
    (hu : ((r.chain.cells[slot]?).map (·.used)).getD false = true) : (forgetChain r).sent slot = .zero := by
  have hfold : ∀ (l : List Nat) (t : HidTracker), slot ∈ l ∨ t.sent slot = .zero →
      (l.foldl (fun t i => if ((r.chain.cells[i]?).map (·.used)).getD false then hidForget t i else t) t).sent slot = .zero := by
    intro l
    induction l with
    | nil => exact fun t h => h.resolve_left List.not_mem_nil
    | cons i l ih =>
      intro t h
      refine ih _ ?_
      show slot ∈ l ∨ (if ((r.chain.cells[i]?).map (·.used)).getD false then hidForget t i else t).sent slot = .zero
      by_cases hi : i = slot
      · subst hi
        rw [if_pos hu]
        exact Or.inr (HidTracker.sent_upd_self t hlt _)
      · rcases h with h | h
        · exact Or.inl ((List.mem_cons.mp h).resolve_left fun e => hi e.symm)
        · refine Or.inr ?_
          split
          · exact (HidTracker.sent_upd_ne t (fun e => hi e.symm) _).trans h
          · exact h
  exact hfold _ _ (Or.inl (List.mem_range.mpr hlt))

/-- A slot the table is not asked about stays as it was, or is forgotten with the rest. -/
theorem forgetChain_less (r : Router) {slot : Nat} (h : slotHeld ((forgetChain r).sent slot) = true) :
    slotHeld (r.hid.sent slot) = true := by
  have hfold : ∀ (l : List Nat) (t : HidTracker),
      slotHeld ((l.foldl (fun t i => if ((r.chain.cells[i]?).map (·.used)).getD false then hidForget t i else t) t).sent
        slot) = true → slotHeld (t.sent slot) = true := by
    intro l
    induction l with
    | nil => exact fun t h => h
    | cons i l ih =>
      intro t h
      have h := ih _ h
      dsimp only at h
      split at h
      · by_cases hi : slot = i
        · rw [hi, hidForget, not_held_upd fun _ => rfl] at h
          cases h
        · rwa [hidForget, HidTracker.sent_upd_ne t hi] at h
      · exact h
  exact hfold _ _ h

theorem index_used {r : Router} {a : Addr} {slot : Nat} (h : r.chain.index? a = some slot) :
    ((r.chain.cells[slot]?).map (·.used)).getD false = true := by
  obtain ⟨hlt, hholds, -⟩ := List.findIdx?_eq_some_iff_getElem.mp h
  rw [List.getElem?_eq_getElem hlt]
  exact (Slots.holds_iff.mp hholds).1

theorem recomputeLevel_hid (r : Router) : (recomputeLevel r).hid = r.hid := by
  simp only [recomputeLevel]
  split <;> rfl

theorem announceFocus_hid (r : Router) : (announceFocus r).hid = r.hid := by
  simp only [announceFocus]
  split
  · rfl
  · split <;> rfl

theorem drainUhrp_hid (r : Router) :
    (drainUhrp r).hid = if r.uhrp.ev.broadcastRelease then forgetChain r else r.hid := by
  have hemit : ∀ (b : Bool) (s : Router) (a : Act), (if b then s.emit a else s).hid = s.hid := by
    intro b s a
    cases b <;> rfl
  have hsettle : ∀ (b c : Bool) (s : Router),
      (if b then recomputeLevel (if c then announceFocus s else s) else s).hid = s.hid := by
    intro b c s
    cases b
    · rfl
    · refine (recomputeLevel_hid _).trans ?_
      cases c
      · rfl
      · exact announceFocus_hid s
  simp only [drainUhrp, hsettle, hemit]
  show (if r.uhrp.ev.broadcastRelease then _ else _ : Router).hid = _
  split <;> rfl

theorem learnPosition_hid (r : Router) (f : Frame) (inPort : Port) (now : Time) :
    (learnPosition r f inPort now).hid = r.hid := by
  unfold learnPosition
  split
  · rfl
  · split <;> rfl

theorem learnCaps_hid (r : Router) (src : Addr) (h : Hello) : (learnCaps r src h).hid = r.hid := by
  unfold learnCaps
  split <;> rfl

theorem forwardInput_none {r : Router} {kind : Byte} {report : List Byte} (h : forwardInput r kind report = none) :
    isActive r = true := by
  unfold forwardInput at h
  split at h
  · assumption
  split at h
  · cases h
  split at h <;> cases h

/-- Every slot the router names is one of a board in the table. -/
theorem slotOf_seated {r : Router} (hown : r.chain.index? r.cfg.self = some r.selfSlot) (addr : Addr) :
    ∃ a, r.chain.index? a = some (slotOf r addr) := by
  unfold slotOf
  split
  · exact ⟨_, hown⟩
  split
  · exact ⟨_, hown⟩
  · rename_i i hi
    exact ⟨addr, hi⟩

/-! ## The slot an operation clears -/

/-- The focus goes to `target`: the slot of the machine it leaves. -/
def leftSlot (r : Router) (target : Addr) : Option Nat :=
  if target = addrNone ∨ target = r.focus then none else some (slotOf r r.focus)

/-- The slot of the machine that a report pushes the pointer off. -/
def crossedSlot (r : Router) (rep : MouseReport) (now : Time) : Option Nat :=
  let (edge, pointer) := pointerFeed r.pointer rep.dx rep.dy now
  if edge ≠ .none then leftSlot r (crossingTarget { r with pointer := pointer } edge) else none

/-- Where the button takes the focus. -/
def tourTarget (r : Router) : Addr :=
  let curPos := if r.focus = r.cfg.self then 0 else ((chainFind r r.focus).map (·.relPos)).getD 0
  let t := r.chain.cells.foldl (tourStep r curPos) ⟨addrNone, 0, addrNone, 0⟩
  if t.next = addrNone then t.wrap else t.next

/-- A board without the role hears that the focus leaves its machine. -/
def givenUpSlot (r : Router) (fo : Focus) : Option Nat :=
  if isActive r = false ∧ r.focus = r.cfg.self ∧ fo.target ≠ r.cfg.self then some r.selfSlot else none

/-- The pointer report of an INPUT frame, if the board handles it. -/
def inputMouse (r : Router) (f : Frame) : Option MouseReport :=
  if isActive r = true ∧ f.payload.isEmpty = false ∧ knowsInput r f.src = true ∧ byteAt f.payload 0 = inputKindMouse then
    mouseUnpack f.payload.tail
  else none

def clearedSlot (r : Router) : Op → Option Nat
  | .localMouse rep now => if isActive r then crossedSlot r rep now else none
  | .button _ => if isActive r then leftSlot r (tourTarget r) else none
  | .setFocus target _ _ => leftSlot r target
  | .rx f inPort now =>
    let r := learnPosition { r with out := [] } f inPort now
    if f.type = msgFocus then (focusUnpack f.payload).bind (givenUpSlot r)
    else if f.type = msgInput then (inputMouse r f).bind fun rep => crossedSlot r rep now
    else if f.type = msgRelease then some r.selfSlot
    else none
  | _ => none

/-- The call of the election an operation makes. -/
def electionCall : Op → Option Call
  | .rx f _ now =>
    if f.type = msgHello then (helloUnpack f.payload).map fun h => .hello f.src h now.toNat
    else if f.type = msgResign then some (.resign f.src now.toNat)
    else none
  | .tick now => some (.tick now.toNat)
  | _ => none

/-! ## One operation -/

/-- The role, and the election's copy of what is down. -/
structure SameBooks (r s : Router) : Prop where
  state : s.uhrp.state = r.uhrp.state
  keysHeld : s.uhrp.keysHeld = r.uhrp.keysHeld

/-- What an operation does to what is down and to the election's copy of it. -/
inductive Turn (r s : Router) : Option Nat → Option Call → Prop
  | kept : s.hid = r.hid → SameBooks r s → Turn r s none none
  /-- One slot is cleared, and the election is not told. -/
  | cleared {slot : Nat} : slotHeld (s.hid.sent slot) = false →
      (∀ other, other ≠ slot → s.hid.sent other = r.hid.sent other) → SameBooks r s → Turn r s (some slot) none
  /-- A report is noted, and the election told. -/
  | noted : isActive r = true → s.uhrp.state = r.uhrp.state → s.uhrp.keysHeld = hidAnyHeld s.hid →
      (∀ slot, slotHeld (s.hid.sent slot) = true →
        slotHeld (r.hid.sent slot) = true ∨ ∃ a, s.chain.index? a = some slot) → Turn r s none none
  /-- The election is called, which may have every board let go. -/
  | called (c : Call) : (∀ b, c ≠ .setKeysHeld b) → s.uhrp = (takeEvents (call r.uhrp c)).2 →
      (∀ slot, slotHeld (s.hid.sent slot) = true → slotHeld (r.hid.sent slot) = true) →
      ((call r.uhrp c).ev.broadcastRelease = true →
        ∀ a slot, r.chain.index? a = some slot → slotHeld (s.hid.sent slot) = false) →
      ((call r.uhrp c).ev.broadcastRelease = false → s.hid = r.hid) → Turn r s none (some c)
  /-- A board without the role is started over. -/
  | restarted : isActive r = false → s.hid = r.hid → isActive s = false → Turn r s none none

theorem Turn.of_learnt {r q s : Router} {slot : Option Nat} {c : Option Call} (h : Turn q s slot c) (hk : Keeps r q)
    (hh : q.hid = r.hid) (hu : q.uhrp = r.uhrp) : Turn r s slot c := by
  cases h with
  | kept hid books => exact .kept (hid.trans hh) ⟨by rw [books.state, hu], by rw [books.keysHeld, hu]⟩
  | cleared free others books =>
    exact .cleared free (fun other hne => by rw [others other hne, hh])
      ⟨by rw [books.state, hu], by rw [books.keysHeld, hu]⟩
  | noted ha state told seated =>
    refine .noted ?_ (by rw [state, hu]) told fun slot hheld => ?_
    · rw [isActive, ← hu]
      exact ha
    · rw [← hh]
      exact seated slot hheld
  | called c hc uhrp less forgot kept =>
    rw [hu] at uhrp forgot kept
    rw [hh] at kept
    exact .called c hc uhrp (fun slot hheld => by rw [← hh]; exact less slot hheld)
      (fun hb a slot hi => forgot hb a slot (hk.chain a slot hi)) kept
  | restarted ha hid hidle =>
    refine .restarted ?_ (hid.trans hh) hidle
    rw [isActive, ← hu]
    exact ha

theorem Turn.same {r s : Router} (hh : s.hid = r.hid) (hu : s.uhrp = r.uhrp) : Turn r s none none :=
  .kept hh ⟨by rw [hu], by rw [hu]⟩

theorem turn_called (r : Router) {c : Call} (hc : ∀ b, c ≠ .setKeysHeld b) :
    Turn r (recomputeLevel (drainUhrp { r with uhrp := call r.uhrp c })) none (some c) := by
  have hhid : (recomputeLevel (drainUhrp { r with uhrp := call r.uhrp c })).hid =
      if (call r.uhrp c).ev.broadcastRelease then forgetChain { r with uhrp := call r.uhrp c } else r.hid := by
    rw [recomputeLevel_hid, drainUhrp_hid]
  refine .called c hc (by rw [recomputeLevel_uhrp, drainUhrp_uhrp]) ?_ ?_ ?_
  · intro slot hheld
    rw [hhid] at hheld
    split at hheld
    · exact forgetChain_less _ hheld
    · exact hheld
  · intro hb a slot hi
    rw [hhid, if_pos hb, forgetChain_sent (r := { r with uhrp := call r.uhrp c }) (Slots.index?_lt hi) (index_used hi)]
    rfl
  · intro hb
    rw [hhid, hb]
    rfl

theorem turn_applyFocus (r : Router) (target : Addr) (reason : UInt8) (edge : Edge) (now : Time) (announce : Bool) :
    Turn r (applyFocus r target reason edge now announce) (leftSlot r target) none := by
  have hu := applyFocus_uhrp r target reason edge now announce
  unfold leftSlot
  by_cases hs : target = addrNone ∨ target = r.focus
  · rw [if_pos hs, applyFocus, if_pos hs]
    exact .same rfl rfl
  · have hh : (applyFocus r target reason edge now announce).hid = (releaseMachine r r.focus).hid := by
      simp only [applyFocus, if_neg hs]
      cases announce <;> rfl
    obtain ⟨hfree, hothers⟩ := releaseMachine_free r r.focus
    rw [if_neg hs]
    refine .cleared ?_ ?_ ⟨by rw [hu], by rw [hu]⟩
    · rw [hh]
      exact hfree
    · rw [hh]
      exact hothers

/-- What is noted is noted in a slot of the table. -/
theorem turn_noted {r q : Router} {slot : Nat} {f : HidSent → HidSent} (ha : isActive r = true)
    (hd : r.uhrp.ev = Events.none) (hi : ∃ a, q.chain.index? a = some slot) (hh : q.hid = r.hid.upd slot f)
    (hu : q.uhrp = r.uhrp) : Turn r (noteKeysHeld q) none none := by
  rw [noteKeysHeld_same ((congrArg Uhrp.ev hu).trans hd)]
  refine .noted ha ?_ rfl fun other hheld => ?_
  · show q.uhrp.state = _
    rw [hu]
  · by_cases hs : other = slot
    · rw [hs]
      exact Or.inr hi
    · have hheld : slotHeld (q.hid.sent other) = true := hheld
      rw [hh, HidTracker.sent_upd_ne _ hs] at hheld
      exact Or.inl hheld

theorem turn_forwardInput {r r' : Router} {kind : Byte} {report : List Byte}
    (h : forwardInput r kind report = some r') : Turn r r' none none := by
  rcases (forwardInput_some h).2 with rfl | rfl
  · exact .same rfl rfl
  · exact .same rfl rfl

section

variable {r : Router} (hown : r.chain.index? r.cfg.self = some r.selfSlot) (hd : r.uhrp.ev = Events.none)

include hown hd

theorem turn_localKbd (rep : KbdReport) : Turn r (routerLocalKbd r rep) none none := by
  unfold routerLocalKbd
  split
  · rename_i hf
    exact turn_forwardInput hf
  · rename_i hf
    have hhid : (sendKbdTo r r.focus rep).hid = hidNoteKbd r.hid (slotOf r r.focus) rep := by
      simp only [sendKbdTo]
      split <;> rfl
    obtain ⟨a, hi⟩ := slotOf_seated hown r.focus
    exact turn_noted (forwardInput_none hf) hd ⟨a, (keeps_sendKbdTo r r.focus rep).chain a _ hi⟩ hhid
      (sendKbdTo_uhrp r r.focus rep)

theorem turn_localMouse (rep : MouseReport) (now : Time) :
    Turn r (routerLocalMouse r rep now) (if isActive r then crossedSlot r rep now else none) none := by
  simp only [routerLocalMouse]
  split
  · rename_i hf
    rw [(forwardInput_some hf).1]
    exact turn_forwardInput hf
  · rename_i hf
    have ha := forwardInput_none hf
    rw [if_pos ha]
    unfold crossedSlot
    generalize pointerFeed r.pointer rep.dx rep.dy now = fed
    obtain ⟨edge, pointer⟩ := fed
    dsimp only
    let q : Router := { r with pointer := pointer }
    have hq : Keeps r q := (Keeps.refl r).setPointer pointer
    have hhid : (sendMouseTo q r.focus rep).hid = hidNoteMouse r.hid (slotOf r r.focus) rep.buttons := by
      simp only [sendMouseTo]
      split <;> rfl
    obtain ⟨a, hi⟩ := slotOf_seated hown r.focus
    have hnoted : Turn r (noteKeysHeld (sendMouseTo q r.focus rep)) none none :=
      turn_noted ha hd ⟨a, (keeps_sendMouseTo q r.focus rep).chain a _ (hq.chain a _ hi)⟩ hhid
        (sendMouseTo_uhrp q r.focus rep)
    by_cases hedge : edge = .none
    · subst hedge
      rw [if_neg fun h => h.1 rfl, if_neg fun h => h rfl]
      exact hnoted
    · rw [if_pos hedge]
      by_cases hnone : crossingTarget q edge = addrNone
      · have hleft : leftSlot r (crossingTarget q edge) = none := if_pos (Or.inl hnone)
        rw [if_neg fun h => h.2 hnone, hleft]
        exact hnoted
      · rw [if_pos ⟨hedge, hnone⟩]
        exact (turn_applyFocus q _ _ _ _ _).of_learnt hq rfl rfl

theorem turn_rxInput (f : Frame) (now : Time) :
    Turn r (rxInput r f now) ((inputMouse r f).bind fun rep => crossedSlot r rep now) none := by
  have hother : ¬ (isActive r = true ∧ f.payload.isEmpty = false ∧ knowsInput r f.src = true ∧
      byteAt f.payload 0 = inputKindMouse) → (inputMouse r f).bind (fun rep => crossedSlot r rep now) = none := by
    intro h
    rw [inputMouse, if_neg h]
    rfl
  unfold rxInput
  split
  · rename_i hskip
    rw [hother fun h => by rw [h.1, h.2.1] at hskip; cases hskip]
    exact .same rfl rfl
  rename_i htake
  simp only [Bool.or_eq_true, Bool.not_eq_true', not_or, Bool.not_eq_false, Bool.not_eq_true] at htake
  split
  · rename_i hf
    rw [hother fun h => by rw [knowsInput, hf] at h; cases h.2.2.1]
    exact .same rfl rfl
  rename_i e hf
  have hknows : knowsInput r f.src = hasCap e.caps capHidIn := by rw [knowsInput, hf]; rfl
  split
  · rename_i hcap
    rw [hother fun h => by rw [← hknows, h.2.2.1] at hcap; cases hcap]
    exact .same rfl rfl
  rename_i hcap
  split
  · rename_i hkbd
    rw [hother fun h => by rw [hkbd] at h; exact absurd h.2.2.2 (by decide)]
    split
    · exact .same rfl rfl
    · exact turn_localKbd hown hd _
  split
  · rename_i hmouse
    have hin : inputMouse r f = mouseUnpack f.payload.tail :=
      if_pos ⟨htake.1, htake.2, by simpa [hknows] using hcap, hmouse⟩
    rw [hin]
    split
    · rename_i hu
      rw [hu]
      exact .same rfl rfl
    · rename_i rep hu
      have hturn := turn_localMouse hown hd rep now
      rw [if_pos htake.1] at hturn
      rw [hu]
      exact hturn
  · rename_i hmouse
    rw [hother fun h => hmouse h.2.2.2]
    exact .same rfl rfl

end

theorem turn_rxFocus (r : Router) (fo : Focus) : Turn r (rxFocus r fo) (givenUpSlot r fo) none := by
  simp only [rxFocus, givenUpSlot]
  split
  · rename_i ha
    rw [if_neg fun h => by rw [ha] at h; cases h.1]
    exact .same rfl rfl
  rename_i ha
  rw [Bool.not_eq_true] at ha
  let q : Router := { r with focus := fo.target }.emit (.focusChanged fo.target (fo.target == r.cfg.self))
  obtain ⟨hfree, hothers⟩ := releaseMachine_free q r.cfg.self
  have hslot : slotOf q r.cfg.self = r.selfSlot := if_pos rfl
  rw [hslot] at hfree hothers
  split
  · rename_i hleave
    have hu := releaseMachine_uhrp q r.cfg.self
    rw [if_pos ⟨ha, hleave⟩]
    exact .cleared hfree hothers ⟨congrArg Uhrp.state hu, congrArg Uhrp.keysHeld hu⟩
  · rename_i hstay
    rw [if_neg fun h => hstay h.2]
    exact .same rfl rfl

theorem turn_rxRelease (r : Router) : Turn r (rxRelease r) (some r.selfSlot) none := by
  have hfree : slotHeld ((hidForget r.hid r.selfSlot).sent r.selfSlot) = false := not_held_upd fun _ => rfl
  exact .cleared hfree (fun other h => HidTracker.sent_upd_ne _ h _) ⟨rfl, rfl⟩

theorem turn_rx {r : Router} (hs : Sound r) (f : Frame) (inPort : Port) (now : Time) :
    Turn r (step r (.rx f inPort now)) (clearedSlot r (.rx f inPort now))
      (electionCall (.rx f inPort now)) := by
  have hk := keeps_learnPosition { r with out := [] } f inPort now
  have hh := learnPosition_hid { r with out := [] } f inPort now
  have hu := learnPosition_uhrp { r with out := [] } f inPort now
  have hown : (learnPosition { r with out := [] } f inPort now).chain.index?
      (learnPosition { r with out := [] } f inPort now).cfg.self =
      some (learnPosition { r with out := [] } f inPort now).selfSlot := by
    rw [hk.cfg, hk.selfSlot]
    exact hk.chain _ _ hs.own
  have hd : (learnPosition { r with out := [] } f inPort now).uhrp.ev = Events.none := by
    rw [hu]
    exact hs.drained
  have hturn : Turn (learnPosition { r with out := [] } f inPort now) (routerRx { r with out := [] } f inPort now)
      (clearedSlot r (.rx f inPort now)) (electionCall (.rx f inPort now)) := by
    simp only [routerRx, clearedSlot, electionCall]
    generalize learnPosition { r with out := [] } f inPort now = q at hown hd
    by_cases hhello : f.type = msgHello
    · have hnot : f.type ≠ msgFocus ∧ f.type ≠ msgInput ∧ f.type ≠ msgRelease := by rw [hhello]; decide
      rw [if_pos hhello, if_pos hhello, if_neg hnot.1, if_neg hnot.2.1, if_neg hnot.2.2]
      cases helloUnpack f.payload with
      | none => exact .same rfl rfl
      | some h =>
        have hcall := turn_called (learnCaps q f.src h) (c := .hello f.src h now.toNat) fun _ hc => (by cases hc)
        simp only [call, UInt32.ofNat_toNat] at hcall
        exact hcall.of_learnt (keeps_learnCaps q f.src h) (learnCaps_hid q f.src h) (learnCaps_uhrp q f.src h)
    rw [if_neg hhello, if_neg hhello]
    by_cases hresign : f.type = msgResign
    · have hnot : f.type ≠ msgFocus ∧ f.type ≠ msgInput ∧ f.type ≠ msgRelease := by rw [hresign]; decide
      rw [if_pos hresign, if_pos hresign, if_neg hnot.1, if_neg hnot.2.1, if_neg hnot.2.2]
      have hcall := turn_called q (c := .resign f.src now.toNat) fun _ hc => (by cases hc)
      simp only [call, UInt32.ofNat_toNat] at hcall
      exact hcall
    rw [if_neg hresign, if_neg hresign]
    by_cases hkbd : f.type = msgKbd
    · have hnot : f.type ≠ msgFocus ∧ f.type ≠ msgInput ∧ f.type ≠ msgRelease := by rw [hkbd]; decide
      rw [if_pos hkbd, if_neg hnot.1, if_neg hnot.2.1, if_neg hnot.2.2]
      split <;> exact .same rfl rfl
    rw [if_neg hkbd]
    by_cases hmouse : f.type = msgMouse
    · have hnot : f.type ≠ msgFocus ∧ f.type ≠ msgInput ∧ f.type ≠ msgRelease := by rw [hmouse]; decide
      rw [if_pos hmouse, if_neg hnot.1, if_neg hnot.2.1, if_neg hnot.2.2]
      split <;> exact .same rfl rfl
    rw [if_neg hmouse]
    by_cases hfocus : f.type = msgFocus
    · rw [if_pos hfocus, if_pos hfocus]
      split
      · rename_i hnone
        rw [hnone]
        exact .same rfl rfl
      · rename_i fo hfo
        rw [hfo]
        exact turn_rxFocus q fo
    rw [if_neg hfocus, if_neg hfocus]
    by_cases hdata : f.type = msgData
    · have hnot : f.type ≠ msgInput ∧ f.type ≠ msgRelease := by rw [hdata]; decide
      rw [if_pos hdata, if_neg hnot.1, if_neg hnot.2]
      exact .same rfl rfl
    rw [if_neg hdata]
    by_cases hinput : f.type = msgInput
    · rw [if_pos hinput, if_pos hinput]
      exact turn_rxInput hown hd f now
    rw [if_neg hinput, if_neg hinput]
    by_cases hrelease : f.type = msgRelease
    · rw [if_pos hrelease, if_pos hrelease]
      exact turn_rxRelease q
    · rw [if_neg hrelease, if_neg hrelease]
      exact .same rfl rfl
  exact hturn.of_learnt ⟨hk.cfg, hk.selfSlot, hk.chain, hk.blank⟩ hh hu

/-- The board is not started over while it holds the role. -/
def NotRestarted (r : Router) (op : Op) : Prop := ∀ now, op = .start now → isActive r = false

theorem step_turn {r : Router} (hs : Sound r) {op : Op} (hop : NotRestarted r op) :
    Turn r (step r op) (clearedSlot r op) (electionCall op) := by
  have hq : Keeps r { r with out := [] } := ⟨rfl, rfl, fun _ _ h => h, fun h => h⟩
  cases op with
  | start now =>
    have hu : (step r (.start now)).uhrp = (takeEvents (uhrpStart r.uhrp now)).2 := drainUhrp_uhrp _
    have hev : (uhrpStart r.uhrp now).ev.broadcastRelease = false := by
      have he := (enterState_same { r.uhrp with started := true, vacancyClean := true } .learn now).broadcastRelease
      show (enterState { r.uhrp with started := true, vacancyClean := true } .learn now).ev.broadcastRelease = false
      rw [he]
      exact congrArg Events.broadcastRelease hs.drained
    have hh : (step r (.start now)).hid = r.hid := by
      refine (drainUhrp_hid _).trans ?_
      show (if (uhrpStart r.uhrp now).ev.broadcastRelease then _ else _) = _
      rw [hev]
      rfl
    refine .restarted (hop now rfl) hh ?_
    have hlearn : (uhrpStart r.uhrp now).state = .learn := enterState_state _ _ _
    rw [isActive, Election.isActive, hu]
    show ((uhrpStart r.uhrp now).state == UhrpState.active) = false
    rw [hlearn]
    rfl
  | localKbd rep => exact (turn_localKbd (r := { r with out := [] }) hs.own hs.drained rep).of_learnt hq rfl rfl
  | localMouse rep now =>
    exact (turn_localMouse (r := { r with out := [] }) hs.own hs.drained rep now).of_learnt hq rfl rfl
  | button now =>
    show Turn r (routerButton { r with out := [] } now) (if isActive r then leftSlot r (tourTarget r) else none) none
    unfold routerButton
    by_cases ha : isActive r = true
    · have hact : ¬ (!isActive { r with out := [] }) = true := by
        show ¬ (!isActive r) = true
        rw [ha]
        decide
      rw [if_neg hact, if_pos ha]
      exact (turn_applyFocus { r with out := [] } (tourTarget r) focusRButton .none now true).of_learnt hq rfl rfl
    · have hidle : (!isActive { r with out := [] }) = true := by
        show (!isActive r) = true
        rw [Bool.not_eq_true] at ha
        rw [ha]
        rfl
      rw [if_pos hidle, if_neg ha]
      exact .same rfl rfl
  | setFocus target reason now =>
    exact (turn_applyFocus { r with out := [] } target reason .none now true).of_learnt hq rfl rfl
  | rx f inPort now => exact turn_rx hs f inPort now
  | tick now =>
    have hcall := turn_called ({ r with out := [] }.emit (.linkTick now)) (c := .tick now.toNat) fun _ hc => (by cases hc)
    simp only [call, UInt32.ofNat_toNat] at hcall
    exact hcall.of_learnt (hq.emit _) rfl rfl
  | setCaps caps =>
    show Turn r (routerSetCaps { r with out := [] } caps) none none
    unfold routerSetCaps
    split
    · exact .same rfl rfl
    · exact .kept rfl ⟨rfl, rfl⟩

/-- No operation takes a board of the table from its slot. -/
theorem step_index {r : Router} (op : Op) {a : Addr} {i : Nat} (h : r.chain.index? a = some i) :
    (step r op).chain.index? a = some i := by
  cases op with
  | start now => exact (settles_start { r with out := [] } now).keeps.chain a i h
  | localKbd rep => exact (settles_localKbd { r with out := [] } rep).keeps.chain a i h
  | localMouse rep now => exact (settles_localMouse { r with out := [] } rep now).keeps.chain a i h
  | button now => exact (settles_button { r with out := [] } now).keeps.chain a i h
  | setFocus target reason now => exact (settles_setFocus { r with out := [] } target reason now).keeps.chain a i h
  | rx f inPort now => exact (settles_rx { r with out := [] } f inPort now).keeps.chain a i h
  | tick now => exact (settles_tick { r with out := [] } now).keeps.chain a i h
  | setCaps caps =>
    show (routerSetCaps { r with out := [] } caps).chain.index? a = some i
    unfold routerSetCaps
    split
    · exact h
    · exact (Slots.index?_modify r.chain r.cfg.self a (f := fun e => { e with caps := caps }) fun _ => ⟨rfl, rfl⟩).trans h

/-! ## Every state -/

/-- What is down is in the slot of a board, is down only while the board holds the role, and
    the election knows of it. -/
structure Booked (r : Router) : Prop where
  seated : ∀ slot, slotHeld (r.hid.sent slot) = true → ∃ a, r.chain.index? a = some slot
  active : hidAnyHeld r.hid = true → isActive r = true
  told : hidAnyHeld r.hid = true → r.uhrp.keysHeld = true

theorem Booked.idle {r : Router} (h : Booked r) (ha : isActive r = false) : hidAnyHeld r.hid = false := by
  cases hheld : hidAnyHeld r.hid with
  | false => rfl
  | true =>
    rw [h.active hheld] at ha
    cases ha

theorem booked_init (cfg : RouterCfg) : Booked (routerInit cfg) := by
  have hnone : hidAnyHeld (routerInit cfg).hid = false := by
    rw [Bool.eq_false_iff, ne_eq, anyHeld_iff]
    rintro ⟨slot, hheld⟩
    rw [show (routerInit cfg).hid = hidTrackerInit from rfl, HidTracker.sent_init] at hheld
    cases hheld
  refine ⟨fun slot hheld => ?_, fun hheld => ?_, fun hheld => ?_⟩
  · rw [anyHeld_iff.mpr ⟨slot, hheld⟩] at hnone
    cases hnone
  · rw [hnone] at hheld
    cases hheld
  · rw [hnone] at hheld
    cases hheld

/-- With less down and the books as they were, the books still fit. -/
theorem Booked.less {r s : Router} (h : Booked r) (hindex : ∀ a i, r.chain.index? a = some i → s.chain.index? a = some i)
    (hless : ∀ slot, slotHeld (s.hid.sent slot) = true → slotHeld (r.hid.sent slot) = true) (hb : SameBooks r s) :
    Booked s := by
  have hany : hidAnyHeld s.hid = true → hidAnyHeld r.hid = true := by
    rw [anyHeld_iff, anyHeld_iff]
    exact fun ⟨slot, hheld⟩ => ⟨slot, hless slot hheld⟩
  refine ⟨fun slot hheld => ?_, fun hheld => ?_, fun hheld => ?_⟩
  · obtain ⟨a, hi⟩ := h.seated slot (hless slot hheld)
    exact ⟨a, hindex a slot hi⟩
  · rw [isActive, Election.isActive, hb.state]
    exact h.active (hany hheld)
  · rw [hb.keysHeld]
    exact h.told (hany hheld)

theorem booked_of_none {s : Router} (h : ∀ slot, slotHeld (s.hid.sent slot) = false) : Booked s := by
  have hnone : ¬ hidAnyHeld s.hid = true := by
    rw [anyHeld_iff]
    rintro ⟨slot, hheld⟩
    rw [h slot] at hheld
    cases hheld
  refine ⟨fun slot hheld => ?_, fun hheld => absurd hheld hnone, fun hheld => absurd hheld hnone⟩
  rw [h slot] at hheld
  cases hheld

theorem booked_step {r : Router} (hs : Sound r) (h : Booked r) {op : Op} (hop : NotRestarted r op) : Booked (step r op) := by
  have hindex := fun a i (hi : r.chain.index? a = some i) => step_index op hi
  have hidle : isActive r = false → ∀ slot, slotHeld (r.hid.sent slot) = false := by
    intro ha slot
    rw [Bool.eq_false_iff]
    intro hheld
    have hnone := h.idle ha
    rw [anyHeld_iff.mpr ⟨slot, hheld⟩] at hnone
    cases hnone
  have hturn := step_turn hs hop
  generalize clearedSlot r op = slot?, electionCall op = call? at hturn
  cases hturn with
  | kept hid books => exact h.less hindex (fun slot hheld => by rwa [hid] at hheld) books
  | @cleared slot free others books =>
    refine h.less hindex (fun other hheld => ?_) books
    by_cases hslot : other = slot
    · rw [hslot, free] at hheld
      cases hheld
    · rwa [others other hslot] at hheld
  | noted ha state told seated =>
    refine ⟨fun slot hheld => ?_, fun _ => ?_, fun hheld => told.trans hheld⟩
    · rcases seated slot hheld with hheld | hi
      · obtain ⟨a, hi⟩ := h.seated slot hheld
        exact ⟨a, hindex a slot hi⟩
      · exact hi
    · rw [isActive, Election.isActive, state]
      exact ha
  | called c hc uhrp less forgot kept =>
    cases ha : isActive r with
    | false =>
      refine booked_of_none fun slot => ?_
      rw [Bool.eq_false_iff]
      intro hheld
      have hdown := less slot hheld
      rw [hidle ha slot] at hdown
      cases hdown
    | true =>
      have hactive : r.uhrp.state = .active := by simpa [isActive, Election.isActive] using ha
      rcases call_keeps_or_releases hc hactive hs.drained with ⟨hstate, hquiet⟩ | ⟨-, hrelease⟩
      · refine h.less hindex less ⟨?_, ?_⟩
        · rw [uhrp, hactive]
          exact hstate
        · rw [uhrp]
          exact call_keysHeld hc
      · -- what is down the election knows of, so that it has every board let go
        refine booked_of_none fun slot => ?_
        rw [Bool.eq_false_iff]
        intro hheld
        have hdown := less slot hheld
        obtain ⟨a, hi⟩ := h.seated slot hdown
        rw [h.told (anyHeld_iff.mpr ⟨slot, hdown⟩)] at hrelease
        rw [forgot hrelease a slot hi] at hheld
        cases hheld
  | restarted ha hid _ =>
    refine booked_of_none fun slot => ?_
    rw [hid]
    exact hidle ha slot

end DeskHop.Routing
