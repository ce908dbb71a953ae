/-
  DeskHop.Routing.Effect — a tick, a keyboard report or a received frame, case by case.

  The ACTIVE board hands a keyboard report to its own machine or sends it to the board of
  the focused one; any other board forwards it to the board it follows, and one that
  follows nobody drops it (`step_localKbd_active`, `step_localKbd_idle`). A forwarded
  report is to the ACTIVE board like one of its own, if it knows that the sender has input
  devices (`step_rx_input`).

  Proved: whatever the event, as long as it is no pointer report, one of five things
  happens (`step_effect`), so that what the chain does is read off the five.
-/

import DeskHop.Routing.Announce

namespace DeskHop.Routing

open DeskHop.Lib DeskHop.Election DeskHop.Wire

/-! ## A report at the board -/

theorem reported_sendKbd {r : Router} (hd : r.uhrp.ev = Events.none) (hout : r.out = []) (rep : KbdReport) :
    Reported r (noteKeysHeld (sendKbdTo r r.focus rep)) rep := by
  have hsame : ∀ s : Router, s.uhrp.ev = Events.none → (noteKeysHeld s).out = s.out ∧ (noteKeysHeld s).focus = s.focus ∧
      isActive (noteKeysHeld s) = isActive s := by
    intro s hs
    rw [noteKeysHeld_same hs]
    exact ⟨rfl, rfl, rfl⟩
  obtain ⟨h1, h2, h3⟩ := hsame (sendKbdTo r r.focus rep) (by rw [sendKbdTo_uhrp]; exact hd)
  refine ⟨h1.trans ?_, h2.trans ?_, h3.trans ?_⟩
  · simp only [sendKbdTo]
    split <;> simp only [Router.emit, hout, List.nil_append]
  · simp only [sendKbdTo]
    split <;> rfl
  · unfold isActive
    rw [sendKbdTo_uhrp]

/-- What becomes of a report at a board without the role. -/
def forwarded (r : Router) (rep : KbdReport) : List Act :=
  if hasCap r.cfg.caps capHidIn ∧ r.uhrp.active ≠ addrNone then
    [.send msgInput r.uhrp.active (inputKindKbd :: kbdPack rep)]
  else []

theorem localKbd_active {r : Router} (hd : r.uhrp.ev = Events.none) (hout : r.out = []) (ha : isActive r = true)
    (rep : KbdReport) : Reported r (routerLocalKbd r rep) rep := by
  have hf : forwardInput r inputKindKbd (kbdPack rep) = none := by
    rw [forwardInput, if_pos ha]
  rw [routerLocalKbd, hf]
  exact reported_sendKbd hd hout rep

theorem localKbd_idle {r : Router} (hout : r.out = []) (ha : isActive r = false) (rep : KbdReport) :
    (routerLocalKbd r rep).out = forwarded r rep ∧ (routerLocalKbd r rep).focus = r.focus ∧
      isActive (routerLocalKbd r rep) = isActive r := by
  have hna : ¬ isActive r = true := by simp [ha]
  by_cases hc : hasCap r.cfg.caps capHidIn = true
  · by_cases hf : r.uhrp.active = addrNone
    · have h : forwardInput r inputKindKbd (kbdPack rep) = some r := by
        rw [forwardInput, if_neg hna, if_neg (by simp [hc]), if_pos hf]
      rw [routerLocalKbd, h, forwarded, if_neg fun h => h.2 hf]
      exact ⟨hout, rfl, rfl⟩
    · have h : forwardInput r inputKindKbd (kbdPack rep) =
          some (r.emit (.send msgInput r.uhrp.active (inputKindKbd :: kbdPack rep))) := by
        rw [forwardInput, if_neg hna, if_neg (by simp [hc]), if_neg hf]
      rw [routerLocalKbd, h, forwarded, if_pos ⟨hc, hf⟩]
      refine ⟨?_, rfl, rfl⟩
      simp only [Router.emit, hout, List.nil_append]
  · have h : forwardInput r inputKindKbd (kbdPack rep) = some r := by
      rw [forwardInput, if_neg hna, if_pos (by simp [hc])]
    rw [routerLocalKbd, h, forwarded, if_neg fun h => hc h.1]
    exact ⟨hout, rfl, rfl⟩

variable {r : Router}

theorem step_localKbd_active (hd : r.uhrp.ev = Events.none) (ha : isActive r = true) (rep : KbdReport) :
    Reported r (step r (.localKbd rep)) rep := by
  have h := localKbd_active (r := { r with out := [] }) hd rfl ha rep
  exact ⟨h.out, h.focus, h.role⟩

theorem step_localKbd_idle (ha : isActive r = false) (rep : KbdReport) :
    (step r (.localKbd rep)).out = forwarded r rep ∧ (step r (.localKbd rep)).focus = r.focus ∧
      isActive (step r (.localKbd rep)) = isActive r :=
  localKbd_idle (r := { r with out := [] }) rfl ha rep

/-! ## A report that was forwarded -/

/-- The chain table says that `a` has input devices. -/
def knowsInput (r : Router) (a : Addr) : Bool := (chainFind r a).any fun e => hasCap e.caps capHidIn

/-- Where a frame comes from says nothing of what its sender has. -/
theorem knowsInput_learnPosition {a : Addr} (h : knowsInput r a = true) (f : Frame) (inPort : Port) (now : Time) :
    knowsInput (learnPosition r f inPort now) a = true := by
  unfold learnPosition
  split
  · exact h
  split
  · exact h
  rename_i chain hc
  obtain ⟨⟨e, t⟩, he, rfl⟩ := Option.map_eq_some_iff.mp hc
  obtain ⟨x, hx, hcap⟩ := (Option.any_eq_true _ _).mp h
  have ht : t.find? a = some x := by
    by_cases ha : a = f.src
    · subst ha
      have hens := Slots.ensure_of_find (a := freshEntry f.src) hx
      rw [hens] at he
      cases he
      exact hx
    · rw [Slots.find?_ensure_ne he ha]
      exact hx
  let moved (e : ChainEntry) : ChainEntry := { e with relPos := relPosFromFrame f inPort, lastSeen := now }
  refine (Option.any_eq_true _ _).mpr ?_
  by_cases ha : a = f.src
  · subst ha
    exact ⟨moved x, (Slots.find?_modify_self t f.src moved fun _ hu hk => ⟨hu, hk⟩).trans (congrArg _ ht), hcap⟩
  · exact ⟨x, (Slots.find?_modify_ne t ha moved fun _ _ hk _ => hk).trans ht, hcap⟩

/-- A keyboard report of a board that is known to have a keyboard. -/
theorem rxInput_kbd {f : Frame} {rep : KbdReport} (ha : isActive r = true) (hk : knowsInput r f.src = true)
    (hp : f.payload = inputKindKbd :: kbdPack rep) (now : Time) : rxInput r f now = routerLocalKbd r rep := by
  obtain ⟨e, he, hcap⟩ := (Option.any_eq_true _ _).mp hk
  rw [rxInput, if_neg (by simp [ha, hp]), he]
  simp only [hcap, Bool.not_true, Bool.false_eq_true, if_false]
  rw [hp, if_pos (by rfl), List.tail_cons, kbdUnpack_pack]

/-- Without a pointer report in it, an INPUT frame does nothing or what a report does. -/
theorem rxInput_cases {f : Frame} (hm : byteAt f.payload 0 ≠ inputKindMouse) (now : Time) :
    rxInput r f now = r ∨ ∃ rep, isActive r = true ∧ rxInput r f now = routerLocalKbd r rep := by
  unfold rxInput
  split
  · exact Or.inl rfl
  rename_i ha
  have hact : isActive r = true := by
    simp only [Bool.or_eq_true, Bool.not_eq_true', not_or, Bool.not_eq_false] at ha
    exact ha.1
  split
  · exact Or.inl rfl
  split
  · exact Or.inl rfl
  split
  · split
    · exact Or.inl rfl
    · exact Or.inr ⟨_, hact, rfl⟩
  · exact Or.inl rfl

section

variable {f : Frame} (inPort : Port) (now : Time)

theorem step_rx_input_eq (ht : f.type = msgInput) :
    step r (.rx f inPort now) = rxInput (learnPosition { r with out := [] } f inPort now) f now := by
  simp only [step, apply, routerRx, ht]
  rfl

theorem Reported.of_learnt {s t : Router} {rep : KbdReport} (hl : SameButChain { r with out := [] } s)
    (h : Reported s t rep) : Reported r t rep := by
  refine ⟨?_, h.focus.trans hl.focus, h.role.trans hl.role⟩
  rw [h.out, hl.focus, hl.cfg]

theorem step_rx_input {rep : KbdReport} (hd : r.uhrp.ev = Events.none) (ht : f.type = msgInput) (ha : isActive r = true)
    (hk : knowsInput r f.src = true) (hp : f.payload = inputKindKbd :: kbdPack rep) :
    Reported r (step r (.rx f inPort now)) rep := by
  have hl := learnPosition_same { r with out := [] } f inPort now
  have hev : (learnPosition { r with out := [] } f inPort now).uhrp.ev = Events.none := by
    rw [hl.uhrp]
    exact hd
  have hact : isActive (learnPosition { r with out := [] } f inPort now) = true := hl.role.trans ha
  have hknow := knowsInput_learnPosition (r := { r with out := [] }) hk f inPort now
  rw [step_rx_input_eq inPort now ht, rxInput_kbd hact hknow hp]
  exact (localKbd_active hev hl.out hact rep).of_learnt hl

/-! ## The five effects -/

/-- What an event that is no pointer report does to a router. -/
inductive Effect (r : Router) (op : Op) : Prop
  /-- The election was called. -/
  | announced : Announced (informed r op) (step r op) → Effect r op
  /-- The ACTIVE board has passed a report to the focused machine. -/
  | reported (rep : KbdReport) : isActive r = true → Reported r (step r op) rep → Effect r op
  /-- Another board has been given a report of its keyboard. -/
  | forwarded (rep : KbdReport) : isActive r = false → (step r op).out = forwarded r rep → (step r op).focus = r.focus →
      isActive (step r op) = isActive r → Effect r op
  /-- A FOCUS was heard. -/
  | told (f : Frame) (fo : Focus) (inPort : Port) (now : Time) : op = .rx f inPort now → f.type = msgFocus →
      focusUnpack f.payload = some fo → Effect r op
  | quiet : Quiet r (step r op) → Effect r op

/-- The events of a chain, but for reports of a pointer. -/
def plain : Op → Prop
  | .tick _ => True
  | .localKbd _ => True
  | .rx f _ _ => f.type = msgInput → byteAt f.payload 0 ≠ inputKindMouse
  | _ => False

theorem step_settles {op : Op} (hop : plain op) : Settles { r with out := [] } (step r op) := by
  cases op with
  | tick now => exact settles_tick _ now
  | localKbd rep => exact settles_localKbd _ rep
  | rx f inPort now => exact settles_rx _ f inPort now
  | start now => cases hop
  | localMouse rep now => cases hop
  | button now => cases hop
  | setFocus target reason now => cases hop
  | setCaps caps => cases hop

theorem step_drained {op : Op} (hd : r.uhrp.ev = Events.none) (hop : plain op) : (step r op).uhrp.ev = Events.none :=
  (step_settles hop).drained hd

/-- A frame that carries no input calls the election, or tells of a focus, or does nothing
    that others hear of. -/
theorem rx_cases (hd : r.uhrp.ev = Events.none) (hi : f.type ≠ msgInput) :
    Announced (informed r (.rx f inPort now)) (step r (.rx f inPort now)) ∨
      (∃ fo, f.type = msgFocus ∧ focusUnpack f.payload = some fo) ∨ Quiet r (step r (.rx f inPort now)) := by
  by_cases hr : f.type = msgResign
  · exact Or.inl (step_rx_election inPort now hd (Or.inr hr))
  by_cases hh : f.type = msgHello ∧ (helloUnpack f.payload).isSome = true
  · exact Or.inl (step_rx_election inPort now hd (Or.inl hh))
  by_cases hf : f.type = msgFocus ∧ (focusUnpack f.payload).isSome = true
  · obtain ⟨fo, hfo⟩ := Option.isSome_iff_exists.mp hf.2
    exact Or.inr (Or.inl ⟨fo, hf.1, hfo⟩)
  · refine Or.inr (Or.inr (step_rx_other inPort now ⟨hr, hi⟩ (fun ht => ?_) fun ht => ?_))
    · exact Option.not_isSome_iff_eq_none.mp fun hs => hh ⟨ht, hs⟩
    · exact Option.not_isSome_iff_eq_none.mp fun hs => hf ⟨ht, hs⟩

theorem effect_input (hd : r.uhrp.ev = Events.none) (ht : f.type = msgInput) (hm : byteAt f.payload 0 ≠ inputKindMouse) :
    Effect r (.rx f inPort now) := by
  have hl := learnPosition_same { r with out := [] } f inPort now
  have hstep := step_rx_input_eq (r := r) inPort now ht
  rcases rxInput_cases (r := learnPosition { r with out := [] } f inPort now) hm now with h | ⟨rep, ha, h⟩
  · refine .quiet ?_
    rw [hstep, h]
    exact ⟨by rw [hl.out]; rfl, hl.focus, hl.role⟩
  · have hev : (learnPosition { r with out := [] } f inPort now).uhrp.ev = Events.none := by
      rw [hl.uhrp]
      exact hd
    refine .reported rep (hl.role.symm.trans ha) ?_
    rw [hstep, h]
    exact (localKbd_active hev hl.out ha rep).of_learnt hl

theorem step_effect {op : Op} (hd : r.uhrp.ev = Events.none) (hop : plain op) : Effect r op := by
  cases op with
  | tick now => exact .announced (step_tick now hd)
  | localKbd rep =>
    cases ha : isActive r with
    | true => exact .reported rep ha (step_localKbd_active hd ha rep)
    | false =>
      obtain ⟨h1, h2, h3⟩ := step_localKbd_idle ha rep
      exact .forwarded rep ha h1 h2 h3
  | rx f inPort now =>
    by_cases hi : f.type = msgInput
    · exact effect_input inPort now hd hi (hop hi)
    rcases rx_cases inPort now hd hi with h | ⟨fo, ht, hu⟩ | h
    · exact .announced h
    · exact .told f fo inPort now rfl ht hu
    · exact .quiet h
  | start now => cases hop
  | localMouse rep now => cases hop
  | button now => cases hop
  | setFocus target reason now => cases hop
  | setCaps caps => cases hop

end

end DeskHop.Routing
