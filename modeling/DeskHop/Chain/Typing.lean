/-
  DeskHop.Chain.Typing — keystrokes across a planned handover.

  A keyboard report goes from the board that captures it to the ACTIVE one and from there
  to the board of the focused machine. `Typing` keeps the reports captured, those the
  ACTIVE board has routed, each with the machine it is for, and those handed to a machine.
  What a board hands over to let go of keys is no keystroke and is not in the log.

  Proved, for every order of captures, ticks and arrivals in which the replay window drops
  no frame (`keystrokes_survive`): what has been handed over, followed by what the
  incumbent and then the coordinator has sent to its machine, is what was routed; and the
  reports of that, followed by those on their way to the ACTIVE board, are what was
  captured. This takes that the keyboard's board follows the ACTIVE board when a report is
  captured, that a board gives up the role with no report on its way to it, and what else
  `Admitted` and `Allowed` list.

  As built a report captured between the RESIGN and the successor's first HELLO is dropped
  (`vacancy_drops_a_keystroke`).
-/

import DeskHop.Chain.Network

namespace DeskHop.Chain

open DeskHop.Lib DeskHop.Wire DeskHop.Routing
open DeskHop.Election (capHidIn hasCap)

variable {n : Nat}

/-- Who plays which part. -/
structure Cast (n : Nat) where
  addr : Fin n → Addr
  /-- ACTIVE at the start. -/
  incumbent : Fin n
  coordinator : Fin n
  /-- The board the keyboard is plugged into. -/
  keyboard : Fin n
  /-- Where the focus is while a board is ACTIVE. -/
  machine : Fin n → Fin n

structure Typing (n : Nat) where
  net : Network n
  captured : List KbdReport
  /-- What has reached the ACTIVE board, with the machine it had in focus. -/
  routed : List (Addr × KbdReport)
  /-- What has been handed to a machine. -/
  typed : List (Addr × KbdReport)

namespace Typing

open Network (Event)

/-! ## What a call of a router is about -/

/-- The report that reaches the board, captured there or forwarded to it. -/
def carried : Routing.Op → Option KbdReport
  | .localKbd rep => some rep
  | .rx f _ _ => if f.type = msgInput ∧ byteAt f.payload 0 = inputKindKbd then kbdUnpack f.payload.tail else none
  | _ => none

/-- Who has routed the keystroke that the call may hand over; none if it is no keystroke. -/
def spokenBy (r : Router) : Routing.Op → Option Addr
  | .localKbd _ => some r.cfg.self
  | .rx f _ _ => if f.type = msgKbd then some f.src else if f.type = msgInput then some r.cfg.self else none
  | _ => none

/-- The call passes a report on, and to whom. -/
def routedBy (r : Router) (op : Routing.Op) : List (Addr × KbdReport) :=
  if isActive r then (carried op).toList.map fun rep => (r.focus, rep) else []

/-- The keystrokes the call hands to the board's own machine. -/
def typedBy (r : Router) (op : Routing.Op) : List (Addr × KbdReport) :=
  if (spokenBy r op).isSome then (handed (Routing.step r op).out).map fun rep => (r.cfg.self, rep) else []

def capturedBy : Event n → List KbdReport
  | .capture _ rep => [rep]
  | _ => []

def capturedAt : Event n → Option (Fin n)
  | .capture i _ => some i
  | _ => none

def step (t : Typing n) (e : Event n) : Typing n :=
  { net := t.net.step e
    captured := t.captured ++ capturedBy e
    routed := t.routed ++ (t.net.call? e).elim [] fun c => routedBy (t.net.router c.1) c.2
    typed := t.typed ++ (t.net.call? e).elim [] fun c => typedBy (t.net.router c.1) c.2 }

/-! ## What is on its way -/

/-- A report for the machine at `y`. -/
def kbdFor (y : Addr) (c : Content) : Option (Addr × KbdReport) :=
  if c.type = msgKbd ∧ c.dst = y then (kbdUnpack c.payload).map fun rep => (c.dst, rep) else none

/-- A report forwarded to `y`. -/
def inputFor (y : Addr) (c : Content) : Option KbdReport :=
  if c.type = msgInput ∧ c.dst = y then kbdUnpack c.payload.tail else none

/-- What `w` has sent on to its machine. -/
def onward (cast : Cast n) (r : Row n) (w : Fin n) : List (Addr × KbdReport) :=
  stream cast.addr r w (cast.machine w) (kbdFor (cast.addr (cast.machine w)))

/-- What the keyboard's board has forwarded to `w`. -/
def pending (cast : Cast n) (r : Row n) (w : Fin n) : List KbdReport :=
  stream cast.addr r cast.keyboard w (inputFor (cast.addr w))

/-! ## The runs -/

/-- The incumbent is ACTIVE, nobody else is, and no report is on its way. -/
structure Start (cast : Cast n) (t : Typing n) : Prop where
  self : ∀ i, (t.net.router i).cfg.self = cast.addr i
  drained : ∀ i, (t.net.router i).uhrp.ev = Election.Events.none
  physical : t.net.row.Physical cast.addr
  incumbent : ∀ i, isActive (t.net.router i) = true ↔ i = cast.incumbent
  coordinator : cast.coordinator ≠ cast.incumbent
  quiet : Carries (fun _ c => c.type ≠ msgKbd ∧ c.type ≠ msgInput) t.net.row
  logs : t.captured = [] ∧ t.routed = [] ∧ t.typed = []

/-- The keyboard's board is ACTIVE, or has input devices and follows the ACTIVE board. -/
def Connected (cast : Cast n) (s : Network n) : Prop :=
  isActive (s.router cast.keyboard) = true ∨
    (hasCap (s.router cast.keyboard).cfg.caps capHidIn = true ∧
      ∃ w, isActive (s.router w) = true ∧ (s.router cast.keyboard).uhrp.active = cast.addr w)

/-- What was forwarded comes from a board that is known to have input devices. -/
def fromKnown (r : Router) : Routing.Op → Bool
  | .rx f _ _ => f.type != msgInput || knowsInput r f.src
  | _ => true

/-- Board `i` is called. -/
structure Allowed (cast : Cast n) (s : Network n) (i : Fin n) (op : Routing.Op) : Prop where
  /-- A report that reaches the ACTIVE board finds a machine in focus. -/
  focused : isActive (s.router i) = true → (carried op).isSome = true → (s.router i).focus = cast.addr (cast.machine i)
  /-- It comes from a board known to have input devices. -/
  known : isActive (s.router i) = true → fromKnown (s.router i) op = true
  /-- The coordinator, and nobody else, becomes ACTIVE, once nobody is. -/
  succeeds : isActive (s.router i) = false → isActive (Routing.step (s.router i) op) = true →
    i = cast.coordinator ∧ ∀ x, isActive (s.router x) = false
  /-- A board gives up the role with no report on its way to it. -/
  resigns : isActive (s.router i) = true → isActive (Routing.step (s.router i) op) = false → pending cast s.row i = []
  /-- What the coordinator has routed is handed over after all that the incumbent has. -/
  inTurn : handed (Routing.step (s.router i) op).out ≠ [] → spokenBy (s.router i) op = some (cast.addr cast.coordinator) →
    onward cast s.row cast.incumbent = []

structure Admitted (cast : Cast n) (t : Typing n) (e : Event n) : Prop where
  heard : t.net.Heard e
  /-- Reports are captured at the keyboard's board, while it is connected. -/
  capture : ∀ i, capturedAt e = some i → i = cast.keyboard ∧ Connected cast t.net
  call : ∀ i op, t.net.call? e = some (i, op) → Allowed cast t.net i op

instance (cast : Cast n) (s : Network n) : Decidable (Connected cast s) := inferInstanceAs (Decidable (_ ∨ _))

instance (cast : Cast n) (s : Network n) (i : Fin n) (op : Routing.Op) : Decidable (Allowed cast s i op) :=
  decidable_of_iff
    ((isActive (s.router i) = true → (carried op).isSome = true → (s.router i).focus = cast.addr (cast.machine i)) ∧
      (isActive (s.router i) = true → fromKnown (s.router i) op = true) ∧
      (isActive (s.router i) = false → isActive (Routing.step (s.router i) op) = true →
        i = cast.coordinator ∧ ∀ x, isActive (s.router x) = false) ∧
      (isActive (s.router i) = true → isActive (Routing.step (s.router i) op) = false → pending cast s.row i = []) ∧
      (handed (Routing.step (s.router i) op).out ≠ [] → spokenBy (s.router i) op = some (cast.addr cast.coordinator) →
        onward cast s.row cast.incumbent = []))
    ⟨fun ⟨h1, h2, h3, h4, h5⟩ => ⟨h1, h2, h3, h4, h5⟩,
      fun h => ⟨h.focused, h.known, h.succeeds, h.resigns, h.inTurn⟩⟩

instance (cast : Cast n) (t : Typing n) (e : Event n) : Decidable (Admitted cast t e) :=
  decidable_of_iff
    (t.net.Heard e ∧ (∀ i, capturedAt e = some i → i = cast.keyboard ∧ Connected cast t.net) ∧
      ∀ c ∈ (t.net.call? e).toList, Allowed cast t.net c.1 c.2)
    ⟨fun ⟨h1, h2, h3⟩ => ⟨h1, h2, fun i op hc => h3 (i, op) (Option.mem_toList.mpr hc)⟩,
      fun h => ⟨h.heard, h.capture, fun c hc => h.call c.1 c.2 (Option.mem_toList.mp hc)⟩⟩

/-! ## The invariant -/

/-- A KBD frame is from one of the two who lead, to its machine. -/
def kbdSound (cast : Cast n) (src : Addr) (c : Content) : Prop :=
  c.type = msgKbd → ∃ w, (w = cast.incumbent ∨ w = cast.coordinator) ∧ src = cast.addr w ∧
    c.dst = cast.addr (cast.machine w) ∧ ∃ rep, c.payload = kbdPack rep

/-- An INPUT frame is a keyboard report of the keyboard's board. -/
def inputSound (cast : Cast n) (src : Addr) (c : Content) : Prop :=
  c.type = msgInput → src = cast.addr cast.keyboard ∧ (∃ w, c.dst = cast.addr w) ∧
    ∃ rep, c.payload = inputKindKbd :: kbdPack rep

structure Sane (cast : Cast n) (s : Network n) : Prop where
  self : ∀ i, (s.router i).cfg.self = cast.addr i
  drained : ∀ i, (s.router i).uhrp.ev = Election.Events.none
  physical : s.row.Physical cast.addr
  roles : ∀ i, isActive (s.router i) = true → i = cast.incumbent ∨ i = cast.coordinator
  single : isActive (s.router cast.incumbent) = true → isActive (s.router cast.coordinator) = false
  kbds : Carries (kbdSound cast) s.row
  inputs : Carries (inputSound cast) s.row
  /-- Before the handover the coordinator has sent nothing. -/
  before : isActive (s.router cast.incumbent) = true → onward cast s.row cast.coordinator = []
  /-- Reports are on their way to the ACTIVE board only. -/
  waiting : ∀ x, isActive (s.router x) = false → pending cast s.row x = []

structure Inv (cast : Cast n) (t : Typing n) : Prop where
  apart : cast.coordinator ≠ cast.incumbent
  sane : Sane cast t.net
  typed : t.typed ++ onward cast t.net.row cast.incumbent ++ onward cast t.net.row cast.coordinator = t.routed
  routed : t.routed.map Prod.snd ++ pending cast t.net.row cast.incumbent ++ pending cast t.net.row cast.coordinator =
    t.captured

/-! ## What the wires carry -/

theorem kbdFor_for (y : Addr) : For y (kbdFor y) := fun _ h => if_neg fun hc => h hc.2

theorem inputFor_for (y : Addr) : For y (inputFor y) := fun _ h => if_neg fun hc => h hc.2

theorem kbdFor_kbd (y : Addr) (rep : KbdReport) : kbdFor y ⟨msgKbd, y, kbdPack rep⟩ = some (y, rep) := by
  rw [kbdFor, if_pos ⟨rfl, rfl⟩, kbdUnpack_pack]
  rfl

theorem inputFor_input (y : Addr) (rep : KbdReport) :
    inputFor y ⟨msgInput, y, inputKindKbd :: kbdPack rep⟩ = some rep := by
  rw [inputFor, if_pos ⟨rfl, rfl⟩, List.tail_cons, kbdUnpack_pack]

theorem kbdFor_of_type {y : Addr} {c : Content} (h : c.type ≠ msgKbd) : kbdFor y c = none := if_neg fun hc => h hc.1

theorem inputFor_of_type {y : Addr} {c : Content} (h : c.type ≠ msgInput) : inputFor y c = none := if_neg fun hc => h hc.1

variable {cast : Cast n} {s : Network n}

theorem Sane.idle (h : Sane cast s) (hc : isActive (s.router cast.coordinator) = true) :
    isActive (s.router cast.incumbent) = false := by
  rw [← Bool.not_eq_true]
  intro hinc
  rw [h.single hinc] at hc
  cases hc

/-- What a board may send, and the roles after it is called. -/
theorem sane_act (h : Sane cast s) (hapart : cast.coordinator ≠ cast.incumbent)
    {i : Fin n} {op : Routing.Op} (hop : plain op)
    (hsucc : isActive (s.router i) = false → isActive (Routing.step (s.router i) op) = true →
      i = cast.coordinator ∧ ∀ x, isActive (s.router x) = false)
    (hres : isActive (s.router i) = true → isActive (Routing.step (s.router i) op) = false → pending cast s.row i = [])
    (hsound : ∀ c ∈ sends (Routing.step (s.router i) op).out,
      kbdSound cast (cast.addr i) c ∧ inputSound cast (cast.addr i) c)
    (hon : isActive (s.router cast.incumbent) = true →
      onward cast (s.act i op).row cast.coordinator = onward cast s.row cast.coordinator)
    (hpend : ∀ x, isActive ((s.act i op).router x) = false → pending cast (s.act i op).row x = pending cast s.row x) :
    Sane cast (s.act i op) := by
  have hactive : ∀ x, isActive ((s.act i op).router x) = true → isActive (s.router x) = true ∨
      (x = i ∧ isActive (s.router i) = false ∧ isActive (Routing.step (s.router i) op) = true) := by
    intro x hx
    by_cases hxi : x = i
    · subst hxi
      rw [Network.act_router_self] at hx
      cases hr : isActive (s.router x) with
      | true => exact Or.inl rfl
      | false => exact Or.inr ⟨rfl, rfl, hx⟩
    · rw [Network.act_router_ne s hxi] at hx
      exact Or.inl hx
  have hinc : isActive ((s.act i op).router cast.incumbent) = true → isActive (s.router cast.incumbent) = true := by
    intro ha
    rcases hactive _ ha with h | ⟨he, h0, h1⟩
    · exact h
    · exact absurd ((hsucc h0 h1).1.symm.trans he.symm) hapart
  refine ⟨fun k => ?_, fun k => ?_, physical_sendAll h.physical i _, fun x hx => ?_, fun ha => ?_,
    h.kbds.sendAll h.physical fun c hc => (hsound c hc).1, h.inputs.sendAll h.physical fun c hc => (hsound c hc).2,
    fun ha => ?_, fun x hx => ?_⟩
  · by_cases hki : k = i
    · subst hki
      rw [Network.act_router_self, (step_settles hop).keeps.cfg]
      exact h.self k
    · rw [Network.act_router_ne s hki]
      exact h.self k
  · by_cases hki : k = i
    · subst hki
      rw [Network.act_router_self]
      exact step_drained (h.drained k) hop
    · rw [Network.act_router_ne s hki]
      exact h.drained k
  · rcases hactive x hx with hx | ⟨rfl, h0, h1⟩
    · exact h.roles x hx
    · exact Or.inr (hsucc h0 h1).1
  · rw [← Bool.not_eq_true]
    intro hc
    have ha0 := hinc ha
    rcases hactive _ hc with hc | ⟨rfl, h0, h1⟩
    · rw [h.single ha0] at hc
      cases hc
    · rw [(hsucc h0 h1).2] at ha0
      cases ha0
  · rw [hon (hinc ha)]
    exact h.before (hinc ha)
  · rw [hpend x hx]
    by_cases hxi : x = i
    · subst hxi
      rw [Network.act_router_self] at hx
      cases hr : isActive (s.router x) with
      | true => exact hres hr hx
      | false => exact h.waiting x hr
    · rw [Network.act_router_ne s hxi] at hx
      exact h.waiting x hx

section

variable (hinj : Function.Injective cast.addr) (hn : n ≤ 20) {p : Port} {i : Fin n} {f : Frame}
  (hf : s.row.front p i = some f) (hfresh : fresh (s.row.station i) f = true)

include hinj hn hf hfresh

theorem sane_arrive (h : Sane cast s) : Sane cast { s with row := s.row.arrive p i f } := by
  refine ⟨h.self, h.drained, h.physical.arrive hf, h.roles, h.single, h.kbds.arrive hf, h.inputs.arrive hf,
    fun ha => ?_, fun x hx => ?_⟩
  · exact stream_arrive_nil h.physical hinj hn hf hfresh (kbdFor_for _) (h.before ha)
  · exact stream_arrive_nil h.physical hinj hn hf hfresh (inputFor_for _) (h.waiting x hx)

theorem onward_arrive (h : Sane cast s) {w : Fin n}
    (hskip : cast.machine w = i → f.src = cast.addr w → kbdFor (cast.addr i) (contentOf f) = none) :
    onward cast (s.row.arrive p i f) w = onward cast s.row w := by
  refine stream_arrive h.physical hinj hn hf hfresh (kbdFor_for _) fun hx => ?_
  unfold picked
  split
  · rename_i hs
    rw [hx]
    exact hskip hx hs
  · rfl

theorem pending_arrive (h : Sane cast s) {w : Fin n} (hskip : w = i → inputFor (cast.addr i) (contentOf f) = none) :
    pending cast (s.row.arrive p i f) w = pending cast s.row w := by
  refine stream_arrive h.physical hinj hn hf hfresh (inputFor_for _) fun hx => ?_
  unfold picked
  split
  · rw [hx]
    exact hskip hx
  · rfl

end

/-! ## What a call sends -/

theorem fits_kbd (rep : KbdReport) : fits msgKbd (kbdPack rep) = true := by
  simp [fits, kbdPack, rep.keys.property, maxPayload, msgKbd]

theorem fits_input (rep : KbdReport) : fits msgInput (inputKindKbd :: kbdPack rep) = true := by
  simp [fits, kbdPack, rep.keys.property, maxPayload, msgInput]

section

variable (hinj : Function.Injective cast.addr) {r : Row n} (h : r.Physical cast.addr) (i : Fin n)

include hinj h

theorem onward_silent {cs : List Content} (hcs : ∀ c ∈ cs, c.type ≠ msgKbd) (w : Fin n) :
    onward cast (sendAll r i cs) w = onward cast r w :=
  stream_sendAll_skip h hinj _ _ i fun c hc => kbdFor_of_type (hcs c hc)

theorem pending_silent {cs : List Content} (hcs : ∀ c ∈ cs, c.type ≠ msgInput) (w : Fin n) :
    pending cast (sendAll r i cs) w = pending cast r w :=
  stream_sendAll_skip h hinj _ _ i fun c hc => inputFor_of_type (hcs c hc)

theorem onward_own {w : Fin n} (hw : cast.machine w = w) : onward cast r w = [] := by
  unfold onward
  rw [hw]
  exact stream_self h hinj w

theorem onward_kbd (hw : cast.machine i ≠ i) (rep : KbdReport) :
    onward cast (sendAll r i [⟨msgKbd, cast.addr (cast.machine i), kbdPack rep⟩]) i =
      onward cast r i ++ [(cast.addr (cast.machine i), rep)] := by
  unfold onward
  rw [stream_sendAll_self h hinj (Ne.symm hw) _ fun c hc _ => ?_, List.filterMap_cons_some (kbdFor_kbd _ rep), List.filterMap_nil]
  obtain rfl := List.mem_singleton.mp hc
  exact fits_kbd rep

theorem pending_input {w : Fin n} (hw : cast.keyboard ≠ w) (rep : KbdReport) :
    pending cast (sendAll r cast.keyboard [⟨msgInput, cast.addr w, inputKindKbd :: kbdPack rep⟩]) w =
      pending cast r w ++ [rep] := by
  unfold pending
  rw [stream_sendAll_self h hinj hw _ fun c hc _ => ?_, List.filterMap_cons_some (inputFor_input _ rep), List.filterMap_nil]
  obtain rfl := List.mem_singleton.mp hc
  exact fits_input rep

theorem pending_input_ne {w x : Fin n} (hx : x ≠ w) (rep : KbdReport) :
    pending cast (sendAll r i [⟨msgInput, cast.addr w, inputKindKbd :: kbdPack rep⟩]) x = pending cast r x := by
  refine stream_sendAll_skip h hinj _ _ i fun c hc => ?_
  obtain rfl := List.mem_singleton.mp hc
  exact inputFor_for _ _ fun he => hx (hinj he).symm

end

/-- A call that is no keystroke sends none. -/
theorem routine_sends {r : Router} {op : Routing.Op} (hd : r.uhrp.ev = Election.Events.none) (hop : plain op)
    (hno : spokenBy r op = none) : ∀ c ∈ sends (Routing.step r op).out, c.type ≠ msgKbd ∧ c.type ≠ msgInput := by
  cases op with
  | tick now => exact fun c hc => ((step_tick now hd).toAll c hc).2
  | localKbd rep => cases hno
  | rx f inPort now =>
    have hi : f.type ≠ msgInput := by
      intro hi
      by_cases hk : f.type = msgKbd
      · rw [spokenBy, if_pos hk] at hno
        cases hno
      · rw [spokenBy, if_neg hk, if_pos hi] at hno
        cases hno
    rcases rx_cases inPort now hd hi with h | ⟨fo, ht, hu⟩ | h
    · exact fun c hc => (h.toAll c hc).2
    · intro c hc
      rw [(step_rx_focus inPort now ht hu).1] at hc
      cases hc
    · intro c hc
      rw [h.silent] at hc
      cases hc
  | start now => cases hop
  | localMouse rep now => cases hop
  | button now => cases hop
  | setFocus target reason now => cases hop
  | setCaps caps => cases hop

theorem carried_routine {r : Router} {op : Routing.Op} (hno : spokenBy r op = none) : carried op = none := by
  cases op with
  | localKbd rep => cases hno
  | rx f inPort now =>
    refine if_neg fun hc => ?_
    by_cases hk : f.type = msgKbd
    · rw [spokenBy, if_pos hk] at hno
      cases hno
    · rw [spokenBy, if_neg hk, if_pos hc.1] at hno
      cases hno
  | _ => rfl

/-! ## The books stay balanced -/

section

variable (hinj : Function.Injective cast.addr) (hapart : cast.coordinator ≠ cast.incumbent) (h : Sane cast s)

include hinj hapart h

theorem inv_routine {i : Fin n} {op : Routing.Op} (hop : plain op) (hno : spokenBy (s.router i) op = none)
    (hsucc : isActive (s.router i) = false → isActive (Routing.step (s.router i) op) = true →
      i = cast.coordinator ∧ ∀ x, isActive (s.router x) = false)
    (hres : isActive (s.router i) = true → isActive (Routing.step (s.router i) op) = false → pending cast s.row i = [])
    {captured : List KbdReport} {routed typed : List (Addr × KbdReport)}
    (ht : typed ++ onward cast s.row cast.incumbent ++ onward cast s.row cast.coordinator = routed)
    (hr : routed.map Prod.snd ++ pending cast s.row cast.incumbent ++ pending cast s.row cast.coordinator = captured) :
    Inv cast ⟨s.act i op, captured, routed, typed⟩ := by
  have hsends := routine_sends (h.drained i) hop hno
  have hon : ∀ w, onward cast (s.act i op).row w = onward cast s.row w :=
    onward_silent hinj h.physical i fun c hc => (hsends c hc).1
  have hpend : ∀ w, pending cast (s.act i op).row w = pending cast s.row w :=
    pending_silent hinj h.physical i fun c hc => (hsends c hc).2
  refine ⟨hapart, sane_act h hapart hop hsucc hres (fun c hc => ?_) (fun _ => hon _) fun x _ => hpend x, ?_, ?_⟩
  · exact ⟨fun hk => absurd hk (hsends c hc).1, fun hi => absurd hi (hsends c hc).2⟩
  · rw [hon, hon]
    exact ht
  · rw [hpend, hpend]
    exact hr

/-- A report reaches the ACTIVE board, which hands it over or sends it on. -/
theorem inv_route {i : Fin n} {op : Routing.Op} {rep : KbdReport} (hop : plain op) (ha : isActive (s.router i) = true)
    (hfocus : (s.router i).focus = cast.addr (cast.machine i))
    (hrep : Reported (s.router i) (Routing.step (s.router i) op) rep)
    (hturn : handed (Routing.step (s.router i) op).out ≠ [] → i = cast.coordinator → onward cast s.row cast.incumbent = [])
    {captured : List KbdReport} {routed typed : List (Addr × KbdReport)}
    (ht : typed ++ onward cast s.row cast.incumbent ++ onward cast s.row cast.coordinator = routed)
    (hr : (routed.map Prod.snd ++ [rep]) ++ pending cast s.row cast.incumbent ++ pending cast s.row cast.coordinator =
      captured) :
    Inv cast ⟨s.act i op, captured, routed ++ [(cast.addr (cast.machine i), rep)],
      typed ++ (handed (Routing.step (s.router i) op).out).map fun rep => (cast.addr i, rep)⟩ := by
  have hrole := hrep.role
  have hout := hrep.out
  rw [hfocus, h.self] at hout
  have hbefore : i = cast.incumbent → onward cast s.row cast.coordinator = [] := by
    rintro rfl
    exact h.before ha
  by_cases hself : cast.machine i = i
  · -- handed over at once
    rw [hself, if_pos rfl] at hout
    have hsends : sends (Routing.step (s.router i) op).out = [] := by
      rw [hout]
      rfl
    have hhanded : handed (Routing.step (s.router i) op).out = [rep] := by
      rw [hout]
      rfl
    have hrow : (s.act i op).row = s.row := by
      show sendAll s.row i (sends _) = _
      rw [hsends]
      rfl
    have hnone : onward cast s.row cast.incumbent = [] ∧ onward cast s.row cast.coordinator = [] := by
      rcases h.roles i ha with hi | hi
      · exact ⟨by rw [← hi]; exact onward_own hinj h.physical hself, hbefore hi⟩
      · exact ⟨hturn (by rw [hhanded]; exact List.cons_ne_nil _ _) hi, by rw [← hi]; exact onward_own hinj h.physical hself⟩
    refine ⟨hapart, sane_act h hapart hop (fun h0 => by rw [h0] at ha; cases ha) (fun _ h1 => ?_) (fun c hc => ?_)
      (fun _ => by rw [hrow]) (fun x _ => by rw [hrow]), ?_, ?_⟩
    · rw [hrole, ha] at h1
      cases h1
    · rw [hsends] at hc
      cases hc
    · rw [hnone.1, hnone.2, List.append_nil, List.append_nil] at ht
      simp only [hrow, hnone.1, hnone.2, List.append_nil, hhanded, List.map_cons, List.map_nil, hself, ht]
    · simp only [hrow, List.map_append, List.map_cons, List.map_nil]
      exact hr
  · rw [if_neg fun he => hself (hinj he)] at hout
    have hsends : sends (Routing.step (s.router i) op).out =
        [⟨msgKbd, cast.addr (cast.machine i), kbdPack rep⟩] := by
      rw [hout]
      rfl
    have hhanded : handed (Routing.step (s.router i) op).out = [] := by
      rw [hout]
      rfl
    have hrow : (s.act i op).row = sendAll s.row i [⟨msgKbd, cast.addr (cast.machine i), kbdPack rep⟩] := by
      show sendAll s.row i (sends _) = _
      rw [hsends]
    have hone := onward_kbd hinj h.physical i hself rep
    have hne : ∀ w, w ≠ i → onward cast (s.act i op).row w = onward cast s.row w := by
      intro w hw
      rw [hrow]
      exact stream_sendAll_ne h.physical hinj (Ne.symm hw) _ _
    have hpend : ∀ w, pending cast (s.act i op).row w = pending cast s.row w := by
      rw [hrow]
      refine pending_silent hinj h.physical i fun c hc => ?_
      obtain rfl := List.mem_singleton.mp hc
      exact (by decide : msgKbd ≠ msgInput)
    refine ⟨hapart, sane_act h hapart hop (fun h0 => by rw [h0] at ha; cases ha) (fun _ h1 => ?_) (fun c hc => ?_)
      (fun hinc => hne _ fun he => ?_) (fun x _ => hpend x), ?_, ?_⟩
    · rw [hrole, ha] at h1
      cases h1
    · rw [hsends] at hc
      obtain rfl := List.mem_singleton.mp hc
      exact ⟨fun _ => ⟨i, h.roles i ha, rfl, rfl, rep, rfl⟩, fun hi => absurd hi (by decide : msgKbd ≠ msgInput)⟩
    · rw [← he, h.single hinc] at ha
      cases ha
    · simp only [hhanded, List.map_nil, List.append_nil]
      rcases h.roles i ha with hi | hi
      · rw [hne cast.coordinator fun he => hapart (he.trans hi), hbefore hi, List.append_nil, hrow, ← hi, hone, ← List.append_assoc]
        rw [hbefore hi, List.append_nil, ← hi] at ht
        rw [ht]
      · rw [hne cast.incumbent fun he => hapart (hi.symm.trans he.symm), hrow, ← hi, hone, ← List.append_assoc]
        rw [← hi] at ht
        rw [ht]
    · simp only [hpend, List.map_append, List.map_cons, List.map_nil]
      exact hr

/-- A report captured away from the ACTIVE board is forwarded to it. -/
theorem inv_forward {rep : KbdReport} {w : Fin n} (ha : isActive (s.router cast.keyboard) = false)
    (hcap : hasCap (s.router cast.keyboard).cfg.caps capHidIn = true) (hw : isActive (s.router w) = true)
    (hfollow : (s.router cast.keyboard).uhrp.active = cast.addr w) (hsome : cast.addr w ≠ addrNone)
    {captured : List KbdReport} {routed typed : List (Addr × KbdReport)}
    (ht : typed ++ onward cast s.row cast.incumbent ++ onward cast s.row cast.coordinator = routed)
    (hr : routed.map Prod.snd ++ pending cast s.row cast.incumbent ++ pending cast s.row cast.coordinator = captured) :
    handed (Routing.step (s.router cast.keyboard) (.localKbd rep)).out = [] ∧
      Inv cast ⟨s.act cast.keyboard (.localKbd rep), captured ++ [rep], routed, typed⟩ := by
  obtain ⟨hout, -, hrole⟩ := step_localKbd_idle ha rep
  rw [forwarded, if_pos ⟨hcap, by rw [hfollow]; exact hsome⟩, hfollow] at hout
  have hsends : sends (Routing.step (s.router cast.keyboard) (.localKbd rep)).out =
      [⟨msgInput, cast.addr w, inputKindKbd :: kbdPack rep⟩] := by
    rw [hout]
    rfl
  have hne : cast.keyboard ≠ w := by
    intro he
    rw [he, hw] at ha
    cases ha
  have hrow : (s.act cast.keyboard (.localKbd rep)).row =
      sendAll s.row cast.keyboard [⟨msgInput, cast.addr w, inputKindKbd :: kbdPack rep⟩] := by
    show sendAll s.row cast.keyboard (sends _) = _
    rw [hsends]
  have hon : ∀ x, onward cast (s.act cast.keyboard (.localKbd rep)).row x = onward cast s.row x := by
    rw [hrow]
    refine onward_silent hinj h.physical cast.keyboard fun c hc => ?_
    obtain rfl := List.mem_singleton.mp hc
    exact (by decide : msgInput ≠ msgKbd)
  have hone := pending_input hinj h.physical hne rep
  have hother : ∀ x, x ≠ w → pending cast (s.act cast.keyboard (.localKbd rep)).row x = pending cast s.row x := by
    intro x hx
    rw [hrow]
    exact pending_input_ne hinj h.physical cast.keyboard hx rep
  have hstays : ∀ x, isActive ((s.act cast.keyboard (.localKbd rep)).router x) = isActive (s.router x) := by
    intro x
    by_cases hx : x = cast.keyboard
    · rw [hx, Network.act_router_self]
      exact hrole
    · rw [Network.act_router_ne s hx]
  refine ⟨by rw [hout]; rfl, hapart, sane_act h hapart trivial (fun _ h1 => ?_) (fun h0 => by rw [ha] at h0; cases h0)
    (fun c hc => ?_) (fun _ => hon _) (fun x hx => hother x fun he => ?_), ?_, ?_⟩
  · rw [hrole, ha] at h1
    cases h1
  · rw [hsends] at hc
    obtain rfl := List.mem_singleton.mp hc
    exact ⟨fun hk => absurd hk (by decide : msgInput ≠ msgKbd), fun _ => ⟨rfl, ⟨w, rfl⟩, rep, rfl⟩⟩
  · rw [hstays, he, hw] at hx
    cases hx
  · rw [hon, hon]
    exact ht
  · rw [← hr]
    rcases h.roles w hw with hi | hi
    · rw [hi] at hw
      have hnone := h.waiting _ (h.single hw)
      rw [hother cast.coordinator fun he => hapart (he.trans hi), hnone, List.append_nil, List.append_nil, hrow, ← hi, hone,
        ← List.append_assoc]
    · rw [hother cast.incumbent fun he => hapart (hi.symm.trans he.symm), hrow, ← hi, hone, ← List.append_assoc]

/-- A report arrives at its machine. -/
theorem inv_handed (hn : n ≤ 20) {p : Port} {i w : Fin n} {f : Frame} {rep : KbdReport} (hf : s.row.front p i = some f)
    (hfresh : fresh (s.row.station i) f = true) (ht : f.type = msgKbd) (hlead : w = cast.incumbent ∨ w = cast.coordinator)
    (hsrc : f.src = cast.addr w) (hmachine : cast.machine w = i) (hdst : f.dst = cast.addr i) (hpay : f.payload = kbdPack rep)
    (now : Time) (hturn : w = cast.coordinator → onward cast s.row cast.incumbent = [])
    {captured : List KbdReport} {routed typed : List (Addr × KbdReport)}
    (hE : typed ++ onward cast s.row cast.incumbent ++ onward cast s.row cast.coordinator = routed)
    (hI : routed.map Prod.snd ++ pending cast s.row cast.incumbent ++ pending cast s.row cast.coordinator = captured) :
    (Routing.step (s.router i) (.rx f p.other now)).out = [.deliverKbd rep] ∧
      Inv cast ⟨{ s with row := s.row.arrive p i f : Network n }.act i (.rx f p.other now), captured, routed,
        typed ++ [(cast.addr i, rep)]⟩ := by
  have hunpack : kbdUnpack f.payload = some rep := by
    rw [hpay]
    exact kbdUnpack_pack rep
  obtain ⟨hout, hquiet⟩ := step_rx_kbd (r := s.router i) p.other now ht hunpack
  let s1 : Network n := { s with row := s.row.arrive p i f }
  have h1 : Sane cast s1 := sane_arrive hinj hn hf hfresh h
  have hrow : (s1.act i (.rx f p.other now)).row = s1.row := by
    show sendAll s1.row i (sends _) = _
    rw [hquiet.silent]
    rfl
  have hplain : plain (.rx f p.other now) := fun hi => absurd (ht.symm.trans hi) (by decide : msgKbd ≠ msgInput)
  have hhere : onward cast s.row w = (cast.addr i, rep) :: onward cast s1.row w := by
    have hpick : kbdFor (cast.addr i) (contentOf f) = some (cast.addr i, rep) := by
      rw [kbdFor, if_pos ⟨ht, hdst⟩]
      show (kbdUnpack f.payload).map _ = _
      rw [hunpack]
      exact congrArg (fun a => some (a, rep)) hdst
    have harr : onward cast s.row w = (kbdFor (cast.addr i) (contentOf f)).toList ++ onward cast s1.row w := by
      unfold onward
      rw [hmachine]
      exact stream_arrive_here h.physical hinj hf hsrc
    rw [harr, hpick]
    rfl
  have hother : ∀ x, x ≠ w → onward cast s1.row x = onward cast s.row x := fun x hx =>
    onward_arrive hinj hn hf hfresh h fun _ hs => absurd (hinj (hs.symm.trans hsrc)) hx
  have hpend : ∀ x, pending cast s1.row x = pending cast s.row x := fun x =>
    pending_arrive hinj hn hf hfresh h fun _ => inputFor_of_type fun hi => absurd (ht.symm.trans hi) (by decide : msgKbd ≠ msgInput)
  refine ⟨hout, hapart, sane_act h1 hapart hplain (fun h0 h2 => ?_) (fun h0 h2 => ?_) (fun c hc => ?_)
    (fun _ => by rw [hrow]) (fun x _ => by rw [hrow]), ?_, ?_⟩
  · rw [show isActive (Routing.step (s1.router i) _) = isActive (s1.router i) from hquiet.role, h0] at h2
    cases h2
  · rw [show isActive (Routing.step (s1.router i) _) = isActive (s1.router i) from hquiet.role, h0] at h2
    cases h2
  · rw [show sends (Routing.step (s1.router i) _).out = [] from hquiet.silent] at hc
    cases hc
  · show typed ++ [(cast.addr i, rep)] ++ onward cast (s1.act i _).row cast.incumbent ++
      onward cast (s1.act i _).row cast.coordinator = routed
    rw [hrow]
    rcases hlead with hl | hl
    · rw [hother cast.coordinator fun he => hapart (he.trans hl), ← hl, ← hE, ← hl, hhere]
      simp only [List.append_assoc, List.nil_append, List.cons_append]
    · have hnone := hturn hl
      rw [hother cast.incumbent fun he => hapart (hl.symm.trans he.symm), hnone, ← hl, ← hE, hnone, ← hl, hhere]
      simp only [List.append_assoc, List.singleton_append, List.nil_append]
  · show routed.map Prod.snd ++ pending cast (s1.act i _).row cast.incumbent ++
      pending cast (s1.act i _).row cast.coordinator = captured
    rw [hrow, hpend, hpend]
    exact hI

end

theorem routedBy_routine {r : Router} {op : Routing.Op} (hno : spokenBy r op = none) : routedBy r op = [] := by
  rw [routedBy, carried_routine hno]
  split <;> rfl

theorem typedBy_routine {r : Router} {op : Routing.Op} (hno : spokenBy r op = none) : typedBy r op = [] := by
  rw [typedBy, hno]
  rfl

theorem step_called {t : Typing n} {e : Event n} {i : Fin n} {op : Routing.Op} (h : t.net.call? e = some (i, op)) :
    t.step e = ⟨{ t.net with row := t.net.taken e : Network n }.act i op, t.captured ++ capturedBy e,
      t.routed ++ routedBy (t.net.router i) op, t.typed ++ typedBy (t.net.router i) op⟩ := by
  simp only [step, Network.step, h, Option.elim]

theorem step_idle {t : Typing n} {e : Event n} (h : t.net.call? e = none) :
    t.step e = ⟨{ t.net with row := t.net.taken e }, t.captured ++ capturedBy e, t.routed, t.typed⟩ := by
  simp only [step, Network.step, h, Option.elim, List.append_nil]

section

variable (hinj : Function.Injective cast.addr) {t : Typing n} (hi : Inv cast t)

include hinj hi

theorem capture_inv (hres : ∀ i, cast.addr i ≠ addrNone) {rep : KbdReport}
    (ho : Allowed cast t.net cast.keyboard (.localKbd rep)) (hconn : Connected cast t.net) :
    Inv cast (t.step (.capture cast.keyboard rep)) := by
  obtain ⟨hapart, h, hE, hI⟩ := hi
  rw [step_called (i := cast.keyboard) (rfl : t.net.call? (.capture cast.keyboard rep) = some (cast.keyboard, .localKbd rep))]
  show Inv cast ⟨t.net.act cast.keyboard (.localKbd rep), t.captured ++ [rep], _, _⟩
  have htyped : typedBy (t.net.router cast.keyboard) (.localKbd rep) =
      (handed (Routing.step (t.net.router cast.keyboard) (.localKbd rep)).out).map fun rep => (cast.addr cast.keyboard, rep) := by
    rw [← h.self]
    rfl
  have hown : pending cast t.net.row cast.keyboard = [] := stream_self h.physical hinj _
  rw [htyped]
  cases ha : isActive (t.net.router cast.keyboard) with
  | true =>
    have hfocus := ho.focused ha rfl
    have hrouted : routedBy (t.net.router cast.keyboard) (.localKbd rep) = [(cast.addr (cast.machine cast.keyboard), rep)] := by
      rw [routedBy, if_pos ha, hfocus]
      rfl
    -- the board is ACTIVE, so nothing is on its way to the other of the two
    have hnone : pending cast t.net.row cast.incumbent = [] ∧ pending cast t.net.row cast.coordinator = [] := by
      rcases h.roles _ ha with hk | hk
      · refine ⟨by rw [← hk]; exact hown, h.waiting _ (h.single ?_)⟩
        rw [← hk]
        exact ha
      · exact ⟨h.waiting _ (h.idle (by rw [← hk]; exact ha)), by rw [← hk]; exact hown⟩
    rw [hrouted]
    have hop : plain (.localKbd rep) := trivial
    refine inv_route hinj hapart h hop ha hfocus (step_localKbd_active (h.drained _) ha rep) (fun hne hk => ?_) hE ?_
    · refine ho.inTurn hne ?_
      rw [← hk, ← h.self]
      rfl
    · rw [← hI, hnone.1, hnone.2]
      simp only [List.append_nil]
  | false =>
    rcases hconn with hc | ⟨hcap, w, hw, hfollow⟩
    · rw [ha] at hc
      cases hc
    · obtain ⟨hhanded, hinv⟩ := inv_forward hinj hapart h ha hcap hw hfollow (hres w) hE hI
      rw [hhanded, routedBy, if_neg (by simp [ha])]
      simp only [List.map_nil, List.append_nil]
      exact hinv

variable (hres : ∀ i, cast.addr i ≠ addrBroadcast) (hn : n ≤ 20) {p : Port} {i : Fin n} {f : Frame}
  (hf : t.net.row.front p i = some f) (hfresh : fresh (t.net.row.station i) f = true)

include hn hf hfresh

theorem pass_inv (hmine : f.letter.isFor (cast.addr i) = false) :
    Inv cast ⟨{ t.net with row := t.net.row.arrive p i f }, t.captured, t.routed, t.typed⟩ := by
  obtain ⟨hapart, h, hE, hI⟩ := hi
  have hdst : f.dst ≠ cast.addr i := by
    intro he
    simp [Letter.isFor, Frame.letter, he] at hmine
  have hon : ∀ w, onward cast (t.net.row.arrive p i f) w = onward cast t.net.row w := fun w =>
    onward_arrive hinj hn hf hfresh h fun _ _ => kbdFor_for _ _ hdst
  have hpend : ∀ w, pending cast (t.net.row.arrive p i f) w = pending cast t.net.row w := fun w =>
    pending_arrive hinj hn hf hfresh h fun _ => inputFor_for _ _ hdst
  refine ⟨hapart, sane_arrive hinj hn hf hfresh h, ?_, ?_⟩
  · rw [hon, hon]
    exact hE
  · rw [hpend, hpend]
    exact hI

theorem other_inv (hk : f.type ≠ msgKbd) (hin : f.type ≠ msgInput) {now : Time}
    (ho : Allowed cast t.net i (.rx f p.other now)) :
    Inv cast ⟨{ t.net with row := t.net.row.arrive p i f : Network n }.act i (.rx f p.other now), t.captured, t.routed,
      t.typed⟩ := by
  obtain ⟨hapart, h, hE, hI⟩ := hi
  have hno : spokenBy (t.net.router i) (.rx f p.other now) = none := by
    rw [spokenBy, if_neg hk, if_neg hin]
  have hon : ∀ w, onward cast (t.net.row.arrive p i f) w = onward cast t.net.row w := fun w =>
    onward_arrive hinj hn hf hfresh h fun _ _ => kbdFor_of_type hk
  have hpend : ∀ w, pending cast (t.net.row.arrive p i f) w = pending cast t.net.row w := fun w =>
    pending_arrive hinj hn hf hfresh h fun _ => inputFor_of_type hin
  have hop : plain (.rx f p.other now) := fun hi => absurd hi hin
  refine inv_routine hinj hapart (sane_arrive hinj hn hf hfresh h) hop hno ho.succeeds (fun h0 h1 => ?_) ?_ ?_
  · exact (hpend i).trans (ho.resigns h0 h1)
  · simp only [hon]
    exact hE
  · simp only [hpend]
    exact hI

include hres

theorem kbd_inv (hmine : f.letter.isFor (cast.addr i) = true) (hk : f.type = msgKbd) {now : Time}
    (ho : Allowed cast t.net i (.rx f p.other now)) :
    Inv cast ⟨{ t.net with row := t.net.row.arrive p i f : Network n }.act i (.rx f p.other now), t.captured,
      t.routed ++ routedBy (t.net.router i) (.rx f p.other now), t.typed ++ typedBy (t.net.router i) (.rx f p.other now)⟩ := by
  obtain ⟨hapart, h, hE, hI⟩ := hi
  obtain ⟨w, hlead, hsrc, hdst, rep, hpay⟩ := front_carried h.kbds hf hk
  have hmachine : cast.machine w = i := by
    simp only [Letter.isFor, Frame.letter, Bool.or_eq_true, beq_iff_eq] at hmine
    rcases hmine with he | he
    · exact hinj (hdst.symm.trans he)
    · exact absurd (hdst.symm.trans he) (hres _)
  rw [hmachine] at hdst
  have hspoken : spokenBy (t.net.router i) (.rx f p.other now) = some f.src := if_pos hk
  have hout := (step_rx_kbd (r := t.net.router i) p.other now hk (show kbdUnpack f.payload = some rep by
    rw [show f.payload = kbdPack rep from hpay]; exact kbdUnpack_pack rep)).1
  have hrouted : routedBy (t.net.router i) (.rx f p.other now) = [] := by
    have hc : carried (.rx f p.other now) = none :=
      if_neg fun hc => absurd (hk.symm.trans hc.1) (by decide : msgKbd ≠ msgInput)
    rw [routedBy, hc]
    split <;> rfl
  have htyped : typedBy (t.net.router i) (.rx f p.other now) = [(cast.addr i, rep)] := by
    rw [typedBy, hspoken, hout, h.self]
    rfl
  rw [hrouted, htyped, List.append_nil]
  refine (inv_handed hinj hapart h hn hf hfresh hk hlead hsrc hmachine hdst hpay now (fun hc => ?_) hE hI).2
  refine ho.inTurn ?_ (by rw [hspoken, hsrc, hc])
  rw [hout]
  exact List.cons_ne_nil _ _

theorem input_inv (hmine : f.letter.isFor (cast.addr i) = true) (hin : f.type = msgInput) {now : Time}
    (ho : Allowed cast t.net i (.rx f p.other now)) :
    Inv cast ⟨{ t.net with row := t.net.row.arrive p i f : Network n }.act i (.rx f p.other now), t.captured,
      t.routed ++ routedBy (t.net.router i) (.rx f p.other now), t.typed ++ typedBy (t.net.router i) (.rx f p.other now)⟩ := by
  obtain ⟨hapart, h, hE, hI⟩ := hi
  obtain ⟨hsrc, ⟨w, hw⟩, rep, hpay⟩ := front_carried h.inputs hf hin
  have hdst : f.dst = cast.addr i := by
    simp only [Letter.isFor, Frame.letter, Bool.or_eq_true, beq_iff_eq] at hmine
    exact hmine.resolve_right fun he => hres w (hw.symm.trans he)
  have hpayload : f.payload = inputKindKbd :: kbdPack rep := hpay
  have hpick : inputFor (cast.addr i) (contentOf f) = some rep := by
    rw [inputFor, if_pos ⟨hin, hdst⟩, hpay, List.tail_cons, kbdUnpack_pack]
  let s1 : Network n := { t.net with row := t.net.row.arrive p i f }
  have hhere : pending cast t.net.row i = rep :: pending cast s1.row i := by
    have harr : pending cast t.net.row i = (inputFor (cast.addr i) (contentOf f)).toList ++ pending cast s1.row i :=
      stream_arrive_here h.physical hinj hf hsrc
    rw [harr, hpick]
    rfl
  have ha : isActive (t.net.router i) = true := by
    rw [← Bool.not_eq_false]
    intro hidle
    rw [h.waiting i hidle] at hhere
    cases hhere
  have hother : ∀ x, x ≠ i → pending cast s1.row x = pending cast t.net.row x := fun x hx =>
    pending_arrive hinj hn hf hfresh h fun he => absurd he hx
  have hon : ∀ x, onward cast s1.row x = onward cast t.net.row x := fun x =>
    onward_arrive hinj hn hf hfresh h fun _ _ => kbdFor_of_type fun hk => absurd (hin.symm.trans hk) (by decide : msgInput ≠ msgKbd)
  have hne : f.type ≠ msgKbd := fun hk => absurd (hin.symm.trans hk) (by decide : msgInput ≠ msgKbd)
  have hspoken : spokenBy (t.net.router i) (.rx f p.other now) = some (cast.addr i) := by
    rw [spokenBy, if_neg hne, if_pos hin, h.self]
  have hcarried : carried (.rx f p.other now) = some rep := by
    rw [carried, if_pos ⟨hin, by rw [hpayload]; rfl⟩, hpayload, List.tail_cons, kbdUnpack_pack]
  have hfocus := ho.focused ha (by rw [hcarried]; rfl)
  have hrouted : routedBy (t.net.router i) (.rx f p.other now) = [(cast.addr (cast.machine i), rep)] := by
    rw [routedBy, if_pos ha, hcarried, hfocus]
    rfl
  have htyped : typedBy (t.net.router i) (.rx f p.other now) =
      (handed (Routing.step (t.net.router i) (.rx f p.other now)).out).map fun rep => (cast.addr i, rep) := by
    rw [typedBy, hspoken, h.self]
    rfl
  have hplain : plain (.rx f p.other now) := fun _ => by
    rw [hpayload]
    exact (by decide : inputKindKbd ≠ inputKindMouse)
  have hknown : knowsInput (t.net.router i) f.src = true := by
    have hfrom := ho.known ha
    rw [fromKnown, hin] at hfrom
    simpa using hfrom
  have hrep := step_rx_input (r := t.net.router i) p.other now (h.drained i) hin ha hknown hpayload
  rw [hrouted, htyped]
  refine inv_route (s := s1) hinj hapart (sane_arrive hinj hn hf hfresh h) hplain ha hfocus hrep (fun hne hc => ?_) ?_ ?_
  · rw [hon]
    exact ho.inTurn hne (by rw [hspoken, hc])
  · rw [hon, hon]
    exact hE
  · rw [← hI]
    rcases h.roles i ha with hi | hi
    · rw [hother cast.coordinator fun he => hapart (he.trans hi), ← hi, hhere]
      simp only [List.append_assoc, List.nil_append, List.cons_append]
    · -- the incumbent is no longer ACTIVE, so nothing is on its way to it
      have hidle := h.idle (by rw [← hi]; exact ha)
      rw [hother cast.incumbent fun he => hapart (hi.symm.trans he.symm), h.waiting _ hidle, ← hi, hhere]
      simp only [List.append_assoc, List.singleton_append, List.nil_append]

end

theorem step_inv (hinj : Function.Injective cast.addr) (hres : ∀ i, cast.addr i ≠ addrNone ∧ cast.addr i ≠ addrBroadcast)
    (hn : n ≤ 20) {t : Typing n} {e : Event n} (hi : Inv cast t) (ho : Admitted cast t e) : Inv cast (t.step e) := by
  cases e with
  | tick i now =>
    have hal := ho.call i _ rfl
    have hno : spokenBy (t.net.router i) (.tick now) = none := rfl
    rw [step_called (i := i) (rfl : t.net.call? (.tick i now) = some (i, .tick now)), routedBy_routine hno,
      typedBy_routine hno]
    show Inv cast ⟨t.net.act i (.tick now), t.captured ++ [], t.routed ++ [], t.typed ++ []⟩
    simp only [List.append_nil]
    have hop : plain (.tick now) := trivial
    exact inv_routine hinj hi.apart hi.sane hop hno hal.succeeds hal.resigns hi.typed hi.routed
  | capture i rep =>
    obtain ⟨rfl, hconn⟩ := ho.capture i rfl
    exact capture_inv hinj hi (fun i => (hres i).1) (ho.call _ _ rfl) hconn
  | arrive p i now =>
    cases hf : t.net.row.front p i with
    | none =>
      have hcall : t.net.call? (.arrive p i now) = none := by
        simp only [Network.call?, hf, Option.bind_none]
      rw [step_idle hcall]
      simp only [Network.taken, hf, Option.elim, capturedBy, List.append_nil]
      exact hi
    | some f =>
      have hfresh : fresh (t.net.row.station i) f = true := by
        simpa [Network.Heard, hf] using ho.heard
      have hmine := mine_iff hi.sane.physical hinj hn hf hfresh
      cases hme : f.letter.isFor (cast.addr i) with
      | false =>
        have hcall : t.net.call? (.arrive p i now) = none := by
          rw [hme] at hmine
          simp only [Network.call?, hf, Option.bind_some, hmine, Bool.false_eq_true, if_false]
        rw [step_idle hcall]
        simp only [Network.taken, hf, Option.elim, capturedBy, List.append_nil]
        exact pass_inv hinj hi hn hf hfresh hme
      | true =>
        have hcall : t.net.call? (.arrive p i now) = some (i, .rx f p.other now) := by
          simp only [Network.call?, hf, Option.bind_some, hmine.mpr hme, if_true]
        have hal := ho.call i _ hcall
        rw [step_called hcall]
        simp only [Network.taken, hf, Option.elim, capturedBy, List.append_nil]
        by_cases hk : f.type = msgKbd
        · exact kbd_inv hinj hi (fun i => (hres i).2) hn hf hfresh hme hk hal
        by_cases hin : f.type = msgInput
        · exact input_inv hinj hi (fun i => (hres i).2) hn hf hfresh hme hin hal
        · have hno : spokenBy (t.net.router i) (.rx f p.other now) = none := by
            rw [spokenBy, if_neg hk, if_neg hin]
          rw [routedBy_routine hno, typedBy_routine hno, List.append_nil, List.append_nil]
          exact other_inv hinj hi hn hf hfresh hk hin hal

theorem start_inv {t : Typing n} (h : Start cast t) : Inv cast t := by
  obtain ⟨hc, hr, ht⟩ := h.logs
  have hnone : ∀ {β : Type} {pick : Content → Option β} (s x : Fin n),
      (∀ c, c.type ≠ msgKbd → c.type ≠ msgInput → pick c = none) → stream cast.addr t.net.row s x pick = [] := by
    intro β pick s x hpick
    have hcoming : ∀ p, t.net.row.coming p x (picked (cast.addr s) pick) = [] := by
      intro p
      refine List.filterMap_eq_nil_iff.mpr fun f hf => ?_
      obtain ⟨q, -, hf⟩ := mem_heading.mp hf
      unfold picked
      split
      · exact hpick _ (h.quiet p q f hf).1 (h.quiet p q f hf).2
      · rfl
    rw [stream, hcoming, hcoming]
    rfl
  have hon : ∀ w, onward cast t.net.row w = [] := fun w => hnone _ _ fun c hk _ => kbdFor_of_type hk
  have hpend : ∀ w, pending cast t.net.row w = [] := fun w => hnone _ _ fun c _ hi => inputFor_of_type hi
  refine ⟨h.coordinator, ⟨h.self, h.drained, h.physical, fun i ha => Or.inl ((h.incumbent i).mp ha), fun _ => ?_,
    fun p q f hf hk => absurd hk (h.quiet p q f hf).1, fun p q f hf hi => absurd hi (h.quiet p q f hf).2, fun _ => hon _,
    fun x _ => hpend x⟩, ?_, ?_⟩
  · rw [← Bool.not_eq_true]
    exact fun hc => h.coordinator ((h.incumbent _).mp hc)
  · rw [ht, hon, hon, hr]
    rfl
  · rw [hr, hpend, hpend, hc]
    rfl

end Typing

open Typing

/-- What has been handed to the machines is what the ACTIVE boards have routed, each to the
    machine in focus, and that is what was captured: from the first report on, in order
    and each once; and all of it, once the wires are drained. -/
theorem keystrokes_survive (cast : Cast n) (hn : n ≤ maxBoards) (hinj : Function.Injective cast.addr)
    (hres : ∀ i, cast.addr i ≠ addrNone ∧ cast.addr i ≠ addrBroadcast) {t : Typing n}
    (h : Reach (Start cast) (Admitted cast) Typing.step t) :
    t.typed <+: t.routed ∧ t.routed.map Prod.snd <+: t.captured ∧
      (t.net.Drained → t.typed = t.routed ∧ t.routed.map Prod.snd = t.captured) := by
  have hn' : n ≤ 20 := Nat.le_trans hn (by decide)
  have hi : Inv cast t :=
    Reach.inv (I := Inv cast) (fun _ => start_inv) (fun _ _ hi ho => step_inv hinj hres hn' hi ho) h
  have hE := hi.typed
  have hI := hi.routed
  refine ⟨⟨_, by rw [← List.append_assoc]; exact hE⟩, ⟨_, by rw [← List.append_assoc]; exact hI⟩, fun hd => ?_⟩
  have hnone : ∀ {β : Type} (pick : Content → Option β) (s x : Fin n), stream cast.addr t.net.row s x pick = [] := by
    intro β pick s x
    rw [stream, coming_drained hd, coming_drained hd]
    rfl
  unfold onward at hE
  unfold pending at hI
  rw [hnone, hnone, List.append_nil, List.append_nil] at hE hI
  exact ⟨hE, hI⟩

/-! ## Two handovers -/

/-- Board 1 has the keyboard and is ACTIVE; the coordinator joins next to it. -/
def desk : Cast 2 :=
  { addr := boardAddr, incumbent := ⟨0, Nat.two_pos⟩, coordinator := ⟨1, Nat.one_lt_two⟩, keyboard := ⟨0, Nat.two_pos⟩
    machine := fun _ => ⟨0, Nat.two_pos⟩ }

def deskTyping : Typing 2 := ⟨⟨[incumbent, coordinator 2].get, idleRow⟩, [], [], []⟩

/-- The key `a` goes down, or up. -/
def keyA (down : Bool) : KbdReport := ⟨0, ⟨[if down then 4 else 0, 0, 0, 0, 0, 0], rfl⟩⟩

/-- HELLOs are exchanged and board 1 resigns. -/
def resigning : List (Network.Event 2) :=
  [.tick desk.incumbent 200, .tick desk.coordinator 200, .arrive .down desk.coordinator 210, .arrive .up desk.incumbent 210]

/-- The coordinator hears of it and takes over, and board 1 hears of that. -/
def succeeding : List (Network.Event 2) :=
  .arrive .down desk.coordinator 220 :: List.replicate 3 (.arrive .up desk.incumbent 230)

theorem desk_start : Start desk deskTyping := by
  refine ⟨by decide +kernel, by decide +kernel, physical_idle, by decide +kernel, by decide, carries_idle _, rfl, rfl, rfl⟩

/-- The key goes down and up before, and down again afterwards. -/
def deskRun : List (Network.Event 2) :=
  [.capture desk.keyboard (keyA true), .capture desk.keyboard (keyA false)] ++ resigning ++ succeeding ++
    [.capture desk.keyboard (keyA true), .arrive .down desk.coordinator 240, .arrive .up desk.incumbent 240]

theorem keystrokes_survive_desk : (deskRun.foldl Typing.step deskTyping).captured = [keyA true, keyA false, keyA true] ∧
    (deskRun.foldl Typing.step deskTyping).typed.map Prod.snd = (deskRun.foldl Typing.step deskTyping).captured := by
  have hr : Reach (Start desk) (Admitted desk) Typing.step (deskRun.foldl Typing.step deskTyping) :=
    (Reach.init desk_start).run deskRun (by decide +kernel)
  have hd : (deskRun.foldl Typing.step deskTyping).net.Drained := by
    intro p i
    cases p <;> revert i <;> decide +kernel
  have h := (keystrokes_survive desk (by decide) (by decide) (by decide) hr).2.2 hd
  exact ⟨by decide +kernel, by rw [h.1, h.2]⟩

/-- A key that goes down after the RESIGN, and before the successor is heard of, is lost,
    though no frame is. -/
theorem vacancy_drops_a_keystroke :
    let run := resigning ++ [.capture desk.keyboard (keyA true)] ++ succeeding
    Start desk deskTyping ∧ Reach.Admitted (fun t e => t.net.Heard e) Typing.step deskTyping run ∧
      isActive ((run.foldl Typing.step deskTyping).net.router desk.coordinator) = true ∧
      (run.foldl Typing.step deskTyping).net.Drained ∧ (run.foldl Typing.step deskTyping).captured = [keyA true] ∧
      (run.foldl Typing.step deskTyping).typed = [] := by
  refine ⟨desk_start, by decide +kernel, by decide +kernel, ?_, by decide +kernel, by decide +kernel⟩
  intro p i
  cases p <;> revert i <;> decide +kernel

end DeskHop.Chain
