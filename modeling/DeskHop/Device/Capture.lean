/-
  DeskHop.Device.Capture — the two cores of a chain board (`firmware/rp2040/src/hid_bridge.c`,
  and the main loop around it).

  Core 1 runs the USB host: its callbacks note which devices there are, and put each boot report
  into a queue. Core 0 runs the main loop, which takes the reports out when it comes to it. Either
  may come between any two steps of the other; a queue is taken as one, for it has a lock.

  Proved, of every run: a report is lost only if its queue was full when it came, and the
  others reach the router once and in order (`captured`). A board that is not paired hands its own
  machine all of them that it takes from the time it has listened long enough, none before and
  nothing else (`level_zero`).
-/

import DeskHop.Client.Usb
import DeskHop.Election.Offers
import DeskHop.Lib.RingBuffer
import DeskHop.Routing.Alone

namespace DeskHop.Device

open DeskHop.Lib DeskHop.Election DeskHop.Routing DeskHop.Wire DeskHop.Trust DeskHop.Client

/-! ## Core 1 -/

/-- What the host stack says an interface speaks. -/
inductive ItfProtocol where
  | none
  | keyboard
  | mouse
  deriving DecidableEq

def kbdRoom : Nat := 32
def mouseRoom : Nat := 64

/-- Boot keyboard: modifiers, reserved, then six keycodes. -/
def bootKbd (report : List Byte) : KbdReport := ⟨byteAt report 0, slice report 2 6⟩

/-- Boot mouse: buttons, two deltas, and the wheel if it sends one. -/
def bootMouse (report : List Byte) : MouseReport :=
  { dx := (byteAt report 1).toInt8.toInt16, dy := (byteAt report 2).toInt8.toInt16
    wheel := if report.length ≥ 4 then (byteAt report 3).toInt8 else 0, pan := 0, buttons := byteAt report 0 }

/-- What both cores share, and the board that core 0 is. `past` is a ghost: what core 0 has done. -/
structure Cores where
  fw : Firmware
  kbdQ : RingBuffer.Shared KbdReport kbdRoom
  mouseQ : RingBuffer.Shared MouseReport mouseRoom
  haveKbd : Bool
  haveMouse : Bool
  past : List Client.Event

namespace Cores

def hasInputDevice (s : Cores) : Bool := s.haveKbd || s.haveMouse

def mountCb (s : Cores) (proto : ItfProtocol) : Cores :=
  match proto with
  | .keyboard => { s with haveKbd := true }
  | .mouse => { s with haveMouse := true }
  | .none => s

def umountCb (s : Cores) (proto : ItfProtocol) : Cores :=
  match proto with
  | .keyboard => { s with haveKbd := false }
  | .mouse => { s with haveMouse := false }
  | .none => s

def reportReceivedCb (s : Cores) (proto : ItfProtocol) (report : List Byte) : Cores :=
  if proto = .keyboard ∧ report.length ≥ 8 then { s with kbdQ := s.kbdQ.putWhole (bootKbd report) }
  else if proto = .mouse ∧ report.length ≥ 3 then { s with mouseQ := s.mouseQ.putWhole (bootMouse report) }
  else s

/-! ## Core 0 -/

def popKbd (s : Cores) : Option KbdReport × Cores := (s.kbdQ.ring.pop.1, { s with kbdQ := s.kbdQ.takeWhole })

def popMouse (s : Cores) : Option MouseReport × Cores := (s.mouseQ.ring.pop.1, { s with mouseQ := s.mouseQ.takeWhole })

variable (c : Crypto)

def act (s : Cores) (e : Client.Event) : Cores := { s with fw := s.fw.act c e, past := s.past ++ [e] }

inductive Event where
  | mount (proto : ItfProtocol)
  | umount (proto : ItfProtocol)
  | report (proto : ItfProtocol) (report : List Byte)
  /-- The main loop comes to the keyboard's queue, or to the mouse's. -/
  | kbd
  | mouse (now : Time)
  /-- It looks whether there is a device. -/
  | plugged
  | main (e : Client.Event)

/-- Not what the queues and the flags are for. -/
def besides : Client.Event → Bool
  | .localKbd _ => false
  | .localMouse _ _ => false
  | .plug _ => false
  | _ => true

def step (s : Cores) : Event → Cores
  | .mount proto => s.mountCb proto
  | .umount proto => s.umountCb proto
  | .report proto report => s.reportReceivedCb proto report
  | .kbd =>
    match s.popKbd with
    | (none, s) => s
    | (some r, s) => s.act c (.localKbd r)
  | .mouse now =>
    match s.popMouse with
    | (none, s) => s
    | (some r, s) => s.act c (.localMouse r now)
  | .plugged => s.act c (.plug s.hasInputDevice)
  | .main e => if besides e then s.act c e else s

def run (s : Cores) (es : List Event) : Cores := es.foldl (step c) s

/-- Nothing is plugged in yet, and the queues are there before core 1 is. -/
def boot (self : Addr) (uid : Uid) (stored : Option Key) (now : Time) : Cores :=
  { fw := Firmware.boot self uid stored false now
    kbdQ := .start ⟨fun _ => kbdZero, 0, 0⟩, mouseQ := .start ⟨fun _ => mouseZero, 0, 0⟩
    haveKbd := false, haveMouse := false, past := [] }

end Cores

/-! ## What the devices send -/

/-- What the router was given of the keyboard. -/
def kbdOf (es : List Client.Event) : List KbdReport :=
  es.filterMap fun e => match e with
    | .localKbd r => some r
    | _ => none

def mouseOf (es : List Client.Event) : List MouseReport :=
  es.filterMap fun e => match e with
    | .localMouse r _ => some r
    | _ => none

/-- What the keyboard sent. -/
def kbdSent (es : List Cores.Event) : List KbdReport :=
  es.filterMap fun e => match e with
    | .report .keyboard report => if report.length ≥ 8 then some (bootKbd report) else none
    | _ => none

def mouseSent (es : List Cores.Event) : List MouseReport :=
  es.filterMap fun e => match e with
    | .report .mouse report => if report.length ≥ 3 then some (bootMouse report) else none
    | _ => none

/-! ## Through the queues -/

/-- One queue: `sent` was offered to it, and core 0 has `taken` what came out. -/
structure Carries {α : Type} {n : Nat} (q : RingBuffer.Shared α n) (sent taken : List α) : Prop where
  sound : q.Sound
  putting : q.putting = .idle
  taking : q.taking = .idle
  offered : q.offered.map Prod.fst = sent
  taken : q.taken = taken

namespace Carries

variable {α : Type} {n : Nat} {q : RingBuffer.Shared α n} {sent taken : List α}

theorem put (h : Carries q sent taken) (a : α) : Carries (q.putWhole a) (sent ++ [a]) taken := by
  refine ⟨h.sound.putWhole h.putting a, h.putting, h.taking, ?_, h.taken⟩
  show (q.offered ++ [(a, q.ring.held)]).map Prod.fst = sent ++ [a]
  rw [List.map_append, h.offered]
  rfl

theorem take (h : Carries q sent taken) : Carries q.takeWhole sent (taken ++ q.ring.pop.1.toList) := by
  refine ⟨h.sound.takeWhole h.taking, h.putting, h.taking, h.offered, ?_⟩
  show q.taken ++ q.ring.pop.1.toList = _
  rw [h.taken]

theorem flow (h : Carries q sent taken) : taken ++ q.ring.contents = q.accepted := by
  have hflow := h.sound.flow
  rw [RingBuffer.Shared.waiting, h.putting, RingBuffer.Putting.inHand, List.append_nil, h.taken] at hflow
  exact hflow

end Carries

theorem kbdOf_snoc (es : List Client.Event) (e : Client.Event) : kbdOf (es ++ [e]) = kbdOf es ++ kbdOf [e] :=
  List.filterMap_append

theorem mouseOf_snoc (es : List Client.Event) (e : Client.Event) : mouseOf (es ++ [e]) = mouseOf es ++ mouseOf [e] :=
  List.filterMap_append

theorem kbdSent_snoc (es : List Cores.Event) (e : Cores.Event) : kbdSent (es ++ [e]) = kbdSent es ++ kbdSent [e] :=
  List.filterMap_append

theorem mouseSent_snoc (es : List Cores.Event) (e : Cores.Event) : mouseSent (es ++ [e]) = mouseSent es ++ mouseSent [e] :=
  List.filterMap_append

namespace Cores

/-- Both queues, after `es`. -/
structure Flows (es : List Event) (s : Cores) : Prop where
  kbd : Carries s.kbdQ (kbdSent es) (kbdOf s.past)
  mouse : Carries s.mouseQ (mouseSent es) (mouseOf s.past)

variable (c : Crypto)

theorem flows_boot (self : Addr) (uid : Uid) (stored : Option Key) (now : Time) : Flows [] (boot self uid stored now) :=
  ⟨⟨RingBuffer.Shared.sound_start rfl, rfl, rfl, rfl, rfl⟩, ⟨RingBuffer.Shared.sound_start rfl, rfl, rfl, rfl, rfl⟩⟩

/-- What brings no report, and takes none. -/
theorem Flows.same {es : List Event} {s t : Cores} (h : Flows es s) {e : Event} (hk : t.kbdQ = s.kbdQ)
    (hm : t.mouseQ = s.mouseQ) (hp : kbdOf t.past = kbdOf s.past ∧ mouseOf t.past = mouseOf s.past)
    (hs : kbdSent [e] = [] ∧ mouseSent [e] = []) : Flows (es ++ [e]) t := by
  constructor
  · rw [kbdSent_snoc, hs.1, List.append_nil, hk, hp.1]
    exact h.kbd
  · rw [mouseSent_snoc, hs.2, List.append_nil, hm, hp.2]
    exact h.mouse

theorem Flows.step {es : List Event} {s : Cores} (h : Flows es s) (e : Event) : Flows (es ++ [e]) (s.step c e) := by
  cases e with
  | mount proto => cases proto <;> exact h.same rfl rfl ⟨rfl, rfl⟩ ⟨rfl, rfl⟩
  | umount proto => cases proto <;> exact h.same rfl rfl ⟨rfl, rfl⟩ ⟨rfl, rfl⟩
  | plugged =>
    refine h.same rfl rfl ⟨?_, ?_⟩ ⟨rfl, rfl⟩
    · exact (kbdOf_snoc s.past _).trans (List.append_nil _)
    · exact (mouseOf_snoc s.past _).trans (List.append_nil _)
  | main e =>
    show Flows _ (if besides e then s.act c e else s)
    split
    · rename_i hb
      have hnone : kbdOf [e] = [] ∧ mouseOf [e] = [] := by
        cases e <;> first | exact ⟨rfl, rfl⟩ | cases hb
      refine h.same rfl rfl ⟨?_, ?_⟩ ⟨rfl, rfl⟩
      · rw [act, kbdOf_snoc, hnone.1, List.append_nil]
      · rw [act, mouseOf_snoc, hnone.2, List.append_nil]
    · exact h.same rfl rfl ⟨rfl, rfl⟩ ⟨rfl, rfl⟩
  | report proto report =>
    show Flows _ (s.reportReceivedCb proto report)
    unfold reportReceivedCb
    split
    · rename_i hkbd
      obtain ⟨rfl, hlen⟩ := hkbd
      have hsent : kbdSent [.report .keyboard report] = [bootKbd report] := by simp [kbdSent, hlen]
      constructor
      · rw [kbdSent_snoc, hsent]
        exact h.kbd.put _
      · rw [mouseSent_snoc]
        exact (List.append_nil (mouseSent es)).symm ▸ h.mouse
    split
    · rename_i hmouse
      obtain ⟨rfl, hlen⟩ := hmouse
      have hsent : mouseSent [.report .mouse report] = [bootMouse report] := by simp [mouseSent, hlen]
      constructor
      · rw [kbdSent_snoc]
        exact (List.append_nil (kbdSent es)).symm ▸ h.kbd
      · rw [mouseSent_snoc, hsent]
        exact h.mouse.put _
    · rename_i hkbd hmouse
      refine h.same rfl rfl ⟨rfl, rfl⟩ ⟨?_, ?_⟩
      · cases proto <;> simp [kbdSent]
        by_contra hlen
        exact hkbd ⟨rfl, Nat.le_of_not_lt hlen⟩
      · cases proto <;> simp [mouseSent]
        by_contra hlen
        exact hmouse ⟨rfl, Nat.le_of_not_lt hlen⟩
  | kbd =>
    have htaken := h.kbd.take
    have hmouse : mouseSent (es ++ [.kbd]) = mouseSent es := (mouseSent_snoc es _).trans (List.append_nil _)
    have hkbd : kbdSent (es ++ [.kbd]) = kbdSent es := (kbdSent_snoc es _).trans (List.append_nil _)
    simp only [Cores.step, popKbd]
    cases hpop : s.kbdQ.ring.pop.1 with
    | none =>
      rw [hpop, Option.toList_none, List.append_nil] at htaken
      exact ⟨hkbd.symm ▸ htaken, hmouse.symm ▸ h.mouse⟩
    | some r =>
      rw [hpop] at htaken
      refine ⟨?_, ?_⟩
      · rw [hkbd]
        show Carries _ _ (kbdOf (s.past ++ [.localKbd r]))
        rw [kbdOf_snoc]
        exact htaken
      · rw [hmouse]
        show Carries _ _ (mouseOf (s.past ++ [.localKbd r]))
        rw [mouseOf_snoc]
        exact (List.append_nil (mouseOf s.past)).symm ▸ h.mouse
  | mouse now =>
    have htaken := h.mouse.take
    have hmouse : mouseSent (es ++ [.mouse now]) = mouseSent es := (mouseSent_snoc es _).trans (List.append_nil _)
    have hkbd : kbdSent (es ++ [.mouse now]) = kbdSent es := (kbdSent_snoc es _).trans (List.append_nil _)
    simp only [Cores.step, popMouse]
    cases hpop : s.mouseQ.ring.pop.1 with
    | none =>
      rw [hpop, Option.toList_none, List.append_nil] at htaken
      exact ⟨hkbd.symm ▸ h.kbd, hmouse.symm ▸ htaken⟩
    | some r =>
      rw [hpop] at htaken
      refine ⟨?_, ?_⟩
      · rw [hkbd]
        show Carries _ _ (kbdOf (s.past ++ [.localMouse r now]))
        rw [kbdOf_snoc]
        exact (List.append_nil (kbdOf s.past)).symm ▸ h.kbd
      · rw [hmouse]
        show Carries _ _ (mouseOf (s.past ++ [.localMouse r now]))
        rw [mouseOf_snoc]
        exact htaken

theorem flows_run (self : Addr) (uid : Uid) (stored : Option Key) (now : Time) (es : List Event) :
    Flows es (run c (boot self uid stored now) es) := by
  induction es using List.reverseRecOn with
  | nil => exact flows_boot self uid stored now
  | append_singleton es e ih =>
    rw [run, List.foldl_append]
    exact ih.step c e

/-- Of what was sent, what was given to the router and what still waits are, in order, what did
    not find the queue full. -/
def OnlyFullLoses {α : Type} {n : Nat} (q : RingBuffer.Shared α n) (sent given : List α) : Prop :=
  q.offered.map Prod.fst = sent ∧ given ++ q.ring.contents = (q.offered.filter fun o => o.2 < n).map Prod.fst

/-- However the two cores interleave. -/
theorem captured (self : Addr) (uid : Uid) (stored : Option Key) (now : Time) (es : List Event) :
    OnlyFullLoses (run c (boot self uid stored now) es).kbdQ (kbdSent es) (kbdOf (run c (boot self uid stored now) es).past) ∧
      OnlyFullLoses (run c (boot self uid stored now) es).mouseQ (mouseSent es)
        (mouseOf (run c (boot self uid stored now) es).past) :=
  have h := flows_run c self uid stored now es
  ⟨⟨h.kbd.offered, h.kbd.flow⟩, ⟨h.mouse.offered, h.mouse.flow⟩⟩

end Cores

/-! ## A board that is not paired -/

def inputOf : Act → Option Input
  | .deliverKbd r => some (.kbd r)
  | .deliverMouse r => some (.mouse r)
  | _ => none

/-- What the main loop hands to the router. -/
def given : Client.Event → Option Input
  | .localKbd r => some (.kbd r)
  | .localMouse r _ => some (.mouse r)
  | _ => none

theorem inputs_toMachine (acts : List Act) : (toMachine acts).filterMap inputOf = acts.filterMap inputOf := by
  rw [toMachine, List.filterMap_filter]
  refine List.filterMap_congr fun a _ => ?_
  cases a <;> rfl

theorem foldl_perform (acts : List Act) (d : Firmware) :
    (acts.foldl Firmware.perform d).router = d.router ∧
      (acts.foldl Firmware.perform d).delivered = d.delivered ++ acts.filterMap inputOf := by
  induction acts generalizing d with
  | nil => exact ⟨rfl, (List.append_nil _).symm⟩
  | cons a acts ih =>
    obtain ⟨hrouter, hdelivered⟩ := ih (d.perform a)
    rw [List.foldl_cons, hrouter, hdelivered]
    cases a <;> exact ⟨rfl, by simp [Firmware.perform, inputOf, List.filterMap_cons]⟩

theorem route_effect (d : Firmware) (op : Routing.Op) :
    (d.route op).router = { Routing.step d.router op with out := [] } ∧
      (d.route op).delivered = d.delivered ++ (toMachine (Routing.step d.router op).out).filterMap inputOf := by
  rw [inputs_toMachine]
  exact foldl_perform _ _

/-- What a step of the main loop does to the router and to the machine: nothing, or one
    operation no frame has asked for. -/
inductive Touches (d d' : Firmware) (e : Client.Event) : Prop where
  | nothing : given e = none → (∀ now, e ≠ .tick now) → d'.router = d.router → d'.delivered = d.delivered → Touches d d' e
  | asks (op : Routing.Op) : Unasked op → (ownReport op).filterMap inputOf = (given e).toList →
      (∀ now, op = .tick now ↔ e = .tick now) →
      d'.router = { Routing.step d.router op with out := [] } →
      d'.delivered = d.delivered ++ (toMachine (Routing.step d.router op).out).filterMap inputOf → Touches d d' e

/-- A chain board always has a screen. -/
theorem screen_currentCaps (d : Firmware) : hasCap d.currentCaps capHidOut = true := by
  refine (hasCap_or _ (clientCapsOf d.client) capHidOut).mpr (Or.inl ?_)
  cases d.hasInput <;> decide

theorem route_touches {d : Firmware} {op : Routing.Op} {e : Client.Event} (ho : Unasked op)
    (hin : (ownReport op).filterMap inputOf = (given e).toList) (ht : ∀ now, op = .tick now ↔ e = .tick now) :
    Touches d (d.route op) e :=
  .asks op ho hin ht (route_effect d op).1 (route_effect d op).2

theorem act_touches (c : Crypto) {d : Firmware} (hp : d.node.paired = false) (e : Client.Event) : Touches d (d.act c e) e := by
  cases e with
  | byte p b now =>
    refine .nothing rfl (fun _ h => by cases h) ?_ ?_
    all_goals
      simp only [Firmware.act, Firmware.rxByte, hp, Bool.and_false, Bool.false_eq_true, if_false]
      split <;> rfl
  | localKbd rep => exact route_touches trivial rfl fun _ => by simp
  | localMouse rep now => exact route_touches trivial rfl fun _ => by simp
  | switchButton now => exact route_touches trivial rfl fun _ => by simp
  | tick now => exact route_touches trivial rfl fun _ => by simp
  | caps =>
    simp only [Firmware.act, Firmware.checkCaps]
    split
    · exact .asks (.setCaps d.currentCaps) (screen_currentCaps d) rfl (fun _ => by simp) (route_effect d _).1 (route_effect d _).2
    · exact .nothing rfl (fun _ h => by cases h) rfl rfl
  | report data now =>
    have hsame : (data.foldl (fun d b => d.clientByte b now) d).router = d.router ∧
        (data.foldl (fun d b => d.clientByte b now) d).delivered = d.delivered := by
      refine List.foldlRecOn (motive := fun d' : Firmware => d'.router = d.router ∧ d'.delivered = d.delivered) _ _ ⟨rfl, rfl⟩
        fun d' h b _ => ?_
      simp only [Firmware.clientByte]
      split <;> exact h
    exact .nothing rfl (fun _ h => by cases h) hsame.1 hsame.2
  | task ready now =>
    refine .nothing rfl (fun _ h => by cases h) ?_ ?_
    all_goals
      simp only [Firmware.act, Firmware.task]
      split <;> rfl
  | pairButton now fresh => exact .nothing rfl (fun _ h => by cases h) rfl rfl
  | unpairButton now => exact .nothing rfl (fun _ h => by cases h) rfl rfl
  | plug hasInput => exact .nothing rfl (fun _ h => by cases h) rfl rfl
  | pairTick now => exact .nothing rfl (fun _ h => by cases h) rfl rfl
  | drain now => exact .nothing rfl (fun _ h => by cases h) rfl rfl

/-- It comes before the first tick after `due`, as far as it can tell. -/
def early (due : Time) : Client.Event → Bool
  | .tick now => !timeAfter now due
  | _ => true

/-- A board that has never been paired, which may take the role at `due`. -/
inductive Lone (due : Time) (s : Cores) : Prop where
  | listening : Listening due s.fw.router → (∀ e ∈ s.past, early due e = true) → s.fw.delivered = [] → Lone due s
  | serving (before : List Client.Event) (now : Time) (after : List Client.Event) : Serving s.fw.router →
      s.past = before ++ .tick now :: after → (∀ e ∈ before, early due e = true) → timeAfter now due = true →
      s.fw.delivered = after.filterMap given → Lone due s

theorem early_of_not_tick {due : Time} {e : Client.Event} (h : ∀ now, e ≠ .tick now) : early due e = true := by
  cases e with
  | tick now => exact absurd rfl (h now)
  | _ => rfl

theorem all_early {due : Time} {es : List Client.Event} {e : Client.Event} (h : ∀ x ∈ es, early due x = true)
    (he : early due e = true) : ∀ x ∈ es ++ [e], early due x = true := by
  intro x hx
  rcases List.mem_append.mp hx with hx | hx
  · exact h x hx
  · rw [List.mem_singleton.mp hx]
    exact he

theorem Lone.act (c : Crypto) {due : Time} {s : Cores} (hp : s.fw.node.paired = false) (h : Lone due s) (e : Client.Event) :
    Lone due (s.act c e) := by
  have htouches := act_touches c hp e
  cases h with
  | listening hl hearly hnone =>
    cases htouches with
    | nothing _ hnt hrouter hdelivered =>
      refine .listening ?_ (all_early hearly (early_of_not_tick hnt)) (hdelivered.trans hnone)
      exact hrouter.symm ▸ hl
    | asks op ho hin htick hrouter hdelivered =>
      have hquiet {acts : List Act} (hacts : toMachine acts = []) :
          s.fw.delivered ++ (toMachine acts).filterMap inputOf = [] := by
        rw [hnone, hacts]
        rfl
      by_cases hnt : ∃ now, op = .tick now
      · obtain ⟨now, rfl⟩ := hnt
        have he : e = .tick now := (htick now).mp rfl
        cases hdue : timeAfter now due with
        | true =>
          obtain ⟨hserving, hsilent⟩ := hl.ripe hdue
          refine .serving s.past now [] ?_ (by rw [Cores.act, he]) hearly hdue ?_
          · exact hrouter.symm ▸ hserving.cleared
          · exact hdelivered.trans (hquiet hsilent)
        | false =>
          obtain ⟨hlistening, hsilent⟩ := hl.early hdue
          refine .listening ?_ (all_early hearly ?_) (hdelivered.trans (hquiet hsilent))
          · exact hrouter.symm ▸ hlistening.cleared
          · rw [he, Device.early, hdue]
            rfl
      · have hop : ∀ now, op ≠ .tick now := fun now h => hnt ⟨now, h⟩
        obtain ⟨hlistening, hsilent⟩ := hl.step ho hop
        refine .listening ?_ (all_early hearly (early_of_not_tick fun now he => hop now ((htick now).mpr he)))
          (hdelivered.trans (hquiet hsilent))
        exact hrouter.symm ▸ hlistening.cleared
  | serving before now after hs hpast hbefore hdue hsofar =>
    have hlonger : (s.act c e).past = before ++ .tick now :: (after ++ [e]) := by
      rw [Cores.act, hpast, List.append_assoc, List.cons_append]
    have hmore (h : (s.fw.act c e).delivered = s.fw.delivered ++ (given e).toList) :
        (s.act c e).fw.delivered = (after ++ [e]).filterMap given := by
      show (s.fw.act c e).delivered = _
      rw [h, hsofar, List.filterMap_append]
      cases hg : given e <;> simp [hg]
    cases htouches with
    | nothing hnone _ hrouter hdelivered =>
      refine .serving before now (after ++ [e]) ?_ hlonger hbefore hdue (hmore ?_)
      · exact hrouter.symm ▸ hs
      · rw [hdelivered, hnone]
        exact (List.append_nil _).symm
    | asks op ho hin _ hrouter hdelivered =>
      obtain ⟨hserving, hgiven⟩ := hs.step ho
      refine .serving before now (after ++ [e]) ?_ hlonger hbefore hdue (hmore ?_)
      · exact hrouter.symm ▸ hserving.cleared
      · rw [hdelivered, hgiven, hin]

theorem Lone.step (c : Crypto) {due : Time} {s : Cores} (hp : s.fw.node.paired = false) (h : Lone due s) (e : Cores.Event) :
    Lone due (s.step c e) := by
  have hsame {t : Cores} (hf : t.fw = s.fw) (hpast : t.past = s.past) : Lone due t := by
    cases h with
    | listening hl hearly hnone => exact .listening (hf ▸ hl) (hpast ▸ hearly) (hf ▸ hnone)
    | serving before now after hs hto hbefore hdue hsofar =>
      exact .serving before now after (hf ▸ hs) (hpast ▸ hto) hbefore hdue (hf ▸ hsofar)
  cases e with
  | mount proto => cases proto <;> exact hsame rfl rfl
  | umount proto => cases proto <;> exact hsame rfl rfl
  | report proto report =>
    show Lone due (s.reportReceivedCb proto report)
    unfold Cores.reportReceivedCb
    split
    · exact hsame rfl rfl
    split <;> exact hsame rfl rfl
  | kbd =>
    simp only [Cores.step, Cores.popKbd]
    cases s.kbdQ.ring.pop.1 with
    | none => exact hsame rfl rfl
    | some r =>
      have htaken : Lone due { s with kbdQ := s.kbdQ.takeWhole } := hsame rfl rfl
      exact Lone.act (s := { s with kbdQ := s.kbdQ.takeWhole }) c hp htaken (.localKbd r)
  | mouse now =>
    simp only [Cores.step, Cores.popMouse]
    cases s.mouseQ.ring.pop.1 with
    | none => exact hsame rfl rfl
    | some r =>
      have htaken : Lone due { s with mouseQ := s.mouseQ.takeWhole } := hsame rfl rfl
      exact Lone.act (s := { s with mouseQ := s.mouseQ.takeWhole }) c hp htaken (.localMouse r now)
  | plugged => exact h.act c hp _
  | main e =>
    show Lone due (if Cores.besides e then s.act c e else s)
    split
    · exact h.act c hp e
    · exact h

/-- The address of a board, from its unique number; the reserved ones are mapped away. -/
def boardAddr (uid : Uid) : Addr :=
  let a := (uid ^^^ uid >>> 16 ^^^ uid >>> 32 ^^^ uid >>> 48).toUInt16
  if a = addrNone ∨ a = addrBroadcast then 1 else a

theorem boardAddr_named (uid : Uid) : boardAddr uid ≠ addrNone := by
  simp only [boardAddr]
  split
  · decide
  · rename_i h
    exact fun ha => h (Or.inl ha)

theorem lone_boot (uid : Uid) (now : Time) : Lone (now + 150) (Cores.boot (boardAddr uid) uid none now) := by
  let cfg : RouterCfg := ⟨boardAddr uid, uid, capHidOut, false, timingDefault, pointerCfgDefault⟩
  have hnamed : cfg.self ≠ addrNone := boardAddr_named uid
  obtain ⟨hl, hsilent⟩ := listening_start hnamed (show hasCap capHidOut capHidOut = true by decide)
    (show timingDefault.helloMs ≠ 0 by decide) now
  obtain ⟨hrouter, hdelivered⟩ := route_effect
    { node := Node.boot (boardAddr uid) uid none ⟨0, false⟩
      router := routerInit ⟨boardAddr uid, uid, capHidOut, false, timingDefault, pointerCfgDefault⟩
      client := clientInit, lastCaps := capHidOut, hasInput := false, delivered := [], history := [], proxied := [] }
    (.start now)
  rw [hsilent] at hdelivered
  refine .listening ?_ (fun _ h => absurd h List.not_mem_nil) hdelivered
  show Listening _ (Firmware.boot (boardAddr uid) uid none false now).router
  rw [Firmware.boot]
  exact hrouter.symm ▸ hl.cleared

def mouseReports (inputs : List Input) : List MouseReport :=
  inputs.filterMap fun i => match i with
    | .mouse r => some r
    | .kbd _ => none

theorem kbdReports_given (es : List Client.Event) : kbdReports (es.filterMap given) = kbdOf es := by
  rw [kbdReports, List.filterMap_filterMap]
  refine List.filterMap_congr fun e _ => ?_
  cases e <;> rfl

theorem mouseReports_given (es : List Client.Event) : mouseReports (es.filterMap given) = mouseOf es := by
  rw [mouseReports, List.filterMap_filterMap]
  refine List.filterMap_congr fun e _ => ?_
  cases e <;> rfl

/-- The states of a board that was not paired when it was started, and is not yet. -/
def NeverPaired (c : Crypto) (uid : Uid) (now : Time) : Cores → Prop :=
  Reach (· = Cores.boot (boardAddr uid) uid none now) (fun s _ => s.fw.node.paired = false) (Cores.step c)

/-- A board by itself is a keyboard and mouse to its own machine, which is given what the main
    loop takes out of the queues from the first tick 150 ms after the start, in that order, and
    nothing else. -/
theorem level_zero (c : Crypto) {uid : Uid} {now : Time} {s : Cores} (h : NeverPaired c uid now s) :
    s.fw.delivered = (s.past.dropWhile (early (now + 150))).filterMap given ∧
      s.kbdQ.accepted = kbdOf (s.past.takeWhile (early (now + 150))) ++ kbdReports s.fw.delivered ++ s.kbdQ.ring.contents ∧
      s.mouseQ.accepted =
        mouseOf (s.past.takeWhile (early (now + 150))) ++ mouseReports s.fw.delivered ++ s.mouseQ.ring.contents := by
  have hlone : Lone (now + 150) s := by
    refine h.inv (I := Lone (now + 150)) (fun s hs => ?_) fun s e hi hp => hi.step c hp e
    rw [hs]
    exact lone_boot uid now
  obtain ⟨es, hflows⟩ : ∃ es, Cores.Flows es s := by
    refine h.inv (I := fun s => ∃ es, Cores.Flows es s) (fun s hs => ?_) fun s e hi _ => ?_
    · rw [hs]
      exact ⟨[], Cores.flows_boot _ _ _ _⟩
    · obtain ⟨es, hi⟩ := hi
      exact ⟨es ++ [e], hi.step c e⟩
  have hdelivered : s.fw.delivered = (s.past.dropWhile (early (now + 150))).filterMap given := by
    cases hlone with
    | listening _ hearly hnone =>
      rw [hnone, List.dropWhile_eq_nil_iff.mpr hearly]
      rfl
    | serving before t after _ hpast hbefore hdue hsofar =>
      have hripe : early (now + 150) (.tick t) = false := by rw [early, hdue]; rfl
      rw [hsofar, hpast, List.dropWhile_append_of_pos hbefore, List.dropWhile_cons_of_neg (by simp [hripe])]
      rfl
  refine ⟨hdelivered, ?_, ?_⟩
  · rw [hdelivered, kbdReports_given, ← hflows.kbd.flow, kbdOf, kbdOf, kbdOf, ← List.filterMap_append,
      List.takeWhile_append_dropWhile]
  · rw [hdelivered, mouseReports_given, ← hflows.mouse.flow, mouseOf, mouseOf, mouseOf, ← List.filterMap_append,
      List.takeWhile_append_dropWhile]

/-- A keyboard is plugged in, a key goes down too early and comes up, and goes down again. -/
def typed : List Cores.Event :=
  [.mount .keyboard, .plugged, .main .caps, .report .keyboard [0, 0, 4, 0, 0, 0, 0, 0], .kbd, .main (.tick 100),
    .report .keyboard [0, 0, 0, 0, 0, 0, 0, 0], .main (.tick 151), .kbd, .report .keyboard [2, 0, 5, 0, 0, 0, 0, 0], .kbd,
    .report .keyboard [0, 0, 0, 0, 0, 0, 0, 0]]

theorem level_zero_of_typed :
    (Cores.run mockCrypto (Cores.boot (boardAddr 7) 7 none 0) typed).fw.delivered =
      [.kbd kbdZero, .kbd ⟨2, ⟨[5, 0, 0, 0, 0, 0], rfl⟩⟩] := by
  have h0 : NeverPaired mockCrypto 7 0 (Cores.boot (boardAddr 7) 7 none 0) := .init rfl
  have h : NeverPaired mockCrypto 7 0 (Cores.run mockCrypto (Cores.boot (boardAddr 7) 7 none 0) typed) :=
    h0.run typed (by decide +kernel)
  exact (level_zero mockCrypto h).1.trans (by decide +kernel)

end DeskHop.Device
