/-
  DeskHop.Routing.Announce — what a router tells the chain.

  Proved, for a router that has acted on all its events: a call of the election leaves
  it with a message for everybody or none, RESIGN exactly when it gives the role up, and
  with the focus it had unless it is promoted, when the focus is the inherited one and
  is announced (`announced_drain`); and no frame but those makes it send anything, unless
  it carries input (`step_rx_other`).
-/

import DeskHop.Election.Step
import DeskHop.Routing.Step

namespace DeskHop.Routing

open DeskHop.Lib DeskHop.Election DeskHop.Wire

/-- What a frame says, whoever passes it on. -/
structure Content where
  type : MsgType
  dst : Addr
  payload : List Byte
  deriving DecidableEq

def sentBy : Act → Option Content
  | .send type dst payload => some ⟨type, dst, payload⟩
  | _ => none

/-- What is asked of the link, in order. -/
def sends (acts : List Act) : List Content := acts.filterMap sentBy

/-- The reports handed to the board's own machine. -/
def handed (acts : List Act) : List KbdReport :=
  acts.filterMap fun
    | .deliverKbd rep => some rep
    | _ => none

theorem sends_emit (r : Router) (a : Act) : sends (r.emit a).out = sends r.out ++ (sentBy a).toList := by
  show List.filterMap sentBy (r.out ++ [a]) = _
  rw [List.filterMap_append]
  cases h : sentBy a <;> simp [sends, h]

/-! ## The inherited focus -/

theorem pickDefaultFocus_congr {r s : Router} (hc : s.chain = r.chain) (hg : s.cfg = r.cfg) :
    pickDefaultFocus s = pickDefaultFocus r := by
  have hstep : defaultStep s = defaultStep r := by
    funext best e
    simp only [defaultStep, hg]
  simp only [pickDefaultFocus, hc, hg, hstep]

theorem inheritedFocus_congr {r s : Router} (hf : s.focus = r.focus) (hc : s.chain = r.chain) (hg : s.cfg = r.cfg) :
    inheritedFocus s = inheritedFocus r := by
  unfold inheritedFocus chainFind
  rw [pickDefaultFocus_congr hc hg, hf, hc]

/-- Another board that has a machine. -/
def candidate (r : Router) (e : ChainEntry) : Bool := e.used && e.addr != r.cfg.self && hasCap e.caps capHidOut

def distance (e : ChainEntry) : Int := if e.relPos < 0 then -e.relPos else e.relPos

/-- `m` is the nearest other board with a machine, the first in the table of several. -/
def Nearest (r : Router) (m : Addr) : Prop :=
  ∃ before e after, r.chain.cells = before ++ e :: after ∧ candidate r e = true ∧ e.addr = m ∧
    (∀ x ∈ before, candidate r x = true → distance e < distance x) ∧
    ∀ x ∈ after, candidate r x = true → distance e ≤ distance x

/-- Entry `k` is the one that `Nearest` speaks of. -/
def nearestAt (r : Router) (m : Addr) (k : Nat) : Bool :=
  (r.chain.cells[k]?).any fun e => candidate r e && e.addr == m &&
    (r.chain.cells.take k).all (fun x => !candidate r x || distance e < distance x) &&
    (r.chain.cells.drop (k + 1)).all fun x => !candidate r x || distance e ≤ distance x

theorem nearest_iff (r : Router) (m : Addr) : Nearest r m ↔ ∃ k < r.chain.cells.length, nearestAt r m k = true := by
  constructor
  · rintro ⟨before, e, after, hcells, hc, rfl, hbefore, hafter⟩
    refine ⟨before.length, by rw [hcells]; simp, ?_⟩
    simp only [nearestAt, hcells, List.getElem?_append_right (Nat.le_refl _), Nat.sub_self, List.getElem?_cons_zero,
      Option.any_some, hc, beq_self_eq_true, Bool.and_self, Bool.true_and, List.take_left, List.drop_append,
      Nat.add_sub_cancel_left, List.drop_succ_cons, List.drop_zero, List.drop_eq_nil_of_le (Nat.le_succ _), List.nil_append]
    simp only [Bool.and_eq_true, List.all_eq_true, Bool.or_eq_true, Bool.not_eq_true', decide_eq_true_eq]
    refine ⟨fun x hx => ?_, fun x hx => ?_⟩
    · cases hcx : candidate r x with
      | false => exact Or.inl rfl
      | true => exact Or.inr (hbefore x hx hcx)
    · cases hcx : candidate r x with
      | false => exact Or.inl rfl
      | true => exact Or.inr (hafter x hx hcx)
  · rintro ⟨k, hk, h⟩
    obtain ⟨e, he, h⟩ := (Option.any_eq_true _ _).mp h
    simp only [Bool.and_eq_true, List.all_eq_true, Bool.or_eq_true, Bool.not_eq_true', decide_eq_true_eq, beq_iff_eq] at h
    obtain ⟨⟨⟨hc, ha⟩, hbefore⟩, hafter⟩ := h
    obtain ⟨_, hget⟩ := List.getElem?_eq_some_iff.mp he
    refine ⟨r.chain.cells.take k, e, r.chain.cells.drop (k + 1), ?_, hc, ha, fun x hx hcx => ?_, fun x hx hcx => ?_⟩
    · rw [← hget, List.getElem_cons_drop, List.take_append_drop]
    · exact (hbefore x hx).resolve_left fun h => by rw [hcx] at h; cases h
    · exact (hafter x hx).resolve_left fun h => by rw [hcx] at h; cases h

instance (r : Router) (m : Addr) : Decidable (Nearest r m) := decidable_of_iff _ (nearest_iff r m).symm

theorem defaultStep_eq (r : Router) (best : Addr × Int) (e : ChainEntry) : defaultStep r best e =
    if candidate r e = true ∧ (best.1 = addrNone ∨ distance e < best.2) then (e.addr, distance e) else best := by
  have hnot : (!e.used || e.addr == r.cfg.self || !hasCap e.caps capHidOut) = !candidate r e := by
    simp [candidate, Bool.not_and, bne]
  unfold defaultStep
  rw [hnot]
  by_cases hc : candidate r e = true
  · rw [hc]
    simp only [true_and]
    rfl
  · rw [if_pos (by simpa using hc), if_neg fun h => hc h.1]

/-- The search keeps the nearest: what it has found is none of those it has not seen. -/
theorem foldl_default_far {r : Router} {d : Int} (cells : List ChainEntry)
    (h : ∀ x ∈ cells, candidate r x = true → d < distance x) (best : Addr × Int) (hb : best.1 = addrNone ∨ d < best.2) :
    (cells.foldl (defaultStep r) best).1 = addrNone ∨ d < (cells.foldl (defaultStep r) best).2 := by
  induction cells generalizing best with
  | nil => exact hb
  | cons e cells ih =>
    refine ih (fun x hx => h x (List.mem_cons_of_mem _ hx)) _ ?_
    rw [defaultStep_eq]
    split
    · rename_i hc
      exact Or.inr (h e List.mem_cons_self hc.1)
    · exact hb

theorem foldl_default_near {r : Router} {m : Addr} {d : Int} (hm : m ≠ addrNone) (cells : List ChainEntry)
    (h : ∀ x ∈ cells, candidate r x = true → d ≤ distance x) : cells.foldl (defaultStep r) (m, d) = (m, d) := by
  induction cells with
  | nil => rfl
  | cons e cells ih =>
    have hstep : defaultStep r (m, d) e = (m, d) := by
      rw [defaultStep_eq, if_neg]
      rintro ⟨hc, hn | hlt⟩
      · exact hm hn
      · have := h e List.mem_cons_self hc
        simp only at hlt
        omega
    rw [List.foldl_cons, hstep]
    exact ih fun x hx => h x (List.mem_cons_of_mem _ hx)

theorem pickDefaultFocus_nearest {r : Router} {m : Addr} (hm : m ≠ addrNone) (hcap : hasCap r.cfg.caps capHidOut = false)
    (h : Nearest r m) : pickDefaultFocus r = m := by
  obtain ⟨before, e, after, hcells, hc, rfl, hbefore, hafter⟩ := h
  have hfar := foldl_default_far before hbefore (addrNone, 0) (Or.inl rfl)
  unfold pickDefaultFocus
  rw [if_neg (by simp [hcap]), hcells, List.foldl_append, List.foldl_cons, defaultStep_eq, if_pos ⟨hc, hfar⟩,
    foldl_default_near hm after hafter]

/-- The board takes the focus `m` over: it has heard of it, or knows of no focus and
    would choose `m` for itself. -/
def Inherits (r : Router) (m : Addr) : Prop :=
  (r.focus = m ∧ (chainFind r m).isSome = true) ∨
    ((r.focus = addrNone ∨ (chainFind r r.focus).isNone = true) ∧
      if hasCap r.cfg.caps capHidOut then r.cfg.self = m else Nearest r m)

instance (r : Router) (m : Addr) : Decidable (Inherits r m) :=
  inferInstanceAs (Decidable ((r.focus = m ∧ (chainFind r m).isSome = true) ∨
    ((r.focus = addrNone ∨ (chainFind r r.focus).isNone = true) ∧
      if hasCap r.cfg.caps capHidOut then r.cfg.self = m else Nearest r m)))

theorem inheritedFocus_of_inherits {r : Router} {m : Addr} (hm : m ≠ addrNone) (h : Inherits r m) :
    inheritedFocus r = m := by
  unfold inheritedFocus
  rcases h with ⟨hf, hk⟩ | ⟨hunknown, hd⟩
  · rw [if_neg, hf]
    rintro (h | h)
    · exact hm (hf.symm.trans h)
    · rw [hf, Option.isNone_iff_eq_none] at h
      rw [h] at hk
      cases hk
  · rw [if_pos hunknown]
    by_cases hcap : hasCap r.cfg.caps capHidOut = true
    · rw [if_pos hcap] at hd
      rw [pickDefaultFocus, if_pos hcap, hd]
    · rw [if_neg hcap] at hd
      exact pickDefaultFocus_nearest hm (Bool.eq_false_iff.mpr hcap) hd

/-! ## Evaluations -/

/-- From `s` to `t` the router asks for `cs`, and no more than that. -/
structure Says (s t : Router) (cs : List Content) : Prop where
  sent : sends t.out = sends s.out ++ cs
  focus : t.focus = s.focus
  chain : t.chain = s.chain
  cfg : t.cfg = s.cfg
  uhrp : t.uhrp = s.uhrp

namespace Says

theorem refl (s : Router) : Says s s [] := ⟨(List.append_nil _).symm, rfl, rfl, rfl, rfl⟩

theorem trans {s t u : Router} {cs ds : List Content} (h1 : Says s t cs) (h2 : Says t u ds) : Says s u (cs ++ ds) :=
  ⟨by rw [h2.sent, h1.sent, List.append_assoc], h2.focus.trans h1.focus, h2.chain.trans h1.chain, h2.cfg.trans h1.cfg,
    h2.uhrp.trans h1.uhrp⟩

theorem emit (s : Router) (a : Act) : Says s (s.emit a) (sentBy a).toList := ⟨sends_emit s a, rfl, rfl, rfl, rfl⟩

theorem ite {s t : Router} {cs : List Content} (b : Bool) (h : Says s t cs) :
    Says s (if b then t else s) (if b then cs else []) := by
  cases b
  · exact refl s
  · exact h

end Says

theorem says_broadcastReleaseAll (r : Router) : Says r (broadcastReleaseAll r) [⟨msgRelease, addrBroadcast, []⟩] :=
  (Says.emit r (.send msgRelease addrBroadcast [])).trans
    ⟨by simp [broadcastReleaseAll, sends_emit, sentBy], rfl, rfl, rfl, rfl⟩

theorem says_recomputeLevel (r : Router) : Says r (recomputeLevel r) [] := by
  simp only [recomputeLevel]
  split
  · exact ⟨by rw [sends_emit]; rfl, rfl, rfl, rfl, rfl⟩
  · exact Says.refl r

/-- The announcement of the focus by a board that has just become ACTIVE. -/
def focusNotice (m : Addr) : Content := ⟨msgFocus, addrBroadcast, focusPack ⟨m, focusRFailover, Edge.none.toByte⟩⟩

theorem announceFocus_says (r : Router) :
    sends (announceFocus r).out = sends r.out ++ (if inheritedFocus r = addrNone then [] else [focusNotice (inheritedFocus r)]) ∧
      (announceFocus r).focus = (if inheritedFocus r = addrNone then r.focus else inheritedFocus r) := by
  let t := r.emit (.send msgFocus addrBroadcast (focusPack ⟨inheritedFocus r, focusRFailover, Edge.none.toByte⟩))
  have heq : announceFocus r = if inheritedFocus r = addrNone then r else if inheritedFocus r ≠ t.focus then
      { t with focus := inheritedFocus r }.emit (.focusChanged (inheritedFocus r) (inheritedFocus r == t.cfg.self)) else t :=
    rfl
  have ht : sends t.out = sends r.out ++ [focusNotice (inheritedFocus r)] := sends_emit r _
  rw [heq]
  by_cases hn : inheritedFocus r = addrNone
  · rw [if_pos hn, if_pos hn, if_pos hn, List.append_nil]
    exact ⟨rfl, rfl⟩
  · rw [if_neg hn, if_neg hn, if_neg hn]
    by_cases hf : inheritedFocus r ≠ t.focus
    · rw [if_pos hf, sends_emit]
      exact ⟨by rw [← ht]; exact List.append_nil _, rfl⟩
    · rw [if_neg hf]
      exact ⟨ht, (not_ne_iff.mp hf).symm⟩

/-- A board that has just become ACTIVE announces a focus. -/
def announces (r : Router) : Bool := r.uhrp.ev.stateChanged && isActive r && inheritedFocus r != addrNone

/-- What the events of the election are told as, in order. -/
def announcements (r : Router) : List Content :=
  (if r.uhrp.ev.broadcastRelease then [⟨msgRelease, addrBroadcast, []⟩] else []) ++
    (if r.uhrp.ev.sendResign then [⟨msgResign, addrBroadcast, []⟩] else []) ++
    (if r.uhrp.ev.sendHello then [⟨msgHello, addrBroadcast, helloPack (buildHello (takeEvents r.uhrp).2)⟩] else []) ++
    (if announces r then [focusNotice (inheritedFocus r)] else [])

theorem drainUhrp_says (r : Router) : sends (drainUhrp r).out = sends r.out ++ announcements r ∧
    (drainUhrp r).focus = (if announces r then inheritedFocus r else r.focus) := by
  let r0 : Router := { r with uhrp := (takeEvents r.uhrp).2 }
  let r1 := if r.uhrp.ev.broadcastRelease then broadcastReleaseAll r0 else r0
  let r2 := if r.uhrp.ev.sendResign then r1.emit (.send msgResign addrBroadcast []) else r1
  let r3 := if r.uhrp.ev.sendHello then r2.emit (.send msgHello addrBroadcast (helloPack (buildHello r2.uhrp))) else r2
  have h1 : Says r0 r1 _ := Says.ite r.uhrp.ev.broadcastRelease (says_broadcastReleaseAll r0)
  have h2 : Says r1 r2 _ := Says.ite r.uhrp.ev.sendResign (Says.emit r1 _)
  have h3 : Says r2 r3 _ := Says.ite r.uhrp.ev.sendHello (Says.emit r2 _)
  have h := (h1.trans h2).trans h3
  have hu : r2.uhrp = (takeEvents r.uhrp).2 := h2.uhrp.trans h1.uhrp
  have hin : inheritedFocus r3 = inheritedFocus r := inheritedFocus_congr h.focus h.chain h.cfg
  have hact : isActive r3 = isActive r := by
    show Election.isActive r3.uhrp = Election.isActive r.uhrp
    rw [h.uhrp]
    rfl
  have hdrain : drainUhrp r =
      if r.uhrp.ev.stateChanged then recomputeLevel (if isActive r3 then announceFocus r3 else r3) else r3 := rfl
  have hsent : sends r3.out = sends r.out ++ ((if r.uhrp.ev.broadcastRelease then [⟨msgRelease, addrBroadcast, []⟩] else []) ++
      (if r.uhrp.ev.sendResign then [⟨msgResign, addrBroadcast, []⟩] else []) ++
      (if r.uhrp.ev.sendHello then [⟨msgHello, addrBroadcast, helloPack (buildHello (takeEvents r.uhrp).2)⟩] else [])) := by
    rw [h.sent, hu]
    rfl
  have hfocus : r3.focus = r.focus := h.focus
  rw [hdrain, announcements, announces]
  cases hc : r.uhrp.ev.stateChanged with
  | false => simp [hsent, hfocus]
  | true =>
    have hl := says_recomputeLevel (if isActive r3 then announceFocus r3 else r3)
    rw [if_pos rfl, hl.sent, hl.focus, hact]
    cases ha : isActive r with
    | false => simp [hsent, hfocus]
    | true =>
      obtain ⟨ha1, ha2⟩ := announceFocus_says r3
      rw [if_pos rfl, ha1, ha2, hin, hsent, hfocus]
      by_cases hn : inheritedFocus r = addrNone <;> simp [hn]

/-- What an evaluation of the election makes the router tell. -/
structure Announced (s t : Router) : Prop where
  toAll : ∀ c ∈ sends t.out, c.dst = addrBroadcast ∧ c.type ≠ msgKbd ∧ c.type ≠ msgInput
  resigns : ∀ c ∈ sends t.out, c.type = msgResign → isActive s = true ∧ isActive t = false
  focuses : ∀ c ∈ sends t.out, c.type = msgFocus →
    c = focusNotice (inheritedFocus s) ∧ isActive s = false ∧ isActive t = true
  promoted : isActive s = false → isActive t = true → inheritedFocus s ≠ addrNone →
    t.focus = inheritedFocus s ∧ focusNotice (inheritedFocus s) ∈ sends t.out
  kept : isActive s = true ∨ isActive t = false → t.focus = s.focus

theorem announced_drain {s : Router} (c : Call) (hev : s.uhrp.ev = Events.none) (hout : sends s.out = []) :
    Announced s (recomputeLevel (drainUhrp { s with uhrp := call s.uhrp c })) := by
  let q : Router := { s with uhrp := call s.uhrp c }
  have hl := says_recomputeLevel (drainUhrp q)
  obtain ⟨hs, hf⟩ := drainUhrp_says q
  have hsent : sends (recomputeLevel (drainUhrp q)).out = announcements q := by
    rw [hl.sent, hs, List.append_nil, show sends q.out = [] from hout, List.nil_append]
  have hfocus : (recomputeLevel (drainUhrp q)).focus = if announces q then inheritedFocus s else s.focus := hl.focus.trans hf
  have hin : inheritedFocus q = inheritedFocus s := inheritedFocus_congr rfl rfl rfl
  have hact : isActive (recomputeLevel (drainUhrp q)) = isActive q := by
    show Election.isActive (recomputeLevel (drainUhrp q)).uhrp = _
    rw [recomputeLevel_uhrp, drainUhrp_uhrp]
    rfl
  have hresign : q.uhrp.ev.sendResign = true ↔ isActive s = true ∧ isActive q = false := by
    have h := call_resigns (u := s.uhrp) c (by rw [hev]; rfl)
    simpa [isActive, Election.isActive, q] using h
  have hchanged : q.uhrp.ev.stateChanged = decide (q.uhrp.state ≠ s.uhrp.state) := by
    have h := call_logged s.uhrp c
    rw [Logged, hev] at h
    simpa [Events.none, q] using h
  have hann : announces q = true ↔ isActive s = false ∧ isActive q = true ∧ inheritedFocus s ≠ addrNone := by
    have hs' : isActive q = true → (q.uhrp.ev.stateChanged = true ↔ isActive s = false) := by
      intro ha
      have hq : q.uhrp.state = .active := by simpa [isActive, Election.isActive] using ha
      rw [hchanged, hq]
      show decide (.active ≠ s.uhrp.state) = true ↔ (s.uhrp.state == .active) = false
      cases s.uhrp.state <;> decide
    simp only [announces, Bool.and_eq_true, hin, bne_iff_ne, ne_eq]
    constructor
    · rintro ⟨⟨h1, h2⟩, h3⟩
      exact ⟨(hs' h2).mp h1, h2, h3⟩
    · rintro ⟨h1, h2, h3⟩
      exact ⟨⟨(hs' h2).mpr h1, h2⟩, h3⟩
  -- every message is for all, and says which event it is of
  have hmem : ∀ c ∈ announcements q, c.dst = addrBroadcast ∧ (c.type = msgRelease ∨ c.type = msgHello ∨
      (c.type = msgResign ∧ q.uhrp.ev.sendResign = true) ∨ (c = focusNotice (inheritedFocus s) ∧ announces q = true)) := by
    intro c hc
    simp only [announcements, List.mem_append, List.mem_ite_nil_right, List.mem_singleton, hin] at hc
    rcases hc with ((⟨_, rfl⟩ | ⟨h, rfl⟩) | ⟨_, rfl⟩) | ⟨h, rfl⟩
    · exact ⟨rfl, Or.inl rfl⟩
    · exact ⟨rfl, Or.inr (Or.inr (Or.inl ⟨rfl, h⟩))⟩
    · exact ⟨rfl, Or.inr (Or.inl rfl)⟩
    · exact ⟨rfl, Or.inr (Or.inr (Or.inr ⟨rfl, h⟩))⟩
  refine ⟨fun c hc => ?_, fun c hc ht => ?_, fun c hc ht => ?_, fun ha hb hn => ?_, fun h => ?_⟩
  · rw [hsent] at hc
    refine ⟨(hmem c hc).1, ?_⟩
    rcases (hmem c hc).2 with h | h | ⟨h, _⟩ | ⟨rfl, _⟩
    · rw [h]; decide
    · rw [h]; decide
    · rw [h]; decide
    · exact ⟨(by decide : msgFocus ≠ msgKbd), (by decide : msgFocus ≠ msgInput)⟩
  · rw [hsent] at hc
    rw [hact]
    rcases (hmem c hc).2 with h | h | ⟨_, h⟩ | ⟨rfl, _⟩
    · rw [h] at ht; cases ht
    · rw [h] at ht; cases ht
    · exact hresign.mp h
    · cases ht
  · rw [hsent] at hc
    rw [hact]
    rcases (hmem c hc).2 with h | h | ⟨h, _⟩ | ⟨rfl, h⟩
    · rw [h] at ht; cases ht
    · rw [h] at ht; cases ht
    · rw [h] at ht; cases ht
    · exact ⟨rfl, (hann.mp h).1, (hann.mp h).2.1⟩
  · rw [hact] at hb
    have h := hann.mpr ⟨ha, hb, hn⟩
    rw [hfocus, hsent, if_pos h]
    refine ⟨rfl, ?_⟩
    simp [announcements, h, hin]
  · rw [hact] at h
    rw [hfocus, if_neg]
    intro hc
    obtain ⟨h1, h2, _⟩ := hann.mp hc
    rcases h with h | h
    · rw [h1] at h; cases h
    · rw [h2] at h; cases h

/-! ## One operation -/

/-- The router as the election finds it: it has taken note of what the frame tells of
    its sender. -/
def informed (r : Router) : Op → Router
  | .rx f inPort now =>
    let r := learnPosition { r with out := [] } f inPort now
    match helloUnpack f.payload with
    | none => r
    | some h => if f.type = msgHello then learnCaps r f.src h else r
  | .tick now => { r with out := [] }.emit (.linkTick now)
  | _ => { r with out := [] }

/-- Nothing is sent, and focus and role stay. -/
structure Quiet (r t : Router) : Prop where
  silent : sends t.out = []
  focus : t.focus = r.focus
  role : isActive t = isActive r

/-- The report is handed to the focused machine, or sent to its board; focus and role
    stay. -/
structure Reported (r t : Router) (rep : KbdReport) : Prop where
  out : t.out = [if r.focus = r.cfg.self then .deliverKbd rep else .send msgKbd r.focus (kbdPack rep)]
  focus : t.focus = r.focus
  role : isActive t = isActive r

/-- Learning about a sender changes the chain table only. -/
structure SameButChain (r s : Router) : Prop where
  cfg : s.cfg = r.cfg
  uhrp : s.uhrp = r.uhrp
  focus : s.focus = r.focus
  out : s.out = r.out

theorem learnPosition_same (r : Router) (f : Frame) (inPort : Port) (now : Time) :
    SameButChain r (learnPosition r f inPort now) := by
  unfold learnPosition
  split
  · exact ⟨rfl, rfl, rfl, rfl⟩
  split <;> exact ⟨rfl, rfl, rfl, rfl⟩

theorem learnCaps_same (r : Router) (src : Addr) (h : Hello) : SameButChain r (learnCaps r src h) := by
  unfold learnCaps
  split <;> exact ⟨rfl, rfl, rfl, rfl⟩

theorem SameButChain.role {r s : Router} (h : SameButChain r s) : isActive s = isActive r := by
  unfold isActive
  rw [h.uhrp]

/-- Before the election is called, nothing but the chain table has changed. -/
theorem informed_same (r : Router) {op : Op} (h : (∃ now, op = .tick now) ∨ ∃ f inPort now, op = .rx f inPort now) :
    (informed r op).focus = r.focus ∧ isActive (informed r op) = isActive r := by
  rcases h with ⟨now, rfl⟩ | ⟨f, inPort, now, rfl⟩
  · exact ⟨rfl, rfl⟩
  · have hl := learnPosition_same { r with out := [] } f inPort now
    simp only [informed]
    split
    · exact ⟨hl.focus, hl.role⟩
    split
    · have hc := learnCaps_same (learnPosition { r with out := [] } f inPort now) f.src
      exact ⟨(hc _).focus.trans hl.focus, (hc _).role.trans hl.role⟩
    · exact ⟨hl.focus, hl.role⟩

section

variable {r : Router} {f : Frame} (inPort : Port) (now : Time)

theorem step_tick (hd : r.uhrp.ev = Events.none) : Announced (informed r (.tick now)) (step r (.tick now)) := by
  have h := announced_drain (s := informed r (.tick now)) (.tick now.toNat) hd rfl
  simp only [call, UInt32.ofNat_toNat] at h
  exact h

/-- What the two frames the election is called for make the router tell. -/
theorem step_rx_election (hd : r.uhrp.ev = Events.none)
    (ht : (f.type = msgHello ∧ (helloUnpack f.payload).isSome = true) ∨ f.type = msgResign) :
    Announced (informed r (.rx f inPort now)) (step r (.rx f inPort now)) := by
  have hl := learnPosition_same { r with out := [] } f inPort now
  have hev : (learnPosition { r with out := [] } f inPort now).uhrp.ev = Events.none := by
    rw [hl.uhrp]
    exact hd
  have hout : sends (learnPosition { r with out := [] } f inPort now).out = [] := by
    rw [hl.out]
    rfl
  rcases ht with ⟨ht, hu⟩ | ht
  · obtain ⟨h, hh⟩ := Option.isSome_iff_exists.mp hu
    have hc := learnCaps_same (learnPosition { r with out := [] } f inPort now) f.src h
    have hann := announced_drain (.hello f.src h now.toNat) (by rw [hc.uhrp]; exact hev) (by rw [hc.out]; exact hout)
    simp only [call, UInt32.ofNat_toNat] at hann
    simp only [step, apply, routerRx, informed, if_pos ht, hh, rxHelloFrame]
    exact hann
  · have hne : f.type ≠ msgHello := by rw [ht]; decide
    have hann := announced_drain (.resign f.src now.toNat) hev hout
    have hin : informed r (.rx f inPort now) = learnPosition { r with out := [] } f inPort now := by
      simp only [informed]
      split
      · rfl
      · exact if_neg hne
    simp only [call, UInt32.ofNat_toNat] at hann
    rw [hin]
    simp only [step, apply, routerRx, if_neg hne, if_pos ht]
    exact hann

theorem releaseMachine_self_quiet (r : Router) : sends (releaseMachine r r.cfg.self).out = sends r.out ∧
    (releaseMachine r r.cfg.self).focus = r.focus ∧ isActive (releaseMachine r r.cfg.self) = isActive r := by
  simp only [releaseMachine, if_true]
  split
  · exact ⟨rfl, rfl, rfl⟩
  · refine ⟨?_, rfl, rfl⟩
    rw [sends_emit, sends_emit]
    simp [sentBy]

/-- A board without the role follows the announced focus. -/
theorem rxFocus_quiet (r : Router) (fo : Focus) : sends (rxFocus r fo).out = sends r.out ∧
    isActive (rxFocus r fo) = isActive r ∧ (rxFocus r fo).focus = if isActive r then r.focus else fo.target := by
  let t : Router := { r with focus := fo.target }.emit (.focusChanged fo.target (fo.target == r.cfg.self))
  have hrx : rxFocus r fo = if isActive r then r else
      if r.focus = r.cfg.self ∧ fo.target ≠ r.cfg.self then releaseMachine t t.cfg.self else t := rfl
  have hsent : sends t.out = sends r.out := (sends_emit _ _).trans (List.append_nil _)
  rw [hrx]
  cases ha : isActive r with
  | true => exact ⟨rfl, ha, rfl⟩
  | false =>
    have hrole : isActive t = false := ha
    obtain ⟨h1, h2, h3⟩ := releaseMachine_self_quiet t
    by_cases hc : r.focus = r.cfg.self ∧ fo.target ≠ r.cfg.self
    · rw [if_neg (by simp), if_pos hc]
      exact ⟨h1.trans hsent, h3.trans hrole, h2⟩
    · rw [if_neg (by simp), if_neg hc]
      exact ⟨hsent, hrole, rfl⟩

theorem step_rx_focus {fo : Focus} (ht : f.type = msgFocus) (hu : focusUnpack f.payload = some fo) :
    sends (step r (.rx f inPort now)).out = [] ∧ isActive (step r (.rx f inPort now)) = isActive r ∧
      (step r (.rx f inPort now)).focus = if isActive r then r.focus else fo.target := by
  have hl := learnPosition_same { r with out := [] } f inPort now
  have hstep : step r (.rx f inPort now) = rxFocus (learnPosition { r with out := [] } f inPort now) fo := by
    simp only [step, apply, routerRx, ht, hu]
    rfl
  obtain ⟨h1, h2, h3⟩ := rxFocus_quiet (learnPosition { r with out := [] } f inPort now) fo
  rw [hstep, h1, h2, h3, hl.out, hl.role, hl.focus]
  exact ⟨rfl, rfl, rfl⟩

theorem step_rx_kbd {rep : KbdReport} (ht : f.type = msgKbd) (hu : kbdUnpack f.payload = some rep) :
    (step r (.rx f inPort now)).out = [.deliverKbd rep] ∧ Quiet r (step r (.rx f inPort now)) := by
  have hl := learnPosition_same { r with out := [] } f inPort now
  have hstep : step r (.rx f inPort now) = (learnPosition { r with out := [] } f inPort now).emit (.deliverKbd rep) := by
    simp only [step, apply, routerRx, ht, hu]
    rfl
  have hout : (step r (.rx f inPort now)).out = [.deliverKbd rep] := by
    rw [hstep]
    show (learnPosition { r with out := [] } f inPort now).out ++ _ = _
    rw [hl.out]
    rfl
  refine ⟨hout, by rw [hout]; rfl, ?_, ?_⟩
  · rw [hstep]
    exact hl.focus
  · rw [hstep]
    exact hl.role

/-- No other frame makes the router send anything, but one that carries input. -/
theorem step_rx_other (ht : f.type ≠ msgResign ∧ f.type ≠ msgInput)
    (hh : f.type = msgHello → helloUnpack f.payload = none) (hf : f.type = msgFocus → focusUnpack f.payload = none) :
    Quiet r (step r (.rx f inPort now)) := by
  have hl := learnPosition_same { r with out := [] } f inPort now
  have hsame : Quiet r (learnPosition { r with out := [] } f inPort now) := ⟨by rw [hl.out]; rfl, hl.focus, hl.role⟩
  have hquiet : ∀ (q : Router) (a : Act), Quiet r q → sentBy a = none → Quiet r (q.emit a) := by
    intro q a h ha
    refine ⟨?_, h.focus, h.role⟩
    rw [sends_emit, h.silent, ha]
    rfl
  simp only [step, apply, routerRx, ht.1, ht.2, if_false]
  generalize learnPosition { r with out := [] } f inPort now = q at hsame
  split
  · rename_i h
    rw [hh h]
    exact hsame
  split
  · split
    · exact hsame
    · exact hquiet _ _ hsame rfl
  split
  · split
    · exact hsame
    · exact hquiet _ _ hsame rfl
  split
  · rename_i h
    rw [hf h]
    exact hsame
  split
  · exact hquiet _ _ hsame rfl
  split
  · have hrel : Quiet r { q with hid := hidForget q.hid q.selfSlot } := ⟨hsame.silent, hsame.focus, hsame.role⟩
    exact hquiet _ _ (hquiet _ _ hrel rfl) rfl
  · exact hsame

end

end DeskHop.Routing
