/-
  DeskHop.Routing.Screens — where the focus can go: the next screen on either side, and
  the tour of the button.

  A screen is a board of the chain table that is a keyboard to a machine. Both searches
  are one pass over the table with a sentinel for "none yet". On a table of proper
  addresses, which every run keeps (`signed_addressed`), each comes down to the first
  entry of least distance (`neighbourOf_eq`, `button_focus`).

  Proved: k presses of the button tour the k screens (`button_tours`). A crossing lands
  on the next screen exactly when the deciding board, being none itself, does not stand
  before it (`crossing_lands`); `crossed_onto_the_coordinator` is a chain where it does.
-/

import DeskHop.Lib.Select
import DeskHop.Routing.Tables
import Mathlib

namespace DeskHop.Routing

open DeskHop.Lib DeskHop.Election DeskHop.Wire

/-! ## Every table is a proper one -/

/-- Each board stands once in the table, under a proper address, and every board but our
    own at some distance. -/
structure Proper (me : Addr) (chain : Chain) : Prop where
  unique : chain.Unique
  named : chain.find? addrNone = none
  apart : ∀ a e, chain.find? a = some e → a ≠ me → e.relPos ≠ 0

/-- What holds of a router in every state, no board sending under the reserved address. -/
structure Addressed (r : Router) : Prop extends Sound r where
  proper : Proper r.cfg.self r.chain

def BearsAddress (_ : Router) (op : Op) : Prop := ∀ f inPort now, op = .rx f inPort now → f.src ≠ addrNone

def Signed (cfg : RouterCfg) : Router → Prop := Reach (· = routerInit cfg) BearsAddress step

theorem relPosFromFrame_ne (f : Frame) (inPort : Port) : relPosFromFrame f inPort ≠ 0 := by
  simp only [relPosFromFrame]
  split <;> split <;> split <;> omega

theorem Proper.written {me a : Addr} {chain t : Chain} {b : ChainEntry} {g : ChainEntry → ChainEntry}
    (h : Proper me chain) (ha : a ≠ addrNone) (he : chain.ensure (freshEntry a) = some (b, t))
    (hg : ∀ e, (g e).used = e.used ∧ (g e).addr = e.addr) (hpos : a ≠ me → (g b).relPos ≠ 0) :
    Proper me (t.modify a g) := by
  have hkeep : ∀ e : ChainEntry, Slotted.used e = true → Slotted.key e = a →
      Slotted.used (g e) = true ∧ Slotted.key (g e) = a :=
    fun e hu hk => ⟨(hg e).1.trans hu, (hg e).2.trans hk⟩
  have hself : (t.modify a g).find? a = some (g b) := by
    have hb : t.find? a = some b := Slots.find?_ensure_self he rfl
    rw [Slots.find?_modify_self t a g hkeep, hb]
    rfl
  have hother : ∀ k, k ≠ a → (t.modify a g).find? k = chain.find? k := by
    intro k hk
    rw [Slots.find?_modify_ne t hk g fun e hu hk _ => (hkeep e hu hk).2]
    exact Slots.find?_ensure_ne he hk
  refine ⟨(h.unique.ensure he).modify fun e hu hk _ => (hkeep e hu hk).2, ?_, ?_⟩
  · rw [hother _ ha.symm]
    exact h.named
  · intro k e hf hne
    by_cases hk : k = a
    · subst hk
      rw [hself] at hf
      cases hf
      exact hpos hne
    · rw [hother k hk] at hf
      exact h.apart k e hf hne

theorem Proper.learnPosition {r : Router} (h : Proper r.cfg.self r.chain) {f : Frame} (hf : f.src ≠ addrNone)
    (inPort : Port) (now : Time) : Proper r.cfg.self (learnPosition r f inPort now).chain := by
  unfold Routing.learnPosition
  split
  · exact h
  split
  · exact h
  · rename_i chain hc
    obtain ⟨⟨b, t⟩, he, rfl⟩ := Option.map_eq_some_iff.mp hc
    exact h.written hf he (fun _ => ⟨rfl, rfl⟩) fun _ => relPosFromFrame_ne f inPort

/-- What a HELLO tells is noted in an entry that is there already, its position with it. -/
theorem Proper.learnCaps {r : Router} (h : Proper r.cfg.self r.chain) {src : Addr} (hs : src ≠ addrNone)
    (hknown : chainGet r src = none ∨ (chainFind r src).isSome = true) (hl : Hello) :
    Proper r.cfg.self (learnCaps r src hl).chain := by
  unfold Routing.learnCaps
  split
  · exact h
  · rename_i chain hc
    obtain ⟨⟨b, t⟩, he, rfl⟩ := Option.map_eq_some_iff.mp hc
    refine h.written hs he (fun _ => ⟨rfl, rfl⟩) fun hne => ?_
    obtain ⟨e, hfind⟩ := Option.isSome_iff_exists.mp (hknown.resolve_left (by rw [hc]; exact nofun))
    have hsame := Slots.ensure_of_find (a := freshEntry src) hfind
    rw [he] at hsame
    cases hsame
    exact h.apart src b hfind hne

theorem known_learnPosition (r : Router) (f : Frame) (inPort : Port) (now : Time)
    (hown : (chainFind r r.cfg.self).isSome = true) : chainGet (learnPosition r f inPort now) f.src = none ∨
      (chainFind (learnPosition r f inPort now) f.src).isSome = true := by
  unfold learnPosition
  split
  · rename_i hs
    rw [hs]
    exact Or.inr hown
  split
  · rename_i hc
    exact Or.inl hc
  · rename_i chain hc
    obtain ⟨⟨b, t⟩, he, rfl⟩ := Option.map_eq_some_iff.mp hc
    have hb : t.find? f.src = some b := Slots.find?_ensure_self he rfl
    refine Or.inr ?_
    have hfind := Slots.find?_modify_self t f.src
      (fun e => { e with relPos := relPosFromFrame f inPort, lastSeen := now }) fun e hu hk => ⟨hu, hk⟩
    rw [hb] at hfind
    rw [chainFind, hfind]
    rfl

theorem Sound.own_known {r : Router} (h : Sound r) : (chainFind r r.cfg.self).isSome = true := by
  have hi := h.own
  cases hf : chainFind r r.cfg.self with
  | some e => rfl
  | none =>
    rw [Slots.index?, List.findIdx?_eq_none_iff.mpr fun e he => ?_] at hi
    · cases hi
    · simpa using List.find?_eq_none.mp hf e he

theorem proper_informed {r : Router} (h : Addressed r) {op : Op} (hop : BearsAddress r op) :
    Proper r.cfg.self (informed r op).chain := by
  cases op with
  | rx f inPort now =>
    have hsrc := hop f inPort now rfl
    have hs := learnPosition_same { r with out := [] } f inPort now
    have hp : Proper r.cfg.self (Routing.learnPosition { r with out := [] } f inPort now).chain :=
      Proper.learnPosition (r := { r with out := [] }) h.proper hsrc inPort now
    have hk := known_learnPosition { r with out := [] } f inPort now h.own_known
    simp only [informed]
    generalize Routing.learnPosition { r with out := [] } f inPort now = s at hs hp hk
    have hc : s.cfg.self = r.cfg.self := congrArg RouterCfg.self hs.cfg
    split
    · exact hp
    split
    · rename_i hl _ _
      rw [← hc] at hp ⊢
      exact hp.learnCaps hsrc hk hl
    · exact hp
  | _ => exact h.proper

theorem informed_cfg (r : Router) (f : Frame) (inPort : Port) (now : Time) : (informed r (.rx f inPort now)).cfg = r.cfg := by
  have hl := learnPosition_same { r with out := [] } f inPort now
  simp only [informed]
  split
  · exact hl.cfg
  split
  · exact (learnCaps_same _ f.src _).cfg.trans hl.cfg
  · exact hl.cfg

theorem addressed_step {r : Router} (h : Addressed r) {op : Op} (hop : BearsAddress r op) : Addressed (step r op) := by
  refine ⟨sound_step h.toSound op, ?_⟩
  by_cases hcaps : ∃ caps, op = .setCaps caps
  · obtain ⟨caps, rfl⟩ := hcaps
    have hp := h.proper
    show Proper (routerSetCaps { r with out := [] } caps).cfg.self (routerSetCaps { r with out := [] } caps).chain
    unfold routerSetCaps
    split
    · exact hp
    · obtain ⟨e, hown⟩ := Option.isSome_iff_exists.mp h.own_known
      have hself : r.cfg.self ≠ addrNone := by
        intro hn
        have hown : r.chain.find? r.cfg.self = some e := hown
        rw [hn, hp.named] at hown
        cases hown
      exact hp.written hself (Slots.ensure_of_find (a := freshEntry r.cfg.self) hown) (fun _ => ⟨rfl, rfl⟩)
        fun hne => absurd rfl hne
  · have ht := sameTables_step r h.drained op fun caps hc => hcaps ⟨caps, hc⟩
    have hcfg : (informed r op).cfg = r.cfg := by
      cases op with
      | rx f inPort now => exact informed_cfg r f inPort now
      | _ => rfl
    rw [ht.cfg, hcfg, ht.chain]
    exact proper_informed h hop

/-- At first the table holds our own board alone. -/
theorem claim_init (cfg : RouterCfg) : ∃ t, (routerInit cfg).chain = t ∧
    (Slots.replicate maxBoards { freshEntry 0 with used := false } : Chain).claim
      { freshEntry cfg.self with uid := cfg.uid, caps := cfg.caps } = some t := by
  obtain ⟨t, ht⟩ : ∃ t, (Slots.replicate maxBoards { freshEntry 0 with used := false } : Chain).claim
      { freshEntry cfg.self with uid := cfg.uid, caps := cfg.caps } = some t := ⟨_, rfl⟩
  refine ⟨t, ?_, ht⟩
  simp only [routerInit, ht, Option.getD_some]

theorem find?_init_other (cfg : RouterCfg) {k : Addr} (hk : k ≠ cfg.self) : (routerInit cfg).chain.find? k = none := by
  obtain ⟨t, hchain, ht⟩ := claim_init cfg
  rw [hchain, Slots.find?_claim_ne ht hk]
  exact Slots.find?_replicate_none rfl k

theorem addressed_init {cfg : RouterCfg} (hself : cfg.self ≠ addrNone) : Addressed (routerInit cfg) := by
  obtain ⟨t, hchain, ht⟩ := claim_init cfg
  refine ⟨sound_init cfg, ?_, find?_init_other cfg hself.symm, fun a e hf hne => ?_⟩
  · rw [hchain]
    exact (Slots.unique_replicate rfl).claim ht (Slots.find?_replicate_none rfl _)
  · have hf : (routerInit cfg).chain.find? a = some e := hf
    rw [find?_init_other cfg hne] at hf
    cases hf

/-- Every state that is reached on properly addressed frames. -/
theorem signed_addressed {cfg : RouterCfg} (hself : cfg.self ≠ addrNone) {r : Router} (h : Signed cfg r) : Addressed r := by
  refine h.inv (I := Addressed) (fun s hs => ?_) fun s op hs hop => addressed_step hs hop
  rw [hs]
  exact addressed_init hself

/-! ## One pass over the table -/

/-- What a search has found, with the sentinel for nothing. -/
def found (r : Router) : Option ChainEntry → Addr × Int
  | none => (addrNone, 0)
  | some e => (e.addr, posOf r e)

/-- Somewhere a crossing may lead: the code lets our own board pass. -/
def passable (r : Router) (src : Addr) (e : ChainEntry) : Bool :=
  e.used && e.addr != src && (hasCap e.caps capHidOut || e.addr == r.cfg.self)

/-- A board that is a keyboard to a machine. -/
def isScreen (e : ChainEntry) : Bool := e.used && hasCap e.caps capHidOut

/-- Which way a completed gesture leads: left and up go up-chain. -/
def heading (edge : Edge) : Int := if edge = .left ∨ edge = .up then -1 else 1

theorem heading_cases (edge : Edge) : heading edge = -1 ∨ heading edge = 1 := by
  unfold heading
  split
  · exact Or.inl rfl
  · exact Or.inr rfl

theorem neighbourStep_eq (r : Router) (src : Addr) (p : Int) (edge : Edge) (best : Addr × Int) (e : ChainEntry) :
    neighbourStep r src p (heading edge) best e =
      if passable r src e = true ∧ heading edge * p < heading edge * posOf r e ∧
        (best.1 = addrNone ∨ heading edge * posOf r e < heading edge * best.2) then found r (some e) else best := by
  unfold neighbourStep
  split
  · rename_i hskip
    rw [if_neg]
    rintro ⟨hp, -⟩
    simp only [passable, Bool.and_eq_true, bne_iff_ne, ne_eq] at hp
    simp only [Bool.or_eq_true, Bool.not_eq_true', beq_iff_eq] at hskip
    rcases hskip with hu | ha
    · rw [hu] at hp
      cases hp.1.1
    · exact hp.1.2 ha
  split
  · rename_i hscreen
    rw [if_neg]
    rintro ⟨hp, -⟩
    simp only [passable, Bool.and_eq_true, Bool.or_eq_true, beq_iff_eq] at hp
    simp only [Bool.and_eq_true, Bool.not_eq_true', bne_iff_ne, ne_eq] at hscreen
    rcases hp.2 with hc | ha
    · rw [hc] at hscreen
      cases hscreen.1
    · exact hscreen.2 ha
  · rename_i hskip hscreen
    have hp : passable r src e = true := by
      simp only [Bool.or_eq_true, Bool.not_eq_true', beq_iff_eq, not_or, Bool.not_eq_false] at hskip
      simp only [Bool.and_eq_true, Bool.not_eq_true', bne_iff_ne, ne_eq, not_and_or, Bool.not_eq_false, not_not] at hscreen
      simp only [passable, Bool.and_eq_true, bne_iff_ne, ne_eq, Bool.or_eq_true, beq_iff_eq]
      exact ⟨hskip, hscreen⟩
    rcases heading_cases edge with hd | hd <;> rw [hd] <;> simp [found, hp]

/-- The first entry of least distance among those a search admits, on the way a gesture
    leads. -/
def nearestAhead (r : Router) (edge : Edge) (p : Int) (passes : ChainEntry → Bool) : Option ChainEntry :=
  (r.chain.cells.filter fun e => passes e && decide (heading edge * p < heading edge * posOf r e)).foldl
    (List.argAux fun b c => heading edge * posOf r b < heading edge * posOf r c) none

theorem foldl_neighbourStep {r : Router} {src : Addr} {p : Int} {edge : Edge} (cells : List ChainEntry)
    (hnamed : ∀ e ∈ cells, e.used = true → e.addr ≠ addrNone) (best : Option ChainEntry)
    (hbest : ∀ e ∈ best, e.addr ≠ addrNone) :
    cells.foldl (neighbourStep r src p (heading edge)) (found r best) = found r
      ((cells.filter fun e => passable r src e && decide (heading edge * p < heading edge * posOf r e)).foldl
        (List.argAux fun b c => heading edge * posOf r b < heading edge * posOf r c) best) := by
  induction cells generalizing best with
  | nil => rfl
  | cons e cells ih =>
    have ih := ih fun x hx => hnamed x (List.mem_cons_of_mem _ hx)
    rw [List.foldl_cons, neighbourStep_eq, List.filter_cons]
    by_cases hpass : passable r src e = true ∧ heading edge * p < heading edge * posOf r e
    · have hused : e.used = true := by
        have h := hpass.1
        simp only [passable, Bool.and_eq_true] at h
        exact h.1.1
      have he := hnamed e List.mem_cons_self hused
      rw [if_pos (show (passable r src e && decide _) = true by simp [hpass.1, hpass.2]), List.foldl_cons]
      cases best with
      | none =>
        rw [if_pos ⟨hpass.1, hpass.2, Or.inl rfl⟩]
        exact ih (some e) fun x hx => by cases hx; exact he
      | some c =>
        have hc := hbest c rfl
        by_cases hlt : heading edge * posOf r e < heading edge * posOf r c
        · rw [if_pos ⟨hpass.1, hpass.2, Or.inr hlt⟩, ih (some e) fun x hx => by cases hx; exact he]
          simp only [List.argAux, if_pos hlt]
        · rw [if_neg (fun h => h.2.2.elim hc hlt), ih (some c) hbest]
          simp only [List.argAux, if_neg hlt]
    · rw [if_neg (fun h => hpass ⟨h.1, h.2.1⟩), if_neg (by simpa using hpass)]
      exact ih best hbest

theorem Proper.mem {me : Addr} {chain : Chain} (h : Proper me chain) {e : ChainEntry} (he : e ∈ chain.cells)
    (hu : e.used = true) : chain.find? e.addr = some e ∧ e.addr ≠ addrNone := by
  have hf : chain.find? e.addr = some e := h.unique.find?_of_mem he hu
  refine ⟨hf, fun hn => ?_⟩
  rw [hn, h.named] at hf
  cases hf

/-- The position of the focus, ours being 0. -/
def focusPos (r : Router) : Int := ((chainFind r r.focus).map (posOf r)).getD 0

theorem neighbourOf_eq {r : Router} (h : Addressed r) (hf : (chainFind r r.focus).isSome = true) (edge : Edge) :
    neighbourOf r r.focus (heading edge) = (found r (nearestAhead r edge (focusPos r) (passable r r.focus))).1 := by
  obtain ⟨e, he⟩ := Option.isSome_iff_exists.mp hf
  have hkey : e.addr = r.focus := (Slots.find?_some he).2.2
  have hpos : focusPos r = posOf r e := by rw [focusPos, he]; rfl
  have hfold := @foldl_neighbourStep r r.focus (focusPos r) edge r.chain.cells
    (fun x hx hu => (h.proper.mem hx hu).2) none nofun
  have hrun : neighbourOf r r.focus (heading edge) =
      (r.chain.cells.foldl (neighbourStep r r.focus (focusPos r) (heading edge)) (addrNone, 0)).1 := by
    unfold neighbourOf
    by_cases hs : r.focus = r.cfg.self
    · have hzero : focusPos r = 0 := by rw [hpos, posOf, if_pos (hkey.trans hs)]
      rw [if_pos hs, hzero]
    · have hrel : focusPos r = e.relPos := by rw [hpos, posOf, if_neg fun hn => hs (hkey.symm.trans hn)]
      rw [if_neg hs, he, hrel]
  rw [hrun]
  exact congrArg Prod.fst hfold

/-! ## Crossing -/

/-- Position `q` lies beyond `p`, the way a gesture leads. -/
def Ahead (edge : Edge) (p q : Int) : Prop := if edge = .left ∨ edge = .up then q < p else p < q

theorem ahead_iff (edge : Edge) (p q : Int) : Ahead edge p q ↔ heading edge * p < heading edge * q := by
  unfold Ahead heading
  split <;> constructor <;> intro h <;> omega

/-- The screen next to the focus. -/
structure NextScreen (r : Router) (edge : Edge) (e : ChainEntry) : Prop where
  screen : isScreen e = true
  ahead : Ahead edge (focusPos r) (posOf r e)
  first : ∀ x ∈ r.chain.cells, isScreen x = true → Ahead edge (focusPos r) (posOf r x) →
    ¬ Ahead edge (posOf r x) (posOf r e)

/-- Focus `f` is on the next screen, or where it was if there is none. -/
def LandsNext (r : Router) (edge : Edge) (f : Addr) : Prop :=
  (∃ e ∈ r.chain.cells, NextScreen r edge e ∧ f = e.addr) ∨
    ((∀ x ∈ r.chain.cells, isScreen x = true → ¬ Ahead edge (focusPos r) (posOf r x)) ∧ f = r.focus)

/-- The deciding board is no screen, and stands between the focus and every screen that
    way. -/
structure SelfInTheWay (r : Router) (edge : Edge) : Prop where
  noScreen : ∀ e ∈ chainFind r r.cfg.self, isScreen e = false
  ahead : Ahead edge (focusPos r) 0
  beyond : ∀ x ∈ r.chain.cells, isScreen x = true → Ahead edge (focusPos r) (posOf r x) → Ahead edge 0 (posOf r x)

instance (edge : Edge) (p q : Int) : Decidable (Ahead edge p q) := by
  unfold Ahead
  infer_instance

instance (r : Router) (edge : Edge) (e : ChainEntry) : Decidable (NextScreen r edge e) :=
  decidable_of_iff (isScreen e = true ∧ Ahead edge (focusPos r) (posOf r e) ∧
    ∀ x ∈ r.chain.cells, isScreen x = true → Ahead edge (focusPos r) (posOf r x) → ¬ Ahead edge (posOf r x) (posOf r e))
    ⟨fun ⟨h1, h2, h3⟩ => ⟨h1, h2, h3⟩, fun h => ⟨h.screen, h.ahead, h.first⟩⟩

instance (r : Router) (edge : Edge) (f : Addr) : Decidable (LandsNext r edge f) := by
  unfold LandsNext
  infer_instance

instance (r : Router) (edge : Edge) : Decidable (SelfInTheWay r edge) :=
  decidable_of_iff ((∀ e ∈ chainFind r r.cfg.self, isScreen e = false) ∧ Ahead edge (focusPos r) 0 ∧
    ∀ x ∈ r.chain.cells, isScreen x = true → Ahead edge (focusPos r) (posOf r x) → Ahead edge 0 (posOf r x))
    ⟨fun ⟨h1, h2, h3⟩ => ⟨h1, h2, h3⟩, fun h => ⟨h.noScreen, h.ahead, h.beyond⟩⟩

theorem mem_nearestAhead {r : Router} {edge : Edge} {p : Int} {passes : ChainEntry → Bool} {e : ChainEntry}
    (h : nearestAhead r edge p passes = some e) : e ∈ r.chain.cells ∧ passes e = true ∧ Ahead edge p (posOf r e) ∧
      ∀ x ∈ r.chain.cells, passes x = true → Ahead edge p (posOf r x) → ¬ Ahead edge (posOf r x) (posOf r e) := by
  have hmem := List.argmin_mem (Option.mem_def.mpr h)
  obtain ⟨hcell, hok⟩ := List.mem_filter.mp hmem
  simp only [Bool.and_eq_true, decide_eq_true_eq] at hok
  refine ⟨hcell, hok.1, (ahead_iff _ _ _).mpr hok.2, fun x hx hpasses hahead hbetween => ?_⟩
  have hfilter : x ∈ r.chain.cells.filter fun e => passes e && decide (heading edge * p < heading edge * posOf r e) := by
    simp only [List.mem_filter, Bool.and_eq_true, decide_eq_true_eq]
    exact ⟨hx, hpasses, (ahead_iff _ _ _).mp hahead⟩
  have hle := List.le_of_mem_argmin hfilter (Option.mem_def.mpr h)
  exact absurd ((ahead_iff _ _ _).mp hbetween) (not_lt.mpr hle)

theorem nearestAhead_none {r : Router} {edge : Edge} {p : Int} {passes : ChainEntry → Bool}
    (h : nearestAhead r edge p passes = none) {x : ChainEntry} (hx : x ∈ r.chain.cells) (hpasses : passes x = true) :
    ¬ Ahead edge p (posOf r x) := by
  intro hahead
  have hempty := List.argmin_eq_none.mp h
  have hfilter : x ∈ r.chain.cells.filter fun e => passes e && decide (heading edge * p < heading edge * posOf r e) := by
    simp only [List.mem_filter, Bool.and_eq_true, decide_eq_true_eq]
    exact ⟨hx, hpasses, (ahead_iff _ _ _).mp hahead⟩
  rw [hempty] at hfilter
  cases hfilter

theorem applyFocus_focus (r : Router) (target : Addr) (reason : UInt8) (edge : Edge) (now : Time) (announce : Bool) :
    (applyFocus r target reason edge now announce).focus = if target = addrNone then r.focus else target := by
  simp only [applyFocus]
  by_cases hn : target = addrNone
  · rw [if_pos (Or.inl hn), if_pos hn]
  rw [if_neg hn]
  by_cases hs : target = r.focus
  · rw [if_pos (Or.inr hs), hs]
  · rw [if_neg (not_or.mpr ⟨hn, hs⟩)]
    cases announce <;> rfl

/-- Input handled here and now leaves the focus where it is. -/
theorem sendMouseTo_focus (r : Router) (dst : Addr) (rep : MouseReport) : (sendMouseTo r dst rep).focus = r.focus := by
  simp only [sendMouseTo]
  split <;> rfl

/-- The gesture a report completes, and the router that has integrated it. -/
def gesture (r : Router) (rep : MouseReport) (now : Time) : Edge := (pointerFeed r.pointer rep.dx rep.dy now).1

def fed (r : Router) (rep : MouseReport) (now : Time) : Router :=
  { r with pointer := (pointerFeed r.pointer rep.dx rep.dy now).2 }

theorem localMouse_active {r : Router} (ha : isActive r = true) (rep : MouseReport) (now : Time) :
    routerLocalMouse r rep now =
      if gesture r rep now ≠ .none ∧ crossingTarget (fed r rep now) (gesture r rep now) ≠ addrNone then
        applyFocus (fed r rep now) (crossingTarget (fed r rep now) (gesture r rep now)) focusREdge (gesture r rep now) now
          true
      else noteKeysHeld (sendMouseTo (fed r rep now) r.focus rep) := by
  have hforward : forwardInput r inputKindMouse (mousePack rep) = none := if_pos ha
  simp only [routerLocalMouse, hforward]
  rfl

theorem Addressed.fed {r : Router} (h : Addressed r) (rep : MouseReport) (now : Time) : Addressed (fed r rep now) :=
  ⟨⟨h.own, h.drained, h.blank⟩, h.proper⟩

theorem Addressed.taken {r : Router} (h : Addressed r) : Addressed { r with out := [] } :=
  ⟨⟨h.own, h.drained, h.blank⟩, h.proper⟩

theorem crossingTarget_eq {r : Router} (h : Addressed r) (hf : (chainFind r r.focus).isSome = true) (edge : Edge) :
    crossingTarget r edge = (found r (nearestAhead r edge (focusPos r) (passable r r.focus))).1 :=
  neighbourOf_eq h hf edge

theorem localMouse_focus {r : Router} (h : Addressed r) (ha : isActive r = true)
    (hf : (chainFind r r.focus).isSome = true) {rep : MouseReport} {now : Time} (hne : gesture r rep now ≠ .none) :
    (routerLocalMouse r rep now).focus =
      ((nearestAhead r (gesture r rep now) (focusPos r) (passable r r.focus)).map (·.addr)).getD r.focus := by
  have htarget := crossingTarget_eq (h.fed rep now) hf (gesture r rep now)
  rw [show nearestAhead (Routing.fed r rep now) (gesture r rep now) (focusPos (Routing.fed r rep now))
    (passable (Routing.fed r rep now) (Routing.fed r rep now).focus) =
    nearestAhead r (gesture r rep now) (focusPos r) (passable r r.focus) from rfl] at htarget
  rw [localMouse_active ha]
  cases hn : nearestAhead r (gesture r rep now) (focusPos r) (passable r r.focus) with
  | none =>
    have htarget : crossingTarget (Routing.fed r rep now) (gesture r rep now) = addrNone := by rw [htarget, hn]; rfl
    have hdrained : (sendMouseTo (Routing.fed r rep now) r.focus rep).uhrp.ev = Events.none := by
      rw [sendMouseTo_uhrp]
      exact h.drained
    rw [if_neg fun hc => hc.2 htarget, noteKeysHeld_same hdrained]
    exact sendMouseTo_focus _ _ rep
  | some e =>
    have htarget : crossingTarget (Routing.fed r rep now) (gesture r rep now) = e.addr := by rw [htarget, hn]; rfl
    obtain ⟨hcell, hpass, -⟩ := mem_nearestAhead hn
    simp only [passable, Bool.and_eq_true] at hpass
    have hnamed : e.addr ≠ addrNone := (h.proper.mem hcell hpass.1.1).2
    rw [htarget, if_pos ⟨hne, hnamed⟩, applyFocus_focus, if_neg hnamed]
    rfl

/-- Where a completed gesture leaves the focus. -/
theorem step_crossing {r : Router} (h : Addressed r) (ha : isActive r = true) (hf : (chainFind r r.focus).isSome = true)
    {rep : MouseReport} {now : Time} (hne : gesture r rep now ≠ .none) :
    (step r (.localMouse rep now)).focus =
      ((nearestAhead r (gesture r rep now) (focusPos r) (passable r r.focus)).map (·.addr)).getD r.focus :=
  localMouse_focus h.taken ha hf hne

/-- A board that way is not the focus: the search admits it, if it is a screen or us. -/
theorem passable_of_ahead {r : Router} (h : Addressed r) {x : ChainEntry}
    (hx : x ∈ r.chain.cells) (hu : x.used = true) (hok : hasCap x.caps capHidOut = true ∨ x.addr = r.cfg.self) {edge : Edge}
    (hahead : Ahead edge (focusPos r) (posOf r x)) : passable r r.focus x = true := by
  have hne : x.addr ≠ r.focus := by
    intro hxf
    have hsame := (h.proper.mem hx hu).1
    rw [hxf] at hsame
    have hpos : focusPos r = posOf r x := by rw [focusPos, show chainFind r r.focus = some x from hsame]; rfl
    rw [ahead_iff, hpos] at hahead
    exact lt_irrefl _ hahead
  simp only [passable, hu, Bool.true_and, Bool.and_eq_true, bne_iff_ne, ne_eq, Bool.or_eq_true, beq_iff_eq]
  exact ⟨hne, hok⟩

theorem isScreen_iff {e : ChainEntry} : isScreen e = true ↔ e.used = true ∧ hasCap e.caps capHidOut = true := by
  rw [isScreen, Bool.and_eq_true]

/-- The entries of two used slots that bear one address are one. -/
theorem Addressed.entry_eq {r : Router} (h : Addressed r) {x y : ChainEntry} (hx : x ∈ r.chain.cells)
    (hy : y ∈ r.chain.cells) (hux : x.used = true) (huy : y.used = true) (ha : x.addr = y.addr) : x = y := by
  have hfx := (h.proper.mem hx hux).1
  rw [ha, (h.proper.mem hy huy).1] at hfx
  exact (Option.some.inj hfx).symm

/-- A crossing lands on the next screen, and moves nothing where there is none, exactly
    when the deciding board does not stand in the way. -/
theorem crossing_lands {r : Router} (h : Addressed r) (ha : isActive r = true) (hf : (chainFind r r.focus).isSome = true)
    {rep : MouseReport} {now : Time} (hne : gesture r rep now ≠ .none) :
    LandsNext r (gesture r rep now) (step r (.localMouse rep now)).focus ↔ ¬ SelfInTheWay r (gesture r rep now) := by
  obtain ⟨own, hown⟩ := Option.isSome_iff_exists.mp h.own_known
  have hentry := Slots.find?_some hown
  have hcellOwn : own ∈ r.chain.cells := hentry.1
  have husedOwn : own.used = true := hentry.2.1
  have hkeyOwn : own.addr = r.cfg.self := hentry.2.2
  have hzero : posOf r own = 0 := if_pos hkeyOwn
  rw [step_crossing h ha hf hne]
  generalize gesture r rep now = edge
  have hpasses : ∀ x ∈ r.chain.cells, isScreen x = true → Ahead edge (focusPos r) (posOf r x) →
      passable r r.focus x = true := fun x hx hs =>
    passable_of_ahead h hx (isScreen_iff.mp hs).1 (Or.inl (isScreen_iff.mp hs).2)
  have hpassOwn : Ahead edge (focusPos r) 0 → passable r r.focus own = true := fun hahead =>
    passable_of_ahead h hcellOwn husedOwn (Or.inr hkeyOwn) (by rw [hzero]; exact hahead)
  cases hn : nearestAhead r edge (focusPos r) (passable r r.focus) with
  | none =>
    refine iff_of_true (Or.inr ⟨fun x hx hscreen hahead => ?_, rfl⟩) fun hway => ?_
    · exact nearestAhead_none hn hx (hpasses x hx hscreen hahead) hahead
    · have hahead := hway.ahead
      exact nearestAhead_none hn hcellOwn (hpassOwn hahead) (by rw [hzero]; exact hahead)
  | some e =>
    obtain ⟨hcell, hpass, hahead, hfirst⟩ := mem_nearestAhead hn
    simp only [passable, Bool.and_eq_true, Bool.or_eq_true, beq_iff_eq, bne_iff_ne, ne_eq] at hpass
    by_cases hscreen : isScreen e = true
    · -- on a screen: nothing stands before it
      refine iff_of_true (Or.inl ⟨e, hcell, ⟨hscreen, hahead, fun x hx hs ha => ?_⟩, rfl⟩) fun hway => ?_
      · exact hfirst x hx (hpasses x hx hs ha) ha
      · have hnear := hfirst own hcellOwn (hpassOwn hway.ahead) (by rw [hzero]; exact hway.ahead)
        rw [hzero] at hnear
        exact hnear (hway.beyond e hcell hscreen hahead)
    · -- on our own board, which is none
      have hself : e.addr = r.cfg.self := hpass.2.resolve_left fun hc => hscreen (isScreen_iff.mpr ⟨hpass.1.1, hc⟩)
      have hpos : posOf r e = 0 := if_pos hself
      refine iff_of_false (fun hlands => ?_) fun hfree => hfree ⟨fun x hx => ?_, ?_, fun x hx hs ha => ?_⟩
      · rcases hlands with ⟨e', hcell', hnext, heq⟩ | ⟨-, hsame⟩
        · have hsame := h.entry_eq hcell hcell' hpass.1.1 (isScreen_iff.mp hnext.screen).1 heq
          rw [hsame] at hscreen
          exact hscreen hnext.screen
        · exact hpass.1.2 hsame
      · have hx := Slots.find?_some hx
        rw [← h.entry_eq hcell hx.1 hpass.1.1 hx.2.1 (hself.trans hx.2.2.symm)]
        exact Bool.eq_false_iff.mpr hscreen
      · rw [← hpos]
        exact hahead
      · have hused := (isScreen_iff.mp hs).1
        have hother : x.addr ≠ r.cfg.self := by
          intro hx'
          rw [h.entry_eq hcell hx hpass.1.1 hused (hself.trans hx'.symm)] at hscreen
          exact hscreen hs
        have hapart : posOf r x ≠ 0 := by
          rw [posOf, if_neg hother]
          exact h.proper.apart x.addr x (h.proper.mem hx hused).1 hother
        have hfar := hfirst x hx (hpasses x hx hs ha) ha
        rw [hpos, ahead_iff] at hfar
        rw [ahead_iff]
        rcases heading_cases edge with hd | hd <;> rw [hd] at hfar ⊢ <;> omega

/-! ## The button -/

/-- The screens of the chain, as the table has them. -/
def screens (r : Router) : List ChainEntry := r.chain.cells.filter isScreen

/-- What a tour has found: the next screen, and the one to wrap to. -/
def toured (r : Router) (next wrap : Option ChainEntry) : Tour :=
  ⟨(found r next).1, (found r next).2, (found r wrap).1, (found r wrap).2⟩

theorem argAux_nearer {pos : ChainEntry → Int} {c e : ChainEntry} (h : pos e < pos c) :
    List.argAux (fun b c => pos b < pos c) (some c) e = some e := if_pos h

theorem argAux_farther {pos : ChainEntry → Int} {c e : ChainEntry} (h : ¬ pos e < pos c) :
    List.argAux (fun b c => pos b < pos c) (some c) e = some c := if_neg h

theorem tourStep_other (r : Router) (curPos : Int) (t : Tour) {e : ChainEntry} (he : isScreen e = false) :
    tourStep r curPos t e = t := by
  unfold tourStep
  rw [if_pos]
  rw [← Bool.not_and, Bool.not_eq_true']
  exact he

theorem tourStep_screen {r : Router} {curPos : Int} {a b : Option ChainEntry} (ha : ∀ x ∈ a, x.addr ≠ addrNone)
    (hb : ∀ x ∈ b, x.addr ≠ addrNone) {e : ChainEntry} (he : isScreen e = true) :
    tourStep r curPos (toured r a b) e =
      toured r (if curPos < posOf r e then List.argAux (fun b c => posOf r b < posOf r c) a e else a)
        (List.argAux (fun b c => posOf r b < posOf r c) b e) := by
  have hnext : (if posOf r e > curPos ∧ ((toured r a b).next = addrNone ∨ posOf r e < (toured r a b).bestPos) then
        { toured r a b with next := e.addr, bestPos := posOf r e } else toured r a b) =
      toured r (if curPos < posOf r e then List.argAux (fun b c => posOf r b < posOf r c) a e else a) b := by
    by_cases hlt : curPos < posOf r e
    · rw [if_pos hlt]
      cases a with
      | none => rw [if_pos ⟨hlt, Or.inl rfl⟩]; rfl
      | some c =>
        by_cases hc : posOf r e < posOf r c
        · rw [if_pos ⟨hlt, Or.inr hc⟩, argAux_nearer hc]
          rfl
        · rw [if_neg fun h => h.2.elim (ha c rfl) hc, argAux_farther hc]
    · rw [if_neg hlt, if_neg fun h => hlt h.1]
  have hskip : ¬ (!e.used || !hasCap e.caps capHidOut) = true := by
    simp [(isScreen_iff.mp he).1, (isScreen_iff.mp he).2]
  unfold tourStep
  rw [if_neg hskip]
  simp only [hnext]
  generalize (if curPos < posOf r e then List.argAux (fun b c => posOf r b < posOf r c) a e else a) = a'
  cases b with
  | none => exact if_pos (Or.inl rfl)
  | some c =>
    by_cases hc : posOf r e < posOf r c
    · rw [argAux_nearer hc]
      exact if_pos (Or.inr hc)
    · rw [argAux_farther hc]
      exact if_neg fun h => h.elim (hb c rfl) hc

theorem foldl_tourStep {r : Router} {curPos : Int} (cells : List ChainEntry)
    (hnamed : ∀ e ∈ cells, e.used = true → e.addr ≠ addrNone) (a b : Option ChainEntry) (ha : ∀ x ∈ a, x.addr ≠ addrNone)
    (hb : ∀ x ∈ b, x.addr ≠ addrNone) :
    cells.foldl (tourStep r curPos) (toured r a b) = toured r
      (((cells.filter isScreen).filter fun e => decide (curPos < posOf r e)).foldl
        (List.argAux fun b c => posOf r b < posOf r c) a)
      ((cells.filter isScreen).foldl (List.argAux fun b c => posOf r b < posOf r c) b) := by
  have hkeep : ∀ (o : Option ChainEntry) (e : ChainEntry), (∀ x ∈ o, x.addr ≠ addrNone) → e.addr ≠ addrNone →
      ∀ x ∈ List.argAux (fun b c => posOf r b < posOf r c) o e, x.addr ≠ addrNone := by
    intro o e ho he x hx
    cases o with
    | none => cases hx; exact he
    | some c =>
      simp only [List.argAux] at hx
      split at hx
      · cases hx; exact he
      · exact ho x hx
  induction cells generalizing a b with
  | nil => rfl
  | cons e cells ih =>
    have ih := ih fun x hx => hnamed x (List.mem_cons_of_mem _ hx)
    rw [List.foldl_cons]
    cases hs : isScreen e with
    | false =>
      rw [tourStep_other r curPos _ hs, List.filter_cons_of_neg (by rw [hs]; exact Bool.false_ne_true)]
      exact ih a b ha hb
    | true =>
      have he := hnamed e List.mem_cons_self (isScreen_iff.mp hs).1
      rw [tourStep_screen ha hb hs, List.filter_cons_of_pos hs]
      by_cases hlt : curPos < posOf r e
      · rw [if_pos hlt, List.filter_cons_of_pos (by simpa using hlt), List.foldl_cons, List.foldl_cons]
        exact ih _ _ (hkeep a e ha he) (hkeep b e hb he)
      · rw [if_neg hlt, List.filter_cons_of_neg (by simpa using hlt), List.foldl_cons]
        exact ih _ _ ha (hkeep b e hb he)

theorem Addressed.found_ne {r : Router} (h : Addressed r) {l : List ChainEntry} (hl : l ⊆ screens r) {e : ChainEntry}
    (he : l.argmin (posOf r) = some e) : e.addr ≠ addrNone := by
  have hmem := List.mem_filter.mp (hl (List.argmin_mem (Option.mem_def.mpr he)))
  exact (h.proper.mem hmem.1 (isScreen_iff.mp hmem.2).1).2

theorem focusPos_eq (r : Router) :
    (if r.focus = r.cfg.self then 0 else ((chainFind r r.focus).map (·.relPos)).getD 0) = focusPos r := by
  unfold focusPos
  cases hf : chainFind r r.focus with
  | none => split <;> rfl
  | some e =>
    have hkey : e.addr = r.focus := (Slots.find?_some hf).2.2
    simp only [Option.map_some, Option.getD_some, posOf, hkey]

/-- Where a press leaves the focus: on the next screen, or on the first one of all. -/
theorem button_focus {r : Router} (h : Addressed r) (ha : isActive r = true) (now : Time) :
    (routerButton r now).focus =
      (((((screens r).filter fun e => decide (focusPos r < posOf r e)).argmin (posOf r)).or
        ((screens r).argmin (posOf r))).map (·.addr)).getD r.focus := by
  have hfold := @foldl_tourStep r (focusPos r) r.chain.cells (fun e he hu => (h.proper.mem he hu).2)
    none none nofun nofun
  simp only [routerButton, ha, Bool.not_true, if_neg Bool.false_ne_true, focusPos_eq]
  rw [show (⟨addrNone, 0, addrNone, 0⟩ : Tour) = toured r none none from rfl, hfold, applyFocus_focus]
  rw [show List.foldl _ none ((r.chain.cells.filter isScreen).filter fun e => decide (focusPos r < posOf r e)) =
    ((screens r).filter fun e => decide (focusPos r < posOf r e)).argmin (posOf r) from rfl,
    show List.foldl _ none (r.chain.cells.filter isScreen) = (screens r).argmin (posOf r) from rfl]
  cases hnext : ((screens r).filter fun e => decide (focusPos r < posOf r e)).argmin (posOf r) with
  | some e =>
    have hne := h.found_ne (List.filter_subset_self _) hnext
    simp [toured, found, hne]
  | none =>
    cases hwrap : (screens r).argmin (posOf r) with
    | some e =>
      have hne := h.found_ne (List.Subset.refl _) hwrap
      simp [toured, found, hne]
    | none => simp [toured, found]

/-! ## The tour -/

/-- The screens in increasing position. -/
def lineUp (r : Router) : List ChainEntry := (screens r).mergeSort fun a b => posOf r a ≤ posOf r b

/-- The focus is on screen `j` of the line. -/
def FocusAt (r : Router) (row : List ChainEntry) (j : Nat) : Prop := (row[j]?).map (·.addr) = some r.focus

def press (r : Router) (now : Time) : Router := step r (.button now)

def presses (r : Router) (nows : List Time) : Router := nows.foldl press r

/-- The focus after each press. -/
def foci : Router → List Time → List Addr
  | _, [] => []
  | r, now :: nows => (press r now).focus :: foci (press r now) nows

theorem lineUp_perm (r : Router) : (lineUp r).Perm (screens r) := List.mergeSort_perm _ _

theorem lineUp_sorted {r : Router} (hd : (screens r).Pairwise fun a b => posOf r a ≠ posOf r b) :
    (lineUp r).Pairwise fun a b => posOf r a < posOf r b := by
  have hle : (lineUp r).Pairwise fun a b => decide (posOf r a ≤ posOf r b) = true :=
    List.pairwise_mergeSort (fun a b c hab hbc => by simp only [decide_eq_true_eq] at *; omega)
      (fun a b => by simp only [Bool.or_eq_true, decide_eq_true_eq]; omega) _
  have hne : (lineUp r).Pairwise fun a b => posOf r a ≠ posOf r b :=
    ((lineUp_perm r).pairwise_iff fun hab => Ne.symm hab).mpr hd
  refine hle.imp₂ (fun a b hab hne => ?_) hne
  simp only [decide_eq_true_eq] at hab
  omega

section tour

variable {r : Router} {row : List ChainEntry} (hp : (screens r).Perm row)
  (hs : row.Pairwise fun a b => posOf r a < posOf r b)
include hp hs

/-- A press steps one place down the line, and from its end to its head. -/
theorem press_focus (h : Addressed r) (ha : isActive r = true) {j : Nat} (hj : j < row.length) (hf : FocusAt r row j)
    (now : Time) : FocusAt (press r now) row ((j + 1) % row.length) := by
  obtain ⟨e, he, hkey⟩ := Option.map_eq_some_iff.mp hf
  have hmem := List.mem_filter.mp (hp.mem_iff.mpr (List.mem_of_getElem? he))
  have hfound := (h.proper.mem hmem.1 (isScreen_iff.mp hmem.2).1).1
  rw [hkey] at hfound
  have hpos : focusPos r = posOf r e := by rw [focusPos, show chainFind r r.focus = some e from hfound]; rfl
  have hfocus : (press r now).focus = ((row[j + 1]?.or row.head?).map (·.addr)).getD r.focus := by
    have hb := button_focus h.taken ha now
    rw [← argmin_above hp hs he, ← argmin_of_sorted hp hs, ← hpos]
    exact hb
  unfold FocusAt
  rw [hfocus]
  by_cases hlast : j + 1 < row.length
  · rw [Nat.mod_eq_of_lt hlast, List.getElem?_eq_getElem hlast]
    rfl
  · have hwrap : j + 1 = row.length := by omega
    have hpositive : 0 < row.length := by omega
    rw [hwrap, Nat.mod_self, List.getElem?_eq_none (Nat.le_refl _), List.head?_eq_getElem?,
      List.getElem?_eq_getElem hpositive]
    rfl

omit hp hs in
theorem press_same (h : Addressed r) (now : Time) :
    SameTables r (press r now) ∧ isActive (press r now) = isActive r ∧ Addressed (press r now) := by
  refine ⟨?_, ?_, addressed_step h nofun⟩
  · have hsame := sameTables_button { r with out := [] } now
    exact ⟨hsame.cfg, hsame.chain, hsame.election⟩
  · have huhrp : (press r now).uhrp = r.uhrp := by
      unfold press step apply
      simp only [routerButton]
      split
      · rfl
      · exact applyFocus_uhrp _ _ _ _ _ _
    unfold isActive
    rw [huhrp]

/-- After any number of presses the table is as it was, and the focus as many places on. -/
theorem presses_focus (h : Addressed r) (ha : isActive r = true) {j : Nat} (hj : j < row.length) (hf : FocusAt r row j)
    (nows : List Time) : (presses r nows).chain = r.chain ∧ FocusAt (presses r nows) row ((j + nows.length) % row.length) ∧
      ∀ i < nows.length, (foci r nows)[i]? = (row[(i + (j + 1)) % row.length]?).map (·.addr) := by
  induction nows generalizing r j with
  | nil =>
    refine ⟨rfl, ?_, nofun⟩
    rw [List.length_nil, Nat.add_zero, Nat.mod_eq_of_lt hj]
    exact hf
  | cons now nows ih =>
    obtain ⟨hsame, hactive, haddressed⟩ := press_same h now
    have hpress := press_focus hp hs h ha hj hf now
    have hpos : posOf (press r now) = posOf r := by
      unfold posOf
      rw [hsame.cfg]
    have hp' : (screens (press r now)).Perm row := by
      unfold screens
      rw [hsame.chain]
      exact hp
    have hj' : (j + 1) % row.length < row.length := Nat.mod_lt _ (by omega)
    obtain ⟨hchain, hlast, hfoci⟩ := ih hp' (by rw [hpos]; exact hs) haddressed (hactive.trans ha) hj' hpress
    refine ⟨hchain.trans hsame.chain, ?_, fun i hi => ?_⟩
    · rw [Nat.mod_add_mod] at hlast
      rw [List.length_cons, show j + (nows.length + 1) = j + 1 + nows.length by omega]
      exact hlast
    · cases i with
      | zero =>
        rw [Nat.zero_add]
        exact hpress.symm
      | succ i =>
        have hi := hfoci i (by simpa using hi)
        rw [show i + ((j + 1) % row.length + 1) = i + 1 + (j + 1) % row.length by omega, Nat.add_mod_mod] at hi
        exact hi

omit hp hs in
theorem length_foci (r : Router) (nows : List Time) : (foci r nows).length = nows.length := by
  induction nows generalizing r with
  | nil => rfl
  | cons now nows ih => rw [foci, List.length_cons, List.length_cons, ih]

end tour

/-- As many presses as there are screens visit every screen once, in increasing position
    with one wrap, and bring the focus back; the table is never touched. -/
theorem button_tours {r : Router} (h : Addressed r) (ha : isActive r = true)
    (hd : (screens r).Pairwise fun a b => posOf r a ≠ posOf r b) (hf : ∃ e ∈ screens r, e.addr = r.focus)
    {nows : List Time} (hn : nows.length = (screens r).length) :
    (lineUp r).Perm (screens r) ∧ ((lineUp r).Pairwise fun a b => posOf r a < posOf r b) ∧
      (∃ j < (screens r).length, FocusAt r (lineUp r) j ∧ foci r nows = ((lineUp r).rotate (j + 1)).map (·.addr)) ∧
      (presses r nows).focus = r.focus ∧ ∀ i, (presses r (nows.take i)).chain = r.chain := by
  have hp := lineUp_perm r
  have hs := lineUp_sorted hd
  obtain ⟨e, he, hkey⟩ := hf
  obtain ⟨j, hj, hget⟩ := List.getElem_of_mem (hp.mem_iff.mpr he)
  have hat : FocusAt r (lineUp r) j := by rw [FocusAt, List.getElem?_eq_getElem hj, hget, Option.map_some, hkey]
  have hlen : (lineUp r).length = nows.length := by rw [hp.length_eq, hn]
  obtain ⟨-, hback, hfoci⟩ := presses_focus hp.symm hs h ha hj hat nows
  refine ⟨hp, hs, ⟨j, by rw [← hp.length_eq]; exact hj, hat, ?_⟩, ?_, fun i => ?_⟩
  · refine List.ext_getElem? fun i => ?_
    by_cases hi : i < nows.length
    · rw [hfoci i hi, List.getElem?_map, List.getElem?_rotate (by omega)]
    · rw [List.getElem?_eq_none (by rw [length_foci]; omega),
        List.getElem?_eq_none (by rw [List.length_map, List.length_rotate]; omega)]
  · rw [← hlen, Nat.add_mod_right, Nat.mod_eq_of_lt hj] at hback
    exact Option.some.inj (hback.symm.trans hat)
  · exact (presses_focus hp.symm hs h ha hj hat (nows.take i)).1

/-! ## A chain of three -/

/-- A board with a machine, one place from us. -/
def helloFrom (src : Addr) : Frame :=
  { type := msgHello, ttl := ttlDefault, src := src, dst := addrBroadcast, seq := 0,
    payload := helloPack ⟨UhrpState.listen.toByte, 50, 0, 15, src.toUInt64, capHidOut, 0⟩, body := [] }

/-- The board boots, takes the role, and hears one board on either side. -/
def threeOps : List Op := [.start 0, .tick 150, .rx (helloFrom 1) .up 160, .rx (helloFrom 2) .down 161]

/-- The user goes to the machine up-chain, and with the pointer to its right edge. -/
def edgeOps : List Op := [.setFocus 1 focusRCfg 170, .localMouse ⟨32767, 0, 0, 0, 0⟩ 171]

def shove : MouseReport := ⟨600, 0, 0, 0, 0⟩

theorem signed_three (cfg : RouterCfg) : Signed cfg (threeOps.foldl step (routerInit cfg)) := by
  have h0 : Signed cfg (routerInit cfg) := Reach.init rfl
  refine Reach.run h0 threeOps ⟨?_, ?_, ?_, ?_, trivial⟩ <;> intro f inPort now hop <;> cases hop <;> decide

theorem signed_edge (cfg : RouterCfg) : Signed cfg (edgeOps.foldl step (threeOps.foldl step (routerInit cfg))) := by
  refine Reach.run (signed_three cfg) edgeOps ⟨?_, ?_, trivial⟩ <;> intro f inPort now hop <;> cases hop

def screenCfg : RouterCfg := ⟨9, 0x99, capHidOut ||| capHidIn, false, timingDefault, pointerCfgDefault⟩

def inTheMiddle : Router := threeOps.foldl step (routerInit screenCfg)

theorem button_tours_of_three :
    foci inTheMiddle [200, 300, 400] = [2, 1, 9] ∧ (presses inTheMiddle [200, 300, 400]).focus = inTheMiddle.focus := by
  have h0 : Addressed inTheMiddle := signed_addressed (by decide) (signed_three screenCfg)
  have hn : ([200, 300, 400] : List Time).length = (screens inTheMiddle).length := by decide +kernel
  have h := button_tours h0 (by decide +kernel) (by decide +kernel) (by decide +kernel) hn
  exact ⟨by decide +kernel, h.2.2.2.1⟩

def atTheEdge : Router := edgeOps.foldl step inTheMiddle

theorem crossing_lands_of_three : LandsNext atTheEdge .right (step atTheEdge (.localMouse shove 172)).focus := by
  have hedge : gesture atTheEdge shove 172 = .right := by decide +kernel
  have hne : gesture atTheEdge shove 172 ≠ .none := by rw [hedge]; decide
  have h0 : Addressed atTheEdge := signed_addressed (by decide) (signed_edge screenCfg)
  have h := crossing_lands h0 (by decide +kernel) (by decide +kernel) hne
  have hfree : ¬ SelfInTheWay atTheEdge (gesture atTheEdge shove 172) := by decide +kernel
  rw [← hedge]
  exact h.mpr hfree

/-- The coordinator in the middle of the row: a display and configuration, no machine. -/
def coordinatorCfg : RouterCfg := ⟨9, 0x99, capDisplay ||| capConfig, false, timingDefault, pointerCfgDefault⟩

def coordinating : Router := edgeOps.foldl step (threeOps.foldl step (routerInit coordinatorCfg))

/-- From the board up-chain a crossing to the right lands on the coordinator, not on the
    screen past it. -/
theorem crossed_onto_the_coordinator : Signed coordinatorCfg coordinating ∧ isActive coordinating = true ∧
    (chainFind coordinating coordinating.focus).isSome = true ∧ gesture coordinating shove 172 = .right ∧
    (step coordinating (.localMouse shove 172)).focus = coordinating.cfg.self ∧
    ¬ LandsNext coordinating .right (step coordinating (.localMouse shove 172)).focus :=
  ⟨signed_edge coordinatorCfg, by decide +kernel, by decide +kernel, by decide +kernel, by decide +kernel,
    by decide +kernel⟩

end DeskHop.Routing
