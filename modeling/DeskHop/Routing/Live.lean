/-
  DeskHop.Routing.Live — which boards the focus can go to.

  A run is one router ticked every millisecond and, beside it, when a frame of each board
  last arrived (`Living`). The election ages its table of peers by the hold time; the
  router's own chain table, from which every target is taken and by which the chain is
  counted, is never aged.

  Proved, in every state of every run in which the router is ACTIVE (`only_live_iff`): no
  silent board is a target, a default, or counted, and a board put in the place of another
  is reached by the button, exactly when no board of the table has fallen silent for the
  hold time. `silent_board_is_chosen` is a run in which one has.
-/

import DeskHop.Routing.Release
import DeskHop.Routing.Screens

namespace DeskHop.Routing

open DeskHop.Lib DeskHop.Election DeskHop.Wire

/-- Number of boards in the chain table, this one included. -/
def routerChainSize (r : Router) : UInt8 := r.chain.cells.foldl (fun n e => if e.used then n + 1 else n) 0

/-! ## A run, millisecond by millisecond -/

structure Living where
  r : Router
  /-- The real time in milliseconds. -/
  now : Nat
  /-- When a frame of each board last arrived. -/
  heard : Addr → Option Nat

/-- What happens at a time; a millisecond passes with a tick. -/
inductive Happening where
  | ms
  | localKbd (rep : KbdReport)
  | localMouse (rep : MouseReport)
  | button
  | setFocus (target : Addr) (reason : UInt8)
  | rx (f : Frame) (inPort : Port)
  | setCaps (caps : UInt16)

namespace Living

/-- The operation of the router, and the time it is given. -/
def op (s : Living) : Happening → Op
  | .ms => .tick (UInt32.ofNat (s.now + 1))
  | .localKbd rep => .localKbd rep
  | .localMouse rep => .localMouse rep (UInt32.ofNat s.now)
  | .button => .button (UInt32.ofNat s.now)
  | .setFocus target reason => .setFocus target reason (UInt32.ofNat s.now)
  | .rx f inPort => .rx f inPort (UInt32.ofNat s.now)
  | .setCaps caps => .setCaps caps

def step (s : Living) (e : Happening) : Living where
  r := Routing.step s.r (s.op e)
  now := match e with
    | .ms => s.now + 1
    | _ => s.now
  heard := match e with
    | .rx f _ => if f.src = s.r.cfg.self then s.heard else Function.update s.heard f.src (some s.now)
    | _ => s.heard

/-- Started at `t0`, nobody heard. -/
def start (cfg : RouterCfg) (t0 : Nat) : Living :=
  ⟨Routing.step (routerInit cfg) (.start (UInt32.ofNat t0)), t0, fun _ => none⟩

/-- A frame of `a` has arrived within the hold time. -/
def live (s : Living) (a : Addr) : Bool :=
  (s.heard a).any fun t => decide (s.now < t + s.r.uhrp.cfg.timing.holdMs.toNat)

end Living

/-- The states of all runs. -/
def Lived (cfg : RouterCfg) : Living → Prop :=
  Reach (fun s => ∃ t0, s = Living.start cfg t0) (fun _ _ => True) Living.step

/-- Nowhere, our own board, or a live one. -/
def LiveTarget (s : Living) (a : Addr) : Prop := a = addrNone ∨ a = s.r.cfg.self ∨ s.live a = true

/-- Only live boards can be reached, and only they are counted. -/
structure OnlyLive (s : Living) : Prop where
  button : (press s.r (UInt32.ofNat s.now)).focus = s.r.focus ∨ LiveTarget s (press s.r (UInt32.ofNat s.now)).focus
  crossing : ∀ edge, LiveTarget s (crossingTarget s.r edge)
  default : LiveTarget s (pickDefaultFocus s.r)
  /-- The chain is we and the live boards. -/
  size : (routerChainSize s.r).toNat = s.r.chain.cells.countP fun e => e.used && (e.addr == s.r.cfg.self || s.live e.addr)
  /-- A screen plugged in where another board was removed is reached by the button. -/
  replaced : ∀ x ∈ s.r.chain.cells, ∀ y ∈ s.r.chain.cells, x.used = true → x.addr ≠ s.r.cfg.self → s.live x.addr = false →
    isScreen y = true → s.live y.addr = true → posOf s.r y = posOf s.r x → ∃ nows, (presses s.r nows).focus = y.addr

/-- No board of the table has fallen silent for the hold time. -/
def NoneSilent (s : Living) : Prop :=
  ∀ a t, (chainFind s.r a).isSome = true → s.heard a = some t → s.now < t + s.r.uhrp.cfg.timing.holdMs.toNat

/-! ## Every listed board has been heard -/

structure Attended (s : Living) : Prop where
  sound : Sound s.r
  listed : ∀ a, (chainFind s.r a).isSome = true → a = s.r.cfg.self ∨ (s.heard a).isSome = true
  own : s.heard s.r.cfg.self = none

theorem find?_written {chain t : Chain} {a k : Addr} {b : ChainEntry} {g : ChainEntry → ChainEntry}
    (he : chain.ensure (freshEntry a) = some (b, t)) (hg : ∀ e, (g e).addr = e.addr)
    (h : ((t.modify a g).find? k).isSome = true) : k = a ∨ (chain.find? k).isSome = true := by
  by_cases hk : k = a
  · exact Or.inl hk
  · rw [Slots.find?_modify_ne t hk g fun e _ hka _ => (hg e).trans hka, Slots.find?_ensure_ne he hk] at h
    exact Or.inr h

theorem listed_learnPosition {r : Router} {f : Frame} {inPort : Port} {now : Time} {k : Addr}
    (h : (chainFind (learnPosition r f inPort now) k).isSome = true) :
    k = f.src ∧ f.src ≠ r.cfg.self ∨ (chainFind r k).isSome = true := by
  unfold learnPosition at h
  split at h
  · exact Or.inr h
  rename_i hs
  split at h
  · exact Or.inr h
  · rename_i chain hc
    obtain ⟨⟨b, t⟩, he, rfl⟩ := Option.map_eq_some_iff.mp hc
    have hw := @find?_written r.chain t f.src k b
      (fun e => { e with relPos := relPosFromFrame f inPort, lastSeen := now }) he (fun _ => rfl) h
    exact hw.imp_left fun hk => ⟨hk, hs⟩

theorem listed_learnCaps {r : Router} {src k : Addr} {hl : Hello} (h : (chainFind (learnCaps r src hl) k).isSome = true) :
    k = src ∨ (chainFind r k).isSome = true := by
  unfold learnCaps at h
  split at h
  · exact Or.inr h
  · rename_i chain hc
    obtain ⟨⟨b, t⟩, he, rfl⟩ := Option.map_eq_some_iff.mp hc
    exact @find?_written r.chain t src k b (fun e => { e with uid := hl.uid, caps := hl.caps }) he (fun _ => rfl) h

theorem listed_informed {r : Router} {f : Frame} {inPort : Port} {now : Time} {k : Addr}
    (h : (chainFind (informed r (.rx f inPort now)) k).isSome = true) :
    k = f.src ∨ (chainFind r k).isSome = true := by
  have hpos : ∀ {k}, (chainFind (learnPosition { r with out := [] } f inPort now) k).isSome = true →
      k = f.src ∨ (chainFind r k).isSome = true := fun h => (listed_learnPosition h).imp_left And.left
  simp only [informed] at h
  split at h
  · exact hpos h
  split at h
  · rcases listed_learnCaps h with hk | hk
    · exact Or.inl hk
    · exact hpos hk
  · exact hpos h

/-- Only a received frame adds a board to the table, and never our own. -/
theorem listed_step {r : Router} (h : Sound r) {op : Op} {k : Addr} (hk : (chainFind (step r op) k).isSome = true) :
    (∃ f inPort now, op = .rx f inPort now ∧ k = f.src) ∨ (chainFind r k).isSome = true := by
  by_cases hcaps : ∃ caps, op = .setCaps caps
  · obtain ⟨caps, rfl⟩ := hcaps
    refine Or.inr ?_
    have hk : (chainFind (routerSetCaps { r with out := [] } caps) k).isSome = true := hk
    unfold routerSetCaps at hk
    split at hk
    · exact hk
    · obtain ⟨e, hown⟩ := Option.isSome_iff_exists.mp h.own_known
      rcases @find?_written r.chain r.chain r.cfg.self k e (fun e => { e with caps := caps })
        (Slots.ensure_of_find (a := freshEntry r.cfg.self) hown) (fun _ => rfl) hk with rfl | hold
      · exact h.own_known
      · exact hold
  · have ht := sameTables_step r h.drained op fun caps hc => hcaps ⟨caps, hc⟩
    unfold chainFind at hk
    rw [ht.chain] at hk
    cases op with
    | rx f inPort now => exact (listed_informed hk).imp_left fun hsrc => ⟨f, inPort, now, rfl, hsrc⟩
    | _ => exact Or.inr hk

theorem step_self {r : Router} (h : Sound r) (op : Op) : (step r op).cfg.self = r.cfg.self := by
  by_cases hcaps : ∃ caps, op = .setCaps caps
  · obtain ⟨caps, rfl⟩ := hcaps
    show (routerSetCaps { r with out := [] } caps).cfg.self = r.cfg.self
    unfold routerSetCaps
    split <;> rfl
  · have ht := sameTables_step r h.drained op fun caps hc => hcaps ⟨caps, hc⟩
    rw [ht.cfg]
    cases op with
    | rx f inPort now => rw [informed_cfg]
    | _ => rfl

theorem attended_step {s : Living} (h : Attended s) (e : Happening) : Attended (s.step e) := by
  have hself : (s.step e).r.cfg.self = s.r.cfg.self := step_self h.sound _
  refine ⟨sound_step h.sound _, fun a ha => ?_, ?_⟩
  · rw [hself]
    by_cases hown : a = s.r.cfg.self
    · exact Or.inl hown
    refine Or.inr ?_
    cases e with
    | rx f inPort =>
      simp only [Living.step]
      rcases listed_step h.sound ha with ⟨_, _, _, hop, rfl⟩ | hlisted
      · cases hop
        rw [if_neg hown, Function.update_self]
        rfl
      · have hheard := (h.listed a hlisted).resolve_left hown
        split
        · exact hheard
        · by_cases hsrc : a = f.src
          · rw [hsrc, Function.update_self]
            rfl
          · rw [Function.update_of_ne hsrc]
            exact hheard
    | _ =>
      rcases listed_step h.sound ha with ⟨_, _, _, hop, _⟩ | hlisted
      · cases hop
      · exact (h.listed a hlisted).resolve_left hown
  · rw [hself]
    cases e with
    | rx f inPort =>
      simp only [Living.step]
      split
      · exact h.own
      · rename_i hsrc
        rw [Function.update_of_ne (Ne.symm hsrc)]
        exact h.own
    | _ => exact h.own

theorem attended_start (cfg : RouterCfg) (t0 : Nat) : Attended (Living.start cfg t0) := by
  have hsound := sound_init cfg
  have hself : (Living.start cfg t0).r.cfg.self = cfg.self := step_self hsound _
  refine ⟨sound_step hsound (.start (UInt32.ofNat t0)), fun a ha => Or.inl ?_, rfl⟩
  rw [hself]
  rcases listed_step hsound ha with ⟨_, _, _, hop, _⟩ | hlisted
  · cases hop
  · by_contra hne
    rw [chainFind, find?_init_other cfg hne] at hlisted
    cases hlisted

theorem lived_attended {cfg : RouterCfg} {s : Living} (h : Lived cfg s) : Attended s := by
  refine h.inv (I := Attended) (fun s hs => ?_) fun s e hs _ => attended_step hs e
  obtain ⟨t0, rfl⟩ := hs
  exact attended_start cfg t0

/-! ## What can be chosen is in the table -/

theorem listed_of_index {r : Router} {a : Addr} (h : ∃ i, r.chain.index? a = some i) : (chainFind r a).isSome = true := by
  obtain ⟨i, hi⟩ := h
  have hany : (r.chain.index? a).isSome = true := by rw [hi]; rfl
  rw [Slots.index?, List.findIdx?_isSome] at hany
  rw [chainFind, Slots.find?, List.find?_isSome]
  exact List.any_eq_true.mp hany

theorem press_listed (r : Router) (now : Time) :
    (press r now).focus = r.focus ∨ (chainFind r (press r now).focus).isSome = true := by
  show (routerButton { r with out := [] } now).focus = r.focus ∨
    (chainFind r (routerButton { r with out := [] } now).focus).isSome = true
  unfold routerButton
  split
  · exact Or.inl rfl
  · dsimp only
    generalize (if r.focus = r.cfg.self then (0 : Int) else _) = curPos
    have htour := Desk.tour_known { r with out := [] } curPos
    generalize List.foldl (tourStep { r with out := [] } curPos) _ _ = t at htour
    have htarget : (if t.next = addrNone then t.wrap else t.next) = addrNone ∨
        ∃ i, r.chain.index? (if t.next = addrNone then t.wrap else t.next) = some i := by
      split
      · exact htour _ (Or.inr rfl)
      · exact htour _ (Or.inl rfl)
    rw [applyFocus_focus]
    generalize (if t.next = addrNone then t.wrap else t.next) = a at htarget ⊢
    rcases htarget with rfl | hknown
    · exact Or.inl rfl
    · by_cases hnone : a = addrNone
      · rw [if_pos hnone]
        exact Or.inl rfl
      · rw [if_neg hnone]
        exact Or.inr (listed_of_index hknown)

theorem crossing_listed (r : Router) (edge : Edge) :
    crossingTarget r edge = addrNone ∨ (chainFind r (crossingTarget r edge)).isSome = true := by
  by_cases hnone : crossingTarget r edge = addrNone
  · exact Or.inl hnone
  · exact Or.inr (listed_of_index (Desk.neighbourOf_known hnone))

theorem default_listed (r : Router) :
    pickDefaultFocus r = addrNone ∨ pickDefaultFocus r = r.cfg.self ∨
      (chainFind r (pickDefaultFocus r)).isSome = true := by
  unfold pickDefaultFocus
  split
  · exact Or.inr (Or.inl rfl)
  · refine Or.imp_right Or.inr ?_
    refine List.foldlRecOn (motive := fun b : Addr × Int => b.1 = addrNone ∨ (chainFind r b.1).isSome = true)
      r.chain.cells _ (Or.inl rfl) fun b hb e he => ?_
    simp only [defaultStep]
    split
    · exact hb
    rename_i hskip
    have hu : e.used = true := by
      simp only [Bool.or_eq_true, Bool.not_eq_true', not_or, Bool.not_eq_false] at hskip
      exact hskip.1.1
    split
    · split
      · exact Or.inr (Slots.find?_isSome_of_mem he hu)
      · exact hb
    · split
      · exact Or.inr (Slots.find?_isSome_of_mem he hu)
      · exact hb

/-! ## The count -/

theorem foldl_count (cells : List ChainEntry) (n : UInt8) (hn : n.toNat + cells.length < 256) :
    (cells.foldl (fun n e => if e.used then n + 1 else n) n).toNat = n.toNat + cells.countP (·.used) := by
  induction cells generalizing n with
  | nil => simp
  | cons e cells ih =>
    rw [List.length_cons] at hn
    rw [List.foldl_cons, List.countP_cons]
    have hone : (n + 1).toNat = n.toNat + 1 := by
      rw [UInt8.toNat_add]
      exact Nat.mod_eq_of_lt (by simp only [UInt8.reduceToNat]; omega)
    cases hu : e.used with
    | true =>
      simp only [if_true]
      rw [ih _ (by omega), hone]
      omega
    | false =>
      simp only [Bool.false_eq_true, if_false]
      rw [ih _ (by omega)]
      omega

/-- The chain is counted over the whole table. -/
theorem chainSize_eq (r : Router) : (routerChainSize r).toNat = r.chain.cells.countP (·.used) := by
  have hlen : r.chain.cells.length = 16 := r.chain.size
  have hfold := foldl_count r.chain.cells 0 (by rw [hlen]; decide)
  rwa [UInt8.toNat_zero, Nat.zero_add] at hfold

theorem countP_and_eq {α : Type} (p q : α → Bool) (l : List α) :
    (l.countP p = l.countP fun a => p a && q a) ↔ ∀ a ∈ l, p a = true → q a = true := by
  induction l with
  | nil => simp
  | cons a l ih =>
    have hle : (l.countP fun a => p a && q a) ≤ l.countP p :=
      List.countP_mono_left fun a _ ha => (Bool.and_eq_true_iff.mp ha).1
    rw [List.countP_cons, List.countP_cons, List.forall_mem_cons, ← ih]
    cases hp : p a with
    | false => simp
    | true =>
      cases hq : q a with
      | true => simp
      | false =>
        simp
        omega

/-! ## The chain's own table and the election's -/

section

variable {s : Living} (h : Attended s)
include h

theorem live_of_listed (hn : NoneSilent s) {a : Addr} (ha : (chainFind s.r a).isSome = true) :
    a = s.r.cfg.self ∨ s.live a = true := by
  rcases h.listed a ha with hself | hheard
  · exact Or.inl hself
  · obtain ⟨t, ht⟩ := Option.isSome_iff_exists.mp hheard
    refine Or.inr ?_
    rw [Living.live, ht]
    exact decide_eq_true (hn a t ha ht)

theorem only_live_of_none_silent (hn : NoneSilent s) : OnlyLive s := by
  have hlisted : ∀ {a}, (chainFind s.r a).isSome = true → LiveTarget s a :=
    fun ha => Or.inr (live_of_listed h hn ha)
  have hcell : ∀ e ∈ s.r.chain.cells, e.used = true → e.addr = s.r.cfg.self ∨ s.live e.addr = true :=
    fun e he hu => live_of_listed h hn (Slots.find?_isSome_of_mem he hu)
  constructor
  case button => exact (press_listed s.r _).imp_right hlisted
  case crossing => exact fun edge => (crossing_listed s.r edge).elim Or.inl hlisted
  case default =>
    rcases default_listed s.r with hnone | hself | hknown
    · exact Or.inl hnone
    · exact Or.inr (Or.inl hself)
    · exact hlisted hknown
  case size =>
    rw [chainSize_eq, countP_and_eq]
    intro e he hu
    rw [Bool.or_eq_true, beq_iff_eq]
    exact hcell e he hu
  case replaced =>
    intro x hx _ _ hu hother hsilent
    rw [(hcell x hx hu).resolve_left hother] at hsilent
    cases hsilent

theorem none_silent_of_size
    (hsize : (routerChainSize s.r).toNat =
      s.r.chain.cells.countP fun e => e.used && (e.addr == s.r.cfg.self || s.live e.addr)) : NoneSilent s := by
  intro a t ha ht
  rw [chainSize_eq, countP_and_eq] at hsize
  obtain ⟨e, he⟩ := Option.isSome_iff_exists.mp ha
  obtain ⟨hmem, hu, hkey⟩ := Slots.find?_some he
  have hkey : e.addr = a := hkey
  have hlive := hsize e hmem hu
  rw [hkey, Bool.or_eq_true, beq_iff_eq] at hlive
  rcases hlive with hself | hlive
  · -- no frame of our own counts as heard
    rw [hself, h.own] at ht
    cases ht
  · rw [Living.live, ht] at hlive
    exact of_decide_eq_true hlive

end

/-- In every state of every run: only live boards can be reached and are counted, exactly
    when no board of the chain table has fallen silent. -/
theorem only_live_iff {cfg : RouterCfg} {s : Living} (h : Lived cfg s) : OnlyLive s ↔ NoneSilent s :=
  ⟨fun ho => none_silent_of_size (lived_attended h) ho.size, only_live_of_none_silent (lived_attended h)⟩

/-- A screen up-chain and one down-chain, heard once. -/
def heardOnce : Living :=
  [.rx (helloFrom 1) .up, .rx (helloFrom 2) .down].foldl Living.step (Living.start screenCfg 0)

theorem lived_heardOnce : Lived screenCfg heardOnce := (Reach.init ⟨0, rfl⟩).run_free (fun _ _ => trivial) _

theorem only_live_in_time : OnlyLive heardOnce :=
  (only_live_iff lived_heardOnce).mpr (none_silent_of_size (lived_attended lived_heardOnce) (by decide +kernel))

/-- More than the hold time later neither has been heard again, and we are ACTIVE. -/
def forsaken : Living := (List.replicate 151 Happening.ms).foldl Living.step heardOnce

/-- The election has forgotten both boards, and the button leads to one of them. -/
theorem silent_board_is_chosen : Lived screenCfg forsaken ∧ isActive forsaken.r = true ∧
    forsaken.heard 2 = some 0 ∧ 0 + forsaken.r.uhrp.cfg.timing.holdMs.toNat < forsaken.now ∧
    forsaken.r.uhrp.peers.find? 2 = none ∧ forsaken.r.focus = screenCfg.self ∧
    (press forsaken.r (UInt32.ofNat forsaken.now)).focus = 2 ∧ crossingTarget forsaken.r .right = 2 ∧
    routerChainSize forsaken.r = 3 ∧ ¬ OnlyLive forsaken := by
  have hrun : Lived screenCfg forsaken := lived_heardOnce.run_free (fun _ _ => trivial) _
  have hreached : isActive forsaken.r = true ∧
      forsaken.heard 2 = some 0 ∧ 0 + forsaken.r.uhrp.cfg.timing.holdMs.toNat < forsaken.now ∧
      forsaken.r.uhrp.peers.find? 2 = none ∧ forsaken.r.focus = screenCfg.self ∧
      (press forsaken.r (UInt32.ofNat forsaken.now)).focus = 2 ∧ crossingTarget forsaken.r .right = 2 ∧
      routerChainSize forsaken.r = 3 := by decide +kernel
  obtain ⟨hactive, hheard, hnow, hforgotten, hfocus, hpress, hcross, hsize⟩ := hreached
  refine ⟨hrun, hactive, hheard, hnow, hforgotten, hfocus, hpress, hcross, hsize, fun ho => ?_⟩
  exact absurd ho.size (by decide +kernel)

end DeskHop.Routing
