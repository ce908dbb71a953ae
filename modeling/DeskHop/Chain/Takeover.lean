/-
  DeskHop.Chain.Takeover — a planned handover leaves the user where they are.

  A board learns the focus from FOCUS frames only, and one that becomes ACTIVE announces
  the focus it knows of, or else picks one. `Takeover` is a chain together with the boards
  that have become ACTIVE since the start, when one board was ACTIVE and the user was at
  the machine `m`.

  Proved, for every order of ticks, keystrokes and arrivals in which the replay window
  drops no frame (`handover_keeps_focus`): if each board that becomes ACTIVE has heard
  of `m`, or has heard of no focus and would pick `m` itself (`Inherits`), an ACTIVE board
  has its focus at `m`, and so has every board once the wires are drained. The invariant
  is that on every lane the last FOCUS on its way to a board names `m`.

  As built a coordinator that joins after the last FOCUS was sent has heard of none, and
  takes the user to the machine next to it (`latecomer_moves_the_user`).
-/

import DeskHop.Chain.Network

namespace DeskHop.Chain

open DeskHop.Lib DeskHop.Wire DeskHop.Routing

variable {n : Nat}

structure Takeover (n : Nat) where
  net : Network n
  /-- Who has become ACTIVE, in order. -/
  led : List (Fin n)

namespace Takeover

open Network (Event)

def promoted (s s' : Network n) : List (Fin n) :=
  (List.finRange n).filter fun i => !isActive (s.router i) && isActive (s'.router i)

def step (t : Takeover n) (e : Event n) : Takeover n :=
  { net := t.net.step e, led := t.led ++ promoted t.net (t.net.step e) }

/-- The target a FOCUS frame tells board `a`. -/
def focusFor (a : Addr) (f : Frame) : Option Addr :=
  if f.type = msgFocus ∧ f.letter.isFor a = true then (focusUnpack f.payload).map (·.target) else none

/-- Not a report of a pointer. -/
def noPointer (_ : Addr) (c : Content) : Prop := c.type = msgInput → byteAt c.payload 0 ≠ inputKindMouse

/-- One board is ACTIVE, and the user is at `m`. -/
structure Start (addr : Fin n → Addr) (m : Addr) (t : Takeover n) : Prop where
  drained : ∀ i, (t.net.router i).uhrp.ev = Election.Events.none
  physical : t.net.row.Physical addr
  incumbent : ∃ a, (∀ i, isActive (t.net.router i) = true ↔ i = a) ∧ (t.net.router a).focus = m
  /-- What the boards have yet to hear of the focus ends with `m`. -/
  last : ∀ p x, LastIs m (t.net.row.coming p x (focusFor (addr x)))
  typing : Carries noPointer t.net.row
  led : t.led = []

/-- A board that becomes ACTIVE takes the focus `m` over. -/
def Succeeds (m : Addr) (s : Network n) (e : Event n) : Prop :=
  ∀ i op, s.call? e = some (i, op) → isActive (s.router i) = false → isActive (Routing.step (s.router i) op) = true →
    Inherits (informed (s.router i) op) m

/-- No frame is lost, and who becomes ACTIVE takes the focus over. -/
def Admitted (m : Addr) (t : Takeover n) (e : Event n) : Prop := t.net.Heard e ∧ Succeeds m t.net e

instance (m : Addr) (s : Network n) (e : Event n) : Decidable (Succeeds m s e) :=
  decidable_of_iff (∀ c ∈ (s.call? e).toList, isActive (s.router c.1) = false →
      isActive (Routing.step (s.router c.1) c.2) = true → Inherits (informed (s.router c.1) c.2) m)
    ⟨fun h i op hc => h (i, op) (Option.mem_toList.mpr hc), fun h c hc => h c.1 c.2 (Option.mem_toList.mp hc)⟩

instance (m : Addr) (t : Takeover n) (e : Event n) : Decidable (Admitted m t e) :=
  inferInstanceAs (Decidable (_ ∧ _))

/-! ## One board -/

/-- Whatever the board does, the focus stays at `m`. -/
structure Abides (m : Addr) (r t : Router) : Prop where
  tells : ∀ c ∈ sends t.out, (c.type = msgFocus → c = focusNotice m) ∧ ∀ a, noPointer a c
  focus : t.focus = r.focus ∨ t.focus = m
  active : isActive t = true → t.focus = m
  promoted : isActive r = false → isActive t = true → focusNotice m ∈ sends t.out

theorem abides_of_quiet {m : Addr} {r t : Router} (hm : isActive r = true → r.focus = m) (h : Quiet r t) : Abides m r t := by
  refine ⟨fun c hc => ?_, Or.inl h.focus, fun ha => ?_, fun hr ht => ?_⟩
  · rw [h.silent] at hc
    cases hc
  · rw [h.role] at ha
    rw [h.focus]
    exact hm ha
  · rw [h.role, hr] at ht
    cases ht

theorem abides_of_announced {m : Addr} {r : Router} {op : Routing.Op} (hm : isActive r = true → r.focus = m)
    (hne : m ≠ addrNone) (hop : (informed r op).focus = r.focus ∧ isActive (informed r op) = isActive r)
    (hs : isActive r = false → isActive (Routing.step r op) = true → Inherits (informed r op) m)
    (h : Announced (informed r op) (Routing.step r op)) : Abides m r (Routing.step r op) := by
  obtain ⟨hfocus, hrole⟩ := hop
  have hpromoted : isActive r = false → isActive (Routing.step r op) = true →
      inheritedFocus (informed r op) = m ∧ (Routing.step r op).focus = m ∧ focusNotice m ∈ sends (Routing.step r op).out := by
    intro hr ht
    have hin := inheritedFocus_of_inherits hne (hs hr ht)
    obtain ⟨h1, h2⟩ := h.promoted (hrole.trans hr) ht (by rw [hin]; exact hne)
    rw [hin] at h1 h2
    exact ⟨hin, h1, h2⟩
  have hkept : isActive r = true ∨ isActive (Routing.step r op) = false → (Routing.step r op).focus = r.focus := by
    intro hr
    refine (h.kept ?_).trans hfocus
    rw [hrole]
    exact hr
  refine ⟨fun c hc => ⟨fun ht => ?_, fun _ ht => ?_⟩, ?_, fun ht => ?_, fun hr ht => (hpromoted hr ht).2.2⟩
  · obtain ⟨hc', hr, ht'⟩ := h.focuses c hc ht
    rw [hc', (hpromoted (hrole.symm.trans hr) ht').1]
  · exact absurd ht (h.toAll c hc).2.2
  · cases hr : isActive r with
    | true => exact Or.inl (hkept (Or.inl hr))
    | false =>
      cases ht : isActive (Routing.step r op) with
      | true => exact Or.inr (hpromoted hr ht).2.1
      | false => exact Or.inl (hkept (Or.inr ht))
  · cases hr : isActive r with
    | true => exact (hkept (Or.inl hr)).trans (hm hr)
    | false => exact (hpromoted hr ht).2.1

/-- A FOCUS apart, no event moves the focus from `m`. -/
theorem step_abides {m : Addr} {r : Router} {op : Routing.Op} (hd : r.uhrp.ev = Election.Events.none)
    (hm : isActive r = true → r.focus = m) (hne : m ≠ addrNone) (hop : plain op)
    (hs : isActive r = false → isActive (Routing.step r op) = true → Inherits (informed r op) m)
    (hf : ∀ f inPort now, op = .rx f inPort now → f.type = msgFocus → focusUnpack f.payload = none) :
    Abides m r (Routing.step r op) := by
  have hsend : ∀ (a : Act), (Routing.step r op).out = [a] → (∀ c ∈ (sentBy a).toList, c.type ≠ msgFocus ∧ ∀ b, noPointer b c) →
      (Routing.step r op).focus = r.focus → isActive (Routing.step r op) = isActive r → Abides m r (Routing.step r op) := by
    intro a hout hc hfocus hrole
    have hsent : sends (Routing.step r op).out = (sentBy a).toList := by
      rw [hout, sends, List.filterMap_cons]
      cases sentBy a <;> rfl
    refine ⟨fun c hm => ?_, Or.inl hfocus, fun ha => hfocus.trans (hm (hrole.symm.trans ha)), fun hr ht => ?_⟩
    · rw [hsent] at hm
      exact ⟨fun ht => absurd ht (hc c hm).1, (hc c hm).2⟩
    · rw [hrole, hr] at ht
      cases ht
  rcases step_effect hd hop with h | ⟨rep, ha, h⟩ | ⟨rep, ha, hout, hfocus, hrole⟩ | ⟨f, fo, inPort, now, rfl, ht, hu⟩ | h
  · refine abides_of_announced hm hne ?_ hs h
    cases op with
    | tick now => exact informed_same r (Or.inl ⟨now, rfl⟩)
    | rx f inPort now => exact informed_same r (Or.inr ⟨f, inPort, now, rfl⟩)
    | localKbd rep => exact ⟨rfl, rfl⟩
    | start now => cases hop
    | localMouse rep now => cases hop
    | button now => cases hop
    | setFocus target reason now => cases hop
    | setCaps caps => cases hop
  · refine hsend _ h.out (fun c hc => ?_) h.focus h.role
    split at hc
    · cases hc
    · obtain rfl := List.mem_singleton.mp hc
      exact ⟨(by decide : msgKbd ≠ msgFocus), fun _ ht => absurd ht (by decide : msgKbd ≠ msgInput)⟩
  · unfold forwarded at hout
    split at hout
    · refine hsend _ hout (fun c hc => ?_) hfocus hrole
      obtain rfl := List.mem_singleton.mp hc
      exact ⟨(by decide : msgInput ≠ msgFocus), fun _ _ => (by decide : inputKindKbd ≠ inputKindMouse)⟩
    · exact abides_of_quiet hm ⟨by rw [hout]; rfl, hfocus, hrole⟩
  · rw [hf f inPort now rfl ht] at hu
    cases hu
  · exact abides_of_quiet hm h

/-! ## On the wires -/

theorem focusFor_hopless (a : Addr) : Hopless (focusFor a) := fun _ _ => rfl

theorem focusFor_notice {a m : Addr} {f : Frame} (hc : contentOf f = focusNotice m) : focusFor a f = some m := by
  have ht : f.type = msgFocus := congrArg Content.type hc
  have hd : f.dst = addrBroadcast := congrArg Content.dst hc
  have hp : f.payload = (focusNotice m).payload := congrArg Content.payload hc
  rw [focusFor, if_pos ⟨ht, by simp [Letter.isFor, Frame.letter, hd]⟩, hp, focusNotice, focusUnpack_pack]
  rfl

theorem focusFor_of_ne {a : Addr} {f : Frame} (h : f.type = msgFocus → focusUnpack f.payload = none) :
    focusFor a f = none := by
  unfold focusFor
  split
  · rename_i hc
    rw [h hc.1]
    rfl
  · rfl

variable {addr : Fin n → Addr} {m : Addr} {r : Row n}

theorem last_sendAll (h : ∀ p x, LastIs m (r.coming p x (focusFor (addr x)))) (i : Fin n) {cs : List Content}
    (hcs : ∀ c ∈ cs, c.type = msgFocus → c = focusNotice m) (p : Port) (x : Fin n) :
    LastIs m ((sendAll r i cs).coming p x (focusFor (addr x))) := by
  induction cs generalizing r with
  | nil => exact h p x
  | cons c cs ih =>
    refine ih (r := r.send i c.type c.dst c.payload) (fun p x => ?_) fun c' hc' => hcs c' (List.mem_cons_of_mem _ hc')
    obtain ⟨u, v, w, h1, h2, hw, -⟩ := coming_send r i x c p (focusFor (addr x))
    have hlast := h p x
    rw [h1] at hlast
    rw [h2]
    refine hlast.insert fun b hb => ?_
    obtain ⟨f, hf, hsel⟩ := hw b hb
    have ht : f.type = msgFocus := by
      by_contra hne
      rw [focusFor, if_neg fun h => hne h.1] at hsel
      cases hsel
    rw [focusFor_notice (hf.trans (hcs c List.mem_cons_self (hf ▸ ht)))] at hsel
    exact (Option.some.inj hsel).symm

theorem coming_sendAll_ne_nil {β : Type} {sel : Frame → Option β} {p : Port} {x : Fin n} (h : r.coming p x sel ≠ [])
    (i : Fin n) (cs : List Content) : (sendAll r i cs).coming p x sel ≠ [] := by
  induction cs generalizing r with
  | nil => exact h
  | cons c cs ih =>
    refine ih (r := r.send i c.type c.dst c.payload) fun hn => h ?_
    obtain ⟨u, v, w, h1, h2, -, -⟩ := coming_send r i x c p sel
    rw [h2, List.append_assoc, List.append_eq_nil_iff, List.append_eq_nil_iff] at hn
    rw [h1, hn.1, hn.2.2]
    rfl

/-- An announcement is on its way to every other board. -/
theorem notice_coming {i x : Fin n} (hx : x ≠ i) {cs : List Content} (hm : focusNotice m ∈ cs) :
    ∃ p, (sendAll r i cs).coming p x (focusFor (addr x)) ≠ [] := by
  induction cs generalizing r with
  | nil => cases hm
  | cons c cs ih =>
    rcases List.mem_cons.mp hm with rfl | hm
    · obtain ⟨p, hp⟩ := place_total (Ne.symm hx)
      refine ⟨p, coming_sendAll_ne_nil (r := r.send i _ _ _) (fun hn => ?_) i cs⟩
      obtain ⟨u, v, w, -, h2, -, hw⟩ := coming_send r i x (focusNotice m) p (focusFor (addr x))
      obtain ⟨f, hf, -, hsel⟩ := hw hp rfl
      rw [focusFor_notice hf] at hsel
      rw [h2, ← hsel] at hn
      simp at hn
    · exact ih (r := r.send i c.type c.dst c.payload) hm

/-! ## The invariant -/

/-- Where there is a role, and on the wires, the focus is `m`. -/
structure Settling (addr : Fin n → Addr) (m : Addr) (s : Network n) : Prop where
  drained : ∀ i, (s.router i).uhrp.ev = Election.Events.none
  physical : s.row.Physical addr
  active : ∀ i, isActive (s.router i) = true → (s.router i).focus = m
  last : ∀ p x, LastIs m (s.row.coming p x (focusFor (addr x)))
  typing : Carries noPointer s.row

/-- The board has its focus at `m`, or has yet to hear of it. -/
def Told (addr : Fin n → Addr) (m : Addr) (s : Network n) (x : Fin n) : Prop :=
  (s.router x).focus = m ∨ ∃ p, s.row.coming p x (focusFor (addr x)) ≠ []

structure Inv (addr : Fin n → Addr) (m : Addr) (t : Takeover n) : Prop where
  settling : Settling addr m t.net
  told : t.led ≠ [] → ∀ x, Told addr m t.net x

variable {s : Network n}

theorem act_settling (h : Settling addr m s) {i : Fin n} {op : Routing.Op} (hop : plain op)
    (ha : Abides m (s.router i) (Routing.step (s.router i) op)) : Settling addr m (s.act i op) := by
  refine ⟨fun k => ?_, physical_sendAll h.physical i _, fun k hk => ?_,
    last_sendAll h.last i fun c hc => (ha.tells c hc).1, h.typing.sendAll h.physical fun c hc => (ha.tells c hc).2 _⟩
  · by_cases hki : k = i
    · subst hki
      rw [Network.act_router_self]
      exact step_drained (h.drained k) hop
    · rw [Network.act_router_ne s hki]
      exact h.drained k
  · by_cases hki : k = i
    · subst hki
      rw [Network.act_router_self] at hk ⊢
      exact ha.active hk
    · rw [Network.act_router_ne s hki] at hk ⊢
      exact h.active k hk

theorem act_told {i x : Fin n} {op : Routing.Op} (ha : Abides m (s.router i) (Routing.step (s.router i) op))
    (h : Told addr m s x) : Told addr m (s.act i op) x := by
  rcases h with h | ⟨p, h⟩
  · refine Or.inl ?_
    by_cases hx : x = i
    · subst hx
      rw [Network.act_router_self]
      rcases ha.focus with hf | hf
      · exact hf.trans h
      · exact hf
    · rw [Network.act_router_ne s hx]
      exact h
  · exact Or.inr ⟨p, coming_sendAll_ne_nil h i _⟩

/-- A board that becomes ACTIVE tells all the others. -/
theorem act_promoted {i : Fin n} {op : Routing.Op} (ha : Abides m (s.router i) (Routing.step (s.router i) op))
    (h0 : isActive (s.router i) = false) (h1 : isActive (Routing.step (s.router i) op) = true) (x : Fin n) :
    Told addr m (s.act i op) x := by
  by_cases hx : x = i
  · subst hx
    refine Or.inl ?_
    rw [Network.act_router_self]
    exact ha.active h1
  · exact Or.inr (notice_coming hx (ha.promoted h0 h1))

section

variable (hinj : Function.Injective addr) (hres : ∀ i, addr i ≠ addrBroadcast) (hn : n ≤ 20) {p : Port} {i : Fin n}
  {f : Frame} (hf : s.row.front p i = some f) (hfresh : fresh (s.row.station i) f = true)

include hinj hres hn hf hfresh

/-- What is for board `i` only, no other board reads. -/
theorem coming_arrive_other (h : Settling addr m s) {x : Fin n} (hx : x ≠ i) (p' : Port) :
    (s.row.arrive p i f).coming p' x (focusFor (addr x)) = s.row.coming p' x (focusFor (addr x)) := by
  refine coming_arrive_fresh h.physical hinj hn hf hfresh (focusFor_hopless _) hx (fun hd => ?_) p'
  unfold focusFor
  rw [if_neg]
  rintro ⟨-, hfor⟩
  simp only [Letter.isFor, Frame.letter, hd, Bool.or_eq_true, beq_iff_eq] at hfor
  rcases hfor with he | he
  · exact hx (hinj he).symm
  · exact hres i he

theorem arrive_settling (h : Settling addr m s) : Settling addr m { s with row := s.row.arrive p i f } := by
  refine ⟨h.drained, h.physical.arrive hf, h.active, fun p' x => ?_, h.typing.arrive hf⟩
  have hold := h.last p' x
  by_cases hx : x = i
  · subst hx
    by_cases hp : p' = p
    · subst hp
      rw [Row.coming_arrive_here (focusFor (addr x)) hf] at hold
      exact hold.of_append
    · rw [← Row.coming_arrive_other (focusFor (addr x)) hp x x f] at hold
      exact hold
  · rw [← coming_arrive_other hinj hres hn hf hfresh h hx p'] at hold
    exact hold

theorem arrive_told (h : Settling addr m s) {x : Fin n} (hx : x ≠ i ∨ focusFor (addr i) f = none) (ht : Told addr m s x) :
    Told addr m { s with row := s.row.arrive p i f } x := by
  refine ht.imp id fun ⟨p', hp⟩ => ⟨p', ?_⟩
  by_cases hxi : x = i
  · subst hxi
    have hnone : focusFor (addr x) f = none := hx.resolve_left fun h => h rfl
    show (s.row.arrive p x f).coming p' x _ ≠ []
    rw [coming_arrive_skip h.physical hinj hn hf hfresh (focusFor_hopless _) hnone]
    exact hp
  · show (s.row.arrive p i f).coming p' x _ ≠ []
    rw [coming_arrive_other hinj hres hn hf hfresh h hxi]
    exact hp

/-- A FOCUS that arrives is not the last word, unless it names `m`. -/
theorem focus_arrives (h : Settling addr m s) {fo : Focus} (ht : f.type = msgFocus) (hu : focusUnpack f.payload = some fo)
    (hmine : f.letter.isFor (addr i) = true) (now : Time) :
    Settling addr m ({ s with row := s.row.arrive p i f : Network n }.act i (.rx f p.other now)) ∧
      Told addr m ({ s with row := s.row.arrive p i f : Network n }.act i (.rx f p.other now)) i := by
  let s1 : Network n := { s with row := s.row.arrive p i f }
  have h1 : Settling addr m s1 := arrive_settling hinj hres hn hf hfresh h
  obtain ⟨hsent, hrole, hfocus⟩ := step_rx_focus (r := s.router i) p.other now ht hu
  have hrow : (s1.act i (.rx f p.other now)).row = s1.row := by
    show sendAll s1.row i (sends _) = _
    rw [hsent]
    rfl
  have hplain : plain (.rx f p.other now) := fun hi => absurd (ht.symm.trans hi) (by decide : msgFocus ≠ msgInput)
  refine ⟨⟨fun k => ?_, by rw [hrow]; exact h1.physical, fun k hk => ?_, by rw [hrow]; exact h1.last, by rw [hrow]; exact h1.typing⟩, ?_⟩
  · by_cases hki : k = i
    · subst hki
      rw [Network.act_router_self]
      exact step_drained (h.drained k) hplain
    · rw [Network.act_router_ne s1 hki]
      exact h.drained k
  · by_cases hki : k = i
    · subst hki
      rw [Network.act_router_self] at hk ⊢
      have hactive : isActive (s.router k) = true := hrole.symm.trans hk
      exact (hfocus.trans (if_pos hactive)).trans (h.active k hactive)
    · rw [Network.act_router_ne s1 hki] at hk ⊢
      exact h.active k hk
  · have hsel : focusFor (addr i) f = some fo.target := by
      rw [focusFor, if_pos ⟨ht, hmine⟩, hu]
      rfl
    have hlast := h.last p i
    rw [Row.coming_arrive_here (focusFor (addr i)) hf, hsel] at hlast
    unfold Told
    rw [Network.act_router_self, hrow]
    by_cases hrest : s1.row.coming p i (focusFor (addr i)) = []
    · -- it was the last on its lane
      refine Or.inl ?_
      have htarget : fo.target = m := by
        refine hlast _ ?_
        rw [show (s.row.arrive p i f).coming p i (focusFor (addr i)) = [] from hrest]
        rfl
      refine hfocus.trans ?_
      cases ha : isActive (s.router i) with
      | true => exact (if_pos rfl).trans (h.active i ha)
      | false => exact htarget
    · exact Or.inr ⟨p, hrest⟩

end

/-- A board is called, with its wires as they are. -/
theorem act_inv {t : Takeover n} {s : Network n} (hs : s.router = t.net.router) (h : Settling addr m s)
    (ht : t.led ≠ [] → ∀ x, Told addr m s x) {i : Fin n} {op : Routing.Op} (hop : plain op)
    (ha : Abides m (s.router i) (Routing.step (s.router i) op)) :
    Inv addr m { net := s.act i op, led := t.led ++ promoted t.net (s.act i op) } := by
  refine ⟨act_settling h hop ha, fun hled x => ?_⟩
  by_cases hold : t.led = []
  · -- somebody has just become ACTIVE, and it is the board that was called
    obtain ⟨k, hk⟩ := List.exists_mem_of_ne_nil _ (fun hn : promoted t.net (s.act i op) = [] => hled (by rw [hold, hn]; rfl))
    obtain ⟨h0, h1⟩ : isActive (s.router k) = false ∧ isActive ((s.act i op).router k) = true := by
      rw [hs]
      simpa [promoted] using hk
    have hki : k = i := by
      by_contra hne
      rw [Network.act_router_ne s hne, h0] at h1
      cases h1
    subst hki
    rw [Network.act_router_self] at h1
    exact act_promoted ha h0 h1 x
  · exact act_told ha (ht hold x)

theorem promoted_same {s s' : Network n} (h : ∀ i, isActive (s'.router i) = isActive (s.router i)) : promoted s s' = [] := by
  refine List.filter_eq_nil_iff.mpr fun i _ => ?_
  rw [h]
  cases isActive (s.router i) <;> decide

/-- Nobody is called. -/
theorem idle_inv {t : Takeover n} {s : Network n} (hs : s.router = t.net.router) (h : Settling addr m s)
    (ht : t.led ≠ [] → ∀ x, Told addr m s x) : Inv addr m { net := s, led := t.led ++ promoted t.net s } := by
  refine ⟨h, fun hled => ht ?_⟩
  rw [promoted_same fun i => by rw [hs], List.append_nil] at hled
  exact hled

theorem step_inv (hinj : Function.Injective addr) (hres : ∀ i, addr i ≠ addrBroadcast) (hn : n ≤ 20) (hm : m ≠ addrNone)
    {t : Takeover n} {e : Event n} (hi : Inv addr m t) (ho : Admitted m t e) : Inv addr m (t.step e) := by
  obtain ⟨h, ht⟩ := hi
  obtain ⟨hheard, hsucc⟩ := ho
  cases e with
  | tick i now =>
    exact act_inv rfl h ht trivial
      (step_abides (h.drained i) (h.active i) hm trivial (hsucc i _ rfl) fun f inPort now' he => by cases he)
  | capture i rep =>
    exact act_inv rfl h ht trivial
      (step_abides (h.drained i) (h.active i) hm trivial (hsucc i _ rfl) fun f inPort now' he => by cases he)
  | arrive p i now =>
    cases hf : t.net.row.front p i with
    | none =>
      have hstep : t.net.step (.arrive p i now) = t.net := by simp [Network.step, Network.call?, Network.taken, hf]
      rw [step, hstep]
      exact idle_inv rfl h ht
    | some f =>
      have hfresh : fresh (t.net.row.station i) f = true := by
        simpa [Network.Heard, hf] using hheard
      have hmine := mine_iff h.physical hinj hn hf hfresh
      let s1 : Network n := { t.net with row := t.net.row.arrive p i f }
      have h1 : Settling addr m s1 := arrive_settling hinj hres hn hf hfresh h
      by_cases hme : f.letter.isFor (addr i) = true
      · have hcall : t.net.call? (.arrive p i now) = some (i, .rx f p.other now) := by
          simp [Network.call?, hf, hmine.mpr hme]
        have hstep : t.net.step (.arrive p i now) = s1.act i (.rx f p.other now) := by
          simp only [Network.step, hcall, Network.taken, hf, Option.elim, s1]
        rw [step, hstep]
        by_cases hfo : f.type = msgFocus ∧ (focusUnpack f.payload).isSome = true
        · obtain ⟨fo, hu⟩ := Option.isSome_iff_exists.mp hfo.2
          obtain ⟨h2, h3⟩ := focus_arrives hinj hres hn hf hfresh h hfo.1 hu hme now
          have hrole := (step_rx_focus (r := t.net.router i) p.other now hfo.1 hu).2.1
          refine ⟨h2, fun hled x => ?_⟩
          rw [promoted_same fun k => ?_, List.append_nil] at hled
          · by_cases hx : x = i
            · rw [hx]
              exact h3
            · refine (arrive_told hinj hres hn hf hfresh h (Or.inl hx) (ht hled x)).imp (fun hfx => ?_) fun ⟨p', hp'⟩ => ⟨p', ?_⟩
              · rw [Network.act_router_ne s1 hx]
                exact hfx
              · exact coming_sendAll_ne_nil hp' i _
          · by_cases hk : k = i
            · rw [hk, Network.act_router_self]
              exact hrole
            · rw [Network.act_router_ne s1 hk]
        · have hnone : f.type = msgFocus → focusUnpack f.payload = none := fun h =>
            Option.not_isSome_iff_eq_none.mp fun hs => hfo ⟨h, hs⟩
          have hplain : plain (.rx f p.other now) := front_carried h.typing hf
          refine act_inv (s := s1) rfl h1 (fun hled x => arrive_told hinj hres hn hf hfresh h (Or.inr (focusFor_of_ne hnone)) (ht hled x)) hplain
            (step_abides (h.drained i) (h.active i) hm hplain (hsucc i _ hcall) fun f' inPort now' he => ?_)
          cases he
          exact hnone
      · have hcall : t.net.call? (.arrive p i now) = none := by
          simp [Network.call?, hf, mt hmine.mp hme]
        have hstep : t.net.step (.arrive p i now) = s1 := by
          simp only [Network.step, hcall, Network.taken, hf, Option.elim, s1]
        have hnone : focusFor (addr i) f = none := if_neg fun hc => hme hc.2
        rw [step, hstep]
        exact idle_inv rfl h1 fun hled x => arrive_told hinj hres hn hf hfresh h (Or.inr hnone) (ht hled x)

theorem start_inv {t : Takeover n} (h : Start addr m t) : Inv addr m t := by
  obtain ⟨a, ha, hfocus⟩ := h.incumbent
  refine ⟨⟨h.drained, h.physical, fun i hi => ?_, h.last, h.typing⟩, fun hled => absurd h.led hled⟩
  obtain rfl := (ha i).mp hi
  exact hfocus

end Takeover

open Takeover

/-- If who becomes ACTIVE has heard of `m`, or of no focus and would pick `m` itself, an
    ACTIVE board has its focus at `m`; and once a board has become ACTIVE and the wires
    are drained, every board has. -/
theorem handover_keeps_focus {addr : Fin n → Addr} (hn : n ≤ maxBoards) (hinj : Function.Injective addr)
    (hres : ∀ i, addr i ≠ addrNone ∧ addr i ≠ addrBroadcast) {m : Addr} (hm : m ≠ addrNone) {t : Takeover n}
    (h : Reach (Start addr m) (Admitted m) Takeover.step t) :
    (∀ i, isActive (t.net.router i) = true → (t.net.router i).focus = m) ∧
      (t.led ≠ [] → t.net.Drained → ∀ x, (t.net.router x).focus = m) := by
  have hn' : n ≤ 20 := Nat.le_trans hn (by decide)
  have hi : Inv addr m t :=
    Reach.inv (I := Inv addr m) (fun _ => start_inv) (fun _ _ hi ho => step_inv hinj (fun i => (hres i).2) hn' hm hi ho) h
  refine ⟨hi.settling.active, fun hled hd x => ?_⟩
  rcases hi.told hled x with hx | ⟨p, hp⟩
  · exact hx
  · exact absurd (coming_drained hd p x _) hp

/-! ## Two handovers -/

namespace Takeover

theorem start_idle {m : Addr} {router : Fin n → Router} (hd : ∀ i, (router i).uhrp.ev = Election.Events.none)
    (ha : ∃ a, (∀ i, isActive (router i) = true ↔ i = a) ∧ (router a).focus = m) :
    Start boardAddr m ⟨⟨router, idleRow⟩, []⟩ := by
  refine ⟨hd, physical_idle, ha, fun p x => ?_, carries_idle _, rfl⟩
  show LastIs m ((idleRow : Row n).coming p x (focusFor (boardAddr x)))
  rw [coming_idle]
  intro b hb
  cases hb

end Takeover

/-- A coordinator joins next to the only board, which is the user's. -/
def joined : Takeover 2 := ⟨⟨[incumbent, coordinator 2].get, idleRow⟩, []⟩

/-- The two say HELLO; the board resigns, and the coordinator takes over. -/
def joinedRun : List (Network.Event 2) :=
  let a : Fin 2 := ⟨0, Nat.two_pos⟩
  let c : Fin 2 := ⟨1, Nat.one_lt_two⟩
  [.tick a 200, .tick c 200, .arrive .down c 210, .arrive .up a 210, .arrive .down c 220] ++
    List.replicate 3 (.arrive .up a 230)

theorem joined_start : Start boardAddr 1 joined := by
  refine start_idle (by decide +kernel) ⟨0, by decide +kernel, by decide +kernel⟩

theorem handover_keeps_focus_of_joined :
    (joinedRun.foldl Takeover.step joined).led = [1] ∧
      ∀ x, ((joinedRun.foldl Takeover.step joined).net.router x).focus = 1 := by
  have hled : (joinedRun.foldl Takeover.step joined).led = [1] := by decide +kernel
  have hd : (joinedRun.foldl Takeover.step joined).net.Drained := by
    intro p i
    cases p <;> revert i <;> decide +kernel
  have hr : Reach (Start boardAddr 1) (Admitted 1) Takeover.step (joinedRun.foldl Takeover.step joined) :=
    (Reach.init joined_start).run joinedRun (by decide +kernel)
  exact ⟨hled, (handover_keeps_focus (by decide) (by decide) (by decide) (by decide) hr).2 (by rw [hled]; decide) hd⟩

/-- A board without the role joins, and then, behind it, a coordinator. -/
def latecomer : Takeover 3 := ⟨⟨[incumbent, bystander, coordinator 3].get, idleRow⟩, []⟩

def latecomerRun : List (Network.Event 3) :=
  let a : Fin 3 := ⟨0, Nat.zero_lt_succ 2⟩
  let b : Fin 3 := ⟨1, Nat.succ_lt_succ (Nat.zero_lt_succ 1)⟩
  let c : Fin 3 := ⟨2, Nat.lt_succ_self 2⟩
  [.tick b 170, .tick a 200, .tick c 200, .arrive .down b 210, .arrive .down c 210, .arrive .down c 210, .arrive .up b 210,
    .arrive .up a 210, .arrive .up a 210, .arrive .down b 220, .arrive .down c 220] ++
    List.replicate 2 (.arrive .up b 230) ++ List.replicate 2 (.arrive .up a 230)

/-- The user is at board 1, and nothing is lost; the coordinator has heard of no focus and
    takes the user, and every board with them, to board 2, which is next to it. -/
theorem latecomer_moves_the_user :
    Start boardAddr 1 latecomer ∧ Reach.Admitted (fun t e => t.net.Heard e) Takeover.step latecomer latecomerRun ∧
      (latecomerRun.foldl Takeover.step latecomer).led = [2] ∧ (latecomerRun.foldl Takeover.step latecomer).net.Drained ∧
      ∀ x, ((latecomerRun.foldl Takeover.step latecomer).net.router x).focus = 2 := by
  refine ⟨start_idle (by decide +kernel) ⟨0, by decide +kernel, by decide +kernel⟩, by decide +kernel, by decide +kernel, ?_,
    by decide +kernel⟩
  intro p i
  cases p <;> revert i <;> decide +kernel

end DeskHop.Chain
