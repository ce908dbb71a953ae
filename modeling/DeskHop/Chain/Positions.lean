/-
  DeskHop.Chain.Positions — where the boards of a line take each other to stand
  (`core/src/router.c`, `core/src/link.c`).

  Each board of the line has its link and its router. Whatever a router or any other part
  of a board asks for is sent; the bytes go along the wires in any order; and what a link
  hands over, but for pairing, goes to the router, which reads off the arrival port and the
  hops left how far the sender is.

  Proved: on a line of at most 16 boards, whatever is sent and however it is delivered,
  every entry of a chain table for another board says where that board stands
  (`positions_are_physical`). So all boards agree on one order from left to right.
-/

import DeskHop.Routing.Live
import DeskHop.Routing.Screens
import DeskHop.Wire.Line

namespace DeskHop.Chain

open DeskHop.Lib DeskHop.Wire DeskHop.Routing

/-! ## One frame -/

/-- The hops a frame has left tell how far it has come, and its arrival port from where. -/
theorem relPosFromFrame_travelled {n : Nat} {addr : Fin n → Addr} {p : Port} {q : Nat} {f : Frame} {s i : Fin n}
    (h : Row.Travelled addr p q f s) (hq : place p i = q + 1) :
    relPosFromFrame f p.other = (s.val : Int) - i.val := by
  have hs := s.isLt
  have hi := i.isLt
  have haway := h.away
  have hhops := h.hops
  have hdef : ttlDefault.toNat = 20 := rfl
  unfold relPosFromFrame
  cases p with
  | down =>
    simp only [place] at hq haway hhops
    simp only [Port.other, if_true]
    split <;> split <;> omega
  | up =>
    simp only [place] at hq haway hhops
    simp only [Port.other, reduceCtorEq, if_false]
    split <;> split <;> omega

/-! ## What a router makes of it -/

/-- A lookup answers the entry written, or what was there. -/
theorem find?_written {chain t : Chain} {b e : ChainEntry} {src a : Addr} {g : ChainEntry → ChainEntry}
    (hg : ∀ e, (g e).used = e.used ∧ (g e).addr = e.addr) (he : chain.ensure (freshEntry src) = some (b, t))
    (h : (t.modify src g).find? a = some e) : (a = src ∧ e = g b) ∨ (a ≠ src ∧ chain.find? a = some e) := by
  have hkeep : ∀ e : ChainEntry, Slotted.used e = true → Slotted.key e = src →
      Slotted.used (g e) = true ∧ Slotted.key (g e) = src :=
    fun e hu hk => ⟨(hg e).1.trans hu, (hg e).2.trans hk⟩
  by_cases ha : a = src
  · subst ha
    have hb : t.find? a = some b := Slots.find?_ensure_self he rfl
    rw [Slots.find?_modify_self t a g hkeep, hb] at h
    cases h
    exact Or.inl ⟨rfl, rfl⟩
  · rw [Slots.find?_modify_ne t ha g fun e hu hk _ => (hkeep e hu hk).2] at h
    exact Or.inr ⟨ha, (Slots.find?_ensure_ne he ha).symm.trans h⟩

/-- A lookup answers what the frame tells of its sender, or what was there. -/
theorem chainFind_learnPosition {r : Router} {f : Frame} {inPort : Port} {now : Time} {a : Addr} {e : ChainEntry}
    (h : chainFind (learnPosition r f inPort now) a = some e) :
    (a = f.src ∧ e.relPos = relPosFromFrame f inPort) ∨ chainFind r a = some e := by
  unfold learnPosition at h
  split at h
  · exact Or.inr h
  split at h
  · exact Or.inr h
  · rename_i chain hc
    obtain ⟨⟨b, t⟩, he, rfl⟩ := Option.map_eq_some_iff.mp hc
    rcases find?_written (g := fun e => { e with relPos := relPosFromFrame f inPort, lastSeen := now })
      (fun _ => ⟨rfl, rfl⟩) he h with ⟨ha, rfl⟩ | ⟨-, hold⟩
    · exact Or.inl ⟨ha, rfl⟩
    · exact Or.inr hold

/-- What a HELLO tells leaves the positions alone. -/
theorem chainFind_learnCaps {r : Router} {src : Addr} (hknown : chainGet r src = none ∨ (chainFind r src).isSome = true)
    {hl : Hello} {a : Addr} {e : ChainEntry} (h : chainFind (learnCaps r src hl) a = some e) :
    ∃ e0, chainFind r a = some e0 ∧ e0.relPos = e.relPos := by
  unfold learnCaps at h
  split at h
  · exact ⟨e, h, rfl⟩
  · rename_i chain hc
    obtain ⟨⟨b, t⟩, he, rfl⟩ := Option.map_eq_some_iff.mp hc
    rcases find?_written (g := fun e => { e with uid := hl.uid, caps := hl.caps }) (fun _ => ⟨rfl, rfl⟩) he h with
      ⟨rfl, rfl⟩ | ⟨-, hold⟩
    · obtain ⟨e0, h0⟩ := Option.isSome_iff_exists.mp (hknown.resolve_left (by rw [hc]; exact nofun))
      have hsame := Slots.ensure_of_find (a := freshEntry a) h0
      rw [he] at hsame
      cases hsame
      exact ⟨b, h0, rfl⟩
    · exact ⟨e, hold, rfl⟩

/-- After an operation a lookup answers the position that was there, or the one that the
    frame received tells. -/
theorem chainFind_step {r : Router} (hs : Sound r) {op : Op} {a : Addr} {e : ChainEntry}
    (h : chainFind (Routing.step r op) a = some e) :
    (∃ e0, chainFind r a = some e0 ∧ e0.relPos = e.relPos) ∨
      ∃ f inPort now, op = .rx f inPort now ∧ a = f.src ∧ e.relPos = relPosFromFrame f inPort := by
  by_cases hcaps : ∃ caps, op = .setCaps caps
  · obtain ⟨caps, rfl⟩ := hcaps
    have h' : chainFind (routerSetCaps { r with out := [] } caps) a = some e := h
    unfold routerSetCaps at h'
    split at h'
    · exact Or.inl ⟨e, h', rfl⟩
    · by_cases ha : a = r.cfg.self
      · subst ha
        obtain ⟨e0, h0, rfl⟩ := Option.map_eq_some_iff.mp
          ((Slots.find?_modify_self r.chain r.cfg.self (fun e => { e with caps := caps }) fun e hu hk => ⟨hu, hk⟩).symm.trans h')
        exact Or.inl ⟨e0, h0, rfl⟩
      · exact Or.inl ⟨e, (Slots.find?_modify_ne r.chain ha (fun e => { e with caps := caps }) fun e _ hk _ => hk).symm.trans h',
          rfl⟩
  · have ht := sameTables_step r hs.drained op fun caps hc => hcaps ⟨caps, hc⟩
    rw [chainFind, ht.chain] at h
    cases op with
    | rx f inPort now =>
      have hk := known_learnPosition { r with out := [] } f inPort now hs.own_known
      have hlearnt : ∀ e, chainFind (learnPosition { r with out := [] } f inPort now) a = some e →
          (∃ e0, chainFind r a = some e0 ∧ e0.relPos = e.relPos) ∨
            ∃ f' inPort' now', Op.rx f inPort now = .rx f' inPort' now' ∧ a = f'.src ∧ e.relPos = relPosFromFrame f' inPort' := by
        intro e he
        rcases chainFind_learnPosition he with ⟨ha, hp⟩ | hold
        · exact Or.inr ⟨f, inPort, now, rfl, ha, hp⟩
        · exact Or.inl ⟨e, hold, rfl⟩
      simp only [informed] at h
      split at h
      · exact hlearnt e h
      split at h
      · obtain ⟨e0, h0, hp⟩ := chainFind_learnCaps hk h
        rw [← hp]
        exact hlearnt e0 h0
      · exact hlearnt e h
    | setCaps caps => exact absurd ⟨caps, rfl⟩ hcaps
    | _ => exact Or.inl ⟨e, h, rfl⟩

/-! ## The line and its routers -/

/-- A line of boards, each with its router. -/
structure Street (n : Nat) where
  line : Line n
  router : Fin n → Router

namespace Street

variable {n : Nat}

inductive Event (n : Nat) where
  /-- Any part of the board sends. -/
  | send (i : Fin n) (type : MsgType) (dst : Addr) (payload : List Byte)
  /-- The board calls its router. -/
  | call (i : Fin n) (op : Op)
  /-- The next byte that left by `p` on the wire to `i` gets there. -/
  | byte (p : Port) (i : Fin n) (now : Time)

/-- The router is called, and what it asks for is sent. -/
def act (s : Street n) (i : Fin n) (op : Op) : Street n :=
  let r := Routing.step (s.router i) op
  { line := (sends r.out).foldl (fun l c => l.step (.send i c.type c.dst c.payload)) s.line
    router := Function.update s.router i r }

/-- What the link hands over goes to the router, but for what belongs to pairing. -/
def step (s : Street n) : Event n → Street n
  | .send i type dst payload => { s with line := s.line.step (.send i type dst payload) }
  | .call i op => s.act i op
  | .byte p i now =>
    let s' := { s with line := s.line.step (.byte p i now) }
    match s.line.handed p i now with
    | some f => if f.type = msgPair then s' else s'.act i (.rx f p.other now)
    | none => s'

/-- A router receives nothing but what its link hands over. -/
def Wired (_ : Street n) : Event n → Prop
  | .call _ op => ∀ f inPort now, op ≠ .rx f inPort now
  | _ => True

/-- One key, nothing sent or received, and nobody known to anybody. -/
def Start (addr : Fin n → Addr) (key : Key) (s : Street n) : Prop :=
  s.line.Start addr key ∧ ∀ i, ∃ cfg, cfg.self = addr i ∧ s.router i = routerInit cfg

/-- The entry that board `i` has of board `j`. -/
def entry (addr : Fin n → Addr) (s : Street n) (i j : Fin n) : Option ChainEntry := chainFind (s.router i) (addr j)

/-- What is on the wires comes from where it says, and every entry for another board has
    that board's place. -/
structure Charted (addr : Fin n → Addr) (key : Key) (s : Street n) : Prop where
  row : ∃ r, Line.Renders key s.line r ∧ r.Physical addr
  sound : ∀ i, Sound (s.router i) ∧ (s.router i).cfg.self = addr i
  placed : ∀ i j e, j ≠ i → s.entry addr i j = some e → e.relPos = (j.val : Int) - i.val

variable {addr : Fin n → Addr} {key : Key} {s : Street n}

theorem Charted.start (hinj : Function.Injective addr) (h : Start addr key s) : Charted addr key s := by
  obtain ⟨hline, hrouter⟩ := h
  obtain ⟨j, hj, hr⟩ := Line.start_refines hline
  refine ⟨⟨j.row, hr.renders, ⟨fun i => ?_, fun p q f hf => ?_⟩⟩, fun i => ?_, fun i k e hk he => ?_⟩
  · rw [hj.1 i]
  · rw [hj.2.1] at hf
    cases hf
  · obtain ⟨cfg, hself, hinit⟩ := hrouter i
    rw [hinit]
    exact ⟨sound_init cfg, hself⟩
  · -- nobody is in the table but the board itself
    obtain ⟨cfg, hself, hinit⟩ := hrouter i
    have hne : addr k ≠ cfg.self := fun ha => hk (hinj (ha.trans hself))
    rw [entry, hinit, chainFind, find?_init_other cfg hne] at he
    cases he

/-- What is sent keeps the row. -/
theorem sent_row (h : ∃ r, Line.Renders key s.line r ∧ r.Physical addr) (i : Fin n) (cs : List Content) :
    ∃ r, Line.Renders key (cs.foldl (fun l c => l.step (.send i c.type c.dst c.payload)) s.line) r ∧ r.Physical addr := by
  obtain ⟨r, hr, hp⟩ := h
  generalize s.line = l at hr
  induction cs generalizing l r with
  | nil => exact ⟨r, hr, hp⟩
  | cons c cs ih =>
    exact ih _ (hp.send i c.type c.dst c.payload) _ (Line.send_renders hr i c.type c.dst c.payload).1

/-- A call keeps the chart, if what is received tells its sender's place. -/
theorem Charted.act (h : Charted addr key s) (hinj : Function.Injective addr) {i : Fin n} {op : Op}
    (hop : ∀ f inPort now, op = .rx f inPort now → ∃ j : Fin n, f.src = addr j ∧
      relPosFromFrame f inPort = (j.val : Int) - i.val) : Charted addr key (s.act i op) := by
  refine ⟨sent_row h.row i _, fun k => ?_, fun k j e hj he => ?_⟩
  · show Sound (Function.update s.router i _ k) ∧ (Function.update s.router i _ k).cfg.self = addr k
    by_cases hk : k = i
    · subst hk
      obtain ⟨h1, h2⟩ := h.sound k
      rw [Function.update_self]
      exact ⟨sound_step h1 op, (step_self h1 op).trans h2⟩
    · rw [Function.update_of_ne hk]
      exact h.sound k
  · have he' : chainFind (Function.update s.router i (Routing.step (s.router i) op) k) (addr j) = some e := he
    by_cases hk : k = i
    · subst hk
      rw [Function.update_self] at he'
      rcases chainFind_step (h.sound k).1 he' with ⟨e0, h0, hp⟩ | ⟨f, inPort, now, rfl, ha, hp⟩
      · rw [← hp]
        exact h.placed k j e0 hj h0
      · obtain ⟨j', hsrc, hpos⟩ := hop f inPort now rfl
        obtain rfl : j' = j := hinj (hsrc.symm.trans ha.symm)
        rw [hp, hpos]
    · rw [Function.update_of_ne hk] at he'
      exact h.placed k j e hj he'

theorem Charted.step (h : Charted addr key s) (hinj : Function.Injective addr) (hn : n ≤ 16) {e : Event n}
    (hw : s.Wired e) : Charted addr key (s.step e) := by
  cases e with
  | send i type dst payload =>
    obtain ⟨r, hr, hp⟩ := h.row
    exact ⟨⟨_, (Line.send_renders hr i type dst payload).1, hp.send i type dst payload⟩, h.sound, h.placed⟩
  | call i op => exact h.act hinj fun f inPort now he => absurd he (hw f inPort now)
  | byte p i now =>
    obtain ⟨r, hr, hp⟩ := h.row
    have hspare : ∀ f, r.front p i = some f → f.ttl ≠ 0 := by
      intro f hf he
      have hone := (hp.front hinj (by omega) hf).2
      rw [he] at hone
      exact absurd hone (by decide)
    -- the byte alone moves no entry
    have hmoved : ∀ r', Line.Renders key (s.line.step (.byte p i now)) r' → r'.Physical addr →
        Charted addr key { s with line := s.line.step (.byte p i now) } :=
      fun r' h1 h2 => ⟨⟨r', h1, h2⟩, h.sound, h.placed⟩
    simp only [Street.step]
    rcases Line.byte_renders hr hspare now with ⟨hr', -, hnone⟩ | ⟨f, hf, hr', -, hgot⟩
    · rw [hnone]
      exact hmoved r hr' hp
    · have hafter := hmoved _ hr' (hp.arrive hf)
      cases hg : s.line.handed p i now with
      | none => exact hafter
      | some g =>
        obtain rfl := hgot g hg
        dsimp only
        split
        · exact hafter
        · refine hafter.act hinj fun f' inPort now' he => ?_
          cases he
          obtain ⟨q, rest, hq, hlane, -⟩ := Row.front_some hf
          obtain ⟨j, hj⟩ := hp.travelled p q f (by rw [hlane]; exact List.mem_cons_self)
          refine ⟨j, hj.src, ?_⟩
          have hdec : decoded f key = { f with body := frameBody f key } := by rw [decoded, if_pos (hspare f hf)]
          have hbody : Row.Travelled addr p q { f with body := frameBody f key } j := ⟨hj.src, hj.away, hj.hops⟩
          rw [hdec]
          exact relPosFromFrame_travelled hbody hq

theorem charted (hinj : Function.Injective addr) (hn : n ≤ 16) (h : Reach (Start addr key) Wired Street.step s) :
    Charted addr key s :=
  h.inv (I := Charted addr key) (fun _ h0 => .start hinj h0) fun _ _ hi hw => hi.step hinj hn hw

end Street

/-- Every entry for another board says where that board stands. So any two boards of one
    table are in the order in which they stand, and two boards see each other from
    opposite sides. -/
theorem positions_are_physical {n : Nat} {addr : Fin n → Addr} {key : Key} (hn : n ≤ 16) (hinj : Function.Injective addr)
    {s : Street n} (h : Reach (Street.Start addr key) Street.Wired Street.step s) :
    (∀ i j e, j ≠ i → s.entry addr i j = some e → e.relPos = (j.val : Int) - i.val) ∧
      (∀ i j k e e', j ≠ i → k ≠ i → s.entry addr i j = some e → s.entry addr i k = some e' →
        (e.relPos < e'.relPos ↔ j < k)) ∧
      ∀ i j e e', j ≠ i → s.entry addr i j = some e → s.entry addr j i = some e' → e.relPos = -e'.relPos := by
  have hplaced := (Street.charted hinj hn h).placed
  refine ⟨hplaced, fun i j k e e' hj hk he he' => ?_, fun i j e e' hj he he' => ?_⟩
  · rw [hplaced i j e hj he, hplaced i k e' hk he', Fin.lt_def]
    omega
  · rw [hplaced i j e hj he, hplaced j i e' hj.symm he']
    omega

/-! ## Three boards -/

def threeStreet : Street 3 :=
  { line := threeBoards
    router := fun i => routerInit ⟨threeAddr i, 1, 0, false, Election.timingDefault, pointerCfgDefault⟩ }

/-- The board `i` starts, says HELLO, and `j`, the next one down, hears it. -/
def heardNext (i j : Fin 3) : List (Street.Event 3) :=
  .call i (.start 0) :: .call i (.tick 0) :: List.replicate 60 (.byte .down j 0)

theorem first_is_above_second : ∃ e, ((heardNext 0 1).foldl Street.step threeStreet).entry threeAddr 1 0 = some e ∧ e.relPos = -1 := by
  have h0 : Reach (Street.Start threeAddr threeKey) Street.Wired Street.step threeStreet :=
    .init ⟨⟨fun _ => rfl, fun _ _ => rfl, fun _ => rfl, fun _ => rfl, fun _ => rfl⟩, fun i => ⟨_, rfl, rfl⟩⟩
  have hwired : Reach.Admitted Street.Wired Street.step threeStreet (heardNext 0 1) := by
    refine ⟨fun _ _ _ he => (by cases he), fun _ _ _ he => (by cases he), ?_⟩
    repeat refine ⟨trivial, ?_⟩
    exact trivial
  have hknown : (((heardNext 0 1).foldl Street.step threeStreet).entry threeAddr 1 0).isSome = true := by decide +kernel
  obtain ⟨e, he⟩ := Option.isSome_iff_exists.mp hknown
  exact ⟨e, he, (positions_are_physical (by decide) (by decide) (h0.run (heardNext 0 1) hwired)).1 1 0 e (by decide) he⟩

end DeskHop.Chain
