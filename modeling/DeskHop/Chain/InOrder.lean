/-
  DeskHop.Chain.InOrder — the boards on the coordinator's screen, in the order in which they
  stand.

  The coordinator is one of a line of boards. Its chain table has a board once it has heard of
  it, in the slot that was free then; the screen has the boards of the table sorted by
  position.

  Proved, of every run of a line of at most 16 boards: whatever the coordinator has heard, and in
  whatever order, its screen reads the boards it knows of from the head of the line to its end
  (`screen_in_order`).
-/

import DeskHop.Chain.Positions
import DeskHop.Chain.Screen

namespace DeskHop.Chain

open DeskHop.Lib DeskHop.Wire DeskHop.Routing DeskHop.Election DeskHop.Trust

/-! ## What the tables hold -/

/-- Every board in the table of board `i` is one of the line, and where it says; none is
    there twice. -/
structure Placed {n : Nat} (addr : Fin n → Addr) (i : Fin n) (r : Router) : Prop where
  addressed : Addressed r
  known : ∀ a e, chainFind r a = some e → ∃ j : Fin n, a = addr j ∧ e.relPos = (j.val : Int) - i.val

/-- The table begins with the board itself, at no distance. -/
theorem find?_init_self (cfg : RouterCfg) : chainFind (routerInit cfg) cfg.self =
    some { freshEntry cfg.self with uid := cfg.uid, caps := cfg.caps } := by
  obtain ⟨t, hchain, ht⟩ := claim_init cfg
  rw [chainFind, hchain]
  exact Slots.find?_claim_self ht rfl (Slots.find?_replicate_none rfl _)

section placed

variable {n : Nat} {addr : Fin n → Addr}

theorem placed_init (hnamed : ∀ i, addr i ≠ addrNone) {i : Fin n} {cfg : RouterCfg} (hself : cfg.self = addr i) :
    Placed addr i (routerInit cfg) := by
  refine ⟨addressed_init (hself ▸ hnamed i), fun a e he => ?_⟩
  by_cases ha : a = cfg.self
  · subst ha
    rw [find?_init_self] at he
    cases he
    exact ⟨i, hself, (Int.sub_self _).symm⟩
  · rw [chainFind, find?_init_other cfg ha] at he
    cases he

/-- What is received is from a board of the line, and tells its place. -/
theorem Placed.step {i : Fin n} {r : Router} (h : Placed addr i r) (hnamed : ∀ i, addr i ≠ addrNone) {op : Routing.Op}
    (hop : ∀ f inPort now, op = .rx f inPort now → ∃ j : Fin n, f.src = addr j ∧
      relPosFromFrame f inPort = (j.val : Int) - i.val) : Placed addr i (Routing.step r op) := by
  refine ⟨addressed_step h.addressed fun f inPort now he => ?_, fun a e he => ?_⟩
  · obtain ⟨j, hj, -⟩ := hop f inPort now he
    exact hj ▸ hnamed j
  · rcases chainFind_step h.addressed.toSound he with ⟨e0, h0, hp⟩ | ⟨f, inPort, now, rfl, ha, hp⟩
    · obtain ⟨j, hj, hpos⟩ := h.known a e0 h0
      exact ⟨j, hj, hp ▸ hpos⟩
    · obtain ⟨j, hj, hpos⟩ := hop f inPort now rfl
      exact ⟨j, ha.trans hj, hp.trans hpos⟩

end placed

namespace Street

variable {n : Nat} {addr : Fin n → Addr} {key : Key} {s : Street n}

/-- A frame that is handed over is from a board of the line, and tells its place. -/
theorem Charted.handed (h : Charted addr key s) (hinj : Function.Injective addr) (hn : n ≤ 16) {p : Port} {i : Fin n}
    {now : Time} {f : Frame} (hf : s.line.handed p i now = some f) :
    ∃ j : Fin n, f.src = addr j ∧ relPosFromFrame f p.other = (j.val : Int) - i.val := by
  obtain ⟨r, hr, hp⟩ := h.row
  have hspare : ∀ f, r.front p i = some f → f.ttl ≠ 0 := by
    intro f hf he
    have hone := (hp.front hinj (by omega) hf).2
    rw [he] at hone
    exact absurd hone (by decide)
  rcases Line.byte_renders hr hspare now with ⟨-, -, hnone⟩ | ⟨g, hg, -, -, hgot⟩
  · rw [hnone] at hf
    cases hf
  · obtain rfl := hgot f hf
    obtain ⟨q, rest, hq, hlane, -⟩ := Row.front_some hg
    obtain ⟨j, hj⟩ := hp.travelled p q g (by rw [hlane]; exact List.mem_cons_self)
    have hbody : Row.Travelled addr p q { g with body := frameBody g key } j := ⟨hj.src, hj.away, hj.hops⟩
    refine ⟨j, ?_, ?_⟩
    · rw [decoded, if_pos (hspare g hg)]
      exact hj.src
    · rw [decoded, if_pos (hspare g hg)]
      exact relPosFromFrame_travelled hbody hq

/-- The line is charted, and every table placed. -/
structure Mapped (addr : Fin n → Addr) (key : Key) (s : Street n) : Prop where
  charted : Charted addr key s
  placed : ∀ i, Placed addr i (s.router i)

theorem Mapped.step (h : Mapped addr key s) (hinj : Function.Injective addr) (hnamed : ∀ i, addr i ≠ addrNone) (hn : n ≤ 16)
    {e : Event n} (hw : s.Wired e) : Mapped addr key (s.step e) := by
  refine ⟨h.charted.step hinj hn hw, fun k => ?_⟩
  have hcall {i : Fin n} {op : Routing.Op} (hop : ∀ f inPort now, op = .rx f inPort now → ∃ j : Fin n, f.src = addr j ∧
      relPosFromFrame f inPort = (j.val : Int) - i.val) :
      Placed addr k (Function.update s.router i (Routing.step (s.router i) op) k) := by
    by_cases hk : k = i
    · subst hk
      rw [Function.update_self]
      exact (h.placed k).step hnamed hop
    · rw [Function.update_of_ne hk]
      exact h.placed k
  cases e with
  | send i type dst payload => exact h.placed k
  | call i op => exact hcall fun f inPort now he => absurd he (hw f inPort now)
  | byte p i now =>
    show Placed addr k ((s.step (.byte p i now)).router k)
    unfold Street.step
    dsimp only
    cases hg : s.line.handed p i now with
    | none => exact h.placed k
    | some f =>
      dsimp only
      split
      · exact h.placed k
      · refine hcall fun f' inPort now' he => ?_
        cases he
        exact h.charted.handed hinj hn hg

theorem mapped (hinj : Function.Injective addr) (hnamed : ∀ i, addr i ≠ addrNone) (hn : n ≤ 16)
    (h : Reach (Start addr key) Wired Street.step s) : Mapped addr key s := by
  refine h.inv (I := Mapped addr key) (fun _ h0 => ⟨.start hinj h0, fun i => ?_⟩) fun _ _ hm hw => hm.step hinj hnamed hn hw
  obtain ⟨cfg, hself, hinit⟩ := h0.2 i
  rw [hinit]
  exact placed_init hnamed hself

end Street

/-! ## The boards on the screen -/

/-- A board as the screen has it. -/
def boardOf (r : Router) (e : ChainEntry) : DspBoard :=
  ⟨e.addr, e.relPos, e.addr == r.cfg.self, e.addr == r.focus, hasCap e.caps capHidIn, hasCap e.caps capCoord⟩

/-- The boards of a table, as they stand in it. -/
def listed (r : Router) : List DspBoard := (r.chain.cells.filter (·.used)).map (boardOf r)

/-- The boards that a router knows of, from the head of the line to its end. -/
def standing {n : Nat} (addr : Fin n → Addr) (r : Router) : List DspBoard :=
  (List.finRange n).filterMap fun j => (chainFind r (addr j)).map (boardOf r)

section standing

variable {n : Nat} {addr : Fin n → Addr} {i : Fin n} {r : Router}

theorem standing_sorted (hinj : Function.Injective addr) (h : Placed addr i r) :
    (standing addr r).Pairwise fun b b' => b.relPos < b'.relPos := by
  refine List.pairwise_filterMap.mpr ((List.pairwise_lt_finRange n).imp fun {j k} hjk b hb b' hb' => ?_)
  obtain ⟨e, he, rfl⟩ := Option.map_eq_some_iff.mp hb
  obtain ⟨e', he', rfl⟩ := Option.map_eq_some_iff.mp hb'
  obtain ⟨j', hj, hpos⟩ := h.known _ e he
  obtain ⟨k', hk, hpos'⟩ := h.known _ e' he'
  obtain rfl := hinj hj
  obtain rfl := hinj hk
  show e.relPos < e'.relPos
  rw [Fin.lt_def] at hjk
  omega

/-- No two boards stand at one place. -/
theorem standing_inj (hinj : Function.Injective addr) (h : Placed addr i r) {b b' : DspBoard} (hb : b ∈ standing addr r)
    (hb' : b' ∈ standing addr r) (hpos : b.relPos = b'.relPos) : b = b' := by
  obtain ⟨j, -, hj⟩ := List.mem_filterMap.mp hb
  obtain ⟨k, -, hk⟩ := List.mem_filterMap.mp hb'
  obtain ⟨e, he, rfl⟩ := Option.map_eq_some_iff.mp hj
  obtain ⟨e', he', rfl⟩ := Option.map_eq_some_iff.mp hk
  obtain ⟨j', haddr, hplace⟩ := h.known _ e he
  obtain ⟨k', haddr', hplace'⟩ := h.known _ e' he'
  obtain rfl := hinj haddr
  obtain rfl := hinj haddr'
  have hpos : e.relPos = e'.relPos := hpos
  obtain rfl : j = k := Fin.ext (by omega)
  rw [Option.some.inj (he.symm.trans he')]

theorem mem_standing (h : Placed addr i r) (b : DspBoard) : b ∈ standing addr r ↔ b ∈ listed r := by
  constructor
  · intro hb
    obtain ⟨j, -, hj⟩ := List.mem_filterMap.mp hb
    obtain ⟨e, he, rfl⟩ := Option.map_eq_some_iff.mp hj
    obtain ⟨hmem, hused, -⟩ := Slots.find?_some he
    exact List.mem_map.mpr ⟨e, List.mem_filter.mpr ⟨hmem, hused⟩, rfl⟩
  · intro hb
    obtain ⟨e, he, rfl⟩ := List.mem_map.mp hb
    obtain ⟨hmem, hused⟩ := List.mem_filter.mp he
    have hfind : chainFind r e.addr = some e := h.addressed.proper.unique.find?_of_mem hmem hused
    obtain ⟨j, hj, -⟩ := h.known _ e hfind
    exact List.mem_filterMap.mpr ⟨j, List.mem_finRange j, by rw [← hj, hfind]; rfl⟩

theorem listed_nodup (h : Placed addr i r) : (listed r).Nodup := by
  have hkeys : (r.chain.cells.filter (·.used)).Pairwise fun e e' => e.addr ≠ e'.addr := by
    refine List.pairwise_filter.mpr (h.addressed.proper.unique.imp fun hne hused hused' => ?_)
    exact hne hused hused'
  exact List.pairwise_map.mpr (hkeys.imp fun hne he => hne (congrArg DspBoard.addr he))

/-- However the table came about, there is one way to sort it. -/
theorem sorted_standing {qsort : List DspBoard → List DspBoard} (hqsort : Sorts qsort) (hinj : Function.Injective addr)
    (h : Placed addr i r) : qsort (listed r) = standing addr r := by
  have hsorted := standing_sorted hinj h
  have hnodup : (standing addr r).Nodup := by
    refine hsorted.imp fun {b b'} hlt he => ?_
    rw [he] at hlt
    exact Int.lt_irrefl _ hlt
  have hperm : (listed r).Perm (standing addr r) :=
    (List.perm_ext_iff_of_nodup (listed_nodup h) hnodup).mpr fun b => (mem_standing h b).symm
  obtain ⟨hsame, hle⟩ := hqsort (listed r)
  refine List.Perm.eq_of_pairwise (fun b b' hb hb' h1 h2 => ?_) hle (hsorted.imp fun hlt => Int.le_of_lt hlt) (hsame.trans hperm)
  exact standing_inj hinj h ((hsame.trans hperm).mem_iff.mp hb) hb' (Int.le_antisymm h1 h2)

end standing

/-- On a line of at most 16 boards, the coordinator's screen has the boards it knows of in
    the order in which they stand: numbered from the head of the line, but for the coordinator,
    each that has the input marked, and the one that has the focus inverted. -/
theorem screen_in_order {n : Nat} {addr : Fin n → Addr} {key : Key} (hn : n ≤ 16) (hinj : Function.Injective addr)
    (hnamed : ∀ i, addr i ≠ addrNone) {s : Street n} (h : Reach (Street.Start addr key) Street.Wired Street.step s) {i : Fin n}
    {k : Coordinator} (hk : k.router = s.router i) {qsort : List DspBoard → List DspBoard} (hqsort : Sorts qsort) (d : Dsp)
    (now : Time) (errors : ErrorCounts) :
    (dspRenderStatus qsort d (k.dspStatus now) errors).Shows 2 (chainMarks (standing addr k.router) 0 0) := by
  have hplaced : Placed addr i k.router := hk ▸ (Street.mapped hinj hnamed hn h).placed i
  have hboards : (k.dspStatus now).board = listed k.router := rfl
  have hfits : (listed k.router).length ≤ 16 := by
    rw [listed, List.length_map]
    exact (List.length_filter_le _ _).trans k.router.chain.size.le
  have hreads := screen_reads qsort d (k.dspStatus now) errors 2 (by decide)
  rw [hboards, List.take_of_length_le hfits, sorted_standing hqsort hinj hplaced] at hreads
  exact hreads

/-! ## Three boards -/

/-- A library that keeps the order of boards at one position. -/
def stableSort (l : List DspBoard) : List DspBoard := l.mergeSort fun b b' => decide (b.relPos ≤ b'.relPos)

theorem sorts_stable : Sorts stableSort := by
  intro l
  refine ⟨List.mergeSort_perm l _, (List.pairwise_mergeSort (fun a b c hab hbc => ?_) (fun a b => ?_) l).imp of_decide_eq_true⟩
  · exact decide_eq_true (Int.le_trans (of_decide_eq_true hab) (of_decide_eq_true hbc))
  · rw [Bool.or_eq_true_iff, decide_eq_true_iff, decide_eq_true_iff]
    exact Int.le_total _ _

/-- Of three boards, `j` has heard of `i`; nobody has heard of anybody else. -/
def heardOf (i j : Fin 3) : Street 3 := (heardNext i j).foldl Street.step threeStreet

/-- A coordinator with this router. -/
def coordWith (r : Router) : Coordinator :=
  { Coordinator.boot coordConfigDefaults r.cfg.self 1 0 none 0 with router := r }

theorem coordWith_router (r : Router) : (coordWith r).router = r := rfl

/-- On a screen that was all lit. -/
theorem screen_in_order_of_second :
    (dspRenderStatus stableSort ⟨fun _ => 0xFF, false⟩ ((coordWith ((heardOf 0 1).router 1)).dspStatus 0) ⟨0, 0⟩).Shows 2
      (inPlain (text "1-2")) := by
  have h0 : Reach (Street.Start threeAddr threeKey) Street.Wired Street.step threeStreet :=
    .init ⟨⟨fun _ => rfl, fun _ _ => rfl, fun _ => rfl, fun _ => rfl, fun _ => rfl⟩, fun i => ⟨_, rfl, rfl⟩⟩
  have hwired : Reach.Admitted Street.Wired Street.step threeStreet (heardNext 0 1) := by
    refine ⟨fun _ _ _ he => (by cases he), fun _ _ _ he => (by cases he), ?_⟩
    repeat refine ⟨trivial, ?_⟩
    exact trivial
  have hrun : Reach (Street.Start threeAddr threeKey) Street.Wired Street.step (heardOf 0 1) :=
    h0.run (heardNext 0 1) hwired
  have hmarks : chainMarks (standing threeAddr ((heardOf 0 1).router 1)) 0 0 = inPlain (text "1-2") := by decide +kernel
  have hshows := screen_in_order (by decide) (by decide) (by decide) hrun (coordWith_router ((heardOf 0 1).router 1)) sorts_stable
    ⟨fun _ => 0xFF, false⟩ 0 ⟨0, 0⟩
  rwa [coordWith_router, hmarks] at hshows

end DeskHop.Chain
