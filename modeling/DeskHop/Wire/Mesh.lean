/-
  DeskHop.Wire.Mesh — keyed boards wired in any way at all.

  Each port's transmitter leads to at most one receiver, and a receiver hears at most one
  transmitter; which, is free: rows, rings, a board wired to itself. Boards send, hear
  their wires byte by byte, age out silent neighbours and start again, in any order.
  Logged are the frames given to the transmit callbacks and the calls of `linkSend` that
  succeeded.

  Proved: a wire and the decoder it feeds hold frames on their way, each of which may still
  be transmitted once for each hop it has left but one (`Holds`). Sending adds twenty
  transmissions a port and everything else at most moves them about, so of a letter there
  are never more than forty transmissions for each time it was sent (`transmitted_le`).
-/

import DeskHop.Lib.Load
import DeskHop.Wire.Relay
import Mathlib.Data.Fintype.Prod
import Mathlib.Data.PEquiv

namespace DeskHop.Wire

open DeskHop.Lib

instance : Fintype Port := ⟨{.up, .down}, fun p => by cases p <;> simp⟩

/-- From the port that bytes leave by to the port they get to. -/
abbrev Wiring (ι : Type) := PEquiv (ι × Port) (ι × Port)

structure Mesh (ι : Type) where
  link : ι → Link
  /-- By the port the bytes left by. -/
  wire : ι × Port → List Byte
  transmitted : List (List Byte)
  originated : List Letter

namespace Mesh

variable {ι : Type}

inductive Event (ι : Type) where
  | send (i : ι) (type : MsgType) (dst : Addr) (payload : List Byte)
  /-- The next byte that left `i` by `p` gets to where that port leads. -/
  | byte (i : ι) (p : Port) (now : Time)
  | tick (i : ι) (now : Time)
  | restart (i : ι) (self : Addr)

variable [DecidableEq ι]

def transmit (s : Mesh ι) (i : ι) (o : Port × List Byte) : Mesh ι :=
  { s with
    wire := Function.update s.wire (i, o.1) (s.wire (i, o.1) ++ o.2)
    transmitted := s.transmitted ++ [o.2] }

/-- The link of `i` is now `l`, and what it was asked to transmit is on the wires. -/
def settle (s : Mesh ι) (i : ι) (l : Link) : Mesh ι :=
  l.wire.foldl (fun s o => s.transmit i o) { s with link := Function.update s.link i { l with wire := [] } }

def step (net : Wiring ι) (key : Key) (s : Mesh ι) : Event ι → Mesh ι
  | .send i type dst payload =>
    let (r, l) := linkSend (s.link i) type dst payload
    let letter := (ownFrame (s.link i) type dst payload).letter
    { s.settle i l with originated := s.originated ++ if r = .ok then [letter] else [] }
  | .byte i p now =>
    match net (i, p), s.wire (i, p) with
    | some (j, q), b :: rest =>
      { s with wire := Function.update s.wire (i, p) rest }.settle j (linkRxByte (s.link j) q b now).1
    | _, _ => s
  | .tick i now => s.settle i (linkTick (s.link i) now)
  | .restart i self => s.settle i (linkSetKey (linkInit self) key)

/-- One key, and nothing sent or received. -/
def Start (key : Key) (s : Mesh ι) : Prop :=
  (∀ i, ∃ self, s.link i = linkSetKey (linkInit self) key) ∧ (∀ k, s.wire k = []) ∧ s.transmitted = [] ∧
    s.originated = []

/-- The bytes are a frame that carries the letter. -/
def carries (key : Key) (m : Letter) (bytes : List Byte) : Bool :=
  match (feed (some key) framerInit bytes).2.getLast? with
  | some (.ok f) => f.letter == m
  | _ => false

end Mesh

/-! ## A wire whose decoder may lose its place -/

/-- The decoder waits for the next flag, and drops what comes before it. -/
def Skipping (key : Key) (fr : Framer) (bs : List Byte) (fs : List Frame) : Prop :=
  fr.inFrame = false ∧ ∃ tail, flag ∉ tail ∧ bs = tail ++ flag :: fs.flatMap (onWire · key)

/-- The bytes bring the frames, perhaps after the end of one that is lost. -/
def Coming (key : Key) (fr : Framer) (bs : List Byte) (fs : List Frame) : Prop :=
  Partway key fr bs fs ∨ Skipping key fr bs fs

/-- The frame can be sent, and has hops left. -/
structure Fit (f : Frame) : Prop where
  type : f.type ≤ 0x0F
  payload : f.payload.length ≤ maxPayload
  ttl : f.ttl ≠ 0

theorem Coming.enqueue {key : Key} {fr : Framer} {bs : List Byte} {fs : List Frame} (h : Coming key fr bs fs)
    (f : Frame) :
    Coming key fr (bs ++ onWire f key) (fs ++ [f]) := by
  have hone : ([f] : List Frame).flatMap (onWire · key) = onWire f key := List.flatMap_singleton _ _
  rcases h with h | ⟨hin, tail, hno, rfl⟩
  · rw [← hone]
    exact Or.inl (h.append [f])
  · refine Or.inr ⟨hin, tail, hno, ?_⟩
    rw [List.flatMap_append, hone, List.append_assoc]
    rfl

/-- A byte brings nothing yet, or the frame that it is the last of. -/
theorem Coming.push {key : Key} {fr : Framer} {b : Byte} {bs : List Byte} {fs : List Frame}
    (h : Coming key fr (b :: bs) fs) (hs : ∀ f ∈ fs, Fit f) :
    (framerPush fr b (some key)).2 = .error .again ∧ Coming key (framerPush fr b (some key)).1 bs fs ∨
      ∃ f rest, fs = f :: rest ∧ (framerPush fr b (some key)).2 = .ok (decoded f key) ∧
        Coming key (framerPush fr b (some key)).1 bs rest := by
  rcases h with h | ⟨hin, tail, hno, hbytes⟩
  · rcases h.push fun f hf => ⟨(hs f hf).type, (hs f hf).payload⟩ with ⟨hres, hnext⟩ | ⟨f, rest, he, hres, hnext⟩
    · exact Or.inl ⟨hres, Or.inl hnext⟩
    · exact Or.inr ⟨f, rest, he, hres, Or.inl hnext⟩
  · refine Or.inl ?_
    cases tail with
    | nil =>
      -- the flag it waited for
      obtain ⟨rfl, rfl⟩ := List.cons.inj hbytes
      exact ⟨push_flag_of_closed _ (by simp [hin]), Or.inl (.start (push_flag fr (some key)).closed key fs)⟩
    | cons c tail =>
      obtain ⟨rfl, rfl⟩ := List.cons.inj hbytes
      obtain ⟨hb, hno⟩ := List.ne_and_not_mem_of_not_mem_cons hno
      have hstep : framerPush fr b (some key) = (fr, .error .again) := by
        unfold framerPush
        rw [if_neg (Ne.symm hb), if_pos (by simp [hin])]
      rw [hstep]
      exact ⟨rfl, Or.inr ⟨hin, tail, hno, rfl⟩⟩

theorem closed_framerInit : Closed framerInit := rfl

/-- A decoder that is reset loses at most the frame it was in. -/
theorem Coming.reset {key : Key} {fr : Framer} {bs : List Byte} {fs : List Frame} (h : Coming key fr bs fs) :
    ∃ fs', fs' <:+ fs ∧ Coming key framerInit bs fs' := by
  rcases h with ⟨fr0, pre, h0, hfr, hbytes, hnil, hlen⟩ | ⟨-, tail, hno, hbytes⟩
  · cases fs with
    | nil =>
      obtain rfl := hnil rfl
      have hb : bs = [] := hbytes
      subst hb
      exact ⟨[], List.suffix_refl _, Or.inl (.start closed_framerInit key [])⟩
    | cons f rest =>
      have hl := hlen f rest rfl
      cases pre with
      | nil =>
        have hb : bs = (f :: rest).flatMap (onWire · key) := hbytes
        rw [hb]
        exact ⟨_, List.suffix_refl _, Or.inl (.start closed_framerInit key _)⟩
      | cons x pre =>
        -- what is left of the frame has no flag but its last byte
        refine ⟨rest, List.suffix_cons f rest, Or.inr ⟨rfl, ?_⟩⟩
        have hframe : onWire f key = flag :: ((frameBody f key).flatMap stuff ++ [flag]) := rfl
        rw [List.flatMap_cons, hframe, List.cons_append, List.cons_append, List.append_assoc] at hbytes
        obtain ⟨-, hbytes⟩ := List.cons.inj hbytes
        have hshort : pre.length ≤ ((frameBody f key).flatMap stuff).length := by
          rw [hframe, List.length_cons, List.length_cons, List.length_append, List.length_singleton] at hl
          omega
        obtain ⟨tail, hcut⟩ := List.prefix_of_prefix_length_le ⟨_, hbytes⟩ ⟨_, rfl⟩ hshort
        refine ⟨tail, fun hmem => flag_not_mem_stuffed (frameBody f key) ?_, ?_⟩
        · rw [← hcut]
          exact List.mem_append_right _ hmem
        · rw [← hcut, List.append_assoc] at hbytes
          exact List.append_cancel_left hbytes
  · exact ⟨fs, List.suffix_refl _, Or.inr ⟨rfl, tail, hno, hbytes⟩⟩

namespace Mesh

variable {ι : Type} [DecidableEq ι] {net : Wiring ι} {key : Key} {s : Mesh ι} {lanes : ι × Port → List Frame}

/-! ## Frames on their way -/

/-- The wires bring the frames on the lanes, and nothing else was ever transmitted. -/
structure Holds (net : Wiring ι) (key : Key) (s : Mesh ι) (lanes : ι × Port → List Frame) : Prop where
  keyed : ∀ i, (s.link i).hasKey = true ∧ (s.link i).key = key
  idle : ∀ i, (s.link i).wire = []
  fit : ∀ k, ∀ f ∈ lanes k, Fit f
  coming : ∀ k j q, net k = some (j, q) → Coming key ((s.link j).port q).framer (s.wire k) (lanes k)
  encoded : ∀ w ∈ s.transmitted, ∃ f, Fit f ∧ w = onWire f key

theorem Holds.transmit (h : Holds net key s lanes) (i : ι) (p : Port) {f : Frame} (hf : Fit f) :
    Holds net key (s.transmit i (p, onWire f key)) (Function.update lanes (i, p) (lanes (i, p) ++ [f])) := by
  refine ⟨h.keyed, h.idle, fun k g hg => ?_, fun k j q hk => ?_, fun w hw => ?_⟩
  · by_cases hk : k = (i, p)
    · subst hk
      rw [Function.update_self] at hg
      rcases List.mem_append.mp hg with hg | hg
      · exact h.fit _ g hg
      · rw [List.mem_singleton.mp hg]
        exact hf
    · rw [Function.update_of_ne hk] at hg
      exact h.fit k g hg
  · simp only [Mesh.transmit]
    by_cases hk' : k = (i, p)
    · subst hk'
      rw [Function.update_self, Function.update_self]
      exact (h.coming _ j q hk).enqueue f
    · rw [Function.update_of_ne hk', Function.update_of_ne hk']
      exact h.coming k j q hk
  · rcases List.mem_append.mp hw with hw | hw
    · exact h.encoded w hw
    · exact ⟨f, hf, List.mem_singleton.mp hw⟩

/-- The link of `j` is replaced, and what its wires bring. -/
theorem Holds.relink (h : Holds net key s lanes) {j : ι} {l : Link} (hkey : l.hasKey = true ∧ l.key = key)
    {wire : ι × Port → List Byte} {lanes' : ι × Port → List Frame} (hsuf : ∀ k, lanes' k <:+ lanes k)
    (here : ∀ k q, net k = some (j, q) → Coming key (l.port q).framer (wire k) (lanes' k))
    (elsewhere : ∀ k j' q, net k = some (j', q) → j' ≠ j → wire k = s.wire k ∧ lanes' k = lanes k) :
    Holds net key { s with link := Function.update s.link j { l with wire := [] }, wire := wire } lanes' := by
  refine ⟨fun i => ?_, fun i => ?_, fun k f hf => h.fit k f ((hsuf k).subset hf), fun k j' q hk => ?_, h.encoded⟩
  · dsimp only
    by_cases hi : i = j
    · subst hi
      rw [Function.update_self]
      exact hkey
    · rw [Function.update_of_ne hi]
      exact h.keyed i
  · dsimp only
    by_cases hi : i = j
    · subst hi
      rw [Function.update_self]
    · rw [Function.update_of_ne hi]
      exact h.idle i
  · dsimp only
    by_cases hj : j' = j
    · subst hj
      rw [Function.update_self]
      exact here k q hk
    · rw [Function.update_of_ne hj, (elsewhere k j' q hk hj).1, (elsewhere k j' q hk hj).2]
      exact h.coming k j' q hk

/-- The board that wire `k` leads to has heard a byte of it. -/
theorem Holds.take (h : Holds net key s lanes) {k : ι × Port} {j : ι} {q : Port} (hk : net k = some (j, q)) {l : Link}
    (hkey : l.hasKey = true ∧ l.key = key) {fr : Framer}
    (hframer : ∀ q', (l.port q').framer = if q' = q then fr else ((s.link j).port q').framer) {bs : List Byte}
    {fs : List Frame} (hc : Coming key fr bs fs) (hsuf : fs <:+ lanes k) :
    Holds net key { s with link := Function.update s.link j { l with wire := [] }, wire := Function.update s.wire k bs }
      (Function.update lanes k fs) := by
  refine h.relink hkey (fun k' => ?_) (fun k' q' hk' => ?_) fun k' j' q' hk' hj => ?_
  · by_cases he : k' = k
    · subst he
      rw [Function.update_self]
      exact hsuf
    · rw [Function.update_of_ne he]
  · rw [hframer]
    by_cases hq : q' = q
    · subst hq
      obtain rfl : k' = k := net.inj hk' hk
      rw [if_pos rfl, Function.update_self, Function.update_self]
      exact hc
    · have he : k' ≠ k := by
        rintro rfl
        rw [hk] at hk'
        cases hk'
        exact hq rfl
      rw [if_neg hq, Function.update_of_ne he, Function.update_of_ne he]
      exact h.coming k' j q' hk'
  · have he : k' ≠ k := by
      rintro rfl
      rw [hk] at hk'
      cases hk'
      exact hj rfl
    exact ⟨Function.update_of_ne he _ _, Function.update_of_ne he _ _⟩

/-- Decoders of a board are reset, and lose what they were in the middle of. -/
theorem Holds.reset (h : Holds net key s lanes) {i : ι} {l : Link} (hkey : l.hasKey = true ∧ l.key = key)
    (hframer : ∀ q, (l.port q).framer = framerInit ∨ (l.port q).framer = ((s.link i).port q).framer) :
    ∃ lanes', (∀ k, lanes' k <:+ lanes k) ∧
      Holds net key { s with link := Function.update s.link i { l with wire := [] } } lanes' := by
  have hlost : ∀ k, ∃ fs, fs <:+ lanes k ∧ (∀ q, net k = some (i, q) → Coming key (l.port q).framer (s.wire k) fs) ∧
      ∀ j q, net k = some (j, q) → j ≠ i → fs = lanes k := by
    intro k
    by_cases hk : ∃ q, net k = some (i, q)
    · obtain ⟨q, hk⟩ := hk
      have hc := h.coming k i q hk
      obtain ⟨fs, hsuf, hnext⟩ : ∃ fs, fs <:+ lanes k ∧ Coming key (l.port q).framer (s.wire k) fs := by
        rcases hframer q with hq | hq
        · rw [hq]
          exact hc.reset
        · rw [hq]
          exact ⟨_, List.suffix_refl _, hc⟩
      refine ⟨fs, hsuf, fun q' hk' => ?_, fun j q' hk' hj => ?_⟩
      · rw [hk] at hk'
        cases hk'
        exact hnext
      · rw [hk] at hk'
        cases hk'
        exact absurd rfl hj
    · exact ⟨_, List.suffix_refl _, fun q hq => absurd ⟨q, hq⟩ hk, fun _ _ _ _ => rfl⟩
  choose lanes' hsuf here elsewhere using hlost
  exact ⟨lanes', hsuf, h.relink hkey hsuf here fun k j q hk hj => ⟨rfl, elsewhere k j q hk hj⟩⟩

/-! ## What a letter may still cost -/

theorem carries_onWire (m : Letter) {f : Frame} (hf : Fit f) : carries key m (onWire f key) = (f.letter == m) := by
  unfold carries
  rw [(feed_onWire framerInit key hf.type hf.payload).2, List.getLast?_concat]
  rfl

/-- How often a frame that is on its way may yet be relayed, if it carries the letter. -/
def cost (m : Letter) (f : Frame) : Nat := if f.letter = m then f.ttl.toNat - 1 else 0

variable [Fintype ι]

/-- The transmissions of a letter, and those that may follow. -/
def spent (key : Key) (m : Letter) (s : Mesh ι) (lanes : ι × Port → List Frame) : Nat :=
  s.transmitted.countP (carries key m) + load (cost m) lanes

/-- No letter is transmitted more than forty times for each time it was sent, now or later. -/
def Paid (net : Wiring ι) (key : Key) (s : Mesh ι) : Prop :=
  ∃ lanes, Holds net key s lanes ∧ ∀ m, spent key m s lanes ≤ 2 * ttlDefault.toNat * s.originated.count m

/-- A frame costs one transmission for each of its hops, the first included. -/
theorem spent_transmit (m : Letter) (i : ι) (p : Port) {f : Frame} (hf : Fit f) :
    spent key m (s.transmit i (p, onWire f key)) (Function.update lanes (i, p) (lanes (i, p) ++ [f])) =
      spent key m s lanes + if f.letter = m then f.ttl.toNat else 0 := by
  have hpos : f.ttl.toNat ≠ 0 := fun h => hf.ttl (UInt8.toNat_inj.mp h)
  simp only [spent, Mesh.transmit, load_enqueue, List.countP_append, List.countP_singleton, carries_onWire m hf,
    beq_iff_eq, cost]
  split <;> omega

theorem Holds.emit (h : Holds net key s lanes) (i : ι) (p : Port) {f : Frame} (hf : Fit f) :
    ∃ lanes', Holds net key (s.transmit i (p, onWire f key)) lanes' ∧
      ∀ m, spent key m (s.transmit i (p, onWire f key)) lanes' =
        spent key m s lanes + if f.letter = m then f.ttl.toNat else 0 :=
  ⟨_, h.transmit i p hf, fun m => spent_transmit m i p hf⟩

omit [DecidableEq ι] in
/-- Only the log of transmissions and the lanes matter. -/
theorem spent_le {t : Mesh ι} {lanes' : ι × Port → List Frame} (m : Letter) (ht : t.transmitted = s.transmitted)
    (h : ∀ k, lanes' k <:+ lanes k) : spent key m t lanes' ≤ spent key m s lanes := by
  rw [spent, spent, ht]
  exact Nat.add_le_add_left (load_le_of_suffix _ h) _

/-! ## Every step -/

theorem ttlDefault_ne_zero : ttlDefault ≠ 0 := by decide


theorem send_paid (h : Paid net key s) (i : ι) (type : MsgType) (dst : Addr) (payload : List Byte) :
    Paid net key (s.step net key (.send i type dst payload)) := by
  obtain ⟨lanes, hh, hle⟩ := h
  obtain ⟨hk, hkey⟩ := hh.keyed i
  have hsame := linkSend_same (s.link i) type dst payload
  have hbase : Holds net key
      { s with link := Function.update s.link i { (linkSend (s.link i) type dst payload).2 with wire := [] } } lanes :=
    hh.relink ⟨hsame.1.trans hk, hsame.2.1.trans hkey⟩ (fun k => List.suffix_refl _)
      (fun k q hq => by rw [linkSend_framer]; exact hh.coming k i q hq) fun _ _ _ _ _ => ⟨rfl, rfl⟩
  simp only [step, settle]
  cases hfit : fits type payload with
  | true =>
    simp only [fits, Bool.and_eq_true, decide_eq_true_eq] at hfit
    have hf : Fit ((s.link i).station.own type dst payload) := ⟨hfit.2, hfit.1, ttlDefault_ne_zero⟩
    rw [linkSend_ok hk dst hfit.1 hfit.2, (linkSend_own hk dst hfit.1 hfit.2).2, hh.idle i, hkey]
    obtain ⟨lanes1, h1, c1⟩ := hbase.emit i .up hf
    obtain ⟨lanes2, h2, c2⟩ := h1.emit i .down hf
    refine ⟨lanes2, ⟨h2.keyed, h2.idle, h2.fit, h2.coming, h2.encoded⟩, fun m => ?_⟩
    -- twenty for each port, if it is the letter
    refine (((c2 m).trans (congrArg (· + _) (c1 m))).trans_le ?_)
    have hbefore := hle m
    have htwenty : ((s.link i).station.own type dst payload).ttl.toNat = ttlDefault.toNat := rfl
    have hcount : (s.originated ++ [(ownFrame (s.link i) type dst payload).letter]).count m = s.originated.count m +
        if ((s.link i).station.own type dst payload).letter = m then 1 else 0 := by
      rw [List.count_append, List.count_singleton]
      simp only [beq_iff_eq]
      rfl
    show spent key m s lanes + _ + _ ≤ 2 * ttlDefault.toNat * (s.originated ++ _).count m
    rw [htwenty, if_pos rfl, hcount]
    by_cases hm : ((s.link i).station.own type dst payload).letter = m
    · rw [if_pos hm, if_pos hm, Nat.mul_add]
      omega
    · rw [if_neg hm, if_neg hm]
      exact hbefore
  | false =>
    obtain ⟨hne, hl⟩ := linkSend_unfit hk dst hfit
    rw [if_neg hne, List.append_nil]
    have hwire : (linkSend (s.link i) type dst payload).2.wire = [] := by
      rw [hl]
      exact hh.idle i
    rw [hwire]
    exact ⟨lanes, hbase, hle⟩

omit [Fintype ι] in
theorem foldl_originated (i : ι) (out : List (Port × List Byte)) (s : Mesh ι) :
    (out.foldl (fun s o => s.transmit i o) s).originated = s.originated := by
  induction out generalizing s with
  | nil => rfl
  | cons o out ih => exact ih (s.transmit i o)

/-- The wire has brought the frame `f`: what it may still cost pays for its relay. -/
theorem heard_paid {t : Mesh ι} {lanes' : ι × Port → List Frame} (h : Holds net key t lanes') {f : Frame} (hf : Fit f)
    (hspent : ∀ m, spent key m t lanes' + cost m f = spent key m s lanes) (st : Station) (j : ι) (p : Port) :
    ∃ lanes'', Holds net key (((hear st (decoded f key)).onward.toList.map fun g => (p, onWire g key)).foldl
        (fun t o => t.transmit j o) t) lanes'' ∧
      ∀ m, spent key m (((hear st (decoded f key)).onward.toList.map fun g => (p, onWire g key)).foldl
        (fun t o => t.transmit j o) t) lanes'' ≤ spent key m s lanes := by
  cases ho : (hear st (decoded f key)).onward with
  | none => exact ⟨lanes', h, fun m => (Nat.le_add_right _ _).trans_eq (hspent m)⟩
  | some g =>
    obtain ⟨-, hhops, hg⟩ := Row.hear_onward ho
    have httl : (decoded f key).ttl = f.ttl := if_pos hf.ttl
    have hless : g.ttl.toNat + 1 = f.ttl.toNat := by
      rw [hg, ← httl]
      exact (oneHopLess_some hhops).2
    have hletter : g.letter = f.letter := by
      rw [hg]
      rfl
    have hfit : Fit g := by
      rw [httl] at hhops
      refine ⟨hg ▸ hf.type, hg ▸ hf.payload, fun he => ?_⟩
      rw [he] at hless
      have hzero : (0 : UInt8).toNat = 0 := rfl
      omega
    obtain ⟨lanes'', h2, hcost⟩ := h.emit j p hfit
    refine ⟨lanes'', h2, fun m => (hcost m).trans_le ?_⟩
    have hbefore := hspent m
    rw [cost] at hbefore
    rw [hletter]
    by_cases hm : f.letter = m
    · rw [if_pos hm] at hbefore ⊢
      omega
    · rw [if_neg hm] at hbefore ⊢
      exact hbefore.le

theorem byte_paid (h : Paid net key s) (i : ι) (p : Port) (now : Time) :
    Paid net key (s.step net key (.byte i p now)) := by
  obtain ⟨lanes, hh, hle⟩ := h
  simp only [step]
  split
  · rename_i j q b rest hnet hwire
    obtain ⟨hk, hkey⟩ := hh.keyed j
    have hsame := linkRxByte_same (s.link j) q b now
    have hkeyed : (linkRxByte (s.link j) q b now).1.hasKey = true ∧ (linkRxByte (s.link j) q b now).1.key = key :=
      ⟨hsame.1.trans hk, hsame.2.1.trans hkey⟩
    have hcoming := hh.coming (i, p) j q hnet
    rw [hwire] at hcoming
    simp only [settle]
    rcases hcoming.push (hh.fit (i, p)) with ⟨hres, hnext⟩ | ⟨f, fs, hlane, hres, hnext⟩
    · obtain ⟨-, -, hsent, hframer⟩ := linkRxByte_again hk (by rw [hkey]; exact hres) now
      rw [hkey] at hframer
      have hbase := hh.take hnet hkeyed hframer hnext (List.suffix_refl _)
      rw [Function.update_eq_self] at hbase
      rw [hsent, hh.idle j]
      exact ⟨lanes, hbase, hle⟩
    · have hf := hh.fit (i, p) f (by rw [hlane]; exact List.mem_cons_self)
      have hwhole : Whole (decoded f key) (s.link j).key := by
        rw [hkey]
        exact whole_decoded key hf.ttl hf.payload
      obtain ⟨-, -, -, hsent, hframer⟩ := linkRxByte_frame hk (by rw [hkey]; exact hres) hwhole now
      rw [hkey] at hframer hsent
      have hbase := hh.take hnet hkeyed hframer hnext (by rw [hlane]; exact List.suffix_cons f fs)
      rw [hsent, hh.idle j, List.nil_append]
      have hspent : ∀ m, s.transmitted.countP (carries key m) + load (cost m) (Function.update lanes (i, p) fs) +
          cost m f = spent key m s lanes := by
        intro m
        rw [spent, ← load_dequeue (cost m) lanes hlane, Nat.add_assoc]
      obtain ⟨lanes'', h2, hcost⟩ := heard_paid hbase hf hspent (s.link j).station j q.other
      refine ⟨lanes'', h2, fun m => ?_⟩
      rw [foldl_originated]
      exact (hcost m).trans (hle m)
  · exact ⟨lanes, hh, hle⟩

theorem settle_paid (h : Paid net key s) (i : ι) {l : Link} (hkey : l.hasKey = true ∧ l.key = key) (hidle : l.wire = [])
    (hframer : ∀ q, (l.port q).framer = framerInit ∨ (l.port q).framer = ((s.link i).port q).framer) :
    Paid net key (s.settle i l) := by
  obtain ⟨lanes, hh, hle⟩ := h
  obtain ⟨lanes', hsuf, hnew⟩ := hh.reset hkey hframer
  rw [settle, hidle]
  exact ⟨lanes', hnew, fun m => (spent_le m rfl hsuf).trans (hle m)⟩

theorem ageOut_framer (l : Link) (p : Port) (now : Time) (q : Port) :
    ((ageOut l p now).port q).framer = framerInit ∨ ((ageOut l p now).port q).framer = (l.port q).framer := by
  simp only [ageOut]
  split
  · rw [setPort_port]
    by_cases hq : q = p
    · exact Or.inl (by rw [if_pos hq])
    · exact Or.inr (by rw [if_neg hq])
  · exact Or.inr rfl

theorem step_paid (h : Paid net key s) (e : Event ι) : Paid net key (s.step net key e) := by
  cases e with
  | send i type dst payload => exact send_paid h i type dst payload
  | byte i p now => exact byte_paid h i p now
  | tick i now =>
    obtain ⟨lanes, hh, -⟩ := id h
    have hsame := linkTick_same (s.link i) now
    refine settle_paid h i ⟨hsame.1.trans (hh.keyed i).1, hsame.2.1.trans (hh.keyed i).2⟩
      ((linkTick_wire _ now).trans (hh.idle i)) fun q => ?_
    rcases ageOut_framer (ageOut (s.link i) .up now) .down now q with hq | hq
    · exact Or.inl hq
    · rcases ageOut_framer (s.link i) .up now q with hq' | hq'
      · exact Or.inl (hq.trans hq')
      · exact Or.inr (hq.trans hq')
  | restart i self => exact settle_paid h i ⟨rfl, rfl⟩ rfl fun q => Or.inl (by cases q <;> rfl)

omit [DecidableEq ι] in
theorem start_paid (h : Start key s) : Paid net key s := by
  obtain ⟨hlink, hwire, htrans, -⟩ := h
  refine ⟨fun _ => [], ⟨fun i => ?_, fun i => ?_, fun k f hf => (by cases hf), fun k j q _ => ?_, fun w hw => ?_⟩,
    fun m => ?_⟩
  · obtain ⟨self, hl⟩ := hlink i
    rw [hl]
    exact ⟨rfl, rfl⟩
  · obtain ⟨self, hl⟩ := hlink i
    rw [hl]
    rfl
  · obtain ⟨self, hl⟩ := hlink j
    rw [hl, hwire]
    have hinit : ((linkSetKey (linkInit self) key).port q).framer = framerInit := by cases q <;> rfl
    rw [hinit]
    exact Or.inl (.start closed_framerInit key [])
  · rw [htrans] at hw
    cases hw
  · rw [spent, htrans, load_nil _ _ fun _ => rfl]
    exact Nat.zero_le _

/-- In any wiring: a letter is transmitted at most forty times for each time it was sent,
    and nothing is transmitted that was not sent. -/
theorem transmitted_le (h : Reach (Start key) (fun _ _ => True) (step net key) s) :
    (∀ m, s.transmitted.countP (carries key m) ≤ 2 * ttlDefault.toNat * s.originated.count m) ∧
      ∀ w ∈ s.transmitted, ∃ m ∈ s.originated, carries key m w = true := by
  have hpaid : Paid net key s := h.inv (fun s hs => start_paid hs) fun s e hs _ => step_paid hs e
  obtain ⟨lanes, hh, hle⟩ := hpaid
  have hcount : ∀ m, s.transmitted.countP (carries key m) ≤ 2 * ttlDefault.toNat * s.originated.count m :=
    fun m => (Nat.le_add_right _ _).trans (hle m)
  refine ⟨hcount, fun w hw => ?_⟩
  obtain ⟨f, hf, rfl⟩ := hh.encoded w hw
  have hcarries : carries key f.letter (onWire f key) = true := (carries_onWire f.letter hf).trans (beq_self_eq_true _)
  refine ⟨f.letter, ?_, hcarries⟩
  by_contra hno
  have hpos : 0 < s.transmitted.countP (carries key f.letter) := List.countP_pos_iff.mpr ⟨_, hw, hcarries⟩
  have hzero := hcount f.letter
  rw [List.count_eq_zero.mpr hno] at hzero
  omega

end Mesh

open Mesh

/-- A keyed link sends an accepted frame on as the encoding of the frame with one hop less,
    or not at all; so after `k` boards it is decoded as it was sent, but for `k` hops, and
    in any wiring it is transmitted at most forty times. -/
theorem relaying_is_encoding :
    (∀ (l : Link) (p : Port) (b : Byte) (now : Time) (f : Frame), l.hasKey = true →
        (framerPush (l.port p).framer b (some l.key)).2 = .ok f → f.src ≠ l.self → fresh l.station f = true →
        f.dst ≠ l.self →
          (2 ≤ f.ttl → ∃ w, frameEncode { f with ttl := f.ttl - 1 } l.key wireMax = .ok w ∧
            (linkRxByte l p b now).1.wire = l.wire ++ [(p.other, w)]) ∧
          (f.ttl ≤ 1 → (linkRxByte l p b now).1.wire = l.wire)) ∧
      (∀ (key : Key) (f : Frame) (k : Nat) (w : List Byte), f.ttl ≠ 0 → Carried key f k w →
        k < f.ttl.toNat ∧ ∀ l p b, Closing key w l p b →
          (∃ body, (framerPush (l.port p).framer b (some l.key)).2 =
              .ok { f with ttl := UInt8.ofNat (f.ttl.toNat - k), body := body } ∧ frameMacValid body key = true) ∧
            (f.src ≠ l.self → fresh l.station f = true → f.dst ≠ l.self → k + 1 < f.ttl.toNat → ∀ now,
              ∃ w', (linkRxByte l p b now).1.wire = l.wire ++ [(p.other, w')])) ∧
      ∀ (ι : Type) [Fintype ι] [DecidableEq ι] (net : Wiring ι) (key : Key) (s : Mesh ι),
        Reach (Start key) (fun _ _ => True) (Mesh.step net key) s →
          (∀ m, s.transmitted.countP (carries key m) ≤ 2 * ttlDefault.toNat * s.originated.count m) ∧
            ∀ w ∈ s.transmitted, ∃ m ∈ s.originated, carries key m w = true :=
  ⟨fun _ _ _ now _ hk h hs hf hd => relay_reencodes hk h hs hf hd now, fun _ _ _ _ ht h => carried_decodes ht h,
    fun _ _ _ _ _ _ h => transmitted_le h⟩

/-! ## A ring of two -/

def ringWiring : Wiring Bool :=
  (Function.Involutive.toPerm (fun k : Bool × Port => (!k.1, k.2.other)) (by
    intro k
    obtain ⟨i, p⟩ := k
    cases i <;> cases p <;> rfl)).toPEquiv

def ringKey : Key := Bytes.zero 16

def ringBoards : Mesh Bool :=
  { link := fun i => linkSetKey (linkInit (if i then 1 else 2)) ringKey, wire := fun _ => [], transmitted := []
    originated := [] }

/-- One board sends to nobody there; what it sends goes round the ring both ways. -/
def ringEvents : List (Mesh.Event Bool) :=
  [.send true 1 9 [7]] ++ List.replicate 20 (.byte true .down 0) ++ List.replicate 20 (.byte true .up 0) ++
    List.replicate 20 (.byte false .down 0) ++ List.replicate 20 (.byte false .up 0)

def ringDone : Mesh Bool := ringEvents.foldl (Mesh.step ringWiring ringKey) ringBoards

theorem relaying_is_encoding_in_ring :
    ringDone.transmitted.length = 3 ∧ ringDone.originated = [⟨1, 1, 9, 0, [7]⟩] ∧
      ringDone.transmitted.countP (carries ringKey ⟨1, 1, 9, 0, [7]⟩) ≤
        2 * ttlDefault.toNat * ringDone.originated.count ⟨1, 1, 9, 0, [7]⟩ := by
  have h0 : Reach (Start ringKey) (fun _ _ => True) (Mesh.step ringWiring ringKey) ringBoards :=
    .init ⟨fun i => ⟨_, rfl⟩, fun _ => rfl, rfl, rfl⟩
  exact ⟨by decide +kernel, by decide +kernel,
    (relaying_is_encoding.2.2 Bool ringWiring ringKey ringDone (h0.run_free (fun _ _ => trivial) ringEvents)).1 _⟩

end DeskHop.Wire
