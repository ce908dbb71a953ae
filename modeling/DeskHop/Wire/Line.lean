/-
  DeskHop.Wire.Line — keyed boards joined by wires that carry bytes.

  Each board of the line holds the one key and has just started; what its link gives the
  transmit callback goes on the wires to its neighbours, and a wire delivers its bytes one
  by one and in order (`Line`). Logged are the calls of `linkSend` that succeeded and the
  frames the link has handed over.

  Proved: the line does frame by frame what a row of stations does (`Refines`,
  `line_refines`): a wire and the decoder it feeds hold the frames that are on their way
  (`Partway`). So on drained wires every board has been handed, of what any other has sent,
  just what was for it, in order and once (`exactly_once`).
-/

import DeskHop.Wire.Journal
import DeskHop.Wire.RoundTrip

namespace DeskHop.Wire

open DeskHop.Lib

structure Line (n : Nat) where
  link : Fin n → Link
  /-- By the port the bytes leave by, and wire by wire. -/
  wire : Port → Nat → List Byte
  calls : Fin n → Nat
  sent : Fin n → List Letter
  delivered : Fin n → List Letter

namespace Line

variable {n : Nat}

inductive Event (n : Nat) where
  | send (i : Fin n) (type : MsgType) (dst : Addr) (payload : List Byte)
  /-- The next byte that left by `p` on the wire to `i` gets there. -/
  | byte (p : Port) (i : Fin n) (now : Time)

/-- What the board at `q` was asked to transmit by `p`. -/
def given (p : Port) (out : List (Port × List Byte)) : List Byte := out.flatMap fun o => if o.1 = p then o.2 else []

/-- The link of `i` is now `l`, and what it was asked to transmit is on the wires. -/
def settle (s : Line n) (i : Fin n) (l : Link) : Line n :=
  { s with
    link := Function.update s.link i { l with wire := [] }
    wire := fun p => Lib.put (s.wire p) (place p i) (given p l.wire) }

def step (s : Line n) : Event n → Line n
  | .send i type dst payload =>
    let (r, l) := linkSend (s.link i) type dst payload
    { s.settle i l with
      calls := Function.update s.calls i (s.calls i + 1)
      sent := Journal.logged s.sent i (r == .ok) (ownFrame (s.link i) type dst payload).letter }
  | .byte p i now =>
    match place p i with
    | 0 => s
    | q + 1 =>
      match s.wire p q with
      | [] => s
      | b :: rest =>
        let (l, r) := linkRxByte (s.link i) p.other b now
        let s := { s with wire := Function.update s.wire p (Function.update (s.wire p) q rest) }
        { s.settle i l with
          delivered := match r with
            | .ok f => Journal.logged s.delivered i true f.letter
            | .error _ => s.delivered }

/-- One key, and nothing sent or received. -/
def Start (addr : Fin n → Addr) (key : Key) (s : Line n) : Prop :=
  (∀ i, s.link i = linkSetKey (linkInit (addr i)) key) ∧ (∀ p q, s.wire p q = []) ∧ (∀ i, s.calls i = 0) ∧
    (∀ i, s.sent i = []) ∧ ∀ i, s.delivered i = []

/-- Fewer than 32768 calls a board. -/
def Few (s : Line n) : Event n → Prop
  | .send i _ _ _ => s.calls i + 1 < 32768
  | .byte .. => True

/-- Nothing is left on a wire between two boards. -/
def Drained (s : Line n) : Prop := ∀ p q, q + 1 < n → s.wire p q = []

end Line

/-! ## A wire and the decoder at its end -/

/-- The decoder is between two frames. -/
def Closed (fr : Framer) : Prop := (fr.inFrame && !fr.overflow && !fr.body.isEmpty) = false

theorem Collecting.closed {fr : Framer} (h : Collecting fr []) : Closed fr := by simp [Closed, h.body]

/-- The bytes are those of the frames, but for what the decoder has of the first. -/
def Partway (key : Key) (fr : Framer) (bs : List Byte) (fs : List Frame) : Prop :=
  ∃ fr0 pre, Closed fr0 ∧ fr = (feed (some key) fr0 pre).1 ∧ pre ++ bs = fs.flatMap (onWire · key) ∧
    (fs = [] → pre = []) ∧ ∀ f rest, fs = f :: rest → pre.length < (onWire f key).length

theorem Partway.start {fr : Framer} (h : Closed fr) (key : Key) (fs : List Frame) :
    Partway key fr (fs.flatMap (onWire · key)) fs :=
  ⟨fr, [], h, rfl, rfl, fun _ => rfl, fun f _ _ => by simp [onWire]⟩

theorem Partway.append {key : Key} {fr : Framer} {bs : List Byte} {fs : List Frame} (h : Partway key fr bs fs)
    (gs : List Frame) : Partway key fr (bs ++ gs.flatMap (onWire · key)) (fs ++ gs) := by
  obtain ⟨fr0, pre, h0, hfr, hbytes, hnil, hlen⟩ := h
  refine ⟨fr0, pre, h0, hfr, ?_, fun he => hnil (List.append_eq_nil_iff.mp he).1, fun f rest he => ?_⟩
  · rw [← List.append_assoc, hbytes, List.flatMap_append]
  · cases fs with
    | nil =>
      rw [hnil rfl]
      simp [onWire]
    | cons f' fs =>
      obtain ⟨rfl, -⟩ := List.cons.inj he
      exact hlen f' fs rfl

theorem Partway.nil {key : Key} {fr : Framer} {fs : List Frame} (h : Partway key fr [] fs) : fs = [] := by
  obtain ⟨fr0, pre, h0, hfr, hbytes, hnil, hlen⟩ := h
  cases fs with
  | nil => rfl
  | cons f rest =>
    have hl := congrArg List.length hbytes
    have := hlen f rest rfl
    simp only [List.append_nil, List.flatMap_cons, List.length_append] at hl
    omega

/-- What the decoder returns for the last byte it is fed. -/
theorem feed_snoc (key : Option Key) (fr : Framer) (bs : List Byte) (b : Byte) :
    feed key fr (bs ++ [b]) = ((framerPush (feed key fr bs).1 b key).1,
      (feed key fr bs).2 ++ [(framerPush (feed key fr bs).1 b key).2]) := feed_append key fr bs [b]

theorem length_feed (key : Option Key) (fr : Framer) (bs : List Byte) : (feed key fr bs).2.length = bs.length := by
  induction bs generalizing fr with
  | nil => rfl
  | cons b bs ih => simp only [feed, List.length_cons, ih]

/-- A byte brings nothing yet, or the frame that it is the last of. -/
theorem Partway.push {key : Key} {fr : Framer} {b : Byte} {bs : List Byte} {fs : List Frame}
    (h : Partway key fr (b :: bs) fs) (hs : ∀ f ∈ fs, f.type ≤ 0x0F ∧ f.payload.length ≤ maxPayload) :
    (framerPush fr b (some key)).2 = .error .again ∧ Partway key (framerPush fr b (some key)).1 bs fs ∨
      ∃ f rest, fs = f :: rest ∧ (framerPush fr b (some key)).2 = .ok (decoded f key) ∧
        Partway key (framerPush fr b (some key)).1 bs rest := by
  obtain ⟨fr0, pre, h0, rfl, hbytes, hnil, hlen⟩ := h
  cases fs with
  | nil =>
    rw [hnil rfl] at hbytes
    cases hbytes
  | cons f rest =>
    obtain ⟨ht, hp⟩ := hs f List.mem_cons_self
    have hl := hlen f rest rfl
    -- the byte is the next of the first frame
    obtain ⟨post, hframe, hrest⟩ : ∃ post, onWire f key = pre ++ b :: post ∧ bs = post ++ rest.flatMap (onWire · key) := by
      rw [List.flatMap_cons] at hbytes
      obtain ⟨u, hu, hb⟩ | ⟨u, hu, hb⟩ := List.append_eq_append_iff.mp hbytes
      · cases u with
        | nil =>
          rw [hu, List.append_nil] at hl
          exact absurd hl (Nat.lt_irrefl _)
        | cons x u =>
          obtain ⟨rfl, rfl⟩ := List.cons.inj hb
          exact ⟨u, hu, rfl⟩
      · have := congrArg List.length hu
        rw [List.length_append] at this
        omega
    obtain ⟨hcol, hres⟩ := feed_onWire fr0 key ht hp
    have hsnoc := feed_snoc (some key) fr0 pre b
    have hcut : pre ++ b :: post = (pre ++ [b]) ++ post := by rw [List.append_assoc]; rfl
    cases post with
    | nil =>
      refine Or.inr ⟨f, rest, rfl, ?_, ?_⟩
      · rw [hframe, hsnoc] at hres
        exact (List.append_inj' hres rfl).2 |> List.singleton_inj.mp
      · rw [hframe, hsnoc] at hcol
        rw [hrest, List.nil_append]
        exact .start hcol.closed key rest
    | cons c post =>
      refine Or.inl ⟨?_, fr0, pre ++ [b], h0, (congrArg Prod.fst hsnoc).symm, ?_, fun he => (by cases he), fun f' rest' he => ?_⟩
      · -- among what is returned for the first bytes of the frame
        have hfirst : (framerPush fr0 flag (some key)).2 = .error .again := push_flag_of_closed _ h0
        have hmem : (framerPush (feed (some key) fr0 pre).1 b (some key)).2 ∈
            (framerPush fr0 flag (some key)).2 :: List.replicate ((onWire f key).length - 2) (.error .again) := by
          have hall := congrArg List.dropLast hres
          rw [List.dropLast_concat, hframe, hcut, feed_append, hsnoc] at hall
          have hne : (feed (some key) (framerPush (feed (some key) fr0 pre).1 b (some key)).1 (c :: post)).2 ≠ [] :=
            List.ne_nil_of_length_pos (by rw [length_feed]; exact Nat.succ_pos _)
          rw [hframe, hcut, ← hall, List.dropLast_append_of_ne_nil hne]
          simp
        rcases List.mem_cons.mp hmem with hm | hm
        · exact hm.trans hfirst
        · exact (List.mem_replicate.mp hm).2
      · rw [List.flatMap_cons, hframe, hrest, List.append_assoc, List.append_assoc]
        rfl
      · obtain ⟨rfl, rfl⟩ := List.cons.inj he
        rw [hframe]
        simp only [List.length_append, List.length_cons, List.length_nil]
        omega

/-! ## What a link does to its decoders -/

theorem setPort_port (l : Link) (p : Port) (lp : LinkPort) (p' : Port) :
    (l.setPort p lp).port p' = if p' = p then lp else l.port p' := by
  cases p <;> cases p' <;> rfl

theorem emitFrame_framer (l : Link) (p : Port) (f : Frame) (p' : Port) :
    ((emitFrame l p f).2.port p').framer = (l.port p').framer := by
  unfold emitFrame
  split
  · rfl
  split
  · rfl
  · cases p <;> cases p' <;> rfl

theorem linkSend_framer (l : Link) (type : MsgType) (dst : Addr) (payload : List Byte) (p' : Port) :
    ((linkSend l type dst payload).2.port p').framer = (l.port p').framer :=
  (emitFrame_framer _ .down _ p').trans (emitFrame_framer l .up _ p')

theorem relay_framer (l : Link) (p : Port) (f : Frame) (p' : Port) :
    ((relay l p f).port p').framer = (l.port p').framer := by
  simp only [relay]
  split
  · rfl
  split
  · rfl
  · cases p <;> cases p' <;> rfl

theorem accept_framer (l : Link) (p : Port) (f : Frame) (p' : Port) :
    ((accept l p f).1.port p').framer = (l.port p').framer := by
  unfold accept
  split
  · rfl
  split
  · rfl
  obtain ⟨fresh, seen⟩ := seqIsFresh l.seen f.src f.seq
  cases fresh with
  | false => rfl
  | true =>
    by_cases hd : f.dst = l.self
    · simp only [hd, Bool.not_true, Bool.false_eq_true, if_false, ne_eq, not_true_eq_false]
      rfl
    · simp only [hd, Bool.not_true, Bool.false_eq_true, if_false, ne_eq, not_false_eq_true, if_true]
      exact relay_framer { l with seen := seen } p f p'

/-- What does not fit a frame is not sent, but uses up its number. -/
theorem linkSend_unfit {l : Link} (hk : l.hasKey = true) {type : MsgType} (dst : Addr) {payload : List Byte}
    (h : fits type payload = false) :
    (linkSend l type dst payload).1 ≠ .ok ∧ (linkSend l type dst payload).2 = { l with txSeq := l.txSeq + 1 } := by
  have hemit : ∀ p, emitFrame l p (ownFrame l type dst payload) = (.inval, l) := by
    intro p
    have henc : frameEncode (ownFrame l type dst payload) l.key wireMax = .error .inval := by
      unfold frameEncode
      by_cases hp : (ownFrame l type dst payload).payload.length > maxPayload
      · rw [if_pos hp]
      · have ht : (ownFrame l type dst payload).type > 0x0F := by
          refine UInt8.not_le.mp fun ht => ?_
          have : fits type payload = true := by
            simp only [fits, Bool.and_eq_true, decide_eq_true_eq]
            exact ⟨Nat.not_lt.mp hp, ht⟩
          rw [this] at h
          cases h
        rw [if_neg hp, if_pos ht]
    simp only [emitFrame, hk, henc, Bool.not_true, Bool.false_eq_true, if_false]
  have hsend : linkSend l type dst payload = (.inval, { l with txSeq := l.txSeq + 1 }) := by simp [linkSend, hemit]
  rw [hsend]
  exact ⟨(by intro h; cases h), rfl⟩

/-- A byte that completes no frame. -/
theorem linkRxByte_again {l : Link} {p : Port} {b : Byte} {r : Result} (hk : l.hasKey = true)
    (h : (framerPush (l.port p).framer b (some l.key)).2 = .error r) (now : Time) :
    (linkRxByte l p b now).2 = .error r ∧ (linkRxByte l p b now).1.station = l.station ∧
      (linkRxByte l p b now).1.wire = l.wire ∧ ∀ p', ((linkRxByte l p b now).1.port p').framer =
        if p' = p then (framerPush (l.port p).framer b (some l.key)).1 else (l.port p').framer := by
  have hrx : linkRxByte l p b now = (l.setPort p { l.port p with
      framer := (framerPush (l.port p).framer b (some l.key)).1 }, .error r) := by
    unfold linkRxByte
    rw [if_pos hk]
    simp only [h]
  rw [hrx]
  refine ⟨rfl, setPort_station .., setPort_wire .., fun p' => ?_⟩
  rw [setPort_port]
  split <;> rfl

theorem accept_ok {l : Link} {p : Port} {f g : Frame} (h : (accept l p f).2 = .ok g) : g = f := by
  unfold accept at h
  generalize seqIsFresh l.seen f.src f.seq = judged at h
  obtain ⟨fresh, seen⟩ := judged
  dsimp only at h
  repeat' split at h
  all_goals first | (cases h; rfl) | cases h

/-- A byte that completes the frame `f`. -/
theorem linkRxByte_frame {l : Link} {p : Port} {b : Byte} {f : Frame} (hk : l.hasKey = true)
    (h : (framerPush (l.port p).framer b (some l.key)).2 = .ok f) (hw : Whole f l.key) (now : Time) :
    (linkRxByte l p b now).1.station = (hear l.station f).station ∧
      ((linkRxByte l p b now).2 = .ok f ↔ (hear l.station f).mine = true) ∧
      (∀ g, (linkRxByte l p b now).2 = .ok g → g = f) ∧
      (linkRxByte l p b now).1.wire = l.wire ++ (hear l.station f).onward.toList.map (fun g => (p.other, onWire g l.key)) ∧
      ∀ p', ((linkRxByte l p b now).1.port p').framer =
        if p' = p then (framerPush (l.port p).framer b (some l.key)).1 else (l.port p').framer := by
  let l1 := l.setPort p { l.port p with framer := (framerPush (l.port p).framer b (some l.key)).1 }
  let l2 := l1.setPort p { l1.port p with rxFrames := (l1.port p).rxFrames + 1, lastRx := now, neighbour := true }
  have hrx : linkRxByte l p b now = accept l2 p f := by
    unfold linkRxByte
    rw [if_pos hk]
    simp only [h]
    rfl
  have hst : l2.station = l.station := (setPort_station ..).trans (setPort_station ..)
  have hkey : l2.key = l.key := (setPort_key ..).trans (setPort_key ..)
  have hwire : l2.wire = l.wire := (setPort_wire ..).trans (setPort_wire ..)
  have hhas : l2.hasKey = true := ((setPort_hasKey ..).trans (setPort_hasKey ..)).trans hk
  obtain ⟨h1, h2, h3⟩ := accept_hear p hhas (hkey.symm ▸ hw)
  rw [hst, hwire, hkey] at h3
  rw [hst] at h1 h2
  rw [hrx]
  refine ⟨h1, h2, fun g => accept_ok, h3, fun p' => ?_⟩
  rw [accept_framer]
  by_cases hp : p' = p
  · subst hp
    rw [if_pos rfl, setPort_port, if_pos rfl, setPort_port, if_pos rfl]
  · rw [if_neg hp, setPort_port, if_neg hp, setPort_port, if_neg hp]

/-! ## The line is a row -/

theorem hear_decoded (st : Station) {f : Frame} (key : Key) (ht : f.ttl ≠ 0) :
    (hear st (decoded f key)).station = (hear st f).station ∧ (hear st (decoded f key)).mine = (hear st f).mine ∧
      (hear st (decoded f key)).onward = (hear st f).onward.map fun g => { g with body := frameBody f key } := by
  have hdec : decoded f key = { f with body := frameBody f key } := by rw [decoded, if_pos ht]
  rw [hdec]
  by_cases hs : f.src = st.self
  · simp [hear, hs]
  by_cases hf : (seqIsFresh st.seen f.src f.seq).1 = true
  · by_cases hd : f.dst = st.self
    · simp [hear, fresh, hs, hf, hd]
    · by_cases hl : f.ttl ≤ 1 <;> simp [hear, fresh, oneHopLess, hs, hf, hd, hl]
  · simp [hear, fresh, hs, hf]

theorem whole_decoded {f : Frame} (key : Key) (ht : f.ttl ≠ 0) (hp : f.payload.length ≤ maxPayload) :
    Whole (decoded f key) key := by
  have hdec : decoded f key = { f with body := frameBody f key } := by rw [decoded, if_pos ht]
  rw [hdec]
  exact ⟨rfl, hp, ht⟩

namespace Line

variable {n : Nat}

structure Refines (key : Key) (s : Line n) (j : Journal n) : Prop where
  station : ∀ i, (s.link i).station = j.row.station i
  keyed : ∀ i, (s.link i).hasKey = true ∧ (s.link i).key = key
  idle : ∀ i, (s.link i).wire = []
  calls : ∀ i, (j.row.station i).txSeq.toNat = s.calls i
  sound : ∀ p q, ∀ f ∈ j.row.lane p q, f.type ≤ 0x0F ∧ f.payload.length ≤ maxPayload
  wires : ∀ p i q, place p i = q + 1 → Partway key ((s.link i).port p.other).framer (s.wire p q) (j.row.lane p q)
  sent : s.sent = j.sent
  delivered : s.delivered = j.delivered

/-- The links and the wires hold, byte by byte, what the row holds frame by frame. -/
structure Renders (key : Key) (s : Line n) (r : Row n) : Prop where
  station : ∀ i, (s.link i).station = r.station i
  keyed : ∀ i, (s.link i).hasKey = true ∧ (s.link i).key = key
  idle : ∀ i, (s.link i).wire = []
  sound : ∀ p q, ∀ f ∈ r.lane p q, f.type ≤ 0x0F ∧ f.payload.length ≤ maxPayload
  wires : ∀ p i q, place p i = q + 1 → Partway key ((s.link i).port p.other).framer (s.wire p q) (r.lane p q)

theorem Refines.renders {key : Key} {s : Line n} {j : Journal n} (h : Refines key s j) : Renders key s j.row :=
  ⟨h.station, h.keyed, h.idle, h.sound, h.wires⟩

/-- Frames that are put on a wire go behind those on it. -/
theorem partway_put {key : Key} {fr : Framer} {w : Nat → List Byte} {l : Nat → List Frame} {q : Nat} (gs : List Frame)
    {q' : Nat} (h : Partway key fr (w q') (l q')) :
    Partway key fr (Lib.put w q (gs.flatMap (onWire · key)) q') (Lib.put l q gs q') := by
  by_cases hq : q' = q
  · subst hq
    rw [Lib.put, Lib.put, Function.update_self, Function.update_self]
    exact h.append gs
  · rw [Lib.put, Lib.put, Function.update_of_ne hq, Function.update_of_ne hq]
    exact h

theorem given_nil (p : Port) : given p [] = [] := rfl

theorem given_both (p : Port) (bs : List Byte) : given p [(.up, bs), (.down, bs)] = bs := by
  cases p <;> simp [given]

/-- What is relayed leaves by one port. -/
theorem given_onward (p p' : Port) (g : Option Frame) (key : Key) :
    given p' (g.toList.map fun g => (p, onWire g key)) = if p' = p then g.toList.flatMap (onWire · key) else [] := by
  cases g with
  | none => simp [given]
  | some g =>
    by_cases hp : p' = p
    · subst hp
      simp [given]
    · simp [given, hp, Ne.symm hp]

variable {key : Key} {s : Line n} {r : Row n} {j : Journal n}

theorem send_renders (h : Renders key s r) (i : Fin n) (type : MsgType) (dst : Addr) (payload : List Byte) :
    Renders key (s.step (.send i type dst payload)) (r.send i type dst payload) ∧
      ((linkSend (s.link i) type dst payload).1 == .ok) = fits type payload := by
  obtain ⟨hk, hkey⟩ := h.keyed i
  have hself : (s.link i).station = r.station i := h.station i
  have hsame := linkSend_same (s.link i) type dst payload
  -- the same frame, or none
  have hspec : (linkSend (s.link i) type dst payload).2.station = { s.link i |>.station with txSeq := (s.link i).txSeq + 1 } ∧
      ((linkSend (s.link i) type dst payload).1 == .ok) = fits type payload ∧
      ∀ p, given p (linkSend (s.link i) type dst payload).2.wire =
        (if fits type payload then [(r.station i).own type dst payload] else []).flatMap (onWire · key) := by
    by_cases hfit : fits type payload = true
    · have hparts := hfit
      simp only [fits, Bool.and_eq_true, decide_eq_true_eq] at hparts
      obtain ⟨h1, h2⟩ := linkSend_own hk dst hparts.1 hparts.2
      refine ⟨h1, ?_, fun p => ?_⟩
      · rw [linkSend_ok hk dst hparts.1 hparts.2, hfit]
        rfl
      · rw [h2, h.idle i, List.nil_append, given_both, if_pos hfit, hself, hkey]
        simp
    · rw [Bool.not_eq_true] at hfit
      obtain ⟨h1, h2⟩ := linkSend_unfit hk dst hfit
      refine ⟨by rw [h2]; rfl, ?_, fun p => ?_⟩
      · rw [hfit]
        exact beq_eq_false_iff_ne.mpr h1
      · rw [h2, hfit]
        show given p (s.link i).wire = _
        rw [h.idle i]
        rfl
  obtain ⟨hst, hok, hgiven⟩ := hspec
  have hlane : ∀ p, (r.send i type dst payload).lane p = Lib.put (r.lane p) (place p i)
      (if fits type payload then [(r.station i).own type dst payload] else []) := by
    intro p
    simp only [Row.send]
    split
    · rfl
    · rw [put_nil]
  refine ⟨⟨fun k => ?_, fun k => ?_, fun k => ?_, fun p q f hf => ?_, fun p k q hq => ?_⟩, hok⟩
  · simp only [step, settle, Row.send]
    by_cases hki : k = i
    · subst hki
      rw [Function.update_self, Function.update_self, ← hself]
      exact hst
    · rw [Function.update_of_ne hki, Function.update_of_ne hki]
      exact h.station k
  · simp only [step, settle]
    by_cases hki : k = i
    · subst hki
      rw [Function.update_self]
      exact ⟨hsame.1.trans hk, hsame.2.1.trans hkey⟩
    · rw [Function.update_of_ne hki]
      exact h.keyed k
  · simp only [step, settle]
    by_cases hki : k = i
    · subst hki
      rw [Function.update_self]
    · rw [Function.update_of_ne hki]
      exact h.idle k
  · rw [hlane] at hf
    rcases mem_put hf with hf | ⟨-, hf⟩
    · exact h.sound p q f hf
    · split at hf
      · rename_i hfit
        obtain rfl := List.mem_singleton.mp hf
        simp only [fits, Bool.and_eq_true, decide_eq_true_eq] at hfit
        exact ⟨hfit.2, hfit.1⟩
      · cases hf
  · simp only [step, settle]
    rw [hlane, hgiven]
    refine partway_put _ ?_
    by_cases hki : k = i
    · subst hki
      rw [Function.update_self]
      show Partway key ((linkSend (s.link k) type dst payload).2.port p.other).framer _ _
      rw [linkSend_framer]
      exact h.wires p k q hq
    · rw [Function.update_of_ne hki]
      exact h.wires p k q hq

theorem send_refines (h : Refines key s j) {i : Fin n} {type : MsgType} {dst : Addr} {payload : List Byte}
    (hfew : s.calls i + 1 < 32768) :
    Refines key (s.step (.send i type dst payload)) (j.step (.send i type dst payload)) := by
  obtain ⟨hr, hok⟩ := send_renders h.renders i type dst payload
  have hletter : (ownFrame (s.link i) type dst payload).letter = ((j.row.station i).own type dst payload).letter := by
    rw [← h.station i]
    rfl
  refine ⟨hr.station, hr.keyed, hr.idle, fun k => ?_, hr.sound, hr.wires, ?_, h.delivered⟩
  · simp only [step, settle, Journal.step]
    by_cases hki : k = i
    · subst hki
      rw [Function.update_self, Row.txSeq_send_self j.row k type dst payload (by rw [h.calls k]; exact hfew), h.calls k]
    · rw [Function.update_of_ne hki, Row.txSeq_send_ne j.row hki]
      exact h.calls k
  · simp only [step, settle, Journal.step]
    rw [h.sent, hok, hletter]

/-- The frame that the next byte on the wire to `i` makes its link hand over. -/
def handed (s : Line n) (p : Port) (i : Fin n) (now : Time) : Option Frame :=
  match place p i with
  | 0 => none
  | q + 1 =>
    match s.wire p q with
    | [] => none
    | b :: _ => (linkRxByte (s.link i) p.other b now).2.toOption

/-- A byte brings nothing yet, or the frame at the front of the lane. -/
theorem byte_renders (h : Renders key s r) {p : Port} {i : Fin n} (hspare : ∀ f, r.front p i = some f → f.ttl ≠ 0) (now : Time) :
    (Renders key (s.step (.byte p i now)) r ∧ (s.step (.byte p i now)).delivered = s.delivered ∧
        s.handed p i now = none) ∨
      ∃ f, r.front p i = some f ∧ Renders key (s.step (.byte p i now)) (r.arrive p i f) ∧
        (s.step (.byte p i now)).delivered = Journal.logged s.delivered i (hear (r.station i) f).mine f.letter ∧
        ∀ g, s.handed p i now = some g → g = decoded f key := by
  simp only [step, handed]
  split
  · exact Or.inl ⟨h, rfl, rfl⟩
  rename_i q hq
  split
  · exact Or.inl ⟨h, rfl, rfl⟩
  rename_i b rest hbytes
  obtain ⟨hk, hkey⟩ := h.keyed i
  have hsame := linkRxByte_same (s.link i) p.other b now
  have hpart := h.wires p i q hq
  rw [hbytes] at hpart
  -- what the step leaves alone
  have hkeyed : ∀ k, (Function.update s.link i { (linkRxByte (s.link i) p.other b now).1 with wire := [] } k).hasKey = true ∧
      (Function.update s.link i { (linkRxByte (s.link i) p.other b now).1 with wire := [] } k).key = key := by
    intro k
    by_cases hki : k = i
    · subst hki
      rw [Function.update_self]
      exact ⟨hsame.1.trans hk, hsame.2.1.trans hkey⟩
    · rw [Function.update_of_ne hki]
      exact h.keyed k
  have hidle : ∀ k, (Function.update s.link i { (linkRxByte (s.link i) p.other b now).1 with wire := [] } k).wire = [] := by
    intro k
    by_cases hki : k = i
    · subst hki
      rw [Function.update_self]
    · rw [Function.update_of_ne hki]
      exact h.idle k
  -- the decoders, and the wires but for what is put on them
  have hwires : ∀ fs, Partway key (framerPush ((s.link i).port p.other).framer b (some key)).1 rest fs →
      (∀ p', ((linkRxByte (s.link i) p.other b now).1.port p').framer = if p' = p.other then
        (framerPush ((s.link i).port p.other).framer b (some key)).1 else ((s.link i).port p').framer) →
      ∀ p' k q', place p' k = q' + 1 →
        Partway key ((Function.update s.link i { (linkRxByte (s.link i) p.other b now).1 with wire := [] } k).port p'.other).framer
          (Function.update s.wire p (Function.update (s.wire p) q rest) p' q')
          (Function.update r.lane p (Function.update (r.lane p) q fs) p' q') := by
    intro fs hfs hframer p' k q' hq'
    have hport : ∀ k, ((Function.update s.link i { (linkRxByte (s.link i) p.other b now).1 with wire := [] } k).port p'.other).framer =
        if k = i ∧ p' = p then (framerPush ((s.link i).port p.other).framer b (some key)).1
        else ((s.link k).port p'.other).framer := by
      intro k
      by_cases hki : k = i
      · subst hki
        rw [Function.update_self]
        refine (hframer p'.other).trans ?_
        by_cases hp : p' = p
        · rw [if_pos (congrArg _ hp), if_pos ⟨rfl, hp⟩]
        · rw [if_neg fun he => hp (by cases p <;> cases p' <;> first | rfl | cases he), if_neg fun he => hp he.2]
      · rw [Function.update_of_ne hki, if_neg fun he => hki he.1]
    rw [hport]
    by_cases hp : p' = p
    · subst hp
      rw [Function.update_self, Function.update_self]
      by_cases hqq : q' = q
      · subst hqq
        obtain rfl : k = i := place_inj (hq'.trans hq.symm)
        rw [if_pos ⟨rfl, rfl⟩, Function.update_self, Function.update_self]
        exact hfs
      · rw [if_neg (fun he => hqq (by have := he.1 ▸ hq'; omega)), Function.update_of_ne hqq, Function.update_of_ne hqq]
        exact h.wires p' k q' hq'
    · rw [if_neg fun he => hp he.2, Function.update_of_ne hp, Function.update_of_ne hp]
      exact h.wires p' k q' hq'
  rcases hpart.push (h.sound p q) with ⟨hres, hnext⟩ | ⟨f, fs, hlane, hres, hnext⟩
  · refine Or.inl ?_
    rw [← hkey] at hres
    obtain ⟨h1, h2, h3, h4⟩ := linkRxByte_again hk hres now
    rw [hkey] at h4
    refine ⟨⟨fun k => ?_, hkeyed, hidle, h.sound, fun p' k q' hq' => ?_⟩, ?_, ?_⟩
    · simp only [settle]
      by_cases hki : k = i
      · subst hki
        rw [Function.update_self]
        exact h2.trans (h.station k)
      · rw [Function.update_of_ne hki]
        exact h.station k
    · have hlanes := hwires (r.lane p q) hnext h4 p' k q' hq'
      rw [Function.update_eq_self, Function.update_eq_self] at hlanes
      simp only [settle]
      rw [h3, h.idle i, given_nil, put_nil]
      exact hlanes
    · rw [h1]
    · rw [h1]
      rfl
  · refine Or.inr ?_
    obtain ⟨ht, hp⟩ := h.sound p q f (by rw [hlane]; exact List.mem_cons_self)
    have hfront : r.front p i = some f := by
      simp only [Row.front, hq, hlane, List.head?_cons]
    have httl : f.ttl ≠ 0 := hspare f hfront
    obtain ⟨q', fs', hq', hlane', hnew⟩ := Row.front_some hfront
    obtain rfl : q' = q := by omega
    obtain rfl : fs' = fs := (List.cons.inj (hlane'.symm.trans hlane)).2
    rw [← hkey] at hres
    obtain ⟨h1, h2, h3, h4, h5⟩ := linkRxByte_frame hk hres (hkey.symm ▸ whole_decoded _ httl hp) now
    obtain ⟨d1, d2, d3⟩ := hear_decoded (s.link i).station (s.link i).key httl
    rw [d1, h.station i] at h1
    rw [d2, h.station i] at h2
    rw [d3, h.station i, h.idle i, List.nil_append] at h4
    rw [hkey] at h2 h3 h5
    -- on the wire, what is relayed is the same with and without its old body
    have hgiven : ∀ p', given p' (linkRxByte (s.link i) p.other b now).1.wire =
        if p' = p then (hear (r.station i) f).onward.toList.flatMap (onWire · key) else [] := by
      intro p'
      rw [h4, hkey, show p.other.other = p by cases p <;> rfl]
      have hmap : ((hear (r.station i) f).onward.map fun g => { g with body := frameBody f key }).toList.map
          (fun g => (p, onWire g key)) = (hear (r.station i) f).onward.toList.map fun g => (p, onWire g key) := by
        cases (hear (r.station i) f).onward <;> rfl
      rw [hmap, given_onward]
    refine ⟨f, hfront, ⟨fun k => ?_, hkeyed, hidle, fun p' q'' g hg => ?_, fun p' k q'' hq'' => ?_⟩, ?_, fun g hg => ?_⟩
    · simp only [settle]
      by_cases hki : k = i
      · subst hki
        rw [Function.update_self, Row.arrive_station_self]
        exact h1
      · rw [Function.update_of_ne hki, Row.arrive_station_ne r p hki]
        exact h.station k
    · simp only [hnew] at hg
      by_cases hpp : p' = p
      · subst hpp
        rw [Function.update_self] at hg
        rcases mem_pass hlane hg with hg | ⟨-, ho⟩
        · exact h.sound p' q'' g hg
        · obtain ⟨-, -, rfl⟩ := Row.hear_onward ho
          exact ⟨ht, hp⟩
      · rw [Function.update_of_ne hpp] at hg
        exact h.sound p' q'' g hg
    · have hlanes := hwires fs' hnext h5 p' k q'' hq''
      simp only [settle, hnew, hgiven]
      by_cases hpp : p' = p
      · subst hpp
        rw [Function.update_self, if_pos rfl, hq, Function.update_self]
        rw [Function.update_self, Function.update_self] at hlanes
        exact partway_put _ hlanes
      · rw [Function.update_of_ne hpp, if_neg hpp, Function.update_of_ne hpp, put_nil]
        rw [Function.update_of_ne hpp, Function.update_of_ne hpp] at hlanes
        exact hlanes
    · cases hr : (linkRxByte (s.link i) p.other b now).2 with
      | ok g =>
        obtain rfl := h3 g hr
        rw [h2.mp hr]
        rfl
      | error e =>
        have hmine : (hear (r.station i) f).mine = false := by
          rw [← Bool.not_eq_true]
          intro hm
          rw [h2.mpr hm] at hr
          cases hr
        rw [hmine]
        rfl
    · cases hr : (linkRxByte (s.link i) p.other b now).2 with
      | ok g' =>
        rw [hr] at hg
        cases hg
        exact h3 g hr
      | error e =>
        rw [hr] at hg
        cases hg

theorem byte_refines {addr : Fin n → Addr} (hinj : Function.Injective addr) (hn : n ≤ 20) (h : Refines key s j)
    (hi : Journal.Inv addr j) (p : Port) (i : Fin n) (now : Time) :
    Refines key (s.step (.byte p i now)) j ∨ Refines key (s.step (.byte p i now)) (j.step (.arrive p i)) := by
  have hspare : ∀ f, j.row.front p i = some f → f.ttl ≠ 0 := by
    intro f hf he
    have hone := (hi.physical.front hinj hn hf).2
    rw [he] at hone
    exact absurd hone (by decide)
  have hsent : (s.step (.byte p i now)).sent = s.sent ∧ (s.step (.byte p i now)).calls = s.calls := by
    simp only [step]
    split
    · exact ⟨rfl, rfl⟩
    · split <;> exact ⟨rfl, rfl⟩
  rcases byte_renders h.renders hspare now with ⟨hr, hdel, -⟩ | ⟨f, hfront, hr, hdel, -⟩
  · refine Or.inl ⟨hr.station, hr.keyed, hr.idle, fun k => ?_, hr.sound, hr.wires, hsent.1.trans h.sent, hdel.trans h.delivered⟩
    rw [hsent.2]
    exact h.calls k
  · have hstep : j.step (.arrive p i) = { j with
        row := j.row.arrive p i f
        delivered := Journal.logged j.delivered i (hear (j.row.station i) f).mine f.letter } := by
      simp only [Journal.step, hfront]
    rw [hstep]
    refine Or.inr ⟨hr.station, hr.keyed, hr.idle, fun k => ?_, hr.sound, hr.wires, hsent.1.trans h.sent, ?_⟩
    · rw [hsent.2, Row.txSeq_arrive]
      exact h.calls k
    · rw [hdel, h.delivered]

theorem start_refines {addr : Fin n → Addr} (h : Start addr key s) : ∃ j, Journal.Start addr j ∧ Refines key s j := by
  obtain ⟨hlink, hwire, hcalls, hsent, hdel⟩ := h
  refine ⟨⟨⟨fun i => (s.link i).station, fun _ _ => []⟩, s.sent, s.delivered⟩,
    ⟨fun i => congrArg Link.station (hlink i), fun _ _ => rfl, hsent, hdel⟩,
    ⟨fun _ => rfl, fun i => by rw [hlink]; exact ⟨rfl, rfl⟩, fun i => by rw [hlink]; rfl, fun i => ?_, fun p q f hf => (by cases hf),
      fun p i q _ => ?_, rfl, rfl⟩⟩
  · exact (congrArg (fun l : Link => l.txSeq.toNat) (hlink i)).trans (hcalls i).symm
  · rw [hwire, hlink]
    exact Partway.start (by cases p <;> rfl) key []

/-- Whatever the line does, a row does frame by frame. -/
theorem line_refines {addr : Fin n → Addr} (hinj : Function.Injective addr) (hres : ∀ i, addr i ≠ addrBroadcast)
    (hn : n ≤ 20) (h : Reach (Start addr key) Few step s) :
    ∃ j, Reach (Journal.Start addr) Journal.Few Journal.step j ∧ Refines key s j := by
  induction h with
  | init h0 =>
    obtain ⟨j, h1, h2⟩ := start_refines h0
    exact ⟨j, .init h1, h2⟩
  | step e _ ho ih =>
    obtain ⟨j, hr, hj⟩ := ih
    cases e with
    | send i type dst payload =>
      refine ⟨_, hr.step (Journal.Event.send i type dst payload) ?_, send_refines hj ho⟩
      show (j.row.station i).txSeq.toNat + 1 < 32768
      rw [hj.calls i]
      exact ho
    | byte p i now =>
      rcases byte_refines hinj hn hj (Journal.journal_inv hinj hres hn hr) p i now with h | h
      · exact ⟨j, hr, h⟩
      · exact ⟨_, hr.step (Journal.Event.arrive p i) trivial, h⟩

/-- On drained wires nothing is on its way. -/
theorem Refines.coming_nil {β : Type} (h : Refines key s j) (hd : Drained s) (p : Port) (x : Fin n) (sel : Frame → Option β) :
    j.row.coming p x sel = [] := by
  refine List.filterMap_eq_nil_iff.mpr fun f hf => ?_
  obtain ⟨q, hq, hf⟩ := mem_heading.mp hf
  obtain ⟨k, hk⟩ := exists_place hq
  have hpart := h.wires p k q hk
  have hlt := place_lt p k
  rw [hd p q (by omega)] at hpart
  rw [hpart.nil] at hf
  cases hf

end Line

open Line

/-- Of what a board has sent, another has been handed what was for it, from the first on,
    in order and once; when the wires are drained, all of it. It has been handed nothing
    else, and nothing of its own. -/
theorem exactly_once {n : Nat} {addr : Fin n → Addr} {key : Key} (hn : n ≤ 16) (hinj : Function.Injective addr)
    (hres : ∀ i, addr i ≠ addrNone ∧ addr i ≠ addrBroadcast) {s : Line n} (h : Reach (Start addr key) Few Line.step s) :
    (∀ i x, i ≠ x → (s.delivered x).filter (fun m => m.src == addr i) <+: (s.sent i).filter (Letter.isFor (addr x))) ∧
      (Drained s → ∀ i x, i ≠ x →
        (s.delivered x).filter (fun m => m.src == addr i) = (s.sent i).filter (Letter.isFor (addr x))) ∧
      (∀ x, ∀ m ∈ s.delivered x, m.isFor (addr x) = true ∧ ∃ i, i ≠ x ∧ m.src = addr i) ∧
      ∀ i, (s.sent i).Nodup ∧ ∀ m ∈ s.sent i, m.src = addr i := by
  have hres' : ∀ i, addr i ≠ addrBroadcast := fun i => (hres i).2
  obtain ⟨j, hr, hj⟩ := line_refines hinj hres' (by omega) h
  obtain ⟨-, -, hc⟩ := Journal.journal_inv hinj hres' (by omega) hr
  rw [hj.sent, hj.delivered]
  refine ⟨fun i x hix => ?_, fun hd i x hix => ?_, hc.foreign, fun i => ⟨?_, hc.own i⟩⟩
  · obtain ⟨p, hp⟩ := place_total hix
    exact ⟨_, hc.between p i x hp⟩
  · obtain ⟨p, hp⟩ := place_total hix
    have hbetween := hc.between p i x hp
    rw [hj.coming_nil hd, List.append_nil] at hbetween
    exact hbetween
  · have hnum := (List.pairwise_append.mp (hc.numbered i)).1
    exact (List.pairwise_map.mp hnum).imp fun hlt he => absurd (congrArg (fun m => m.seq.toNat) he) (Nat.ne_of_lt hlt)

/-! ## Three boards -/

def threeAddr (i : Fin 3) : Addr := UInt16.ofNat (i.val + 1)

def threeKey : Key := Bytes.zero 16

def threeBoards : Line 3 :=
  { link := fun i => linkSetKey (linkInit (threeAddr i)) threeKey, wire := fun _ _ => [], calls := fun _ => 0
    sent := fun _ => [], delivered := fun _ => [] }

/-- The first board sends to all, the last one to the first, past the one between; and
    the wires are drained. -/
def threeEvents : List (Line.Event 3) :=
  [.send 0 1 addrBroadcast [], .send 2 2 1 []] ++ List.replicate 20 (.byte .down 1 0) ++ List.replicate 20 (.byte .up 1 0) ++
    List.replicate 20 (.byte .down 2 0) ++ List.replicate 20 (.byte .up 0 0)

def threeDone : Line 3 := threeEvents.foldl Line.step threeBoards

instance (s : Line n) : ∀ e, Decidable (Few s e)
  | .send .. => inferInstanceAs (Decidable (_ < _))
  | .byte .. => isTrue trivial

theorem exactly_once_of_three :
    (threeDone.delivered 1).filter (fun m => m.src == 1) = (threeDone.sent 0).filter (Letter.isFor 2) := by
  have h0 : Reach (Start threeAddr threeKey) Few Line.step threeBoards :=
    .init ⟨fun _ => rfl, fun _ _ => rfl, fun _ => rfl, fun _ => rfl, fun _ => rfl⟩
  have hr : Reach (Start threeAddr threeKey) Few Line.step threeDone := h0.run threeEvents (by decide +kernel)
  have hd : Drained threeDone := by
    intro p q hq
    have hcases : q = 0 ∨ q = 1 := by omega
    rcases hcases with rfl | rfl <;> cases p <;> decide +kernel
  exact (exactly_once (by decide) (by decide) (by decide) hr).2.1 hd 0 1 (by decide)

end DeskHop.Wire
