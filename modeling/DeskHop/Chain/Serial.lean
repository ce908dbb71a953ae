/-
  DeskHop.Chain.Serial — the coordinator's cable (`coordinator/src/serial.c`, and `on_tx` of
  `coordinator/src/main.c`).

  What the link transmits goes into a buffer in front of the descriptor, a frame at a time:
  whole, or not at all where the buffer has no room. The buffer is drained whenever the
  descriptor takes something, which may end in the middle of a frame.

  Proved, whatever the link is given to send and to hear, and whatever the descriptor answers
  (`cable_carries`): the neighbour decodes just the frames that were accepted, in order, as
  far as the descriptor has taken them, and all of them once the buffer is empty; so a cable
  that does not drain loses whole frames and never damages one.
-/

import DeskHop.Lib.Drain
import DeskHop.Wire.Cut
import DeskHop.Wire.Relay

namespace DeskHop.Chain

open DeskHop.Lib DeskHop.Wire

/-! ## The buffer -/

def serialTxBuf : Nat := 8192

/-- `tx` and `tx_len`, and what the descriptor has taken. -/
abbrev Serial := Spooled Byte serialTxBuf

def serialFlush (s : Serial) (answers : List Answer) : Int × Serial :=
  (if (drain answers s.spool.held).failed then -1 else 0, s.flush answers)

def serialWrite (s : Serial) (data : List Byte) (answers : List Answer) : Int × Serial :=
  match s.spool.put data with
  | none => (-1, s)
  | some tx => serialFlush { s with spool := tx, accepted := s.accepted ++ [data] } answers

theorem serialWrite_offer (s : Serial) (data : List Byte) (answers : List Answer) :
    (serialWrite s data answers).2 = s.offer data answers := by
  unfold serialWrite Spooled.offer
  cases s.spool.put data <;> rfl

/-! ## The link in front of it -/

structure Cabled where
  link : Link
  ser : Serial
  /-- What the link has transmitted on the port of the cable. -/
  emitted : List (List Byte)

inductive LinkOp where
  | byte (p : Port) (b : Byte) (now : Time)
  | send (type : MsgType) (dst : Addr) (payload : List Byte)
  | tick (now : Time)

def linkOp (l : Link) : LinkOp → Link
  | .byte p b now => (linkRxByte l p b now).1
  | .send type dst payload => (linkSend l type dst payload).2
  | .tick now => linkTick l now

namespace Cabled

/-- The transmit callback; the copy for the port that does not exist is dropped. -/
def onTx (own : Port) (c : Cabled) (x : Port × List Byte) (answers : List Answer) : Cabled :=
  if x.1 ≠ own then c
  else { c with ser := (serialWrite c.ser x.2 answers).2, emitted := c.emitted ++ [x.2] }

inductive Event where
  /-- `answers i`: what the descriptor answers in the `i`th callback. -/
  | link (op : LinkOp) (answers : Nat → List Answer)
  | flush (answers : List Answer)

def step (own : Port) (c : Cabled) : Event → Cabled
  | .link op answers =>
    let l := linkOp { c.link with wire := [] } op
    l.wire.zipIdx.foldl (fun c x => c.onTx own x.1 (answers x.2)) { c with link := l }
  | .flush answers => { c with ser := (serialFlush c.ser answers).2 }

def start (self : Addr) (key : Key) : Cabled := ⟨linkSetKey (linkInit self) key, ⟨.empty, [], []⟩, []⟩

def run (own : Port) (self : Addr) (key : Key) (es : List Event) : Cabled := es.foldl (step own) (start self key)

end Cabled

/-! ## What a keyed link transmits -/

/-- An encoded frame. -/
def Encoded (key : Key) (w : List Byte) : Prop := ∃ f, Sendable f ∧ w = onWire f key

theorem emitFrame_encoded (l : Link) (p : Port) (f : Frame) :
    ∃ ws, (emitFrame l p f).2.wire = l.wire ++ ws ∧ ∀ x ∈ ws, Encoded l.key x.2 := by
  unfold emitFrame
  split
  · exact ⟨[], by simp, by simp⟩
  cases henc : frameEncode f l.key wireMax with
  | error e => exact ⟨[], by simp, by simp⟩
  | ok w =>
    obtain ⟨hfit, rfl⟩ := frameEncode_some henc
    refine ⟨[(p, onWire f l.key)], by simp, fun x hx => ?_⟩
    rw [List.mem_singleton.mp hx]
    exact ⟨f, hfit, rfl⟩

/-- A relayed frame has as much in it as the one that came in. -/
theorem onward_sendable {st : Station} {f g : Frame} (h : (hear st f).onward = some g) (hf : Sendable f) : Sendable g := by
  have hless : oneHopLess f = some g := by
    by_cases hs : f.src = st.self
    · rw [(hear_stale (Or.inl hs)).2] at h
      cases h
    · cases hfresh : fresh st f with
      | false =>
        rw [(hear_stale (Or.inr hfresh)).2] at h
        cases h
      | true =>
        rw [(hear_fresh hs hfresh).2] at h
        split at h
        · exact h
        · cases h
  unfold oneHopLess at hless
  split at hless
  · cases hless
  · cases hless
    exact hf

theorem linkOp_encoded {l : Link} (hk : l.hasKey = true) (op : LinkOp) :
    (linkOp l op).hasKey = true ∧ (linkOp l op).key = l.key ∧
      ∃ ws, (linkOp l op).wire = l.wire ++ ws ∧ ∀ x ∈ ws, Encoded l.key x.2 := by
  cases op with
  | tick now =>
    obtain ⟨h1, h2, -⟩ := linkTick_same l now
    exact ⟨h1.trans hk, h2, [], by rw [List.append_nil]; exact linkTick_wire l now, by simp⟩
  | send type dst payload =>
    obtain ⟨h1, h2, -⟩ := linkSend_same l type dst payload
    refine ⟨h1.trans hk, h2, ?_⟩
    obtain ⟨up, hup, hupall⟩ := emitFrame_encoded l .up (ownFrame l type dst payload)
    obtain ⟨down, hdown, hdownall⟩ :=
      emitFrame_encoded (emitFrame l .up (ownFrame l type dst payload)).2 .down (ownFrame l type dst payload)
    rw [(emitFrame_same l .up _).2.1] at hdownall
    refine ⟨up ++ down, ?_, fun x hx => (List.mem_append.mp hx).elim (hupall x) (hdownall x)⟩
    show (emitFrame (emitFrame l .up _).2 .down _).2.wire = _
    rw [hdown, hup, List.append_assoc]
  | byte p b now =>
    obtain ⟨h1, h2, -⟩ := linkRxByte_same l p b now
    refine ⟨h1.trans hk, h2, ?_⟩
    show ∃ ws, (linkRxByte l p b now).1.wire = l.wire ++ ws ∧ _
    cases hpush : (framerPush (l.port p).framer b (some l.key)).2 with
    | error r => exact ⟨[], by rw [List.append_nil]; exact (linkRxByte_again hk hpush now).2.2.1, by simp⟩
    | ok f =>
      obtain ⟨body, hw, rfl⟩ := framerPush_ok hpush
      by_cases ht : (frameOfBody body).ttl = 0
      · refine ⟨[], ?_, by simp⟩
        unfold linkRxByte
        rw [if_pos hk]
        simp only [hpush]
        rw [accept_spent _ p ht, setPort_wire, setPort_wire, List.append_nil]
      · obtain ⟨-, -, -, hwire, -⟩ := linkRxByte_frame hk hpush (whole_frameOfBody hw ht) now
        refine ⟨_, hwire, fun x hx => ?_⟩
        obtain ⟨g, hg, rfl⟩ := List.mem_map.mp hx
        have hf : Sendable (frameOfBody body) := ⟨UInt8.and_le_right, payload_frameOfBody hw⟩
        exact ⟨g, onward_sendable (Option.mem_toList.mp hg) hf, rfl⟩

/-! ## What the neighbour makes of it -/

namespace Cabled

/-- What holds in every state. -/
structure Carrying (key : Key) (c : Cabled) : Prop where
  keyed : c.link.hasKey = true ∧ c.link.key = key
  whole : c.ser.Whole
  encoded : ∀ w ∈ c.emitted, Encoded key w
  accepted : c.ser.accepted.Sublist c.emitted

variable {key : Key} {c : Cabled}

theorem Carrying.onTx (h : Carrying key c) (own : Port) {x : Port × List Byte} (hx : Encoded key x.2)
    (answers : List Answer) : Carrying key (c.onTx own x answers) := by
  unfold Cabled.onTx
  split
  · exact h
  · rw [serialWrite_offer]
    have hemitted : ∀ w ∈ c.emitted ++ [x.2], Encoded key w := by
      intro w hw
      rcases List.mem_append.mp hw with hw | hw
      · exact h.encoded w hw
      · rw [List.mem_singleton.mp hw]
        exact hx
    refine ⟨h.keyed, h.whole.offer x.2 answers, hemitted, ?_⟩
    rcases c.ser.offer_cases x.2 answers with ⟨-, hsame⟩ | ⟨spool, -, hto⟩
    · rw [hsame]
      exact h.accepted.trans (List.sublist_append_left _ _)
    · rw [hto]
      exact h.accepted.append (List.Sublist.refl _)

theorem Carrying.step (h : Carrying key c) (own : Port) (e : Event) : Carrying key (c.step own e) := by
  cases e with
  | flush answers => exact ⟨h.keyed, h.whole.flush answers, h.encoded, h.accepted⟩
  | link op answers =>
    obtain ⟨hk, hkey, ws, hwire, hall⟩ := linkOp_encoded (l := { c.link with wire := [] }) h.keyed.1 op
    rw [List.nil_append] at hwire
    have hlink : Carrying key { c with link := linkOp { c.link with wire := [] } op } :=
      ⟨⟨hk, hkey.trans h.keyed.2⟩, h.whole, h.encoded, h.accepted⟩
    unfold Cabled.step
    dsimp only
    refine List.foldlRecOn (motive := Carrying key) _ _ hlink fun d hd x hx => hd.onTx own ?_ _
    have hmem : x.1 ∈ ws := hwire ▸ List.fst_mem_of_mem_zipIdx hx
    exact h.keyed.2 ▸ hall x.1 hmem

theorem carrying_run (own : Port) (self : Addr) (key : Key) (es : List Event) : Carrying key (run own self key es) :=
  List.foldlRecOn (motive := Carrying key) _ _
    ⟨⟨rfl, rfl⟩, rfl, fun _ hw => absurd hw List.not_mem_nil, List.Sublist.refl _⟩ fun _ h e _ => h.step own e

end Cabled

/-- Encodings of frames, as encodings of a list of frames. -/
theorem encoded_frames {key : Key} {ws : List (List Byte)} (h : ∀ w ∈ ws, Encoded key w) :
    ∃ fs : List Frame, (∀ f ∈ fs, Sendable f) ∧ ws = fs.map (onWire · key) := by
  induction ws with
  | nil => exact ⟨[], by simp, rfl⟩
  | cons w ws ih =>
    obtain ⟨f, hf, rfl⟩ := h w List.mem_cons_self
    obtain ⟨fs, hfs, rfl⟩ := ih fun w hw => h w (List.mem_cons_of_mem _ hw)
    exact ⟨f :: fs, fun g hg => (List.mem_cons.mp hg).elim (fun he => he ▸ hf) (hfs g), rfl⟩

/-- What the neighbour decodes of a cable are the frames that were accepted of those the link
    has transmitted, one after another, and all of them once nothing is held back. -/
theorem cable_carries (own : Port) (self : Addr) (key : Key) (es : List Cabled.Event) :
    let c := Cabled.run own self key es
    c.ser.spool.held.length ≤ serialTxBuf ∧ c.ser.accepted.Sublist c.emitted ∧
      ∃ fs : List Frame, c.ser.accepted = fs.map (onWire · key) ∧
        decodes key c.ser.given <+: fs.map (decoded · key) ∧
        (c.ser.spool.held = [] → decodes key c.ser.given = fs.map (decoded · key)) := by
  have h := Cabled.carrying_run own self key es
  generalize Cabled.run own self key es = c at h
  obtain ⟨fs, hfs, haccepted⟩ := encoded_frames fun w hw => h.encoded w (h.accepted.subset hw)
  have hflow : c.ser.given ++ c.ser.spool.held = fs.flatMap (onWire · key) := by
    have hwhole : c.ser.given ++ c.ser.spool.held = c.ser.accepted.flatten := h.whole
    rw [hwhole, haccepted, List.flatMap_def]
  refine ⟨c.ser.spool.fits, h.accepted, fs, haccepted, decodes_some key hfs ⟨_, hflow⟩, fun hheld => ?_⟩
  rw [hheld, List.append_nil] at hflow
  rw [hflow, decodes_frames key hfs]

end DeskHop.Chain
