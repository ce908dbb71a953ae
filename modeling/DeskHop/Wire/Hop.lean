/-
  DeskHop.Wire.Hop — a keyed link, frame by frame.

  What the boards of a chain do to each other depends on whole frames only. A `Station`
  is what the frames of a keyed link depend on; `Station.own` is the frame it sends next
  and `hear` what it makes of one that arrives.

  Proved: on bytes the link does just that. It sends the encoding of its own frame out of
  both ports (`linkSend_own`), and of a received frame it hands over, keeps in mind and
  sends on what `hear` says (`accept_hear`).
-/

import DeskHop.Wire.Link

namespace DeskHop.Wire

structure Station where
  self : Addr
  txSeq : UInt16
  seen : SeenTable
  deriving DecidableEq

def Link.station (l : Link) : Station := ⟨l.self, l.txSeq, l.seen⟩

/-- The frame the station originates next. -/
def Station.own (st : Station) (type : MsgType) (dst : Addr) (payload : List Byte) : Frame :=
  { type := type, ttl := ttlDefault, src := st.self, dst := dst, seq := st.txSeq, payload := payload, body := [] }

/-- What becomes of a frame that arrives. -/
structure Heard where
  station : Station
  /-- It is handed to the router. -/
  mine : Bool
  /-- What leaves by the other port. -/
  onward : Option Frame

/-- The frame with one hop less, if it has one left. -/
def oneHopLess (f : Frame) : Option Frame := if f.ttl ≤ 1 then none else some { f with ttl := f.ttl - 1 }

/-- The replay window lets the frame through. -/
def fresh (st : Station) (f : Frame) : Bool := (seqIsFresh st.seen f.src f.seq).1

def hear (st : Station) (f : Frame) : Heard :=
  if f.src = st.self then ⟨st, false, none⟩
  else
    let st' := { st with seen := (seqIsFresh st.seen f.src f.seq).2 }
    if !fresh st f then ⟨st', false, none⟩
    else ⟨st', f.dst = st.self || f.dst = addrBroadcast, if f.dst ≠ st.self then oneHopLess f else none⟩

@[simp] theorem hear_self (st : Station) (f : Frame) : (hear st f).station.self = st.self := by
  simp only [hear]
  split
  · rfl
  · split <;> rfl

@[simp] theorem hear_txSeq (st : Station) (f : Frame) : (hear st f).station.txSeq = st.txSeq := by
  simp only [hear]
  split
  · rfl
  · split <;> rfl

/-- A frame of another board that the replay window lets through. -/
theorem hear_fresh {st : Station} {f : Frame} (hs : f.src ≠ st.self) (hf : fresh st f = true) :
    (hear st f).mine = (f.dst = st.self || f.dst = addrBroadcast) ∧
      (hear st f).onward = if f.dst ≠ st.self then oneHopLess f else none := by
  simp [hear, hs, hf]

theorem hear_stale {st : Station} {f : Frame} (h : f.src = st.self ∨ fresh st f = false) :
    (hear st f).mine = false ∧ (hear st f).onward = none := by
  rcases h with h | h
  · simp [hear, h]
  · by_cases hs : f.src = st.self <;> simp [hear, hs, h]

theorem oneHopLess_some {f : Frame} (h : 1 < f.ttl.toNat) :
    oneHopLess f = some { f with ttl := f.ttl - 1 } ∧ (f.ttl - 1).toNat + 1 = f.ttl.toNat := by
  have hone : (1 : UInt8).toNat = 1 := rfl
  have hle : ¬ f.ttl ≤ 1 := by
    rw [UInt8.le_iff_toNat_le]
    omega
  refine ⟨if_neg hle, ?_⟩
  rw [UInt8.toNat_sub_of_le _ _ (UInt8.le_iff_toNat_le.mpr (by omega))]
  omega

/-! ## On bytes -/

/-- The frame is whole: it is its own body, decoded. -/
structure Whole (f : Frame) (key : Key) : Prop where
  body : f.body = frameBody f key
  payload : f.payload.length ≤ maxPayload
  ttl : f.ttl ≠ 0

theorem oneHopLess_eq {f : Frame} (ht : f.ttl ≠ 0) :
    oneHopLess f = if f.ttl = 1 then none else some { f with ttl := f.ttl - 1 } := by
  have hle : f.ttl ≤ 1 ↔ f.ttl = 1 := by
    rw [UInt8.le_iff_toNat_le, ← UInt8.toNat_inj]
    have hpos : f.ttl.toNat ≠ 0 := fun h => ht (UInt8.toNat_inj.mp h)
    have hone : (1 : UInt8).toNat = 1 := rfl
    omega
  simp only [oneHopLess, hle]

@[simp] theorem setPort_station (l : Link) (p : Port) (lp : LinkPort) : (l.setPort p lp).station = l.station := by
  cases p <;> rfl

theorem relay_station (l : Link) (p : Port) (f : Frame) : (relay l p f).station = l.station := by
  simp only [relay]
  split
  · rfl
  split
  · rfl
  · rw [setPort_station, setPort_station]
    rfl

/-- Relaying the body of a frame is sending the frame with one hop less. -/
theorem relay_wire {l : Link} {f : Frame} (p : Port) (h : Whole f l.key) :
    (relay l p f).wire = l.wire ++ (oneHopLess f).toList.map fun g => (p.other, onWire g l.key) := by
  have hlen := length_frameBody f l.key
  have hp := h.payload
  have hfit : ¬ (f.body.length = 0 || f.body.length > bodyMax) = true := by
    rw [h.body, hlen]
    simp [frameOverhead, hdrBytes, macBytes, crcBytes, bodyMax]
    omega
  have hprep := frameForwardPrepare_body f l.key h.ttl
  rw [← h.body] at hprep
  rw [oneHopLess_eq h.ttl]
  simp only [relay]
  rw [if_neg hfit, hprep]
  by_cases h1 : f.ttl = 1
  · simp [h1]
  · simp only [h1, if_false, setPort_wire]
    rfl

/-- A keyed link hands over, keeps in mind and sends on what `hear` says. -/
theorem accept_hear {l : Link} {f : Frame} (p : Port) (hk : l.hasKey = true) (h : Whole f l.key) :
    (accept l p f).1.station = (hear l.station f).station ∧
      ((accept l p f).2 = .ok f ↔ (hear l.station f).mine = true) ∧
      (accept l p f).1.wire = l.wire ++ (hear l.station f).onward.toList.map fun g => (p.other, onWire g l.key) := by
  have hst : l.station.self = l.self ∧ l.station.seen = l.seen := ⟨rfl, rfl⟩
  unfold accept
  rw [if_neg (by simp [hk])]
  by_cases hs : f.src = l.self
  · simp [hear, hst, hs]
  have hfr : fresh l.station f = (seqIsFresh l.seen f.src f.seq).1 := rfl
  by_cases hf : fresh l.station f = true
  · obtain ⟨hm, ho⟩ := @hear_fresh l.station f hs hf
    have hseen : (hear l.station f).station = { l.station with seen := (seqIsFresh l.seen f.src f.seq).2 } := by
      simp [hear, hst, hs, hf]
    rw [hm, ho, hseen]
    rw [hfr] at hf
    by_cases hd : f.dst = l.self
    · simp [hs, hf, hd, Link.station]
    · have hwire := relay_wire (l := { l with seen := (seqIsFresh l.seen f.src f.seq).2 }) p h
      have hsame := relay_station { l with seen := (seqIsFresh l.seen f.src f.seq).2 } p f
      simp only [if_neg hs, hf, hst, hd, Bool.not_true, Bool.false_eq_true, if_false, ne_eq, not_false_eq_true, if_true,
        decide_false, Bool.false_or]
      have hself : (relay { l with seen := (seqIsFresh l.seen f.src f.seq).2 } p f).self = l.self :=
        congrArg Station.self hsame
      refine ⟨hsame, ?_, hwire⟩
      by_cases hb : f.dst = addrBroadcast <;> simp [hb, hd, hself]
  · rw [Bool.not_eq_true] at hf
    obtain ⟨hm, ho⟩ := hear_stale (Or.inr hf)
    have hseen : (hear l.station f).station = { l.station with seen := (seqIsFresh l.seen f.src f.seq).2 } := by
      simp [hear, hst, hs, hf]
    rw [hm, ho, hseen]
    rw [hfr] at hf
    simp [hs, hf, Link.station]

theorem emitFrame_sent {l : Link} {f : Frame} (hk : l.hasKey = true) (p : Port) (hp : f.payload.length ≤ maxPayload)
    (ht : f.type ≤ 0x0F) :
    (emitFrame l p f).2.station = l.station ∧ (emitFrame l p f).2.wire = l.wire ++ [(p, onWire f l.key)] := by
  simp only [emitFrame, hk, frameEncode_ok f l.key hp ht, Bool.not_true, Bool.false_eq_true, if_false]
  rw [setPort_station, setPort_wire]
  exact ⟨rfl, rfl⟩

/-- A keyed link sends its own frame out of both ports. -/
theorem linkSend_own {l : Link} (hk : l.hasKey = true) {type : MsgType} (dst : Addr) {payload : List Byte}
    (hp : payload.length ≤ maxPayload) (ht : type ≤ 0x0F) :
    (linkSend l type dst payload).2.station = { l.station with txSeq := l.txSeq + 1 } ∧
      (linkSend l type dst payload).2.wire =
        l.wire ++ [(.up, onWire (l.station.own type dst payload) l.key),
          (.down, onWire (l.station.own type dst payload) l.key)] := by
  let f := ownFrame l type dst payload
  have hsame := emitFrame_same l .up f
  obtain ⟨h1, w1⟩ := emitFrame_sent (f := f) hk .up hp ht
  obtain ⟨h2, w2⟩ := emitFrame_sent (f := f) (hsame.1.trans hk) .down hp ht
  refine ⟨?_, ?_⟩
  · have hst := h2.trans h1
    show ({ (emitFrame (emitFrame l .up f).2 .down f).2.station with
      txSeq := (emitFrame (emitFrame l .up f).2 .down f).2.station.txSeq + 1 } : Station) = _
    rw [hst]
    rfl
  · show (emitFrame (emitFrame l .up f).2 .down f).2.wire = _
    rw [w2, w1, hsame.2.1, List.append_assoc]
    rfl

end DeskHop.Wire
