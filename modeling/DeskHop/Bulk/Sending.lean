/-
  DeskHop.Bulk.Sending — what an endpoint sends (`core/src/data.c`: `dhp_data_send`,
  `pump_sender`, `dhp_data_tick`).

  The counters of a stream that goes out are whatever its peer makes of them; what it was
  offered as never changes (`Kin`). `Utters` follows one call: it changes one stream, and
  each message it sends is fit to be sent for that stream (`Fit`).

  Proved (`sends_inside`): every CHUNK is the piece of its content that its number says, a
  number whose piece is not empty; every message fits a frame; and an OFFER that is
  repeated is the OFFER the stream began with.
-/

import DeskHop.Bulk.Endpoint

namespace DeskHop.Bulk

open DeskHop.Lib DeskHop.Wire

/-! ## A stream that goes out -/

/-- Offered as the same. -/
structure SameOffer (s s' : Stream) : Prop where
  id : s'.id = s.id
  peer : s'.peer = s.peer
  kind : s'.kind = s.kind
  name : s'.name = s.name
  total : s'.total = s.total
  crc : s'.crc = s.crc
  src : s'.src = s.src

theorem SameOffer.refl (s : Stream) : SameOffer s s := ⟨rfl, rfl, rfl, rfl, rfl, rfl, rfl⟩

theorem SameOffer.trans {s s' s'' : Stream} (h : SameOffer s s') (h' : SameOffer s' s'') : SameOffer s s'' :=
  ⟨h'.id.trans h.id, h'.peer.trans h.peer, h'.kind.trans h.kind, h'.name.trans h.name, h'.total.trans h.total,
    h'.crc.trans h.crc, h'.src.trans h.src⟩

/-- What goes out went out before, as the same. -/
def Kin (s s' : Stream) : Prop := s'.goesOut → s.goesOut ∧ SameOffer s s'

theorem Kin.refl (s : Stream) : Kin s s := fun h => ⟨h, .refl s⟩

theorem Kin.trans {s s' s'' : Stream} (h : Kin s s') (h' : Kin s' s'') : Kin s s'' := by
  intro hout
  obtain ⟨hout', hsame'⟩ := h' hout
  obtain ⟨hout, hsame⟩ := h hout'
  exact ⟨hout, hsame.trans hsame'⟩

theorem not_goesOut {s : Stream} (h : s.state = .free ∨ s.state = .offered ∨ s.state = .receiving) : ¬ s.goesOut := by
  intro hout
  rcases h with h | h | h <;> rcases hout with ho | ho | ho <;> rw [h] at ho <;> cases ho

theorem kin_zero (s : Stream) : Kin s .zero := fun h => absurd h (not_goesOut (Or.inl rfl))

/-- The state stays, and so does what it was offered as. -/
theorem kin_same {s s' : Stream} (hstate : s'.state = s.state) (h : SameOffer s s') : Kin s s' := by
  intro hout
  refine ⟨?_, h⟩
  unfold Stream.goesOut at hout ⊢
  rwa [hstate] at hout

/-! ## Fit to be sent -/

/-- What may be sent for a stream; a verdict only where one is due. -/
structure Fit (v : Prop) (s : Stream) (x : Addr × List Byte) : Prop where
  short : byteAt x.2 0 ≠ opOffer → x.2.length ≤ maxPayload
  chunk : byteAt x.2 0 = opChunk → s.goesOut ∧
    ∃ q, q < chunksFor s.total ∧ x = (s.peer, opChunk :: s.id :: (put16 q ++ piece s.src q))
  offer : byteAt x.2 0 = opOffer → s.goesOut ∧ x = (s.peer, opOffer :: s.id :: offerExtra s)
  done : byteAt x.2 0 = opDone → v

variable {v : Prop}

/-- A message of another kind. -/
theorem fit_plain {s : Stream} {peer : Addr} {op : Byte} {extra : List Byte}
    (hop : op ≠ opOffer ∧ op ≠ opChunk ∧ op ≠ opDone) (hlen : extra.length ≤ maxPayload - 1) :
    Fit v s (peer, op :: extra) where
  short _ := by
    have hmax : maxPayload = 64 := rfl
    rw [List.length_cons]
    omega
  chunk h := absurd h hop.2.1
  offer h := absurd h hop.1
  done h := absurd h hop.2.2

theorem length_piece (content : List Byte) (q : UInt16) : (piece content q).length ≤ 60 := List.length_take_le _ _

theorem fit_chunk {s : Stream} (hout : s.goesOut) {q : UInt16} (hq : q < chunksFor s.total) :
    Fit v s (s.peer, opChunk :: s.id :: (put16 q ++ piece s.src q)) where
  short _ := by
    have hmax : maxPayload = 64 := rfl
    have hput : (put16 q).length = 2 := rfl
    have := length_piece s.src q
    rw [List.length_cons, List.length_cons, List.length_append, hput]
    omega
  chunk _ := ⟨hout, q, hq, rfl⟩
  offer h := absurd (show opChunk = opOffer from h) (by decide)
  done h := absurd (show opChunk = opDone from h) (by decide)

theorem fit_offer {s : Stream} (hout : s.goesOut) : Fit v s (s.peer, opOffer :: s.id :: offerExtra s) where
  short h := absurd rfl h
  chunk h := absurd (show opOffer = opChunk from h) (by decide)
  offer _ := ⟨hout, rfl⟩
  done h := absurd (show opOffer = opDone from h) (by decide)

/-- Fit for a stream, fit for what it was before. -/
theorem Fit.before {s s' : Stream} {x : Addr × List Byte} (h : Fit v s' x) (hk : Kin s s') : Fit v s x where
  short := h.short
  done := h.done
  chunk hop := by
    obtain ⟨hout, q, hq, hx⟩ := h.chunk hop
    obtain ⟨hout', hsame⟩ := hk hout
    rw [hsame.peer, hsame.id, hsame.src] at hx
    rw [hsame.total] at hq
    exact ⟨hout', q, hq, hx⟩
  offer hop := by
    obtain ⟨hout, hx⟩ := h.offer hop
    obtain ⟨hout', hsame⟩ := hk hout
    rw [offerExtra, hsame.peer, hsame.id, hsame.kind, hsame.name, hsame.total, hsame.crc] at hx
    exact ⟨hout', hx⟩

/-! ## One call, one stream -/

/-- Stream `i` changes, as a stream that goes out may, and what is sent is fit for it. -/
structure Utters (v : Prop) (i : Handle) (d d' : Data) : Prop where
  out : ∃ msgs, d'.out = d.out ++ msgs ∧ ∀ x ∈ msgs, Fit v (d.s i) x
  kin : Kin (d.s i) (d'.s i)
  other : ∀ j, j ≠ i → d'.s j = d.s j

namespace Utters

variable {i : Handle} {d d' d'' : Data} {now : Time}

/-- Only a count or the log has changed. -/
theorem quiet (hs : d'.s = d.s) (hout : d'.out = d.out) : Utters v i d d' := by
  refine ⟨⟨[], hout.trans (List.append_nil _).symm, fun _ h => absurd h List.not_mem_nil⟩, ?_, fun j _ => by rw [hs]⟩
  rw [hs]
  exact .refl _

theorem refl (i : Handle) (d : Data) : Utters v i d d := quiet rfl rfl

theorem recount (n : UInt32) : Utters v i d { d with nRetransmits := n } := quiet rfl rfl

theorem recountRefused (n : UInt32) : Utters v i d { d with nRefused := n } := quiet rfl rfl

theorem trans (h : Utters v i d d') (h' : Utters v i d' d'') : Utters v i d d'' := by
  obtain ⟨msgs, hout, hfit⟩ := h.out
  obtain ⟨msgs', hout', hfit'⟩ := h'.out
  refine ⟨⟨msgs ++ msgs', ?_, fun x hx => ?_⟩, h.kin.trans h'.kin, fun j hj => (h'.other j hj).trans (h.other j hj)⟩
  · rw [hout', hout, List.append_assoc]
  · rcases List.mem_append.mp hx with hx | hx
    · exact hfit x hx
    · exact (hfit' x hx).before h.kin

theorem upd {f : Stream → Stream} (h : Kin (d.s i) (f (d.s i))) : Utters v i d (d.upd i f) := by
  refine ⟨⟨[], (List.append_nil _).symm, fun _ h => absurd h List.not_mem_nil⟩, ?_, fun j hj => Data.upd_ne _ _ _ hj⟩
  rw [Data.upd_self]
  exact h

theorem sendOp {op : Byte} {extra : List Byte} (h : Fit v (d.s i) ((d.s i).peer, op :: (d.s i).id :: extra)) :
    Utters v i d (d.sendOp i op extra now) := by
  refine ⟨⟨_, rfl, fun x hx => ?_⟩, ?_, fun j hj => Data.sendOp_ne _ _ _ _ _ hj⟩
  · rw [List.mem_singleton.mp hx]
    exact h
  · rw [Data.sendOp_self]
    exact kin_same rfl ⟨rfl, rfl, rfl, rfl, rfl, rfl, rfl⟩

theorem ended (r : Byte) : Utters v i d (d.ended i r) := by
  have hb := ended_becomes d i r
  refine ⟨⟨[], hb.out, fun _ h => absurd h List.not_mem_nil⟩, ?_, fun j hj => hb.ne hj⟩
  rw [hb.self]
  exact kin_zero _

theorem finish (r : Byte) : Utters v i d (d.finish i r id) := by
  rw [finish_eq]
  exact ended r

theorem ite {p : Prop} [Decidable p] {a b : Data} (ha : p → Utters v i d a) (hb : ¬ p → Utters v i d b) :
    Utters v i d (if p then a else b) := by
  split
  · exact ha ‹_›
  · exact hb ‹_›

end Utters

/-! ## The sender's loop -/

section calls

variable (d : Data) (i : Handle) (now : Time)

theorem pumpLoop_utters {totalChunks : UInt16} (n : Nat) (hs : (d.s i).state = .sending)
    (ht : totalChunks = chunksFor (d.s i).total) :
    Utters v i d (pumpLoop totalChunks i now n d) ∧ ((pumpLoop totalChunks i now n d).s i).state = .sending := by
  induction n generalizing d with
  | zero => exact ⟨.refl i d, hs⟩
  | succ n ih =>
    unfold pumpLoop
    split
    · rename_i hmay
      -- the loop's guard keeps the piece inside the content
      have hsend : Utters v i d (sendChunk d i now) :=
        .trans (.sendOp (fit_chunk (Or.inr (Or.inl hs)) (ht ▸ hmay.1)))
          (.upd (kin_same rfl ⟨rfl, rfl, rfl, rfl, rfl, rfl, rfl⟩))
      have hself : (sendChunk d i now).s i = { d.s i with lastTx := now, nextSeq := (d.s i).nextSeq + 1 } := by
        rw [sendChunk, Data.upd_self, Data.sendOp_self]
      obtain ⟨hrest, hend⟩ := ih (sendChunk d i now) (by rw [hself]; exact hs) (by rw [hself]; exact ht)
      exact ⟨hsend.trans hrest, hend⟩
    · exact ⟨.refl i d, hs⟩

theorem pumpSender_utters (hs : (d.s i).state = .sending) : Utters v i d (pumpSender d i now) := by
  obtain ⟨hloop, hend⟩ := pumpLoop_utters (v := v) d i now
    ((chunksFor (d.s i).total).toNat - (d.s i).nextSeq.toNat) hs rfl
  simp only [pumpSender]
  refine hloop.trans (.ite (fun _ => .upd fun _ => ?_) fun _ => .refl i _)
  exact ⟨Or.inr (Or.inl hend), rfl, rfl, rfl, rfl, rfl, rfl, rfl⟩

/-- Steered, and set on its way. -/
theorem resume_utters {d' : Data} (h : Utters v i d d') (ht : Tuned (d.s i) (d'.s i)) (hout : (d.s i).goesOut) :
    Utters v i d (pumpSender (d'.upd i Stream.resume) i now) := by
  have hstate : ((d'.upd i Stream.resume).s i).state = .sending := by
    rw [Data.upd_self]
    rfl
  refine (h.trans (.upd fun _ => ⟨?_, rfl, rfl, rfl, rfl, rfl, rfl, rfl⟩)).trans (pumpSender_utters _ i now hstate)
  obtain ⟨_, _, _, _, ht⟩ := ht
  rw [ht]
  exact hout

theorem kin_tuned {s s' : Stream} (h : Tuned s s') : Kin s s' := by
  obtain ⟨_, _, _, _, rfl⟩ := h
  exact kin_same rfl ⟨rfl, rfl, rfl, rfl, rfl, rfl, rfl⟩

theorem upd_tuned {f : Stream → Stream} (h : Tuned (d.s i) (f (d.s i))) :
    Utters v i d (d.upd i f) ∧ Tuned (d.s i) ((d.upd i f).s i) := by
  refine ⟨.upd (kin_tuned h), ?_⟩
  rw [Data.upd_self]
  exact h

theorem rxAccept_utters (p : List Byte) : Utters v i d (rxAccept d i p now) := by
  unfold rxAccept
  refine .ite (fun hs => ?_) fun _ => .refl i d
  obtain ⟨h, ht⟩ := upd_tuned (v := v) d i (tuned_takeWindow p 0 (d.s i))
  exact resume_utters d i now h ht (Or.inl hs)

/-- A rewind counts, or nothing happens. -/
theorem rewind_utters (next : UInt16) (p : Prop) [Decidable p] :
    Utters v i d (if p then { d with nRetransmits := d.nRetransmits + 1 }.upd i (Stream.rewind next) else d) ∧
      Tuned (d.s i) ((if p then { d with nRetransmits := d.nRetransmits + 1 }.upd i (Stream.rewind next) else d : Data).s i) := by
  split
  · obtain ⟨hrewind, ht⟩ := upd_tuned (v := v) { d with nRetransmits := d.nRetransmits + 1 } i
      (tuned_rewind next (d.s i))
    exact ⟨.trans (.recount _) hrewind, ht⟩
  · exact ⟨.refl i d, _, _, _, _, rfl⟩

theorem rxAck_utters (p : List Byte) : Utters v i d (rxAck d i p now) := by
  simp only [rxAck]
  refine .ite (fun hs => ?_) fun _ => .refl i d
  obtain ⟨h1, ht1⟩ := upd_tuned (v := v) d i (tuned_progress (get16 p 0) (d.s i))
  generalize d.upd i (Stream.progress (get16 p 0)) = d1 at h1 ht1
  obtain ⟨h2, ht2⟩ := rewind_utters (v := v) d1 i (get16 p 0)
    (get16 p 0 < (d1.s i).nextSeq ∧ (d1.s i).rewoundTo ≠ get16 p 0)
  generalize (if get16 p 0 < (d1.s i).nextSeq ∧ (d1.s i).rewoundTo ≠ get16 p 0 then
    { d1 with nRetransmits := d1.nRetransmits + 1 }.upd i (Stream.rewind (get16 p 0)) else d1 : Data) = d2 at h2 ht2 ⊢
  obtain ⟨h3, ht3⟩ := upd_tuned (v := v) d2 i (tuned_takeWindow p 2 (d2.s i))
  exact resume_utters d i now ((h1.trans h2).trans h3) ((ht1.trans ht2).trans ht3) (Or.inr hs.2)

theorem sendAck_utters : Utters v i d (sendAck d i now) :=
  .sendOp (fit_plain (by decide) (by simp [put16]; decide))

/-! ## Each message, each slot's turn -/

/-- An abort, and the end. -/
theorem abort_utters (reason r : Byte) : Utters v i d ((d.sendOp i opAbort [reason] now).finish i r id) :=
  .trans (.sendOp (fit_plain (by decide) (by simp; decide))) (.finish r)

theorem rxChunk_utters (p : List Byte)
    (hno : 2 ≤ p.length → (d.s i).state = .receiving → get16 p 0 = (d.s i).nextSeq →
      ¬ offsetOf (get16 p 0) + UInt32.ofNat (p.drop 2).length > (d.s i).total → False) :
    Utters v i d (rxChunk d i p now fun _ => id) := by
  simp only [rxChunk]
  refine .ite (fun _ => .refl i d) fun hrecv => ?_
  simp only [Bool.or_eq_true, decide_eq_true_eq, bne_iff_ne, ne_eq, not_or, Nat.not_lt, not_not] at hrecv
  have hheard : Utters v i d (d.upd i fun s => { s with lastRx := now }) :=
    .upd (kin_same rfl ⟨rfl, rfl, rfl, rfl, rfl, rfl, rfl⟩)
  refine hheard.trans (.ite (fun _ => .ite (fun _ => sendAck_utters _ i now) fun _ => .refl i _) fun hseq => ?_)
  refine .ite (fun _ => abort_utters _ i now _ _) fun hstop => ?_
  simp only [Data.upd_self, ne_eq, not_not] at hseq hstop
  exact (hno hrecv.1 hrecv.2 hseq hstop).elim

theorem rxStream_utters (op : Byte) (p : List Byte)
    (hno : op = opChunk → 2 ≤ p.length → (d.s i).state = .receiving → get16 p 0 = (d.s i).nextSeq →
      ¬ offsetOf (get16 p 0) + UInt32.ofNat (p.drop 2).length > (d.s i).total → False) :
    Utters v i d (rxStream d i op p now fun _ => id) := by
  have hheard : Utters v i d (d.upd i fun s => { s with lastRx := now, retries := 0 }) :=
    .upd (kin_same rfl ⟨rfl, rfl, rfl, rfl, rfl, rfl, rfl⟩)
  simp only [rxStream]
  refine hheard.trans (.ite (fun _ => rxAccept_utters _ i now p) fun _ => .ite (fun _ => .finish _) fun _ => ?_)
  refine .ite (fun hop => ?_) fun _ => .ite (fun _ => rxAck_utters _ i now p) fun _ => ?_
  · refine rxChunk_utters _ i now p ?_
    simp only [Data.upd_self]
    exact hno hop
  · exact .ite (fun _ => .finish _) fun _ => .ite (fun _ => .finish _) fun _ => .refl i _

/-- An offer is answered, or opens a free entry. -/
theorem rxOffer_utters (peer : Addr) (id' : UInt8) (p : List Byte) :
    ∃ i, Utters v i d (rxOffer d peer id' p now id) := by
  have hmax : maxPayload = 64 := rfl
  simp only [rxOffer]
  split
  · exact ⟨⟨0, by decide⟩, .refl _ d⟩
  split
  · rename_i i hi
    exact ⟨i, .ite (fun _ => sendAck_utters d i now) fun _ => .refl i d⟩
  split
  · refine ⟨⟨0, by decide⟩, ⟨_, rfl, fun x hx => ?_⟩, .refl _, fun _ _ => rfl⟩
    rw [List.mem_singleton.mp hx]
    exact fit_plain (by decide) (by simp; decide)
  · rename_i i hfree
    have hopened : Utters v i d (d.upd i fun _ => inboundStream d peer id' p now) :=
      .upd fun hout => absurd hout (not_goesOut (Or.inr (Or.inl rfl)))
    refine ⟨i, hopened.trans (.ite (fun _ => ?_) fun _ => .quiet rfl rfl)⟩
    exact .trans (.sendOp (fit_plain (by decide) (by simp; decide))) (.upd (kin_zero _))

theorem resend_utters : Utters v i d (resend d i now) := by
  have hresume (hs : (d.s i).state = .sending ∨ (d.s i).state = .draining) :
      Utters v i d (pumpSender { d.upd i Stream.restart with nRetransmits := d.nRetransmits + 1 } i now) := by
    have hstate : (({ d.upd i Stream.restart with nRetransmits := d.nRetransmits + 1 } : Data).s i).state = .sending := by
      show ((d.upd i Stream.restart).s i).state = _
      rw [Data.upd_self]
      rfl
    refine .trans (.trans (.upd fun _ => ?_) (.recount _)) (pumpSender_utters _ i now hstate)
    exact ⟨Or.inr hs, rfl, rfl, rfl, rfl, rfl, rfl, rfl⟩
  unfold resend
  split
  · rename_i hs
    exact .sendOp (fit_offer (Or.inl hs))
  · rename_i hs
    exact hresume (Or.inl hs)
  · rename_i hs
    exact hresume (Or.inr hs)
  · exact .refl i d

theorem tickSlot_utters : Utters v i d (tickSlot now (fun _ => id) d i) := by
  have hagain : Utters v i d (d.upd i fun s => { s with retries := s.retries + 1 }) :=
    .upd (kin_same rfl ⟨rfl, rfl, rfl, rfl, rfl, rfl, rfl⟩)
  simp only [tickSlot]
  refine .ite (fun _ => .refl i d) fun _ => .ite (fun _ => .finish _) fun _ => ?_
  refine .ite (fun _ => .refl i d) fun _ => .ite (fun _ => .refl i d) fun _ => ?_
  exact hagain.trans (.ite (fun _ => abort_utters _ i now _ _) fun _ => resend_utters _ i now)

/-- Only here is a verdict given. -/
theorem afterChunk_utters : Utters True i d (afterChunk d i now id) := by
  have hcounted : Utters True i d (d.upd i fun s => { s with nextSeq := s.nextSeq + 1, acked := s.nextSeq + 1 }) :=
    .upd (kin_same rfl ⟨rfl, rfl, rfl, rfl, rfl, rfl, rfl⟩)
  simp only [afterChunk]
  refine hcounted.trans (.ite (fun _ => ?_) fun _ => .ite (fun _ => sendAck_utters _ i now) fun _ => .refl i _)
  refine .trans (.sendOp ⟨fun _ => ?_, fun h => ?_, fun h => ?_, fun _ => trivial⟩) (.finish _)
  · show 3 ≤ maxPayload
    decide
  · exact absurd (show opDone = opChunk from h) (by decide)
  · exact absurd (show opDone = opOffer from h) (by decide)

end calls

/-! ## A step of a run -/

def Doing.isSend : Doing → Bool
  | .call c _ => c.isSend
  | _ => false

/-- The slot that has its turn, if a step is one of a tick. -/
def Endpoint.turnOf (m : Endpoint) : Doing → Option Handle
  | .goOn =>
    match m.place with
    | .inTick (i :: _) _ => some i
    | _ => none
  | _ => none

/-- The chunk hook returns. -/
def Endpoint.Returns (m : Endpoint) (e : Doing) : Prop := e = .goOn ∧ ∃ i s now, m.place = .inChunk i s now

theorem Utters.weaken {i : Handle} {d d' : Data} {w : Prop} (h : Utters v i d d') (hvw : v → w) : Utters w i d d' := by
  obtain ⟨msgs, hout, hfit⟩ := h.out
  refine ⟨⟨msgs, hout, fun x hx => ?_⟩, h.kin, h.other⟩
  obtain ⟨hshort, hchunk, hoffer, hdone⟩ := hfit x hx
  exact ⟨hshort, hchunk, hoffer, fun hop => hvw (hdone hop)⟩

theorem perform_utters (d : Data) (c : Call) (now : Time) (hc : c.isSend = false) :
    ∃ i, Utters v i d (c.perform now id d) := by
  have hfirst : ∃ i, Utters v i d d := ⟨⟨0, by decide⟩, .refl _ d⟩
  cases c with
  | send => cases hc
  | accept stream =>
    simp only [Call.perform, dataAccept]
    cases d.byHandle stream with
    | none => exact hfirst
    | some i =>
      refine ⟨i, .ite (fun _ => .refl i d) fun hs => ?_⟩
      refine .trans (.upd fun hout => ?_) (.sendOp (fit_plain (by decide) (by simp; decide)))
      exact absurd hout (not_goesOut (Or.inr (Or.inr rfl)))
  | reject stream =>
    simp only [Call.perform, dataReject]
    cases d.byHandle stream with
    | none => exact hfirst
    | some i =>
      refine ⟨i, .ite (fun _ => .refl i d) fun hs => ?_⟩
      have hword : Utters v i d (d.sendOp i opReject [dataRefused] now) :=
        .sendOp (fit_plain (by decide) (by simp; decide))
      exact hword.trans (.trans (.recountRefused _) (.upd (kin_zero _)))
  | cancel stream =>
    simp only [Call.perform, dataCancel]
    cases d.byHandle stream with
    | none => exact hfirst
    | some i => exact ⟨i, abort_utters d i now _ _⟩

theorem dataRx_utters {d : Data} {f : Frame} (h : d.handing f = none) (now : Time) :
    ∃ i, Utters v i d (dataRx d f now fun _ => id) := by
  simp only [dataRx]
  split
  · exact ⟨⟨0, by decide⟩, .refl _ d⟩
  rename_i hf
  split
  · exact rxOffer_utters d now _ _ _
  cases haddr : d.addressee f.src (byteAt f.payload 1) (byteAt f.payload 0) with
  | none => exact ⟨⟨0, by decide⟩, .refl _ d⟩
  | some i =>
    refine ⟨i, rxStream_utters d i now _ _ fun hop hlen hs hseq hstop => ?_⟩
    exact handing_none h (not_or.mp hf).1 (hop ▸ haddr) hop hlen hs hseq hstop

/-- Every step but a send changes one stream, the one whose turn it is if the tick goes on. -/
theorem Endpoint.step_utters (m : Endpoint) {e : Doing} (he : e.isSend = false) :
    ∃ i, Utters (m.Returns e) i m.d (m.step e).d ∧ ∀ j, m.turnOf e = some j → i = j := by
  obtain ⟨d, place⟩ := m
  have hstays : ∃ i, Utters (Returns ⟨d, place⟩ e) i d d ∧ ∀ j, none = some j → i = j :=
    ⟨⟨0, by decide⟩, .refl _ d, fun _ h => by cases h⟩
  cases e with
  | call c now =>
    obtain ⟨i, hi⟩ := perform_utters (v := Returns ⟨d, place⟩ (.call c now)) d c now he
    exact ⟨i, hi, fun _ h => by cases h⟩
  | tick now => cases place <;> exact hstays
  | rx f now =>
    cases place with
    | inChunk => exact hstays
    | inTick => exact hstays
    | idle =>
      cases hhand : d.handing f with
      | none =>
        obtain ⟨i, hi⟩ := dataRx_utters (v := Returns ⟨d, .idle⟩ (.rx f now)) hhand now
        refine ⟨i, ?_, fun _ h => by cases h⟩
        simp only [step, hhand]
        exact hi
      | some i =>
        refine ⟨i, ?_, fun _ h => by cases h⟩
        simp only [step, hhand]
        have hheard : Utters (Returns ⟨d, .idle⟩ (.rx f now)) i d (d.upd i fun s =>
            { s with lastRx := now, retries := 0, running := adler32Update s.running ((f.payload.drop 2).drop 2) }) :=
          .upd (kin_same rfl ⟨rfl, rfl, rfl, rfl, rfl, rfl, rfl⟩)
        exact hheard.trans (.quiet rfl rfl)
  | goOn =>
    cases place with
    | idle => exact hstays
    | inChunk i held now =>
      exact ⟨i, (afterChunk_utters d i now).weaken fun _ => ⟨rfl, i, held, now, rfl⟩, fun _ h => by cases h⟩
    | inTick slots now =>
      cases slots with
      | nil => exact hstays
      | cons i rest => exact ⟨i, tickSlot_utters d i now, fun j h => Option.some.inj h⟩

/-! ## What each stream began with -/

/-- The OFFER that was sent first, and the content it is for. -/
structure Origin where
  offer : Addr × List Byte
  content : List Byte
  deriving DecidableEq

/-- An endpoint, and beside it how the stream of each handle began. -/
structure Watched where
  m : Endpoint
  origin : Handle → Option Origin

namespace Watched

/-- What a send that takes a handle leaves to be remembered. -/
def noted (w : Watched) (peer : Addr) (kind : UInt8) (name data : List Byte) (now : Time) : Handle → Option Origin :=
  match dataSend w.m.d peer kind name data now with
  | (.ok i, d) => Function.update w.origin i (d.out.getLast?.map fun offer => ⟨offer, data⟩)
  | (.error _, _) => w.origin

def step (w : Watched) (e : Doing) : Watched where
  m := w.m.step e
  origin :=
    match e with
    | .call (.send peer kind name data) now => w.noted peer kind name data now
    | _ => w.origin

def Fresh (w : Watched) : Prop := w.m.Fresh

/-- Lengths are 32-bit words. -/
def Sized (_ : Watched) : Doing → Prop
  | .call (.send _ _ _ data) _ => data.length < 2 ^ 32
  | _ => True

instance (w : Watched) (e : Doing) : Decidable (w.Sized e) := by
  unfold Sized
  split <;> infer_instance

/-- A stream stands as it began. -/
structure Stands (o : Origin) (s : Stream) : Prop where
  offer : o.offer = (s.peer, opOffer :: s.id :: offerExtra s)
  content : o.content = s.src
  total : s.total.toNat = s.src.length
  name : s.name.length ≤ nameMax

theorem Stands.same {o : Origin} {s s' : Stream} (h : Stands o s) (hs : SameOffer s s') : Stands o s' := by
  refine ⟨?_, ?_, ?_, ?_⟩
  · rw [h.offer, offerExtra, offerExtra, hs.peer, hs.id, hs.kind, hs.name, hs.total, hs.crc]
  · rw [h.content, hs.src]
  · rw [hs.total, hs.src, h.total]
  · rw [hs.name]
    exact h.name

def Stand (w : Watched) : Prop := ∀ i, (w.m.d.s i).goesOut → ∃ o, w.origin i = some o ∧ Stands o (w.m.d.s i)

/-- A send begins a stream with its OFFER, or changes nothing that is looked at here. -/
theorem dataSend_cases (d : Data) (peer : Addr) (kind : UInt8) (name data : List Byte) (now : Time) :
    (∃ r, (dataSend d peer kind name data now).1 = .error r ∧ (dataSend d peer kind name data now).2.s = d.s ∧
      (dataSend d peer kind name data now).2.out = d.out) ∨
    ∃ i s, (dataSend d peer kind name data now).1 = .ok i ∧
      (dataSend d peer kind name data now).2.s = Function.update d.s i s ∧
      (dataSend d peer kind name data now).2.out = d.out ++ [(s.peer, opOffer :: s.id :: offerExtra s)] ∧
      s.src = data ∧ s.total = UInt32.ofNat data.length ∧ s.name = nameField name ∧ s.state = .offering ∧ s.peer = peer ∧
      s.id = d.nextId ∧ d.slotFree true = some i ∧
      (dataSend d peer kind name data now).2.nextId = if d.nextId + 1 = 0 then 1 else d.nextId + 1 := by
  simp only [dataSend]
  split
  · exact Or.inl ⟨_, rfl, rfl, rfl⟩
  split
  · exact Or.inl ⟨_, rfl, rfl, rfl⟩
  rename_i i hfree
  obtain ⟨hs, hout⟩ := begun_posts d i (outboundStream d peer kind name data now) (if d.nextId + 1 = 0 then 1 else d.nextId + 1) now
  exact Or.inr ⟨i, { outboundStream d peer kind name data now with lastTx := now }, rfl, hs, hout, rfl, rfl, rfl, rfl, rfl, rfl,
    hfree, rfl⟩

theorem length_nameField (name : List Byte) : (nameField name).length ≤ nameMax := List.length_take_le _ _

theorem step_origin (w : Watched) {e : Doing} (he : e.isSend = false) : (w.step e).origin = w.origin := by
  cases e with
  | call c now =>
    cases c with
    | send => cases he
    | _ => rfl
  | _ => rfl

theorem isSend_cases {e : Doing} (he : e.isSend = true) :
    ∃ peer kind name data now, e = .call (.send peer kind name data) now := by
  cases e with
  | call c now =>
    cases c with
    | send peer kind name data => exact ⟨peer, kind, name, data, now, rfl⟩
    | _ => cases he
  | _ => cases he

/-- A send: nothing new, or a stream that stands as it begins. -/
theorem send_step (w : Watched) (peer : Addr) (kind : UInt8) (name data : List Byte) (now : Time)
    (hlen : data.length < 2 ^ 32) :
    ((w.step (.call (.send peer kind name data) now)).m.d.s = w.m.d.s ∧
        (w.step (.call (.send peer kind name data) now)).origin = w.origin ∧
        (w.step (.call (.send peer kind name data) now)).m.d.out = w.m.d.out) ∨
      ∃ i s o, (w.step (.call (.send peer kind name data) now)).m.d.s = Function.update w.m.d.s i s ∧
        (w.step (.call (.send peer kind name data) now)).origin = Function.update w.origin i (some o) ∧
        (w.step (.call (.send peer kind name data) now)).m.d.out = w.m.d.out ++ [o.offer] ∧ Stands o s := by
  have hd : (w.step (.call (.send peer kind name data) now)).m.d = (dataSend w.m.d peer kind name data now).2 := rfl
  have ho : (w.step (.call (.send peer kind name data) now)).origin = w.noted peer kind name data now := rfl
  rw [hd, ho, noted]
  rcases hsend : dataSend w.m.d peer kind name data now with ⟨r, d⟩
  have hcases := dataSend_cases w.m.d peer kind name data now
  rw [hsend] at hcases
  rcases hcases with ⟨e, rfl, hs, hout⟩ | ⟨i, s, rfl, hs, hout, hsrc, htotal, hname, -⟩
  · exact Or.inl ⟨hs, rfl, hout⟩
  · have hlast : d.out.getLast? = some (s.peer, opOffer :: s.id :: offerExtra s) := by
      rw [hout, List.getLast?_concat]
    refine Or.inr ⟨i, s, ⟨_, data⟩, hs, ?_, hout, rfl, hsrc.symm, ?_, ?_⟩
    · dsimp only
      rw [hlast]
      rfl
    · rw [htotal, hsrc, UInt32.toNat_ofNat', Nat.mod_eq_of_lt hlen]
    · rw [hname]
      exact length_nameField name

theorem Stand.step {w : Watched} (h : w.Stand) {e : Doing} (he : w.Sized e) : (w.step e).Stand := by
  intro j hj
  cases hsend : e.isSend with
  | true =>
    obtain ⟨peer, kind, name, data, now, rfl⟩ := isSend_cases hsend
    rcases w.send_step peer kind name data now he with ⟨hs, ho, -⟩ | ⟨i, s, o, hs, ho, -, hstands⟩
    · rw [hs] at hj ⊢
      rw [ho]
      exact h j hj
    · rw [hs] at hj ⊢
      rw [ho]
      by_cases hji : j = i
      · subst hji
        rw [Function.update_self, Function.update_self]
        exact ⟨o, rfl, hstands⟩
      · rw [Function.update_of_ne hji] at hj ⊢
        rw [Function.update_of_ne hji]
        exact h j hj
  | false =>
    obtain ⟨i, hi, -⟩ := w.m.step_utters hsend
    rw [step_origin w hsend]
    by_cases hji : j = i
    · subst hji
      obtain ⟨hout, hsame⟩ := hi.kin hj
      obtain ⟨o, ho, hstands⟩ := h j hout
      exact ⟨o, ho, hstands.same hsame⟩
    · have hother : (w.step e).m.d.s j = w.m.d.s j := hi.other j hji
      rw [hother] at hj ⊢
      exact h j hj

theorem Fresh.stand {w : Watched} (h : w.Fresh) : w.Stand := by
  obtain ⟨⟨hs, -⟩, -⟩ := h
  intro i hi
  rw [hs] at hi
  exact absurd hi (not_goesOut (Or.inl rfl))

end Watched

/-! ## Inside the content -/

/-- However the 32 and 16 bits of the count wrap, no chunk counted starts past the end. -/
theorem chunk_starts_inside {total : UInt32} {q : UInt16} (hq : q < chunksFor total) : 60 * q.toNat < total.toNat := by
  have hlt := UInt16.lt_iff_toNat_lt.mp hq
  have h60 : (60 : UInt32).toNat = 60 := rfl
  have h1 : (1 : UInt32).toNat = 1 := rfl
  have hcount : (chunksFor total).toNat = ((total.toNat + 60 + (2 ^ 32 - 1)) % 2 ^ 32 / 60) % 2 ^ 16 := by
    rw [chunksFor, UInt32.toNat_toUInt16, UInt32.toNat_div, UInt32.toNat_sub, UInt32.toNat_add, h60, h1]
    omega
  rw [hcount] at hlt
  omega

/-- The stream `i` of an endpoint, sending chunk `q` of what it began with. -/
structure ChunkOf (w : Watched) (i : Handle) (o : Origin) (q : UInt16) (x : Addr × List Byte) : Prop where
  goesOut : (w.m.d.s i).goesOut
  origin : w.origin i = some o
  inside : 60 * q.toNat < o.content.length
  bytes : x = ((w.m.d.s i).peer,
    opChunk :: (w.m.d.s i).id ::
      (put16 q ++ (o.content.drop (60 * q.toNat)).take (min (60 * q.toNat + 60) o.content.length - 60 * q.toNat)))

theorem piece_eq (content : List Byte) (q : UInt16) : piece content q =
    (content.drop (60 * q.toNat)).take (min (60 * q.toNat + 60) content.length - 60 * q.toNat) := by
  have h60 : chunkBytes = 60 := rfl
  rw [piece, h60, Nat.mul_comm, List.take_eq_take_iff, List.length_drop]
  omega

theorem Watched.Stands.chunk {w : Watched} {i : Handle} {o : Origin} (hout : (w.m.d.s i).goesOut)
    (ho : w.origin i = some o) (h : Watched.Stands o (w.m.d.s i)) {q : UInt16} (hq : q < chunksFor (w.m.d.s i).total)
    {x : Addr × List Byte} (hx : x = ((w.m.d.s i).peer, opChunk :: (w.m.d.s i).id :: (put16 q ++ piece (w.m.d.s i).src q))) :
    ChunkOf w i o q x where
  goesOut := hout
  origin := ho
  inside := by
    rw [h.content, ← h.total]
    exact chunk_starts_inside hq
  bytes := by rw [hx, piece_eq, h.content]

/-- An OFFER with a name of the name field's size fits. -/
theorem offer_fits {s : Stream} (h : s.name.length ≤ nameMax) : (opOffer :: s.id :: offerExtra s).length ≤ maxPayload := by
  have hmax : maxPayload = 64 := rfl
  have hname : nameMax = 48 := rfl
  have hput (v : UInt32) : (put32 v).length = 4 := rfl
  simp only [offerExtra, List.length_cons, List.length_append, hput, List.length_nil]
  omega

/-- Whatever the peers answer, and whatever the application calls and when: each message a
    step sends fits a frame; a CHUNK is the bytes of its stream's content that its number
    says, the first of which there is; an OFFER is the one a stream begins with or, sent
    again, the one it began with. -/
theorem sends_inside {w : Watched} (h : Reach Watched.Fresh Watched.Sized Watched.step w) {e : Doing} (he : w.Sized e) :
    ∃ msgs, (w.step e).m.d.out = w.m.d.out ++ msgs ∧ ∀ x ∈ msgs, x.2.length ≤ maxPayload ∧
      (byteAt x.2 0 = opChunk → ∃ i o q, ChunkOf w i o q x) ∧
      (byteAt x.2 0 = opOffer → (e.isSend = true ∧ ∃ i o, (w.step e).origin i = some o ∧ x = o.offer) ∨
        ∃ i o, (w.m.d.s i).goesOut ∧ w.origin i = some o ∧ x = o.offer ∧ ∀ j, w.m.turnOf e = some j → i = j) := by
  have hstand : w.Stand := h.inv (I := Watched.Stand) (fun _ h0 => h0.stand) fun _ _ hw he => hw.step he
  cases hsend : e.isSend with
  | true =>
    obtain ⟨peer, kind, name, data, now, rfl⟩ := Watched.isSend_cases hsend
    rcases w.send_step peer kind name data now he with ⟨-, -, hout⟩ | ⟨i, s, o, -, horigin, hout, hstands⟩
    · exact ⟨[], by rw [hout, List.append_nil], fun x hx => absurd hx List.not_mem_nil⟩
    · refine ⟨[o.offer], hout, fun x hx => ?_⟩
      rw [List.mem_singleton.mp hx]
      refine ⟨?_, fun hop => ?_, fun _ => Or.inl ⟨rfl, i, o, ?_, rfl⟩⟩
      · rw [hstands.offer]
        exact offer_fits hstands.name
      · rw [hstands.offer] at hop
        exact absurd (show opOffer = opChunk from hop) (by decide)
      · rw [horigin, Function.update_self]
  | false =>
    obtain ⟨i, hi, hturn⟩ := w.m.step_utters hsend
    obtain ⟨msgs, hout, hfit⟩ := hi.out
    refine ⟨msgs, hout, fun x hx => ?_⟩
    have hfits := hfit x hx
    refine ⟨?_, fun hop => ?_, fun hop => Or.inr ?_⟩
    · by_cases hop : byteAt x.2 0 = opOffer
      · obtain ⟨hgoes, hx⟩ := hfits.offer hop
        obtain ⟨o, -, hstands⟩ := hstand i hgoes
        rw [hx]
        exact offer_fits hstands.name
      · exact hfits.short hop
    · obtain ⟨hgoes, q, hq, hx⟩ := hfits.chunk hop
      obtain ⟨o, ho, hstands⟩ := hstand i hgoes
      exact ⟨i, o, q, hstands.chunk hgoes ho hq hx⟩
    · obtain ⟨hgoes, hx⟩ := hfits.offer hop
      obtain ⟨o, ho, hstands⟩ := hstand i hgoes
      exact ⟨i, o, hgoes, ho, hx.trans hstands.offer.symm, hturn⟩

/-- A text of 61 bytes is offered, and the offer accepted with a window of 255. -/
def acceptedText : List Doing :=
  [.call (.send 2 0 [] (List.replicate 61 7)) 1000, .rx (dataFrame 2 1 [opAccept, 1, 255]) 1001]

def acceptedTextSent : Watched := acceptedText.foldl Watched.step ⟨⟨dataInit, .idle⟩, fun _ => none⟩

theorem sends_inside_after_a_stale_ack :
    acceptedTextSent.m.d.out.length = 3 ∧
      ∀ x ∈ (acceptedTextSent.step (.rx (dataFrame 2 1 [opAck, 1, 0, 0, 255]) 1002)).m.d.out.drop 3,
        x.2.length ≤ maxPayload := by
  have hreach : Reach Watched.Fresh Watched.Sized Watched.step acceptedTextSent :=
    Reach.run (.init ⟨⟨rfl, rfl, rfl, rfl, rfl⟩, rfl⟩) acceptedText (by decide +kernel)
  obtain ⟨msgs, hout, hfit⟩ := sends_inside hreach (e := .rx (dataFrame 2 1 [opAck, 1, 0, 0, 255]) 1002) trivial
  have hthree : acceptedTextSent.m.d.out.length = 3 := by decide +kernel
  refine ⟨hthree, fun x hx => ?_⟩
  rw [hout, ← hthree, List.drop_left] at hx
  exact (hfit x hx).1

end DeskHop.Bulk
