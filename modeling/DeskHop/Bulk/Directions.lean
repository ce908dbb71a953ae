/-
  DeskHop.Bulk.Directions — the two directions between two endpoints.

  Stream ids are the sender's own: each end of a pair numbers the streams it sends, and
  both begin with 1. Of a message other than an offer, the opcode and the end it came
  from say which direction it is about (`concerns`); what the transport goes by is the
  opcode and the order in which it searches its table (`Data.addressee`).

  Proved: a message changes the stream it is addressed to and no other
  (`dataRx_other`). It is addressed to the stream it is about for every opcode that
  answers a send; a REJECT or an ABORT of what the peer is receiving is so only while
  nothing with its id comes in from that peer, and a CHUNK or an ABORT of what the peer
  is sending only while that stream is there or nothing with its id goes out
  (`only_touches_iff`). With one transfer each way under one id, a refusal of the one
  ends the other (`refusal_ends_the_other`).
-/

import DeskHop.Bulk.Data

namespace DeskHop.Bulk

open DeskHop.Wire

/-! ## What a message is about -/

def opOf (f : Frame) : Byte := byteAt f.payload 0
def idOf (f : Frame) : UInt8 := byteAt f.payload 1

/-- What the peer has to say of a stream: of one that it receives from here
    (`outbound`), and of one that it sends. -/
def concerns (outbound : Bool) (op : Byte) : Bool :=
  if outbound then op == opAccept || op == opReject || op == opAck || op == opDone || op == opAbort
  else op == opChunk || op == opAbort

/-- A message about the stream in one direction changes no other, at any time,
    whatever the hooks do as long as they leave that other alone. -/
def OnlyTouches (d : Data) (f : Frame) (outbound : Bool) : Prop :=
  ∀ (now : Time) (app : Fin 2 → App) (j : Handle), d.slotFind f.src (idOf f) outbound ≠ some j →
    (∀ k e, (app k e).s j = e.s j) → (dataRx d f now app).s j = d.s j

/-- The search ends at the stream the message is about, or at none. -/
def Unambiguous (d : Data) (f : Frame) (outbound : Bool) : Prop :=
  if outbound then opOf f ≠ opReject ∧ opOf f ≠ opAbort ∨ d.slotFind f.src (idOf f) false = none
  else d.slotFind f.src (idOf f) false ≠ none ∨ d.slotFind f.src (idOf f) true = none

/-! ## A message changes the stream it is addressed to -/

section other

variable {j : Handle} {app : Fin 2 → App} (happ : ∀ k e, (app k e).s j = e.s j)
include happ

theorem finish_other {i : Handle} (hij : j ≠ i) (d : Data) (r : Byte) (k : Fin 2) :
    (d.finish i r (app k)).s j = d.s j := by
  have hcleared : (d.upd i fun _ => .zero).s j = d.s j := Data.upd_ne d i _ hij
  simp only [Data.finish]
  split
  · rw [happ, Data.note_s]
    exact hcleared
  · rw [happ, Data.note_s]
    exact hcleared

omit happ in
theorem pumpLoop_other {i : Handle} (hij : j ≠ i) (totalChunks : UInt16) (now : Time) (n : Nat) (d : Data) :
    (pumpLoop totalChunks i now n d).s j = d.s j := by
  induction n generalizing d with
  | zero => rfl
  | succ n ih =>
    unfold pumpLoop
    split
    · rw [ih, sendChunk, Data.upd_ne _ _ _ hij, Data.sendOp_ne _ _ _ _ _ hij]
    · rfl

omit happ in
theorem pumpSender_other {i : Handle} (hij : j ≠ i) (d : Data) (now : Time) : (pumpSender d i now).s j = d.s j := by
  simp only [pumpSender]
  split
  · rw [Data.upd_ne _ _ _ hij, pumpLoop_other hij]
  · exact pumpLoop_other hij _ _ _ _

theorem afterChunk_other {i : Handle} (hij : j ≠ i) (d : Data) (now : Time) :
    (afterChunk d i now (app 1)).s j = d.s j := by
  simp only [afterChunk, sendAck]
  split
  · rw [finish_other happ hij, Data.sendOp_ne _ _ _ _ _ hij, Data.upd_ne _ _ _ hij]
  split
  · rw [Data.sendOp_ne _ _ _ _ _ hij, Data.upd_ne _ _ _ hij]
  · exact Data.upd_ne _ _ _ hij

theorem rxChunk_other {i : Handle} (hij : j ≠ i) (d : Data) (p : List Byte) (now : Time) :
    (rxChunk d i p now app).s j = d.s j := by
  simp only [rxChunk, sendAck]
  split
  · rfl
  split
  · split
    · rw [Data.sendOp_ne _ _ _ _ _ hij, Data.upd_ne _ _ _ hij]
    · exact Data.upd_ne _ _ _ hij
  split
  · rw [finish_other happ hij, Data.sendOp_ne _ _ _ _ _ hij, Data.upd_ne _ _ _ hij]
  · rw [afterChunk_other happ hij, happ, Data.note_s, Data.upd_ne _ _ _ hij, Data.upd_ne _ _ _ hij]

omit happ in
theorem rxAccept_other {i : Handle} (hij : j ≠ i) (d : Data) (p : List Byte) (now : Time) :
    (rxAccept d i p now).s j = d.s j := by
  unfold rxAccept
  split
  · rw [pumpSender_other hij, Data.upd_ne _ _ _ hij, Data.upd_ne _ _ _ hij]
  · rfl

omit happ in
theorem rxAck_other {i : Handle} (hij : j ≠ i) (d : Data) (p : List Byte) (now : Time) :
    (rxAck d i p now).s j = d.s j := by
  simp only [rxAck]
  split
  · rw [pumpSender_other hij, Data.upd_ne _ _ _ hij, Data.upd_ne _ _ _ hij]
    split
    · rw [Data.upd_ne _ _ _ hij]
      exact Data.upd_ne _ _ _ hij
    · exact Data.upd_ne _ _ _ hij
  · rfl

theorem rxStream_other {i : Handle} (hij : j ≠ i) (d : Data) (op : Byte) (p : List Byte) (now : Time) :
    (rxStream d i op p now app).s j = d.s j := by
  have hupd : (d.upd i fun s => { s with lastRx := now, retries := 0 }).s j = d.s j := Data.upd_ne _ _ _ hij
  simp only [rxStream]
  split
  · exact (rxAccept_other hij _ _ _).trans hupd
  split
  · exact (finish_other happ hij _ _ _).trans hupd
  split
  · exact (rxChunk_other happ hij _ _ _).trans hupd
  split
  · exact (rxAck_other hij _ _ _).trans hupd
  split
  · exact (finish_other happ hij _ _ _).trans hupd
  split
  · exact (finish_other happ hij _ _ _).trans hupd
  · exact hupd

/-- A message that is no offer changes the stream it is addressed to and no other. -/
theorem dataRx_other {d : Data} {f : Frame} (hop : opOf f ≠ opOffer) (now : Time)
    (haddr : d.addressee f.src (idOf f) (opOf f) ≠ some j) : (dataRx d f now app).s j = d.s j := by
  have hop' : byteAt f.payload 0 ≠ opOffer := hop
  unfold dataRx
  split
  · rfl
  rw [if_neg hop']
  cases h : d.addressee f.src (byteAt f.payload 1) (byteAt f.payload 0) with
  | none => rfl
  | some i =>
    have hij : j ≠ i := by
      rintro rfl
      exact haddr h
    exact rxStream_other happ hij d _ _ now

end other

/-! ## What becomes of the stream it is addressed to -/

theorem finish_free (d : Data) (i : Handle) (r : Byte) : ((d.finish i r id).s i).state = .free := by
  simp only [Data.finish]
  split
  · rw [id, Data.note_s]
    exact congrArg Stream.state (Data.upd_self d i fun _ => .zero)
  · rw [id, Data.note_s]
    exact congrArg Stream.state (Data.upd_self d i fun _ => .zero)

theorem afterChunk_stamped (d : Data) (i : Handle) (now : Time) :
    ((afterChunk d i now id).s i).lastRx = (d.s i).lastRx ∨ ((afterChunk d i now id).s i).state = .free := by
  simp only [afterChunk, sendAck]
  split
  · exact Or.inr (finish_free _ i _)
  split
  · rw [Data.sendOp_self, Data.upd_self]
    exact Or.inl rfl
  · rw [Data.upd_self]
    exact Or.inl rfl

/-- A CHUNK stamps the stream it finds, whatever that stream makes of it. -/
theorem rxStream_chunk_stamped (d : Data) (i : Handle) (p : List Byte) (now : Time) :
    ((rxStream d i opChunk p now fun _ => id).s i).lastRx = now ∨
      ((rxStream d i opChunk p now fun _ => id).s i).state = .free := by
  have hstream : rxStream d i opChunk p now (fun _ => id) =
      rxChunk (d.upd i fun s => { s with lastRx := now, retries := 0 }) i p now fun _ => id := rfl
  rw [hstream]
  simp only [rxChunk, sendAck]
  split
  · rw [Data.upd_self]
    exact Or.inl rfl
  split
  · split
    · rw [Data.sendOp_self, Data.upd_self]
      exact Or.inl rfl
    · rw [Data.upd_self]
      exact Or.inl rfl
  split
  · exact Or.inr (finish_free _ i _)
  · rcases afterChunk_stamped _ i now with h | h
    · refine Or.inl (h.trans ?_)
      simp only [id, Data.note_s, Data.upd_self]
    · exact Or.inr h

/-- A REJECT or an ABORT finishes the stream it finds. -/
theorem rxStream_ends {op : Byte} (hop : op = opReject ∨ op = opAbort) (d : Data) (i : Handle) (p : List Byte)
    (now : Time) : ((rxStream d i op p now fun _ => id).s i).state = .free := by
  rcases hop with rfl | rfl
  · exact finish_free _ i _
  · exact finish_free _ i _

/-- So of these a stream that is in use is changed by, at some time. -/
theorem rxStream_changes {d : Data} {i : Handle} (hused : (d.s i).state ≠ .free) {op : Byte}
    (hop : op = opChunk ∨ op = opReject ∨ op = opAbort) (p : List Byte) :
    ∃ now, (rxStream d i op p now fun _ => id).s i ≠ d.s i := by
  refine ⟨(d.s i).lastRx + 1, fun hsame => ?_⟩
  rcases hop with rfl | hop
  · rcases rxStream_chunk_stamped d i p ((d.s i).lastRx + 1) with h | h
    · rw [hsame] at h
      have h1 : (1 : UInt32) = 0 := UInt32.add_eq_left.mp h.symm
      exact absurd h1 (by decide)
    · rw [hsame] at h
      exact hused h
  · have h := rxStream_ends hop d i p ((d.s i).lastRx + 1)
    rw [hsame] at h
    exact hused h

theorem dataRx_addressed {d : Data} {f : Frame} (hdata : f.type = msgData) (hlen : 2 ≤ f.payload.length)
    (hop : opOf f ≠ opOffer) {i : Handle} (haddr : d.addressee f.src (idOf f) (opOf f) = some i) (now : Time)
    (app : Fin 2 → App) : dataRx d f now app = rxStream d i (opOf f) (f.payload.drop 2) now app := by
  have hop' : byteAt f.payload 0 ≠ opOffer := hop
  have haddr' : d.addressee f.src (byteAt f.payload 1) (byteAt f.payload 0) = some i := haddr
  unfold dataRx
  rw [if_neg (by simp [hdata]; omega), if_neg hop', haddr']
  rfl

/-! ## Which stream that is -/

theorem addressee_answer (d : Data) (peer : Addr) (id : UInt8) {op : Byte}
    (h : op = opAccept ∨ op = opAck ∨ op = opDone) : d.addressee peer id op = d.slotFind peer id true := by
  rcases h with rfl | rfl | rfl <;> rfl

theorem addressee_either (d : Data) (peer : Addr) (id : UInt8) {op : Byte}
    (h : op = opChunk ∨ op = opReject ∨ op = opAbort) :
    d.addressee peer id op = (d.slotFind peer id false).or (d.slotFind peer id true) := by
  rcases h with rfl | rfl | rfl <;> rfl

theorem concerns_outbound {op : Byte} (h : concerns true op = true) :
    (op = opAccept ∨ op = opAck ∨ op = opDone) ∨ op = opReject ∨ op = opAbort := by
  simp only [concerns, if_true, Bool.or_eq_true, beq_iff_eq] at h
  rcases h with (((h | h) | h) | h) | h
  · exact Or.inl (Or.inl h)
  · exact Or.inr (Or.inl h)
  · exact Or.inl (Or.inr (Or.inl h))
  · exact Or.inl (Or.inr (Or.inr h))
  · exact Or.inr (Or.inr h)

theorem concerns_inbound {op : Byte} (h : concerns false op = true) : op = opChunk ∨ op = opAbort := by
  simpa [concerns] using h

theorem concerns_not_offer {outbound : Bool} {op : Byte} (h : concerns outbound op = true) : op ≠ opOffer := by
  rintro rfl
  cases outbound <;> revert h <;> decide

/-- A message that finds the stream it is about changes no other. -/
theorem only_touches_of_found {d : Data} {f : Frame} {outbound : Bool} (hop : opOf f ≠ opOffer)
    (haddr : ∀ i, d.addressee f.src (idOf f) (opOf f) = some i → d.slotFind f.src (idOf f) outbound = some i) :
    OnlyTouches d f outbound := by
  intro now app j hj happ
  refine dataRx_other happ hop now fun h => ?_
  exact hj (haddr j h)

/-- One that finds another stream instead changes that. -/
theorem not_only_touches {d : Data} {f : Frame} {outbound : Bool} (hdata : f.type = msgData)
    (hlen : 2 ≤ f.payload.length) (hop : opOf f = opChunk ∨ opOf f = opReject ∨ opOf f = opAbort) {i : Handle}
    (haddr : d.addressee f.src (idOf f) (opOf f) = some i) (hother : d.slotFind f.src (idOf f) outbound ≠ some i) :
    ¬ OnlyTouches d f outbound := by
  intro honly
  have hoffer : opOf f ≠ opOffer := by
    rcases hop with h | h | h <;> rw [h] <;> decide
  obtain ⟨now, hchange⟩ := rxStream_changes (d.addressee_some haddr).1 hop (f.payload.drop 2)
  have hsame := honly now (fun _ => id) i hother fun _ _ => rfl
  rw [dataRx_addressed hdata hlen hoffer haddr] at hsame
  exact hchange hsame

/-- The handles of the two directions differ. -/
theorem slotFind_halves {d : Data} {peer peer' : Addr} {id id' : UInt8} {i : Handle}
    (hin : d.slotFind peer id false = some i) : d.slotFind peer' id' true ≠ some i := by
  have hdisjoint : ∀ k : Handle, k ∈ Data.half false → k ∉ Data.half true := by decide
  intro hout
  exact hdisjoint i (List.mem_of_find?_eq_some hin) (List.mem_of_find?_eq_some hout)

/-- Exactly where the search ends at the stream it is about does a message leave the
    other direction alone. -/
theorem only_touches_iff {d : Data} {f : Frame} {outbound : Bool} (hdata : f.type = msgData)
    (hlen : 2 ≤ f.payload.length) (hop : concerns outbound (opOf f) = true) :
    OnlyTouches d f outbound ↔ Unambiguous d f outbound := by
  have hoffer := concerns_not_offer hop
  cases outbound with
  | true =>
    simp only [Unambiguous, if_true]
    rcases concerns_outbound hop with hanswer | hend
    · -- an answer to a send is searched for among the sends
      have hne : opOf f ≠ opReject ∧ opOf f ≠ opAbort := by
        rcases hanswer with h | h | h <;> rw [h] <;> decide
      refine ⟨fun _ => Or.inl hne, fun _ => only_touches_of_found hoffer fun i hi => ?_⟩
      rwa [addressee_answer d _ _ hanswer] at hi
    have haddr := addressee_either d f.src (idOf f) (Or.inr hend)
    cases hin : d.slotFind f.src (idOf f) false with
    | none =>
      rw [hin, Option.none_or] at haddr
      refine ⟨fun _ => Or.inr rfl, fun _ => only_touches_of_found hoffer fun i hi => ?_⟩
      rwa [haddr] at hi
    | some i =>
      rw [hin, Option.some_or] at haddr
      refine ⟨fun honly => ?_, fun h => ?_⟩
      · exact absurd honly (not_only_touches hdata hlen (Or.inr hend) haddr (slotFind_halves hin))
      · rcases h with h | h
        · rcases hend with he | he
          · exact absurd he h.1
          · exact absurd he h.2
        · cases h
  | false =>
    simp only [Unambiguous, Bool.false_eq_true, if_false]
    have hops := concerns_inbound hop
    have haddr := addressee_either d f.src (idOf f) (hops.imp_right Or.inr)
    cases hin : d.slotFind f.src (idOf f) false with
    | some i =>
      rw [hin, Option.some_or] at haddr
      refine ⟨fun _ => Or.inl (Option.some_ne_none i), fun _ => only_touches_of_found hoffer fun k hk => ?_⟩
      rw [haddr] at hk
      rw [hin]
      exact hk
    | none =>
      rw [hin, Option.none_or] at haddr
      cases hout : d.slotFind f.src (idOf f) true with
      | none =>
        rw [hout] at haddr
        refine ⟨fun _ => Or.inr rfl, fun _ => only_touches_of_found hoffer fun k hk => ?_⟩
        rw [haddr] at hk
        cases hk
      | some i =>
        rw [hout] at haddr
        refine ⟨fun honly => ?_, fun h => ?_⟩
        · refine absurd honly (not_only_touches hdata hlen (hops.imp_right Or.inr) haddr ?_)
          rw [hin]
          exact Option.some_ne_none i |>.symm
        · rcases h with h | h
          · exact absurd rfl h
          · cases h

/-! ## One transfer each way, under one id -/

def fromPeer (payload : List Byte) : Frame :=
  { type := msgData, ttl := ttlDefault, src := 2, dst := 1, seq := 0, payload := payload, body := [] }

/-- Board 1 has offered board 2 a stream, and accepted one from it; both have id 1. -/
def bothWays : Data :=
  dataRx (dataSend dataInit 2 0 [] [7] 1000).2 (fromPeer (opOffer :: 1 :: offerExtra
      { Stream.zero with id := 1, total := 1, crc := contentCrc [9] })) 1001
    fun _ d => dataAccept d 4 1001

/-- Board 2 declines what it was offered. -/
def declined : Frame := fromPeer [opReject, 1, dataRefused]

theorem only_touches_of_the_last_word : OnlyTouches bothWays (fromPeer [opDone, 1, dataOk]) true :=
  (only_touches_iff rfl (by decide) (by decide)).mpr (Or.inl ⟨by decide, by decide⟩)

/-- The stream that comes in is ended, the one declined goes on. -/
theorem refusal_ends_the_other : ¬ ∀ (d : Data) (f : Frame) (outbound : Bool), f.type = msgData → 2 ≤ f.payload.length →
    concerns outbound (opOf f) = true → OnlyTouches d f outbound := by
  intro h
  have hin := h bothWays declined true rfl (by decide) (by decide) 1002 (fun _ => id) 4 (by decide +kernel) fun _ _ => rfl
  have hended : ((dataRx bothWays declined 1002 fun _ => id).s 4).state = .free := by decide +kernel
  have hlive : (bothWays.s 4).state = .receiving := by decide +kernel
  rw [hin, hlive] at hended
  cases hended

end DeskHop.Bulk
