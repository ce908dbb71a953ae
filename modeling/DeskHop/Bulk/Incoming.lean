/-
  DeskHop.Bulk.Incoming — the turns of an endpoint whose one stream comes in.

  The application does nothing but accept (`Accepts`). Once it has, the stream has handed
  over the chunks before the one it expects (`Terms.receiving`), give or take its times:
  that one is handed over and counted (`rx_chunk_next`), the last one brings the verdict
  (`rx_chunk_last`), and any other is answered by an ACK at most (`rx_chunk_other`).
-/

import DeskHop.Bulk.Checksum
import DeskHop.Bulk.LostAccept
import DeskHop.Bulk.Outgoing

namespace DeskHop.Bulk

open DeskHop.Lib DeskHop.Wire

/-! ## An application that accepts -/

def Call.isAccept : Call → Bool
  | .accept _ => true
  | _ => false

def Stream.accept (now : Time) (s : Stream) : Stream := { s with state := .receiving, lastRx := now, lastTx := now }

/-- It leaves a lone stream as it is, or accepts it. -/
def Accepts (app : App) : Prop := ∀ d : Data, d.Alone inSlot →
  app d = d ∨ (d.s inSlot).state = .offered ∧
    ∃ now, app d = d.after inSlot ((d.s inSlot).accept now) [[opAccept, (d.s inSlot).id, d.window]]

theorem accept_alone {d : Data} (h : d.Alone inSlot) (stream : UInt8) (now : Time) :
    dataAccept d stream now = d ∨ (d.s inSlot).state = .offered ∧
      dataAccept d stream now = d.after inSlot ((d.s inSlot).accept now) [[opAccept, (d.s inSlot).id, d.window]] := by
  unfold dataAccept
  cases hi : d.byHandle stream with
  | none => exact Or.inl rfl
  | some i =>
    obtain rfl : i = inSlot := by
      by_contra hne
      exact (d.byHandle_some hi).2 (h i hne)
    by_cases hs : (d.s inSlot).state = .offered
    · refine Or.inr ⟨hs, ?_⟩
      simp only [hs, ne_eq, not_true_eq_false, if_false]
      rw [Data.sendOp_after, Data.upd_self, Data.upd_then_after]
      rfl
    · left
      simp only [ne_eq, hs, not_false_eq_true, if_true]

theorem script_accepts {script : Script} (hs : script.all Call.isAccept = true) (now : Time) : Accepts (script.run now) := by
  induction script with
  | done => exact fun d _ => Or.inl rfl
  | call c inner rest _ ih =>
    intro d h
    simp only [Script.all, Bool.and_eq_true] at hs
    cases c with
    | accept stream =>
      show rest.run now (dataAccept d stream now) = d ∨ _ ∧ ∃ _, rest.run now (dataAccept d stream now) = _
      rcases accept_alone h stream now with hstay | ⟨hst, haccept⟩
      · rw [hstay]
        exact ih hs.2 d h
      · rw [haccept]
        refine Or.inr ⟨hst, now, (ih hs.2 _ (h.after _ _)).resolve_right fun hagain => ?_⟩
        rw [Data.after_self] at hagain
        cases hagain.1
    | reject => cases hs.1.1
    | cancel => cases hs.1.1
    | send => cases hs.1.1

theorem Accepts.stays {app : App} (h : Accepts app) {d : Data} (halone : d.Alone inSlot)
    (hs : (d.s inSlot).state ≠ .offered) : app d = d := (h d halone).resolve_right fun hacc => hs hacc.1

namespace Terms

/-! ## The stream that comes in -/

variable (m : Terms)

/-- The offer is in, and waits for the application. -/
def opened : Stream := inboundStream { dataInit with window := m.given } m.src m.id (offerExtra m.offering) 0

/-- The chunks before `e` have been handed over. -/
def receiving (e : Nat) : Stream :=
  { m.opened with
    state := .receiving, nextSeq := UInt16.ofNat e, acked := UInt16.ofNat e,
    running := adler32Update adlerInit (m.content.take (60 * e)) }

def offeredNote : Note := .offered inSlot m.id m.src m.kind m.total m.opened.name
def chunkNote (e : Nat) : Note := .chunk inSlot (offsetOf (UInt16.ofNat e)) (piece m.content (UInt16.ofNat e))

variable {m} {d : Data} {e : Nat}

theorem opened_total : m.opened.total = m.total := by
  show get32 (offerExtra m.offering) 1 = m.total
  rw [offerExtra, List.append_assoc, List.append_assoc]
  exact (get32_append_add [m.offering.kind] _ 0).trans (get32_put32 _ _)

theorem opened_crc : m.opened.crc = contentCrc m.content := by
  show get32 (offerExtra m.offering) 5 = _
  rw [offerExtra, List.append_assoc, List.append_assoc]
  exact (get32_append_add (m.offering.kind :: put32 m.offering.total) _ 0).trans (get32_put32 _ _)

theorem in_half : inSlot ∈ Data.half false ∧ inSlot ∉ Data.half true := by decide

theorem opened_used {s : Stream} (hs : Stamped m.opened s) : s.state = .offered ∧ s.peer = m.src ∧ s.id = m.id := by
  obtain ⟨_, _, _, rfl⟩ := hs
  exact ⟨rfl, rfl, rfl⟩

theorem receiving_used {s : Stream} (hs : Stamped (m.receiving e) s) :
    s.state = .receiving ∧ s.peer = m.src ∧ s.id = m.id ∧ s.nextSeq = UInt16.ofNat e ∧ s.window = m.given ∧
      s.outbound = false := by
  obtain ⟨_, _, _, rfl⟩ := hs
  exact ⟨rfl, rfl, rfl, rfl, rfl, rfl⟩

theorem opened_accept {s : Stream} (hs : Stamped m.opened s) (now : Time) :
    Stamped (m.receiving 0) (s.accept now) := by
  obtain ⟨_, _, retries, rfl⟩ := hs
  exact ⟨now, now, retries, rfl⟩

/-! ## Offers -/

theorem slotFree_vacant (h : d.Vacant) : d.slotFree false = some inSlot := by
  have hfirst : ((d.s inSlot).state == .free) = true := by
    rw [h inSlot]
    rfl
  exact List.find?_cons_of_pos hfirst

/-- The first offer opens the stream, and may be accepted there and then. -/
theorem rx_offer_first (h : d.Vacant) (hpos : m.total ≠ 0) (hmax : m.total ≤ d.maxInbound) (hw : d.window = m.given)
    (now : Time) (dst : Addr) (app : Fin 2 → App) (happ : Accepts (app ⟨0, Nat.two_pos⟩)) :
    ∃ s' msgs, dataRx d (dataFrame m.src dst m.offer) now app = (d.note m.offeredNote).after inSlot s' msgs ∧
      (Stamped m.opened s' ∧ msgs = [] ∨ Stamped (m.receiving 0) s' ∧ msgs = [m.accept]) := by
  have hs : inboundStream d m.src m.id (offerExtra m.offering) now = m.opened.stamped now 0 0 := by
    unfold inboundStream opened inboundStream
    rw [hw]
    rfl
  have hopens : dataRx d (dataFrame m.src dst m.offer) now app =
      app 0 ((d.note m.offeredNote).after inSlot (m.opened.stamped now 0 0) []) := by
    have hlen : ¬ (offerExtra m.offering).length < offerFixed - 2 := by
      simp only [offerExtra, offerFixed, put32, List.length_cons, List.length_append, List.length_map, List.length_range]
      omega
    show rxOffer d m.src m.id (offerExtra m.offering) now (app 0) = _
    simp only [rxOffer]
    rw [if_neg hlen, h.slotFind m.src m.id false, slotFree_vacant h]
    simp only [hs]
    refine (if_neg fun hbad => ?_).trans ?_
    · rw [Bool.or_eq_true, decide_eq_true_eq, decide_eq_true_eq] at hbad
      rcases hbad with hbad | hbad
      · exact hpos (opened_total.symm.trans hbad)
      · exact absurd hmax (UInt32.not_le.mpr (opened_total ▸ hbad))
    have hnote : Note.offered inSlot m.id m.src m.opened.kind m.opened.total m.opened.name = m.offeredNote := by
      rw [opened_total]
      rfl
    refine congrArg (app 0) ?_
    rw [Data.upd_after, ← hnote]
    rfl
  have halone : ((d.note m.offeredNote).after inSlot (m.opened.stamped now 0 0) []).Alone inSlot :=
    Data.Alone.after (d := d.note m.offeredNote) (h.alone inSlot) _ _
  rw [hopens]
  rcases happ _ halone with hstay | ⟨-, t, haccept⟩
  · exact ⟨_, [], hstay, Or.inl ⟨⟨_, _, _, rfl⟩, rfl⟩⟩
  · rw [Data.after_self, Data.after_window, Data.after_after _ _ _ _ _ _ (by rfl)] at haccept
    refine ⟨_, _, haccept, Or.inr ⟨opened_accept ⟨_, _, _, rfl⟩ t, ?_⟩⟩
    show [[opAccept, m.id, d.window]] = [m.accept]
    rw [hw]
    rfl

/-- The name is not read: any offer of the stream will do. -/
theorem rx_offer_pending (h : d.Alone inSlot) (hs : Stamped m.opened (d.s inSlot)) (now : Time) (dst : Addr) (app : Fin 2 → App) :
    dataRx d (dataFrame m.src dst m.offer) now app = d := by
  obtain ⟨hst, hpeer, hid⟩ := opened_used hs
  have hfind := h.slotFind (by rw [hst]; decide) in_half.1
  rw [hpeer, hid] at hfind
  show rxOffer d m.src m.id (offerExtra m.offering) now (app 0) = d
  unfold rxOffer
  split
  · rfl
  · rw [hfind]
    exact if_neg (by rw [hst]; decide)

/-- The stream is being received: it is not opened again, and the offer is answered by an ACK. -/
theorem rx_offer_receiving (h : d.Alone inSlot) (hs : Stamped (m.receiving e) (d.s inSlot)) (now : Time) (dst : Addr)
    (app : Fin 2 → App) : ∃ s', Stamped (m.receiving e) s' ∧
      dataRx d (dataFrame m.src dst m.offer) now app = d.after inSlot s' [m.ack e] := by
  obtain ⟨hst, hpeer, hid, -, -, -⟩ := receiving_used hs
  have hfind := h.slotFind (by rw [hst]; decide) in_half.1
  rw [hpeer, hid] at hfind
  have hlen : offerFixed ≤ m.offer.length := by
    simp only [offer, offerExtra, offerFixed, put32, List.length_cons, List.length_append, List.length_map,
      List.length_range]
    omega
  have hack := repeated_offer_acked (f := dataFrame m.src dst m.offer) rfl hlen rfl hfind hst now app
  obtain ⟨lastRx, _, retries, hs⟩ := hs
  refine ⟨_, ⟨lastRx, now, retries, rfl⟩, hack.trans ?_⟩
  rw [sendAck, Data.sendOp_after, hs]
  rfl

/-! ## Chunks -/

/-- What a chunk comes to for the stream that is being received. -/
theorem rx_chunk (h : d.Alone inSlot) (hs : Stamped (m.receiving e) (d.s inSlot)) (now : Time) (q : Nat) (dst : Addr)
    (app : Fin 2 → App) : ∃ s, Stamped (m.receiving e) s ∧
      dataRx d (dataFrame m.src dst (m.chunk q)) now app =
        if UInt16.ofNat q ≠ s.nextSeq then
          if timeAfter now (s.lastTx + 20) then sendAck (d.after inSlot s []) inSlot now else d.after inSlot s []
        else if offsetOf (UInt16.ofNat q) + UInt32.ofNat (piece m.content (UInt16.ofNat q)).length > s.total then
          ((d.after inSlot s []).sendOp inSlot opAbort [dataCorrupt] now).finish inSlot dataCorrupt (app 0)
        else
          afterChunk (app 0 ((d.after inSlot { s with
              running := adler32Update s.running (piece m.content (UInt16.ofNat q)) } []).note
            (.chunk inSlot (offsetOf (UInt16.ofNat q)) (piece m.content (UInt16.ofNat q))))) inSlot now (app 1) := by
  obtain ⟨hst, hpeer, hid, hnext, -, -⟩ := receiving_used hs
  have haddr : d.addressee m.src m.id opChunk = some inSlot := by
    have hfind := h.slotFind (by rw [hst]; decide) in_half.1
    rw [hpeer, hid] at hfind
    rw [addressee_either d _ _ (Or.inl rfl), hfind]
    rfl
  have hcode := dataRx_stream (by decide) haddr dst (put16 (UInt16.ofNat q) ++ piece m.content (UInt16.ofNat q)) now app
  obtain ⟨s, hdef⟩ : ∃ s : Stream, s = { d.s inSlot with lastRx := now, retries := 0 } := ⟨_, rfl⟩
  have hstamped : Stamped (m.receiving e) s := by
    obtain ⟨_, lastTx, _, hs⟩ := hs
    exact ⟨now, lastTx, 0, by rw [hdef, hs]; rfl⟩
  refine ⟨s, hstamped, hcode.trans ?_⟩
  have hdrop : (put16 (UInt16.ofNat q) ++ piece m.content (UInt16.ofNat q)).drop 2 = piece m.content (UInt16.ofNat q) := rfl
  have hgo : ((put16 (UInt16.ofNat q) ++ piece m.content (UInt16.ofNat q)).length < 2 ||
      ((d.upd inSlot fun s => { s with lastRx := now, retries := 0 }).s inSlot).state != .receiving) = false := by
    rw [Data.upd_self, Bool.or_eq_false_iff]
    refine ⟨decide_eq_false ?_, ?_⟩
    · show ¬ (piece m.content (UInt16.ofNat q)).length + 1 + 1 < 2
      omega
    · rw [hst]
      rfl
  have htouch : ((d.upd inSlot fun s => { s with lastRx := now, retries := 0 }).upd inSlot
      fun s => { s with lastRx := now }) = d.after inSlot s [] := by
    rw [Data.upd_upd, Data.upd_after, hdef]
  show rxChunk (d.upd inSlot fun s => { s with lastRx := now, retries := 0 }) inSlot
    (put16 (UInt16.ofNat q) ++ piece m.content (UInt16.ofNat q)) now app = _
  unfold rxChunk
  rw [if_neg (by rw [hgo]; decide)]
  simp only [htouch, Data.after_self, get16_put16, hdrop]
  rw [Data.upd_after, Data.after_self, Data.after_after _ _ _ _ _ _ (by rfl), List.append_nil]

theorem rx_chunk_other (h : d.Alone inSlot) (hs : Stamped (m.receiving e) (d.s inSlot)) (he : e < 65536) {q : Nat}
    (hq : q < 65536) (hne : q ≠ e) (now : Time) (dst : Addr) (app : Fin 2 → App) :
    ∃ (echo : Bool) (s' : Stream), Stamped (m.receiving e) s' ∧
      dataRx d (dataFrame m.src dst (m.chunk q)) now app = d.after inSlot s' (if echo then [m.ack e] else []) := by
  obtain ⟨s, hs', hcode⟩ := rx_chunk h hs now q dst app
  rw [(receiving_used hs').2.2.2.1, if_pos fun hsame => hne ((ofNat_inj hq he).mp hsame)] at hcode
  by_cases htime : timeAfter now (s.lastTx + 20) = true
  · rw [if_pos htime, sendAck, Data.sendOp_after, Data.after_self, Data.after_after _ _ _ _ _ _ (by rfl)] at hcode
    obtain ⟨lastRx, _, retries, rfl⟩ := hs'
    exact ⟨true, _, ⟨lastRx, now, retries, rfl⟩, hcode⟩
  · rw [if_neg htime] at hcode
    exact ⟨false, s, hs', hcode⟩

/-- A chunk before the last one starts within the content. -/
theorem chunk_within (hlen : m.content.length < 4294967296) (he : e < m.chunks) : 60 * e < m.content.length := by
  have htotal : m.total.toNat = m.content.length := by
    rw [total, UInt32.toNat_ofNat', Nat.mod_eq_of_lt hlen]
  have hsum : (m.total + 60 - 1).toNat ≤ m.total.toNat + 59 := by
    rw [UInt32.toNat_sub, UInt32.toNat_add]
    have h60 : (60 : UInt32).toNat = 60 := rfl
    have h1 : (1 : UInt32).toNat = 1 := rfl
    rw [h60, h1]
    omega
  have hchunks : m.chunks ≤ (m.total.toNat + 59) / 60 := by
    rw [chunks, chunksFor, UInt32.toNat_toUInt16, UInt32.toNat_div]
    have h60 : (60 : UInt32).toNat = 60 := rfl
    rw [h60]
    omega
  omega

/-- The chunk that is expected does not overrun. -/
theorem chunk_fits (hlen : m.content.length < 4294967296) (he : e < m.chunks) :
    ¬ offsetOf (UInt16.ofNat e) + UInt32.ofNat (piece m.content (UInt16.ofNat e)).length > m.opened.total := by
  have hwithin := chunk_within hlen he
  have hchunks := m.chunks_lt
  have hoff : (offsetOf (UInt16.ofNat e)).toNat = 60 * e := by
    rw [offsetOf_toNat, toNat_ofNat (by omega)]
  have hpiece : (piece m.content (UInt16.ofNat e)).length ≤ m.content.length - 60 * e := by
    rw [piece, List.length_take, List.length_drop, toNat_ofNat (by omega), chunkBytes, maxPayload]
    omega
  rw [opened_total]
  refine UInt32.not_lt.mpr (UInt32.le_iff_toNat_le.mpr ?_)
  rw [UInt32.toNat_add, hoff, total, UInt32.toNat_ofNat', UInt32.toNat_ofNat']
  omega

/-- The chunk that is expected, handed over and counted. -/
theorem counted {s : Stream} (hs : Stamped (m.receiving e) s) (he : e < 65536) :
    Stamped (m.receiving (e + 1)) { s with
      running := adler32Update s.running (piece m.content (UInt16.ofNat e))
      nextSeq := s.nextSeq + 1, acked := s.nextSeq + 1 } := by
  obtain ⟨lastRx, lastTx, retries, rfl⟩ := hs
  have hrun : adler32Update (adler32Update adlerInit (m.content.take (60 * e))) (piece m.content (UInt16.ofNat e)) =
      adler32Update adlerInit (m.content.take (60 * (e + 1))) := by
    have htake := take_piece m.content (UInt16.ofNat e)
    rw [toNat_ofNat he] at htake
    rw [adler_append, htake]
  have hnext : UInt16.ofNat e + 1 = UInt16.ofNat (e + 1) := (UInt16.ofNat_add e 1).symm
  refine ⟨lastRx, lastTx, retries, ?_⟩
  simp only [Stream.stamped, receiving, hrun, hnext]

/-- What the chunk that is expected comes to, once the application has it. -/
theorem rx_chunk_now (h : d.Alone inSlot) (hs : Stamped (m.receiving e) (d.s inSlot))
    (hlen : m.content.length < 4294967296) (he : e < m.chunks) (now : Time) (dst : Addr) {app : Fin 2 → App}
    (happ : Accepts (app ⟨0, Nat.two_pos⟩)) : ∃ s, Stamped (m.receiving (e + 1)) s ∧
      dataRx d (dataFrame m.src dst (m.chunk e)) now app =
        if m.chunks ≤ e + 1 then
          (((d.note (m.chunkNote e)).after inSlot s []).sendOp inSlot opDone
            [if s.running = s.crc then dataOk else dataCorrupt] now).finish inSlot
              (if s.running = s.crc then dataOk else dataCorrupt) (app 1)
        else if (e + 1) % m.every = 0 then sendAck ((d.note (m.chunkNote e)).after inSlot s []) inSlot now
        else (d.note (m.chunkNote e)).after inSlot s [] := by
  have hchunks := m.chunks_lt
  obtain ⟨s, hs, hcode⟩ := rx_chunk h hs now e dst app
  obtain ⟨hst, -, -, hseq, -, -⟩ := receiving_used hs
  have htotal : s.total = m.opened.total := by
    obtain ⟨_, _, _, hs⟩ := hs
    rw [hs]
    rfl
  rw [if_neg (fun hne => hne hseq.symm), if_neg (by rw [htotal]; exact chunk_fits hlen he)] at hcode
  have hstays : app 0 ((d.after inSlot { s with running := adler32Update s.running (piece m.content (UInt16.ofNat e)) }
      []).note (m.chunkNote e)) = (d.note (m.chunkNote e)).after inSlot
        { s with running := adler32Update s.running (piece m.content (UInt16.ofNat e)) } [] := by
    refine Accepts.stays happ (Data.Alone.after (d := d.note (m.chunkNote e)) h _ _) ?_
    show (((d.note (m.chunkNote e)).after inSlot _ []).s inSlot).state ≠ _
    rw [Data.after_self]
    show s.state ≠ .offered
    rw [hst]
    decide
  obtain ⟨s2, hdef⟩ : ∃ s2 : Stream, s2 = { s with
      running := adler32Update s.running (piece m.content (UInt16.ofNat e))
      nextSeq := s.nextSeq + 1, acked := s.nextSeq + 1 } := ⟨_, rfl⟩
  have hcounted : Stamped (m.receiving (e + 1)) s2 := hdef ▸ counted hs (by omega)
  have hupd : ((d.note (m.chunkNote e)).after inSlot { s with
      running := adler32Update s.running (piece m.content (UInt16.ofNat e)) } []).upd inSlot
        (fun s => { s with nextSeq := s.nextSeq + 1, acked := s.nextSeq + 1 }) =
      (d.note (m.chunkNote e)).after inSlot s2 [] := by
    rw [Data.upd_after, Data.after_self, Data.after_after _ _ _ _ _ _ (by rfl), hdef]
    rfl
  obtain ⟨-, -, -, hseq2, hwindow2, -⟩ := receiving_used hcounted
  have htotal2 : s2.total = m.total := by
    obtain ⟨_, _, _, hs⟩ := hcounted
    rw [hs]
    exact opened_total
  have hlast : s2.nextSeq ≥ chunksFor s2.total ↔ m.chunks ≤ e + 1 := by
    rw [hseq2, htotal2, ge_iff_le, UInt16.le_iff_toNat_le, toNat_ofNat (by omega)]
    rfl
  have hdue : s2.nextSeq % ackEvery s2.window = 0 ↔ (e + 1) % m.every = 0 := by
    rw [hseq2, hwindow2, ← UInt16.toNat_inj, UInt16.toNat_mod, toNat_ofNat (by omega)]
    rfl
  refine ⟨s2, hcounted, hcode.trans ?_⟩
  show afterChunk (app 0 ((d.after inSlot _ []).note (m.chunkNote e))) inSlot now (app 1) = _
  rw [hstays]
  unfold afterChunk
  simp only [hupd, Data.after_self]
  exact if_congr hlast rfl (if_congr hdue rfl rfl)

theorem rx_chunk_next (h : d.Alone inSlot) (hs : Stamped (m.receiving e) (d.s inSlot))
    (hlen : m.content.length < 4294967296) (he : e + 1 < m.chunks) (now : Time) (dst : Addr) {app : Fin 2 → App}
    (happ : Accepts (app ⟨0, Nat.two_pos⟩)) : ∃ s', Stamped (m.receiving (e + 1)) s' ∧
      dataRx d (dataFrame m.src dst (m.chunk e)) now app =
        (d.note (m.chunkNote e)).after inSlot s' ((Flow.due m.chunks m.every (e + 1)).map m.ack) := by
  obtain ⟨s, hs, hcode⟩ := rx_chunk_now h hs hlen (by omega) now dst happ
  rw [if_neg (by omega)] at hcode
  by_cases hdue : (e + 1) % m.every = 0
  · rw [if_pos hdue, sendAck, Data.sendOp_after, Data.after_self, Data.after_after _ _ _ _ _ _ (by rfl)] at hcode
    rw [Flow.due, if_pos ⟨he, hdue⟩]
    obtain ⟨lastRx, _, retries, rfl⟩ := hs
    exact ⟨_, ⟨lastRx, now, retries, rfl⟩, hcode⟩
  · rw [if_neg hdue] at hcode
    rw [Flow.due, if_neg fun h => hdue h.2]
    exact ⟨s, hs, hcode⟩

/-- The last chunk: the verdict is sent, and the stream ends. -/
theorem rx_chunk_last (h : d.Alone inSlot) (hs : Stamped (m.receiving e) (d.s inSlot))
    (hlen : m.content.length < 4294967296) (he : e + 1 = m.chunks) (hout : d.out = []) (now : Time) (dst : Addr)
    {app : Fin 2 → App} (happ : ∀ k, Accepts (app k)) :
    let d' := dataRx d (dataFrame m.src dst (m.chunk e)) now app
    d'.Vacant ∧ d'.mail m.src = [m.done] ∧
      d'.notes = d.notes ++ [m.chunkNote e, .received inSlot m.verdict] ∧ d'.window = d.window ∧
      d'.maxInbound = d.maxInbound := by
  obtain ⟨s, hs, hcode⟩ := rx_chunk_now h hs hlen (by omega) now dst (happ ⟨0, Nat.two_pos⟩)
  rw [if_pos (by omega), finish_eq] at hcode
  have hverdict : (if s.running = s.crc then dataOk else dataCorrupt) = m.verdict := by
    obtain ⟨_, _, _, rfl⟩ := hs
    show (if adler32Update adlerInit (m.content.take (60 * (e + 1))) = m.opened.crc then dataOk else dataCorrupt) = _
    rw [opened_crc, he]
    rfl
  obtain ⟨-, hpeer, hid, -, -, hin⟩ := receiving_used hs
  rw [hverdict, Data.sendOp_after, Data.after_self, Data.after_after _ _ _ _ _ _ (by rfl)] at hcode
  obtain ⟨d2, hd2⟩ : ∃ d2 : Data, d2 = (d.note (m.chunkNote e)).after inSlot { s with lastTx := now }
      ([] ++ [[opDone, s.id, m.verdict]]) := ⟨_, rfl⟩
  rw [← hd2] at hcode
  have hself : (d2.s inSlot).outbound = false := by
    rw [hd2, Data.after_self]
    exact hin
  have hend := ended_becomes d2 inSlot m.verdict
  have hnote : endNote (d2.s inSlot) inSlot m.verdict = .received inSlot m.verdict := by
    rw [endNote, hself]
    rfl
  have hvacant : (d2.ended inSlot m.verdict).Vacant := by
    intro j
    by_cases hj : j = inSlot
    · rw [hj, hend.self]
      rfl
    · rw [hend.ne hj, hd2, Data.after_ne _ _ _ _ hj]
      exact h j hj
  have hkeep : (d2.ended inSlot m.verdict).window = d2.window ∧
      (d2.ended inSlot m.verdict).maxInbound = d2.maxInbound := by
    unfold Data.ended
    simp only [hself, Bool.false_eq_true, if_false]
    exact ⟨rfl, rfl⟩
  rw [Accepts.stays (happ 1) (hvacant.alone inSlot) (by rw [hvacant inSlot]; decide)] at hcode
  simp only [hcode]
  refine ⟨hvacant, ?_, ?_, hkeep.1.trans (by rw [hd2]; rfl), hkeep.2.trans (by rw [hd2]; rfl)⟩
  · have hmail := Data.mail_after inSlot { s with lastTx := now } ([] ++ [[opDone, s.id, m.verdict]])
      (d := d.note (m.chunkNote e)) hout
    rw [← hd2] at hmail
    rw [Data.mail, hend.out, List.append_nil, ← hpeer]
    rw [Data.mail] at hmail
    rw [done, ← hid]
    exact hmail
  · rw [hend.notes, hnote, hd2]
    show d.notes ++ [m.chunkNote e] ++ [_] = _
    rw [List.append_assoc]
    rfl

/-! ## Ticks -/

/-- A stream that comes in is given up, or left as it is. -/
theorem tick_incoming (h : d.Alone inSlot) (hs : (d.s inSlot).outbound = false) {now : Time}
    (hno : ¬ d.GivesUp now inSlot) (app : Handle → App) : dataTick d now app = d := by
  have hstay := (tickSlot_goesOn now app hno).resolve_right fun hover => by
    rw [hover.1.1] at hs
    cases hs
  exact (h.tick now app (by rwa [hstay])).trans hstay

theorem tick_vacant (h : d.Vacant) (now : Time) (app : Handle → App) : dataTick d now app = d := by
  have hstay := tickSlot_free now app (h inSlot)
  exact ((h.alone inSlot).tick now app (by rw [hstay]; exact h.alone inSlot)).trans hstay

/-- A chunk of a stream that is no more. -/
theorem rx_chunk_vacant (h : d.Vacant) (q : Nat) (now : Time) (dst : Addr) (app : Fin 2 → App) :
    dataRx d (dataFrame m.src dst (m.chunk q)) now app = d := by
  have haddr : d.addressee m.src m.id opChunk = none := by
    rw [addressee_either d _ _ (Or.inl rfl), h.slotFind, h.slotFind]
    rfl
  have hgo : ¬ ((dataFrame m.src dst (m.chunk q)).type ≠ msgData ∨
      (dataFrame m.src dst (m.chunk q)).payload.length < 2) := by
    rintro (h | h)
    · exact h rfl
    · exact absurd h (Nat.not_lt.mpr (Nat.le_add_left 2 _))
  unfold dataRx
  rw [if_neg hgo]
  refine (if_neg (show ¬ opChunk = opOffer by decide)).trans ?_
  split
  · rfl
  · rename_i i hi
    cases haddr.symm.trans hi

end Terms

end DeskHop.Bulk
