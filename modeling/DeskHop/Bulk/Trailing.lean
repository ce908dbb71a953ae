/-
  DeskHop.Bulk.Trailing — acknowledgements that trail the chunks in flight
  (`dhp_data_rx`, OP_ACK).

  Nothing is lost and no timer runs out, so nothing need be sent twice. But the sender
  goes back to any acknowledgement that is behind what it has sent, and one that comes
  before the last chunk is, unless the window is a single chunk. What the sender has
  transmitted is kept beside the run (`Taped`). Proved: no run has a chunk sent twice or
  a retransmission counted exactly if there is no such acknowledgement
  (`unrepeated_iff`).
-/

import DeskHop.Bulk.Carried

namespace DeskHop.Bulk

open DeskHop.Lib DeskHop.Wire

/-- The chunks among some messages, by number. -/
def chunkSeqs (msgs : List (List Byte)) : List UInt16 :=
  msgs.filterMap fun p => if byteAt p 0 = opChunk then some (get16 p 2) else none

theorem chunkSeqs_append (xs ys : List (List Byte)) : chunkSeqs (xs ++ ys) = chunkSeqs xs ++ chunkSeqs ys :=
  List.filterMap_append ..

theorem chunkSeqs_chunks (m : Terms) (qs : List Nat) : chunkSeqs (qs.map m.chunk) = qs.map UInt16.ofNat := by
  induction qs with
  | nil => rfl
  | cons q qs ih =>
    have hseq : get16 (m.chunk q) 2 = UInt16.ofNat q := field16.get_put _ [opChunk, m.id] _
    have hop : byteAt (m.chunk q) 0 = opChunk := rfl
    unfold chunkSeqs at ih ⊢
    rw [List.map_cons, List.filterMap_cons, hop, if_pos rfl, hseq, ih]
    rfl

namespace Transfer

/-- What the sender transmits in a turn. -/
def sent (t : Transfer) : Event → List (List Byte)
  | .sender e => (turn t.sender t.toS t.addrR t.addrS e).mail t.addrR
  | _ => []

/-- Nothing is lost, and no timer of the sender runs out. -/
def Punctual (t : Transfer) (e : Event) : Prop := Lossless t e ∧ ¬ Late t e

end Transfer

/-- A transfer, and all that its sender has transmitted, first one first. -/
structure Taped where
  now : Transfer
  tape : List (List Byte)

def Taped.step (r : Taped) (e : Transfer.Event) : Taped := { now := r.now.step e, tape := r.tape ++ r.now.sent e }

namespace Transfer

/-- A content has just been sent. -/
def Sent (t : Transfer) (content : List Byte) (r : Taped) : Prop :=
  ∃ kind name now, r = Taped.step ⟨t, []⟩ (.sender (.app (.call (.send t.addrR kind name content) .done .done) now))

/-- No retransmission has been counted since `t`, each chunk has been transmitted once at
    most, and once the stream has ended all have been. -/
def Once (t : Transfer) (content : List Byte) (r : Taped) : Prop :=
  r.now.sender.nRetransmits = t.sender.nRetransmits ∧
    ∃ k, k ≤ (chunksFor (UInt32.ofNat content.length)).toNat ∧ chunkSeqs r.tape = (List.range k).map UInt16.ofNat ∧
      ((r.now.sender.s outSlot).state = .free → k = (chunksFor (UInt32.ofNat content.length)).toNat)

/-- So it is in every run in which nothing is lost or late. -/
def Unrepeated (t : Transfer) (content : List Byte) : Prop :=
  ∀ r, Reach (t.Sent content) (fun r e => Punctual r.now e) Taped.step r → t.Once content r

end Transfer

/-! ## Stages without a repetition -/

namespace Stage

variable (m : Terms)

/-- The chunks transmitted so far. -/
def log (g : Stage) : List Nat := (g.flow.map Flow.log).getD []

/-- One offer, and nothing repeated since. -/
def Steady : Stage → Prop
  | .offering n => n ≤ 1
  | .pending n => n = 0
  | .accepted n r => n = 0 ∧ r = 0
  | .running n x => n = 0 ∧ x.Plain
  | .finished x => x.rewinds = 0 ∧ x.log = List.range m.chunks

end Stage

theorem takeItem_log {total every : Nat} (x : Flow) (echo : Bool) : (x.takeItem total every echo).log = x.log := by
  cases hitems : x.items with
  | nil => rw [Flow.takeItem, hitems]
  | cons q rest =>
    rw [Flow.takeItem_cons hitems, Flow.arrive]
    split
    · rfl
    split
    · rfl
    split <;> rfl

/-- What the window lets out after an acknowledgement is what is logged. -/
theorem takeAck_grows {total window : Nat} (x : Flow) : ∃ more, (x.takeAck total window).items = x.items ++ more ∧
    (x.takeAck total window).log = x.log ++ more := by
  cases hacks : x.acks with
  | nil =>
    rw [Flow.takeAck, hacks]
    exact ⟨[], (List.append_nil _).symm, (List.append_nil _).symm⟩
  | cons n rest =>
    obtain ⟨hitems, -, -, hlog⟩ := Flow.steer_keeps n { x with acks := rest }
    rw [Flow.takeAck_cons hacks]
    exact ⟨_, congrArg (· ++ _) hitems, congrArg (· ++ _) hlog⟩

section

variable {m : Terms} {g g' : Stage} {turn : Turn}

/-- What the sender transmits when it reads, and otherwise nothing. -/
theorem Stage.Goes.grows (h : Stage.Goes m turn g g') (hg : g.Steady m) :
    if turn = .reads then ∃ more, g'.toR m = g.toR m ++ more.map m.chunk ∧ g'.log = g.log ++ more
    else g'.log = g.log ∧ (turn = .other → g'.toR m = g.toR m) := by
  cases h with
  | stays => exact ⟨rfl, fun _ => rfl⟩
  | unread => exact ⟨[], (List.append_nil _).symm, (List.append_nil _).symm⟩
  | unheard => exact ⟨rfl, nofun⟩
  | offered => exact ⟨rfl, nofun⟩
  | atOnce => exact ⟨rfl, nofun⟩
  | ignored => exact ⟨rfl, nofun⟩
  | accepts => exact ⟨rfl, fun _ => rfl⟩
  | answers => exact ⟨rfl, nofun⟩
  | starts => exact ⟨_, rfl, rfl⟩
  | repeats => exact ⟨rfl, nofun⟩
  | @item x echo hsome => exact ⟨takeItem_log x echo, nofun⟩
  | @ack n x hsome =>
    obtain ⟨more, hitems, hlog⟩ := @takeAck_grows m.chunks m.window.toNat x
    refine ⟨more, ?_, hlog⟩
    show List.replicate n m.offer ++ _ = List.replicate n m.offer ++ x.items.map m.chunk ++ more.map m.chunk
    rw [hitems, List.map_append, List.append_assoc]
  | @told n x hacks htaken =>
    obtain ⟨rfl, -⟩ := hg
    exact ⟨[], by rw [List.map_nil, List.append_nil]; rfl, (List.append_nil _).symm⟩
  | drops => exact ⟨rfl, nofun⟩

theorem Stage.Goes.steady (h : Stage.Goes m turn g g') (hs : g.Sound m) (hg : g.Steady m)
    (honce : m.window.toNat = 1 ∨ m.chunks ≤ m.every) : g'.Steady m := by
  cases h with
  | stays => exact hg
  | unread => exact hg
  | unheard => exact hg
  | @offered n => exact Nat.le_zero.mp (Nat.le_of_succ_le_succ hg)
  | @atOnce n => exact ⟨Nat.le_zero.mp (Nat.le_of_succ_le_succ hg), rfl⟩
  | ignored => exact absurd hg (Nat.succ_ne_zero _)
  | accepts => exact ⟨hg, rfl⟩
  | answers => exact absurd hg.1 (Nat.succ_ne_zero _)
  | starts =>
    obtain ⟨rfl, rfl⟩ := hg
    exact ⟨rfl, Flow.plain_start _ _⟩
  | repeats => exact absurd hg.1 (Nat.succ_ne_zero _)
  | item echo hsome => exact ⟨rfl, hg.2.takeItem hs.1 honce echo⟩
  | ack hsome => exact ⟨hg.1, hg.2.takeAck _ _⟩
  | @told n x hacks htaken =>
    have hle := hg.2.le
    have hnext := hs.1.next_le
    have hall : x.next = m.chunks := by
      have := htaken.2
      omega
    exact ⟨hg.2.rewinds, by rw [hg.2.log, hall]⟩
  | drops => exact hg

end

/-! ## Runs without a repetition -/

namespace Transfer

variable {t0 t : Transfer} {m : Terms} {g g' : Stage}

/-- What was transmitted is what joined the queue. -/
theorem Pictured.sent (h : Pictured t0 m t g) {e : Event} (h' : Pictured t0 m (t.step e) g') (hok : Lossless t e)
    {more : List (List Byte)} (htoR : g'.toR m = g.toR m ++ more) (hturn : e.turn ≠ .hears) : t.sent e = more := by
  have hqueue : (t.step e).toR = t.toR ++ more := by
    rw [h'.toR, htoR, h.toR]
  cases e with
  | sender e =>
    have hqueue : t.toR ++ t.sent (.sender e) = t.toR ++ more := hqueue
    exact List.append_cancel_left hqueue
  | receiver e =>
    have hqueue : unread t.toR e = t.toR ++ more := hqueue
    have hunread : unread t.toR e = t.toR := by
      cases e with
      | rx react now => exact absurd rfl hturn
      | app script now => rfl
      | tick react now => rfl
    have hnone : more = [] := List.append_right_eq_self.mp (hqueue.symm.trans hunread)
    rw [hnone]
    rfl
  | loseToR k => exact hok.elim
  | loseToS k => exact hok.elim

/-- A turn transmits the chunks it logs. -/
theorem Pictured.tapes (h : Pictured t0 m t g) (hg : g.Steady m) {e : Event} (h' : Pictured t0 m (t.step e) g')
    (hok : Lossless t e) (hgoes : Stage.Goes m e.turn g g') :
    chunkSeqs (t.sent e) = (g'.log.drop g.log.length).map UInt16.ofNat ∧ g'.log = g.log ++ g'.log.drop g.log.length := by
  have hgrows := hgoes.grows hg
  by_cases hturn : e.turn = .reads
  · rw [if_pos hturn] at hgrows
    obtain ⟨more, htoR, hlog⟩ := hgrows
    rw [hlog, List.drop_left, h.sent h' hok htoR (by rw [hturn]; decide), chunkSeqs_chunks]
    exact ⟨rfl, rfl⟩
  · rw [if_neg hturn] at hgrows
    obtain ⟨hlog, hother⟩ := hgrows
    rw [hlog, List.drop_length, List.append_nil]
    refine ⟨?_, rfl⟩
    by_cases hhears : e.turn = .hears
    · have hnone : t.sent e = [] := by
        cases e with
        | sender e => cases e <;> cases hhears
        | receiver e => rfl
        | loseToR k => rfl
        | loseToS k => rfl
      rw [hnone]
      rfl
    · have hidle : e.turn = .other := by
        cases he : e.turn with
        | hears => exact absurd he hhears
        | reads => exact absurd he hturn
        | other => rfl
      rw [h.sent h' hok ((hother hidle).trans (List.append_nil _).symm) hhears]
      rfl

/-- A content goes its way, and what was transmitted is what was logged. -/
def Steadily (t : Transfer) (m : Terms) (r : Taped) : Prop :=
  ∃ g, Pictured t m r.now g ∧ g.Steady m ∧ chunkSeqs r.tape = g.log.map UInt16.ofNat

theorem steadily_step {r : Taped} (h : Steadily t0 m r) (hpos : m.total ≠ 0) (hlen : m.content.length < 4294967296)
    (honce : m.window.toNat = 1 ∨ m.chunks ≤ m.every) {e : Event} (hok : Punctual r.now e) :
    Steadily t0 m (r.step e) := by
  obtain ⟨g, hg, hsteady, htape⟩ := h
  obtain ⟨g', hg', hgoes⟩ := step_pictured hg hpos hlen hok.1
  have hgoes := hgoes.resolve_right fun hlate => hok.2 hlate.2
  obtain ⟨hsent, hlog⟩ := hg.tapes hsteady hg' hok.1 hgoes
  refine ⟨g', hg', hgoes.steady hg.sound hsteady honce, ?_⟩
  show chunkSeqs (r.tape ++ r.now.sent e) = g'.log.map UInt16.ofNat
  rw [chunkSeqs_append, htape, hsent, ← List.map_append, ← hlog]

theorem Steadily.once {r : Taped} {content : List Byte} (h : Steadily t0 m r) (hm : m.content = content) :
    Once t0 content r := by
  subst hm
  obtain ⟨g, hg, hsteady, htape⟩ := h
  have hcount := hg.count
  have hout := hg.outgoing
  have hoffering (hs : r.now.sender.Alone outSlot ∧ Stamped m.offering (r.now.sender.s outSlot)) {p : Prop}
      (hfree : (r.now.sender.s outSlot).state = .free) : p := by
    rw [(Terms.offering_used hs.2).1] at hfree
    cases hfree
  cases g with
  | offering n => exact ⟨hcount.trans (UInt32.add_zero _), 0, Nat.zero_le _, htape, hoffering hout⟩
  | pending n => exact ⟨hcount.trans (UInt32.add_zero _), 0, Nat.zero_le _, htape, hoffering hout⟩
  | accepted n r => exact ⟨hcount.trans (UInt32.add_zero _), 0, Nat.zero_le _, htape, hoffering hout⟩
  | running n x =>
    obtain ⟨-, hplain⟩ := hsteady
    have hnext := hg.sound.1.next_le
    have hcount : r.now.sender.nRetransmits = t0.sender.nRetransmits + UInt32.ofNat x.rewinds := hcount
    have htape : chunkSeqs r.tape = x.log.map UInt16.ofNat := htape
    rw [hplain.rewinds] at hcount
    rw [hplain.log] at htape
    refine ⟨hcount.trans (UInt32.add_zero _), x.next, Nat.le_trans hnext (Nat.min_le_left _ _), htape, fun hfree => ?_⟩
    rcases (Terms.sending_used hout.2).1 with hs | hs <;> rw [hs] at hfree <;> cases hfree
  | finished x =>
    obtain ⟨hrewinds, hlog⟩ := hsteady
    have hcount : r.now.sender.nRetransmits = t0.sender.nRetransmits + UInt32.ofNat x.rewinds := hcount
    have htape : chunkSeqs r.tape = x.log.map UInt16.ofNat := htape
    rw [hrewinds] at hcount
    rw [hlog] at htape
    exact ⟨hcount.trans (UInt32.add_zero _), m.chunks, Nat.le_refl _, htape, fun _ => rfl⟩

/-- It goes its way from the moment it is sent. -/
theorem Sent.steadily {r : Taped} {content : List Byte} (h : t.Sent content r) (hrest : t.Resting)
    (hpos : 1 ≤ content.length) (hmax : content.length ≤ t.receiver.maxInbound.toNat) :
    ∃ kind name, Steadily t (t.terms kind name content) r := by
  obtain ⟨kind, name, now, rfl⟩ := h
  have hsome := Nat.ne_of_gt hpos
  have hmail := sends_mail hrest kind name content now hsome
  have hpictured := sends_pictured hrest kind name content now hsome (terms_fit kind name hpos hmax).2
  refine ⟨kind, name, .offering 1, hpictured, Nat.le_refl 1, ?_⟩
  show chunkSeqs ([] ++ (dataSend t.sender t.addrR kind name content now).2.mail t.addrR) = []
  rw [hmail]
  rfl

/-! ## A run with one -/

/-- A stage that is reached with nothing lost and nothing late. -/
def Reached (t : Transfer) (m : Terms) (g : Stage) : Prop :=
  ∃ r, Reach (t.Sent m.content) (fun r e => Punctual r.now e) Taped.step r ∧ Pictured t m r.now g

/-- The next message is read, and nothing else is done. -/
def reads : Event := .sender (.rx (fun _ => .done) 0)
def hears : Event := .receiver (.rx (fun _ => .done) 0)
def accepts : Event := .receiver (.app (.call (.accept 4) .done .done) 0)

theorem reads_punctual (t : Transfer) : Punctual t reads := ⟨fun _ => rfl, id⟩
theorem hears_punctual (t : Transfer) : Punctual t hears := ⟨fun _ => rfl, id⟩
theorem accepts_punctual (t : Transfer) : Punctual t accepts := ⟨rfl, id⟩

/-- The stream that was offered is received from then on. -/
theorem Pictured.accepts {n : Nat} (h : Pictured t0 m t (.pending n)) :
    Pictured t0 m (t.step Transfer.accepts) (.accepted n 0) := by
  obtain ⟨g', hg', hgoes⟩ := h.receiver_app (accepts_punctual t).1
  have hoffered : (t.receiver.s inSlot).state = .offered := (Terms.opened_used h.incoming.2).1
  have hgoes : Stage.Goes m .other (.pending n) g' := hgoes
  cases hgoes with
  | accepts => exact hg'
  | stays =>
    -- it is not on offer any more
    have hstill : ((dataAccept t.receiver 4 0).s inSlot).state = .offered :=
      (Terms.opened_used hg'.incoming.2).1
    have hhandle : t.receiver.byHandle 4 = some inSlot := by
      have hused : (t.receiver.s inSlot).state ≠ .free := by
        rw [hoffered]
        decide
      exact if_neg hused
    unfold dataAccept at hstill
    simp only [hhandle, hoffered, ne_eq, not_true_eq_false, if_false, Data.sendOp_self, Data.upd_self] at hstill
    cases hstill

section

variable (hpos : m.total ≠ 0) (hlen : m.content.length < 4294967296)

include hpos hlen

theorem Reached.goes (h : Reached t m g) (e : Event) (hok : ∀ t', Punctual t' e) :
    ∃ g', Stage.Goes m e.turn g g' ∧ Reached t m g' := by
  obtain ⟨r, hr, hg⟩ := h
  obtain ⟨g', hg', hgoes⟩ := step_pictured hg hpos hlen (hok r.now).1
  exact ⟨g', hgoes.resolve_right fun hlate => (hok r.now).2 hlate.2, r.step e, hr.step e (hok r.now), hg'⟩

theorem Reached.accepted (h : Reached t m (.offering 1)) : Reached t m (.accepted 0 0) := by
  obtain ⟨g', hgoes, hg'⟩ := h.goes hpos hlen hears hears_punctual
  have hgoes : Stage.Goes m .hears (.offering 1) g' := hgoes
  cases hgoes with
  | unheard hnone => cases hnone
  | atOnce => exact hg'
  | offered =>
    obtain ⟨r, hr, hg⟩ := hg'
    exact ⟨r.step accepts, hr.step accepts (accepts_punctual r.now), hg.accepts⟩

theorem Reached.running (h : Reached t m (.accepted 0 0)) :
    Reached t m (.running 0 (Flow.start m.chunks m.window.toNat 0)) := by
  obtain ⟨g', hgoes, hg'⟩ := h.goes hpos hlen reads reads_punctual
  have hgoes : Stage.Goes m .reads (.accepted 0 0) g' := hgoes
  cases hgoes with
  | unread hnone => cases hnone
  | starts => exact hg'

variable (hwindow : m.every < m.window.toNat) (hchunks : m.every < m.chunks)

include hwindow hchunks

/-- The receiver takes the chunks it acknowledges first, while the sender waits. -/
theorem Reached.early (h : Reached t m (.accepted 0 0)) (hevery : 0 < m.every) {j : Nat} (hj : j ≤ m.every) :
    ∃ x, Reached t m (.running 0 x) ∧ Flow.Early m.chunks m.window.toNat m.every j x := by
  induction j with
  | zero => exact ⟨_, h.running hpos hlen, Flow.early_start hevery⟩
  | succ j ih =>
    obtain ⟨x, hx, hearly⟩ := ih (Nat.le_of_succ_le hj)
    obtain ⟨g', hgoes, hg'⟩ := hx.goes hpos hlen hears hears_punctual
    have hgoes : Stage.Goes m .hears (.running 0 x) g' := hgoes
    cases hgoes with
    | unheard hnone =>
      have hitems : x.items = [] := List.map_eq_nil_iff.mp hnone
      rw [hearly.items, List.range'_eq_nil_iff] at hitems
      omega
    | item echo hsome => exact ⟨_, hg', hearly.takeItem hj hwindow hchunks echo⟩

/-- The acknowledgement of them finds the sender further on. -/
theorem Reached.trails (h : Reached t m (.accepted 0 0)) (hevery : 0 < m.every) :
    ∃ r, Reach (t.Sent m.content) (fun r e => Punctual r.now e) Taped.step r ∧
      r.now.sender.nRetransmits = t.sender.nRetransmits + 1 := by
  obtain ⟨x, hx, hearly⟩ := h.early hpos hlen hwindow hchunks hevery (Nat.le_refl _)
  have hacks : x.acks = [m.every] := hearly.acks.trans (if_pos rfl)
  obtain ⟨g', hgoes, r, hr, hg'⟩ := hx.goes hpos hlen reads reads_punctual
  have hgoes : Stage.Goes m .reads (.running 0 x) g' := hgoes
  cases hgoes with
  | unread hnone =>
    obtain ⟨hnone, -⟩ := List.append_eq_nil_iff.mp hnone
    rw [hacks] at hnone
    cases hnone
  | told hnone =>
    rw [hacks] at hnone
    cases hnone
  | ack hsome =>
    have hcount : r.now.sender.nRetransmits =
        t.sender.nRetransmits + UInt32.ofNat (x.takeAck m.chunks m.window.toNat).rewinds := hg'.count
    rw [hearly.goes_back hevery hwindow hchunks] at hcount
    exact ⟨r, hr, hcount⟩

end

/-- Where the first acknowledgement comes with chunks still on the way, the sender goes
    back to it. -/
theorem trails {content : List Byte} (h : t.Resting) (hwindow : 1 < t.receiver.window.toNat)
    (hpos : 1 ≤ content.length) (hmax : content.length ≤ t.receiver.maxInbound.toNat)
    (hchunks : ackEvery t.receiver.window < chunksFor (UInt32.ofNat content.length)) : ¬ t.Unrepeated content := by
  intro honce
  have hlen : content.length < 4294967296 := Nat.lt_of_le_of_lt hmax t.receiver.maxInbound.toNat_lt
  obtain ⟨hsome, hroom⟩ := terms_fit (t := t) 0 [] hpos hmax
  have hsent : t.Sent content (Taped.step ⟨t, []⟩ (.sender (.app (.call (.send t.addrR 0 [] content) .done .done) 0))) :=
    ⟨0, [], 0, rfl⟩
  have hgranted : t.receiver.window > 0 := UInt8.lt_iff_toNat_lt.mpr (Nat.lt_trans Nat.zero_lt_one hwindow)
  have hgiven : (t.terms 0 [] content).window = t.receiver.window := if_pos hgranted
  have hevery : (t.terms 0 [] content).every = max (t.receiver.window.toNat / 2) 1 := Terms.every_eq _
  have hstart : Reached t (t.terms 0 [] content) (.offering 1) :=
    ⟨_, .init hsent, sends_pictured h 0 [] content 0 (Nat.ne_of_gt hpos) hroom⟩
  obtain ⟨r, hr, hcount⟩ := (hstart.accepted hsome hlen).trails hsome hlen (by rw [hgiven]; omega)
    (UInt16.lt_iff_toNat_lt.mp hchunks) (by omega)
  have hsame := (honce r hr).1
  rw [hcount] at hsame
  exact absurd (UInt32.add_eq_left.mp hsame) (by decide)

end Transfer

end DeskHop.Bulk
