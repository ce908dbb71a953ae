/-
  DeskHop.Bulk.LostAccept — an acceptance that is lost.

  The receiver has taken the offer and waits for chunks; the sender repeats the offer,
  which the receiver answers with an ACK (`repeated_offer_acked`), and an ACK is nothing
  to a sender whose stream is still on offer (`ack_on_offer`). So the two wait for each
  other, whatever else is sent and lost, until one of them gives the stream up
  (`lost_accept_never_recovered`): in the sample run it is the receiver, out of time,
  while the sender goes on asking (`repeated_offer_of_the_sample`).
-/

import DeskHop.Bulk.Phases

namespace DeskHop.Bulk

open DeskHop.Lib DeskHop.Wire Relation

/-! ## The receiver of an accepted stream -/

/-- Stream `id` is being received at `j`, and nothing in the outbox accepts it. -/
structure Awaits (j : Handle) (id : UInt8) (d : Data) : Prop where
  state : (d.s j).state = .receiving
  named : (d.s j).id = id
  silent : ∀ x ∈ d.out, ¬ Says opAccept id x.2

/-- So it stays, or the stream has been given up since the log was `base`. -/
def AwaitsOrGivenUp (base : List Note) (j : Handle) (id : UInt8) (d : Data) : Prop :=
  Awaits j id d ∨ ∃ r, r ≠ dataOk ∧ Since base d.notes (.received j r) id

section awaits

variable {g : Given} {base : List Note} {i j : Handle} {id : UInt8} {d d' : Data} {s : Stream}
  {msgs : List (Addr × List Byte)} {ns : List Note}

theorem AwaitsOrGivenUp.becomes (h : AwaitsOrGivenUp base j id d) (hb : Becomes d i s msgs ns d')
    (hs : i = j → Awaits j id d → s.state = .receiving ∧ s.id = (d.s i).id)
    (hm : Awaits j id d → ∀ x ∈ msgs, ¬ Says opAccept id x.2) : AwaitsOrGivenUp base j id d' := by
  rcases h with h | ⟨r, hr, h⟩
  · left
    have hout : ∀ x ∈ d'.out, ¬ Says opAccept id x.2 := by
      intro x hx
      rw [hb.out] at hx
      rcases List.mem_append.mp hx with hx | hx
      · exact h.silent x hx
      · exact hm h x hx
    by_cases hij : j = i
    · subst hij
      obtain ⟨hst, hid⟩ := hs rfl h
      exact ⟨by rw [hb.self]; exact hst, by rw [hb.self, hid]; exact h.named, hout⟩
    · exact ⟨by rw [hb.ne hij]; exact h.state, by rw [hb.ne hij]; exact h.named, hout⟩
  · exact Or.inr ⟨r, hr, h.mono ⟨_, hb.notes.symm⟩⟩

/-- No message accepts anything but an ACCEPT. -/
theorem no_accept {peer : Addr} {op : Byte} {id' : UInt8} {extra : List Byte} (h : op ≠ opAccept) :
    ∀ x ∈ [(peer, op :: id' :: extra)], ¬ Says opAccept id x.2 := by
  intro x hx
  rw [List.mem_singleton.mp hx]
  exact fun hmsg => h hmsg.1

theorem no_accept_nil : ∀ x ∈ ([] : List (Addr × List Byte)), ¬ Says opAccept id x.2 :=
  fun _ hx => absurd hx List.not_mem_nil

theorem AwaitsOrGivenUp.ends {r : Byte} (h : AwaitsOrGivenUp base j id d) (hsorted : d.Sorted) (hi : Inbox g.src d)
    (hbase : base <+: d.notes) (hb : Becomes d i .zero msgs [endNote (d.s i) i r] d') (hr : i = j → Awaits j id d → r ≠ dataOk)
    (hm : ∀ x ∈ msgs, ¬ Says opAccept id x.2) : AwaitsOrGivenUp base j id d' := by
  by_cases hij : i = j
  · subst hij
    rcases h with h | ⟨r, hr, h⟩
    · refine Or.inr ⟨r, hr rfl h, ?_⟩
      have hin := ((hsorted i).inbound (Or.inr h.state)).1
      rw [hb.notes, endNote, if_neg (by rw [hin]; decide)]
      exact since_snoc hbase (h.named ▸ hi.logged i (Or.inr h.state))
    · exact Or.inr ⟨r, hr, h.mono ⟨_, hb.notes.symm⟩⟩
  · exact h.becomes hb (fun h => absurd h hij) fun _ => hm

theorem CallMove.awaits {calm : Prop} {held : Option Handle} {now : Time} (hm : CallMove calm held now d d')
    (hsorted : d.Sorted) (hi : Inbox g.src d) (hbase : base <+: d.notes) (h : AwaitsOrGivenUp base j id d) :
    AwaitsOrGivenUp base j id d' := by
  cases hm with
  | @accept _ i hs hb =>
    refine h.becomes hb (fun _ _ => ⟨rfl, rfl⟩) fun ha x hx hmsg => ?_
    -- the stream accepted is another one, of another id
    rw [List.mem_singleton.mp hx] at hmsg
    have hij := hi.unique i j (Or.inl hs) (Or.inr ha.state) (hmsg.2.trans ha.named.symm)
    rw [hij, ha.state] at hs
    cases hs
  | reject hs hb =>
    refine h.becomes hb (fun hij ha => ?_) fun _ => no_accept (by decide)
    subst hij
    rw [ha.state] at hs
    cases hs
  | cancel _ _ hb => exact h.ends hsorted hi hbase hb (fun _ _ => by decide) (no_accept (by decide))
  | fail => exact h.imp (fun ha => ⟨ha.state, ha.named, ha.silent⟩) fun hg => hg
  | @send _ i s hfree _ hout hnotes =>
    rcases h with h | ⟨r, hr, h⟩
    · left
      have hji : j ≠ i := by
        rintro rfl
        have hzero := Data.slotFree_some _ hfree
        rw [h.state] at hzero
        cases hzero
      refine ⟨by rw [hout.1, Function.update_of_ne hji]; exact h.state,
        by rw [hout.1, Function.update_of_ne hji]; exact h.named, fun x hx => ?_⟩
      rw [hout.2] at hx
      rcases List.mem_append.mp hx with hx | hx
      · exact h.silent x hx
      · exact no_accept (by decide) x hx
    · exact Or.inr ⟨r, hr, h.mono ⟨_, hnotes.symm⟩⟩

theorem Move.awaits {m m' : Mid} (hm : Move g m m') (hh : Heard g id m) (hchunk : ¬ g.brings opChunk id)
    (hsober : ∀ p, g.payload = some p → Sober p) (hbase : base <+: m.d.notes) (h : AwaitsOrGivenUp base j id m.d) :
    AwaitsOrGivenUp base j id m'.d := by
  cases hm with
  | call hm => exact hm.awaits hh.sorted hh.inbox hbase h
  | stamp _ hb =>
    refine h.becomes hb (fun hij ha => ?_) fun _ => no_accept_nil
    subst hij
    exact ⟨ha.state, rfl⟩
  | decline _ _ hs _ hb =>
    refine h.becomes hb (fun hij ha => ?_) fun _ => no_accept (by decide)
    subst hij
    rcases hs with rfl | ⟨hfree, -⟩
    · exact ⟨ha.state, rfl⟩
    · rw [ha.state] at hfree
      cases hfree
  | opened _ _ _ hfree _ _ hb =>
    refine h.becomes hb (fun hij ha => ?_) fun _ => no_accept_nil
    subst hij
    have hzero := Data.slotFree_some _ hfree
    rw [ha.state] at hzero
    cases hzero
  | ack hs hb =>
    refine h.becomes hb (fun hij ha => ?_) fun _ => no_accept (by decide)
    exact ⟨hs, rfl⟩
  | hand _ _ _ hs _ hb => exact h.becomes hb (fun _ _ => ⟨hs, rfl⟩) fun _ => no_accept_nil
  | count hs _ hb =>
    subst hs
    exact h.becomes hb (fun hij ha => by subst hij; exact ⟨ha.state, rfl⟩) fun _ => no_accept_nil
  | @verdict d _ i s _ hs _ hb =>
    -- a verdict comes of a chunk, and none has come for this stream
    have hheld := hh.held i s rfl
    refine h.becomes hb (fun hij ha => ?_) fun _ => no_accept (by decide)
    subst hij
    rcases hs with hs | hs
    · have hid := ha.named
      rw [hs] at hid
      exact absurd (hid ▸ hheld.said) hchunk
    · have hst := ha.state
      rw [hs] at hst
      cases hst
  | quit _ hr hmsgs hb =>
    refine h.ends hh.sorted hh.inbox hbase hb (fun _ _ => hr) ?_
    rcases hmsgs with rfl | rfl
    · exact no_accept_nil
    · exact no_accept (by decide)
  | @told d _ i p r hp hop haddr hsame hr hb =>
    subst hr
    refine h.ends hh.sorted hh.inbox hbase hb (fun hij ha => ?_) no_accept_nil
    rcases hop with hop | hop | hop
    · exact hsober p hp (Or.inl hop)
    · -- a DONE is for a stream that goes out
      rw [hop] at haddr
      have hhalf : i ∈ Data.half true := slotFind_half haddr
      subst hij
      exact absurd hhalf (half_disjoint ((hh.sorted i).inbound (Or.inr ha.state)).2)
    · exact hsober p hp (Or.inr hop)
  | steer hs hb =>
    refine h.becomes hb (fun hij ha => ?_) fun _ => no_accept_nil
    subst hij
    rw [ha.state] at hs
    rcases hs with ⟨hs, -⟩ | hs | hs <;> cases hs
  | push hs hb =>
    refine h.becomes hb (fun hij ha => ?_) fun _ => no_accept (by decide)
    subst hij
    exact ⟨ha.state, rfl⟩
  | drain hs hb =>
    refine h.becomes hb (fun hij ha => ?_) fun _ => no_accept_nil
    subst hij
    rw [ha.state] at hs
    cases hs
  | offer hs hb =>
    refine h.becomes hb (fun hij ha => ?_) fun _ => no_accept (by decide)
    subst hij
    exact ⟨ha.state, rfl⟩

end awaits

theorem Moves.awaits {g : Given} {d' : Data} (hm : Moves g g.start d') (hsober : ∀ p, g.payload = some p → Sober p)
    (hsorted : g.start.Sorted) (hi : Inbox g.src g.start) (hout : g.start.out = []) {j : Handle} {id : UInt8}
    (hid : id ≠ 0) (hchunk : ¬ g.brings opChunk id) (hs : (g.start.s j).state = .receiving ∧ (g.start.s j).id = id) :
    AwaitsOrGivenUp g.start.notes j id d' := by
  have h0 : Heard g id ⟨g.start, none⟩ := Moves.heard .refl hid hsober hsorted hi hout
  have ha : Awaits j id g.start := by
    refine ⟨hs.1, hs.2, fun x hx => ?_⟩
    rw [hout] at hx
    exact absurd hx List.not_mem_nil
  have hall := moves_keep hm
    (P := fun m => Heard g id m ∧ g.start.notes <+: m.d.notes ∧ AwaitsOrGivenUp g.start.notes j id m.d)
    (fun _ _ hstep ih => ?_) ⟨h0, List.prefix_refl _, Or.inl ha⟩
  · exact hall.2.2
  · exact ⟨hstep.heard hid hsober ih.1, ih.2.1.trans hstep.grown, hstep.awaits ih.1 hchunk hsober ih.2.1 ih.2.2⟩

/-! ## What the two say to each other -/

/-- The answer to a repeated offer of a stream being received. -/
theorem repeated_offer_acked {d : Data} {f : Frame} {j : Handle} (hdata : f.type = msgData)
    (hlen : offerFixed ≤ f.payload.length) (hop : byteAt f.payload 0 = opOffer)
    (hfind : d.slotFind f.src (byteAt f.payload 1) false = some j) (hs : (d.s j).state = .receiving) (now : Time)
    (app : Fin 2 → App) : dataRx d f now app = sendAck d j now := by
  rw [offerFixed] at hlen
  unfold dataRx
  rw [if_neg (by simp [hdata]; omega), if_pos hop]
  simp only [rxOffer]
  rw [if_neg (by rw [List.length_drop, offerFixed]; omega), hfind]
  exact if_pos hs

/-- It only winds up the clock of a stream still on offer. -/
theorem ack_on_offer {d : Data} {f : Frame} {i : Handle} (hdata : f.type = msgData) (hlen : 2 ≤ f.payload.length)
    (hop : byteAt f.payload 0 = opAck) (hfind : d.slotFind f.src (byteAt f.payload 1) true = some i)
    (hs : (d.s i).state = .offering) (now : Time) (app : Fin 2 → App) :
    dataRx d f now app = d.upd i fun s => { s with lastRx := now, retries := 0 } := by
  have haddr : d.addressee f.src (byteAt f.payload 1) (byteAt f.payload 0) = some i := by
    rw [hop]
    exact hfind
  have hst : ((d.upd i fun s => { s with lastRx := now, retries := 0 }).s i).state = .offering := by
    rw [Data.upd_self]
    exact hs
  unfold dataRx
  rw [if_neg (by simp [hdata]; omega), hop, if_neg (by decide)]
  rw [hop] at haddr
  rw [haddr]
  refine if_neg ?_
  rw [hst]
  rintro ⟨-, h | h⟩ <;> cases h

namespace Transfer

/-! ## Waiting for each other -/

/-- The receiver has accepted the stream that the sender still has on offer, and no
    acceptance is on its way. -/
structure AcceptLost (t : Transfer) (i j : Handle) (id : UInt8) : Prop where
  offered : (t.sender.s i).state = .offering ∧ (t.sender.s i).id = id ∧ (t.sender.s i).peer = t.addrR
  accepted : (t.receiver.s j).state = .receiving ∧ (t.receiver.s j).id = id
  lost : ∀ p ∈ t.toS, ¬ Says opAccept id p

/-- Between `t` and `t'` one of them has ended the stream, and not as sound. -/
def GivenUp (t t' : Transfer) (id : UInt8) : Prop :=
  ∃ k r, r ≠ dataOk ∧
    (Since t.sender.notes t'.sender.notes (.sent k r) id ∨ Since t.receiver.notes t'.receiver.notes (.received k r) id)

theorem AcceptLost.silent {t : Transfer} {i j : Handle} {id : UInt8} (h : AcceptLost t i j id) (hi : Phased t) :
    id ≠ 0 ∧ (∀ p ∈ t.toR, ¬ Says opChunk id p) ∧ (∀ p ∈ t.toS, ¬ Says opDone id p) ∧
      (∀ r, ¬ Sent t.sender.notes id r) ∧ ¬ Reported t.receiver.notes id := by
  obtain ⟨hst, rfl, -⟩ := h.offered
  have hgo : (t.sender.s i).goesOut := Or.inl hst
  have hid := (hi.issued.ids i hgo).1
  have hp := hi.phase _ hid
  have hfresh := hp.fresh (Or.inr ⟨i, hst, rfl⟩)
  exact ⟨hid, hfresh.1, fun p hmem hmsg => hfresh.2 (hp.done p hmem hmsg), hi.ledger.pending i hgo,
    fun hr => hfresh.2 (hp.reported hr).1⟩

theorem GivenUp.later {t t' t'' : Transfer} {id : UInt8} (h : GivenUp t t' id)
    (hs : t'.sender.notes <+: t''.sender.notes) (hr : t'.receiver.notes <+: t''.receiver.notes) : GivenUp t t'' id := by
  obtain ⟨k, r, hne, h⟩ := h
  exact ⟨k, r, hne, h.imp (fun h => h.mono hs) fun h => h.mono hr⟩

theorem step_grown {t : Transfer} (hi : Phased t) (e : Event) :
    t.sender.notes <+: (t.step e).sender.notes ∧ t.receiver.notes <+: (t.step e).receiver.notes := by
  cases e with
  | sender e => exact ⟨(turn_moves hi.senderSorted t.toS t.addrR t.addrS e).grown, List.prefix_refl _⟩
  | receiver e => exact ⟨List.prefix_refl _, (turn_moves hi.receiverSorted t.toR t.addrS t.addrR e).grown⟩
  | loseToR => exact ⟨List.prefix_refl _, List.prefix_refl _⟩
  | loseToS => exact ⟨List.prefix_refl _, List.prefix_refl _⟩

/-- A turn leaves them waiting, or one of them gives up in it. -/
theorem AcceptLost.step {t : Transfer} {i j : Handle} {id : UInt8} (h : AcceptLost t i j id) (hi : Phased t) {e : Event}
    (hn : Numbered t e) : AcceptLost (t.step e) i j id ∨ GivenUp t (t.step e) id := by
  obtain ⟨hid, hchunk, hdone, hpending, -⟩ := h.silent hi
  cases e with
  | sender e =>
    have hmoves := turn_moves hi.senderSorted t.toS t.addrR t.addrS e
    have hsober : ∀ p, (given t.sender t.toS t.addrR e).payload = some p → Sober p :=
      fun p hp => hi.soberS p (given_mem hp)
    have haccept : ¬ (given t.sender t.toS t.addrR e).brings opAccept id := by
      intro hb
      obtain ⟨p, rest, hinbox, -, hmsg⟩ := given_brings hb
      exact h.lost p (hinbox ▸ List.mem_cons_self) hmsg
    have hgoes := hmoves.goes hn hsober hi.senderSorted hi.issued hi.ledger (fun _ : True => haccept)
      ⟨Or.inl h.offered.1, h.offered.2.1, h.offered.2.2, fun _ => h.offered.1⟩
    rcases hgoes with hgo | ⟨r, hsince⟩
    · exact Or.inl ⟨⟨hgo.offer trivial, hgo.id, hgo.peer⟩, h.accepted,
        fun p hp => h.lost p ((unread_sublist _ _).subset hp)⟩
    · refine Or.inr ⟨i, r, ?_, Or.inl hsince⟩
      rintro rfl
      have htells := hmoves.tells hn hsober hi.senderSorted hi.issued hi.ledger
      rcases htells.sound id hsince.sent with hs | hb
      · exact hpending _ hs
      · obtain ⟨p, rest, hinbox, -, hmsg⟩ := given_brings hb
        exact hdone p (hinbox ▸ List.mem_cons_self) hmsg
  | receiver e =>
    have hmoves := turn_moves hi.receiverSorted t.toR t.addrS t.addrR e
    have hnone : ¬ (given t.receiver t.toR t.addrS e).brings opChunk id := by
      intro hb
      obtain ⟨p, rest, hinbox, -, hmsg⟩ := given_brings hb
      exact hchunk p (hinbox ▸ List.mem_cons_self) hmsg
    have hawaits := hmoves.awaits (fun p hp => hi.soberR p (given_mem hp)) hi.receiverSorted hi.inbox hi.posted.2 hid
      hnone h.accepted
    rcases hawaits with ha | ⟨r, hr, hsince⟩
    · refine Or.inl ⟨h.offered, ⟨ha.state, ha.named⟩, fun p hp => ?_⟩
      rcases List.mem_append.mp hp with hp | hp
      · exact h.lost p hp
      · obtain ⟨x, hx, rfl⟩ := mem_mail hp
        exact ha.silent x hx
    · exact Or.inr ⟨j, r, hr, Or.inr hsince⟩
  | loseToR k => exact Or.inl ⟨h.offered, h.accepted, h.lost⟩
  | loseToS k => exact Or.inl ⟨h.offered, h.accepted, fun p hp => h.lost p (List.mem_of_mem_eraseIdx hp)⟩

theorem GivenUp.since {t t' t'' : Transfer} {id : UInt8} (h : GivenUp t' t'' id)
    (hs : t.sender.notes <+: t'.sender.notes) (hr : t.receiver.notes <+: t'.receiver.notes) : GivenUp t t'' id := by
  obtain ⟨k, r, hne, h⟩ := h
  exact ⟨k, r, hne, h.imp (fun h => h.earlier hs) fun h => h.earlier hr⟩

theorem run_grown {t : Transfer} (hi : Phased t) (es : List Event) (hes : Reach.Admitted Numbered step t es) :
    t.sender.notes <+: (es.foldl step t).sender.notes ∧ t.receiver.notes <+: (es.foldl step t).receiver.notes := by
  induction es generalizing t with
  | nil => exact ⟨List.prefix_refl _, List.prefix_refl _⟩
  | cons e es ih =>
    have hstep := step_grown hi e
    have hrest := ih (step_phased hi hes.1) hes.2
    exact ⟨hstep.1.trans hrest.1, hstep.2.trans hrest.2⟩

/-- Whatever is sent and lost from there on: until one of them gives the stream up, the
    sender has it on offer and neither is told of a success. -/
theorem lost_accept_never_recovered {t : Transfer} (h : Reach Opened Numbered step t) {i j : Handle} {id : UInt8}
    (hlost : AcceptLost t i j id) (es : List Event) (hes : Reach.Admitted Numbered step t es) :
    GivenUp t (es.foldl step t) id ∨
      AcceptLost (es.foldl step t) i j id ∧ (∀ r, ¬ Sent (es.foldl step t).sender.notes id r) ∧
        ¬ Reported (es.foldl step t).receiver.notes id := by
  have hi := reach_phased h
  clear h
  induction es generalizing t with
  | nil => exact Or.inr ⟨hlost, (hlost.silent hi).2.2.2⟩
  | cons e es ih =>
    have hi' := step_phased hi hes.1
    have hgrown := step_grown hi e
    rcases hlost.step hi hes.1 with hlost' | hgiven
    · exact (ih hlost' hes.2 hi').imp_left fun hg => hg.since hgrown.1 hgrown.2
    · have hrest := run_grown hi' es hes.2
      exact Or.inl (hgiven.later hrest.1 hrest.2)

/-! ## A run -/

def idleTick : Handle → Script := fun _ => .done

/-- Offered and accepted; the acceptance is lost. -/
def acceptedUnheard : List Event :=
  [.sender (.app (.call (.send 2 0 [] sampleContent) .done .done) 1000),
    .receiver (.rx (fun _ => .call (.accept inbound) .done .done) 1001), .loseToS 0]

/-- The sender's timer, and what it brings about on either side. -/
def askAgain (now1 now2 now3 : Time) : List Event :=
  [.sender (.tick idleTick now1), .receiver (.rx idle now2), .sender (.rx idle now3)]

theorem acceptedUnheard_reached : Reach Opened Numbered step (acceptedUnheard.foldl step sampleTransfer) :=
  Reach.run (.init sampleTransfer_opened) acceptedUnheard (by decide +kernel)

theorem acceptedUnheard_lost : AcceptLost (acceptedUnheard.foldl step sampleTransfer) 0 4 1 := by
  refine ⟨by decide +kernel, by decide +kernel, fun p hp => ?_⟩
  have hnil : (acceptedUnheard.foldl step sampleTransfer).toS = [] := by decide +kernel
  rw [hnil] at hp
  exact absurd hp List.not_mem_nil

theorem lost_accept_never_recovered_after_another_offer :
    AcceptLost ((askAgain 2101 2102 2103).foldl step (acceptedUnheard.foldl step sampleTransfer)) 0 4 1 := by
  rcases lost_accept_never_recovered acceptedUnheard_reached acceptedUnheard_lost (askAgain 2101 2102 2103)
    (by decide +kernel) with ⟨_, _, -, h | h⟩ | h
  · exact absurd h.longer (by decide +kernel)
  · exact absurd h.longer (by decide +kernel)
  · exact h.1

/-- The next offer arrives, its answer does, and the stream is still on offer. -/
theorem repeated_offer_of_the_sample : ¬ ∀ (t : Transfer) (i j : Handle) (id : UInt8),
    Reach Opened Numbered step t → AcceptLost t i j id → t.toR = [] → t.toS = [] →
    ∀ now1 now2 now3, (t.step (.sender (.tick idleTick now1))).toR ≠ [] →
      (((askAgain now1 now2 now3).foldl step t).sender.s i).state ≠ .offering := by
  intro h
  exact h _ 0 4 1 acceptedUnheard_reached acceptedUnheard_lost (by decide +kernel) (by decide +kernel) 2101 2102 2103
    (by decide +kernel) (by decide +kernel)

end Transfer

end DeskHop.Bulk
