/-
  DeskHop.Bulk.Phases — the life of one stream id between two endpoints.

  Both applications are free, and the channel loses messages but keeps their order; all
  that is asked is that ids have not come round (`Transfer.Numbered`). An id is first on
  offer: no chunk of it has been sent. Once a chunk has arrived no offer of it is on the
  way any more, so its stream is not opened again, and it is reported sound, or spoken
  of in a DONE, only after that (`reach_phased`).
-/

import DeskHop.Bulk.Ledger
import DeskHop.Bulk.GoBackN

namespace DeskHop.Bulk

open DeskHop.Lib DeskHop.Wire

namespace Transfer

/-- Stream ids have not come round. -/
def Numbered (t : Transfer) : Event → Prop
  | .sender e => (t.step (.sender e)).sender.sends < 255
  | _ => True

instance (t : Transfer) : (e : Event) → Decidable (Numbered t e)
  | .sender e => inferInstanceAs (Decidable ((t.step (.sender e)).sender.sends < 255))
  | .receiver _ | .loseToR _ | .loseToS _ => isTrue trivial

/-- Where a stream id has got to. -/
structure Phase (t : Transfer) (id : UInt8) : Prop where
  fresh : Fresh t.sender id → (∀ p ∈ t.toR, ¬ Says opChunk id p) ∧ ¬ Started t.receiver.notes id
  order : InOrder id t.toR
  started : Started t.receiver.notes id → ∀ p ∈ t.toR, ¬ Says opOffer id p
  reported : Reported t.receiver.notes id → Started t.receiver.notes id ∧ ¬ Receives t.receiver id
  done : ∀ p ∈ t.toS, Says opDone id p → Started t.receiver.notes id

structure Phased (t : Transfer) : Prop where
  senderSorted : t.sender.Sorted
  receiverSorted : t.receiver.Sorted
  issued : Issued t.sender
  ledger : Ledger t.sender
  inbox : Inbox t.addrS t.receiver
  posted : t.sender.out = [] ∧ t.receiver.out = []
  soberR : ∀ p ∈ t.toR, Sober p
  soberS : ∀ p ∈ t.toS, Sober p
  phase : ∀ id, id ≠ 0 → Phase t id

end Transfer

/-! ## Turns -/

theorem mem_mail {d : Data} {peer : Addr} {p : List Byte} (h : p ∈ d.mail peer) : ∃ x ∈ d.out, x.2 = p := mail_mem h

theorem given_brings {d : Data} {inbox : List (List Byte)} {src : Addr} {e : Act} {op : Byte} {id : UInt8}
    (h : (given d inbox src e).brings op id) : ∃ p rest, inbox = p :: rest ∧ unread inbox e = rest ∧ Says op id p := by
  obtain ⟨p, hp, hmsg⟩ := h
  cases e with
  | app => cases hp
  | tick => cases hp
  | rx =>
    cases inbox with
    | nil => cases hp
    | cons q rest =>
      cases hp
      exact ⟨p, rest, rfl, rfl, hmsg⟩

theorem given_mem {d : Data} {inbox : List (List Byte)} {src : Addr} {e : Act} {p : List Byte}
    (h : (given d inbox src e).payload = some p) : p ∈ inbox := by
  cases e with
  | app => cases h
  | tick => cases h
  | rx => exact List.mem_of_mem_head? h

namespace Transfer

theorem opened_phased {t : Transfer} (h : Opened t) : Phased t := by
  obtain ⟨⟨hs1, hn1, hc1, ho1, hl1⟩, ⟨hs2, -, -, ho2, hl2⟩, htoR, htoS⟩ := h
  have hzero1 : ∀ k, t.sender.s k = .zero := fun k => by rw [hs1]; rfl
  have hzero2 : ∀ k, t.receiver.s k = .zero := fun k => by rw [hs2]; rfl
  have hnot : ¬ ∃ id, Started t.receiver.notes id := by
    rintro ⟨_, pre, n, post, hnotes, -⟩
    rw [hl2] at hnotes
    exact absurd hnotes.symm (List.append_ne_nil_of_right_ne_nil _ (List.cons_ne_nil _ _))
  have hsent : ¬ ∃ id r, Sent t.sender.notes id r := by
    rintro ⟨_, _, pre, n, post, hnotes, -⟩
    rw [hl1] at hnotes
    exact absurd hnotes.symm (List.append_ne_nil_of_right_ne_nil _ (List.cons_ne_nil _ _))
  refine ⟨fun k => hzero1 k ▸ sided_zero k, fun k => hzero2 k ▸ sided_zero k, ⟨?_, fun k hk => ?_, fun k l hk => ?_⟩,
    ⟨fun k hk => ?_, fun k _ r hr => hsent ⟨_, r, hr⟩, fun id _ r hr => hsent ⟨id, r, hr⟩⟩,
    ⟨fun k hk => ?_, fun k l hk => ?_, fun k hk => ?_⟩, ⟨ho1, ho2⟩, ?_, ?_, fun id _ => ⟨fun _ => ⟨?_, ?_⟩, ?_, ?_, ?_, ?_⟩⟩
  · rw [hn1, hc1]
    decide
  · rw [hzero1] at hk
    exact absurd hk not_goesOut_zero
  · rw [hzero1] at hk
    exact absurd hk not_goesOut_zero
  · rw [hzero1] at hk
    exact absurd hk not_goesOut_zero
  · rw [hzero2] at hk
    exact absurd hk not_comesIn_zero
  · rw [hzero2] at hk
    exact absurd hk not_comesIn_zero
  · rw [hzero2] at hk
    exact absurd hk not_comesIn_zero
  · rw [htoR]
    exact fun _ hp => absurd hp List.not_mem_nil
  · rw [htoS]
    exact fun _ hp => absurd hp List.not_mem_nil
  · rw [htoR]
    exact fun _ hp => absurd hp List.not_mem_nil
  · exact fun hst => hnot ⟨id, hst⟩
  · rw [htoR]
    exact List.Pairwise.nil
  · exact fun hst => absurd ⟨id, hst⟩ hnot
  · rintro ⟨pre, h, post, hnotes, -⟩
    rw [hl2] at hnotes
    exact absurd hnotes.symm (List.append_ne_nil_of_right_ne_nil _ (List.cons_ne_nil _ _))
  · rw [htoS]
    exact fun _ hp => absurd hp List.not_mem_nil

theorem unread_sublist (inbox : List (List Byte)) (e : Act) : (unread inbox e).Sublist inbox := by
  cases e with
  | app => exact List.Sublist.refl _
  | tick => exact List.Sublist.refl _
  | rx => exact List.tail_sublist inbox

theorem sender_phase {t : Transfer} (hi : Phased t) {e : Act} (hn : Numbered t (.sender e)) {id : UInt8} (hid : id ≠ 0) :
    Phase (t.step (.sender e)) id := by
  have hmoves := turn_moves hi.senderSorted t.toS t.addrR t.addrS e
  have hspeaks := hmoves.speaks hn hi.issued hi.posted.1 id
  have hp := hi.phase id hid
  have hmail : ∀ q ∈ (turn t.sender t.toS t.addrR t.addrS e).mail t.addrR,
      ∃ x ∈ (turn t.sender t.toS t.addrR t.addrS e).out, x.2 = q := fun q hq => mem_mail hq
  refine ⟨fun hf => ?_, ?_, fun hst q hq => ?_, hp.reported, fun q hq => hp.done q ((unread_sublist _ _).subset hq)⟩
  · obtain ⟨h0, hout⟩ := hspeaks.spoken.fresh hf
    refine ⟨fun q hq => ?_, (hp.fresh h0).2⟩
    rcases List.mem_append.mp hq with hq | hq
    · exact (hp.fresh h0).1 q hq
    · obtain ⟨x, hx, rfl⟩ := hmail q hq
      exact hout x hx
  · refine hp.order.append (hspeaks.spoken.order.sublist (List.filter_sublist.map _)) ?_
    by_cases hoffer : ∃ q ∈ (turn t.sender t.toS t.addrR t.addrS e).mail t.addrR, Says opOffer id q
    · obtain ⟨q, hq, hmsg⟩ := hoffer
      obtain ⟨x, hx, rfl⟩ := hmail q hq
      exact Or.inr (hp.fresh (hspeaks.spoken.offer x hx hmsg)).1
    · exact Or.inl fun q hq hmsg => hoffer ⟨q, hq, hmsg⟩
  · rcases List.mem_append.mp hq with hq | hq
    · exact hp.started hst q hq
    · intro hmsg
      obtain ⟨x, hx, rfl⟩ := hmail q hq
      exact (hp.fresh (hspeaks.spoken.offer x hx hmsg)).2 hst

theorem receiver_phase {t : Transfer} (hi : Phased t) (e : Act) {id : UInt8} (hid : id ≠ 0) :
    Phase (t.step (.receiver e)) id := by
  have hmoves := turn_moves hi.receiverSorted t.toR t.addrS t.addrR e
  have hheard := hmoves.heard hid (fun p hp => hi.soberR p (given_mem hp)) hi.receiverSorted hi.inbox hi.posted.2
  have hp := hi.phase id hid
  have hsub : ∀ q ∈ unread t.toR e, q ∈ t.toR := fun q hq => (unread_sublist _ _).subset hq
  have hgrown : Started t.receiver.notes id → Started (turn t.receiver t.toR t.addrS t.addrR e).notes id :=
    Started.mono hmoves.grown
  refine ⟨fun hf => ⟨fun q hq => (hp.fresh hf).1 q (hsub q hq), fun hst => ?_⟩, hp.order.sublist (unread_sublist _ _),
    fun hst q hq => ?_, fun hr => ?_, fun q hq hdone => ?_⟩
  · rcases hheard.started hst with hst | hmsg
    · exact (hp.fresh hf).2 hst
    · obtain ⟨p, rest, hinbox, -, hmsg⟩ := given_brings hmsg
      exact (hp.fresh hf).1 p (hinbox ▸ List.mem_cons_self) hmsg
  · rcases hheard.started hst with hst | hmsg
    · exact hp.started hst q (hsub q hq)
    · -- the chunk that starts it comes after every offer
      obtain ⟨p, rest, hinbox, hrest, hmsg⟩ := given_brings hmsg
      have horder := hp.order
      rw [hinbox] at horder
      exact (List.pairwise_cons.mp horder).1 q (hrest ▸ hq) hmsg
  · rcases hheard.reported hr with hr | ⟨-, hst, hnone⟩
    · obtain ⟨hst, hnone⟩ := hp.reported hr
      refine ⟨hgrown hst, fun hrec => ?_⟩
      rcases hheard.receives hrec with hrec | hmsg
      · exact hnone hrec
      · obtain ⟨p, rest, hinbox, -, hmsg⟩ := given_brings hmsg
        exact hp.started hst p (hinbox ▸ List.mem_cons_self) hmsg
    · exact ⟨hst, hnone⟩
  · rcases List.mem_append.mp hq with hq | hq
    · exact hgrown (hp.done q hq hdone)
    · obtain ⟨x, hx, rfl⟩ := mem_mail hq
      exact (hheard.done x hx hdone).2

theorem mail_sober {d : Data} (h : SoberOut d) (peer : Addr) : ∀ p ∈ d.mail peer, Sober p := by
  intro p hp
  obtain ⟨x, hx, rfl⟩ := mem_mail hp
  exact h x hx

theorem step_phased {t : Transfer} (hi : Phased t) {e : Event} (hn : Numbered t e) : Phased (t.step e) := by
  cases e with
  | sender e =>
    have hmoves := turn_moves hi.senderSorted t.toS t.addrR t.addrS e
    have htells := hmoves.tells hn (fun p hp => hi.soberS p (given_mem hp)) hi.senderSorted hi.issued hi.ledger
    refine ⟨htells.sorted, hi.receiverSorted, ⟨htells.issued.next, htells.issued.ids, htells.issued.unique⟩,
      ⟨htells.ledger.logged, htells.ledger.pending, htells.ledger.next⟩, hi.inbox, ⟨rfl, hi.posted.2⟩, fun p hp => ?_,
      fun p hp => hi.soberS p ((unread_sublist _ _).subset hp), fun id hid => sender_phase hi hn hid⟩
    · rcases List.mem_append.mp hp with hp | hp
      · exact hi.soberR p hp
      · exact mail_sober (hmoves.sober hi.posted.1) _ p hp
  | receiver e =>
    have hmoves := turn_moves hi.receiverSorted t.toR t.addrS t.addrR e
    have hheard := hmoves.heard (by decide : (1 : UInt8) ≠ 0) (fun p hp => hi.soberR p (given_mem hp))
      hi.receiverSorted hi.inbox hi.posted.2
    refine ⟨hi.senderSorted, hheard.sorted, hi.issued, hi.ledger, ⟨hheard.inbox.peers, hheard.inbox.unique, hheard.inbox.logged⟩,
      ⟨hi.posted.1, rfl⟩, fun p hp => hi.soberR p ((unread_sublist _ _).subset hp), fun p hp => ?_,
      fun id hid => receiver_phase hi e hid⟩
    rcases List.mem_append.mp hp with hp | hp
    · exact hi.soberS p hp
    · exact mail_sober (hmoves.sober hi.posted.2) _ p hp
  | loseToR k =>
    have hsub : (t.toR.eraseIdx k).Sublist t.toR := List.eraseIdx_sublist _ _
    refine ⟨hi.senderSorted, hi.receiverSorted, hi.issued, hi.ledger, hi.inbox, hi.posted, fun p hp => hi.soberR p (hsub.subset hp),
      hi.soberS, fun id hid => ?_⟩
    have hp := hi.phase id hid
    exact ⟨fun hf => ⟨fun q hq => (hp.fresh hf).1 q (hsub.subset hq), (hp.fresh hf).2⟩, hp.order.sublist hsub,
      fun hst q hq => hp.started hst q (hsub.subset hq), hp.reported, hp.done⟩
  | loseToS k =>
    have hsub : (t.toS.eraseIdx k).Sublist t.toS := List.eraseIdx_sublist _ _
    refine ⟨hi.senderSorted, hi.receiverSorted, hi.issued, hi.ledger, hi.inbox, hi.posted, hi.soberR,
      fun p hp => hi.soberS p (hsub.subset hp), fun id hid => ?_⟩
    have hp := hi.phase id hid
    exact ⟨hp.fresh, hp.order, hp.started, hp.reported, fun q hq => hp.done q (hsub.subset hq)⟩

/-- In every run, whatever is sent, cancelled and lost. -/
theorem reach_phased {t : Transfer} (h : Reach Opened Numbered step t) : Phased t :=
  h.inv (fun _ => opened_phased) fun _ _ hi hn => step_phased hi hn

end Transfer

end DeskHop.Bulk
