/-
  DeskHop.Bulk.Outgoing — the turns of an endpoint whose one stream goes out.

  The stream is where a flow has the sender (`Terms.sending`), give or take its times. An
  ACCEPT starts the flow (`rx_accept`), an ACK is an acknowledgement of it (`rx_ack`), and
  a tick sends it back to where it is acknowledged at most (`tick_sending`).
-/

import DeskHop.Bulk.Alone

namespace DeskHop.Bulk

open DeskHop.Lib DeskHop.Wire

namespace Terms

variable {m : Terms} {d : Data} {x : Flow} {now : Time}

theorem toNat_ofNat {n : Nat} (h : n < 65536) : (UInt16.ofNat n).toNat = n := by
  rw [UInt16.toNat_ofNat', Nat.mod_eq_of_lt h]

/-- The window is filled. -/
theorem pumped (d : Data) (now : Time) (hx : x.Ready m.chunks m.window.toNat m.every) (hs : Stamped (m.steering x) (d.s outSlot)) :
    ∃ s', Stamped (m.sending (x.pump m.chunks m.window.toNat)) s' ∧
      pumpSender d outSlot now = d.after outSlot s' ((x.burst m.chunks m.window.toNat).map m.chunk) := by
  obtain ⟨lastRx, _, retries, hs⟩ := hs
  have hchunks := m.chunks_lt
  have hnext := hx.next_le
  have hacked := hx.acked_next
  have hn : (UInt16.ofNat x.next).toNat = x.next := toNat_ofNat (by omega)
  have ha : (UInt16.ofNat x.acked).toNat = x.acked := toNat_ofNat (by omega)
  have hle : (d.s outSlot).acked ≤ (d.s outSlot).nextSeq := by
    rw [hs]
    exact UInt16.le_iff_toNat_le.mpr (by show (UInt16.ofNat x.acked).toNat ≤ (UInt16.ofNat x.next).toNat; omega)
  obtain ⟨lastTx, hpump⟩ := pumpSender_after d now (by rw [hs]; rfl) hle
  have hreach : (d.s outSlot).reach (chunksFor (d.s outSlot).total) = x.limit m.chunks m.window.toNat := by
    rw [hs]
    show max (UInt16.ofNat x.next).toNat (min m.chunks ((UInt16.ofNat x.acked).toNat + m.window.toNat)) = _
    rw [hn, ha]
    rfl
  have hat : (d.s outSlot).nextSeq.toNat = x.next := by
    rw [hs]
    exact hn
  refine ⟨(m.sending (x.pump m.chunks m.window.toNat)).stamped lastRx lastTx retries, ⟨_, _, _, rfl⟩, hpump.trans ?_⟩
  rw [hreach, hat, hs]
  rfl

theorem ofNat_inj {a b : Nat} (ha : a < 65536) (hb : b < 65536) : UInt16.ofNat a = UInt16.ofNat b ↔ a = b := by
  refine ⟨fun h => ?_, fun h => congrArg UInt16.ofNat h⟩
  have := congrArg UInt16.toNat h
  rwa [toNat_ofNat ha, toNat_ofNat hb] at this

theorem ofNat_lt {a b : Nat} (ha : a < 65536) (hb : b < 65536) : UInt16.ofNat a < UInt16.ofNat b ↔ a < b := by
  rw [UInt16.lt_iff_toNat_lt, toNat_ofNat ha, toNat_ofNat hb]

/-- "No rewind outstanding" is told apart from every rewind. -/
theorem rewound_eq {r : Option Nat} (h : ∀ k ∈ r, k < 65535) {n : Nat} (hn : n < 65535) :
    (r.map UInt16.ofNat).getD noRewind = UInt16.ofNat n ↔ r = some n := by
  cases r with
  | none =>
    have hno : ¬ UInt16.ofNat 65535 = UInt16.ofNat n := by
      rw [ofNat_inj (by decide) (by omega)]
      omega
    exact ⟨fun h => absurd h hno, fun h => by cases h⟩
  | some k =>
    have hk := h k rfl
    rw [Option.some_inj]
    exact ofNat_inj (by omega) (by omega)

theorem progress_steering {n : Nat} (hn : n < 65536) (ha : x.acked < 65536) (st : StreamState) (lastRx lastTx : Time)
    (retries : UInt8) :
    Stream.progress (UInt16.ofNat n) { (m.steering x).stamped lastRx lastTx retries with state := st } =
      { (m.steering (x.advance n)).stamped lastRx lastTx retries with state := st } := by
  have hlt := ofNat_lt ha hn
  unfold Stream.progress Flow.advance
  by_cases hnew : x.acked < n
  · rw [if_pos hnew]
    exact if_pos (hlt.mpr hnew)
  · rw [if_neg hnew]
    exact if_neg fun h => hnew (hlt.mp h)

/-- The code's test for a loss is the flow's, and its rewind too. -/
theorem rewind_steering {n : Nat} (hn : n < 65535) (hnext : x.next < 65536) (hrewound : ∀ k ∈ x.rewound, k < 65535)
    {s : Stream} {st : StreamState} {lastRx lastTx : Time} {retries : UInt8}
    (hs : s = { (m.steering x).stamped lastRx lastTx retries with state := st }) :
    (UInt16.ofNat n < s.nextSeq ∧ s.rewoundTo ≠ UInt16.ofNat n) ∧ (x.goBack n).rewinds = x.rewinds + 1 ∧
        s.rewind (UInt16.ofNat n) = { (m.steering (x.goBack n)).stamped lastRx lastTx retries with state := st } ∨
      ¬ (UInt16.ofNat n < s.nextSeq ∧ s.rewoundTo ≠ UInt16.ofNat n) ∧ x.goBack n = x := by
  have hlt := ofNat_lt (a := n) (b := x.next) (by omega) hnext
  have hsame := rewound_eq hrewound hn
  rw [hs]
  unfold Flow.goBack
  by_cases hback : n < x.next ∧ x.rewound ≠ some n
  · rw [if_pos hback]
    exact Or.inl ⟨⟨hlt.mpr hback.1, fun h => hback.2 (hsame.mp h)⟩, rfl, rfl⟩
  · rw [if_neg hback]
    exact Or.inr ⟨fun h => hback ⟨hlt.mp h.1, fun hr => h.2 (hsame.mpr hr)⟩, rfl⟩

theorem takeWindow_same {p : List Byte} {k : Nat} {s : Stream} (hp : byteAt p k = m.given) (hs : s.window = m.window) :
    s.takeWindow p k = s := by
  unfold Stream.takeWindow
  split
  · rename_i h
    rw [hp] at h
    have hw : m.window = m.given := if_pos h.2
    rw [hp, ← hw, ← hs]
  · rfl

theorem offering_used {s : Stream} (hs : Stamped m.offering s) : s.state = .offering ∧ s.peer = m.dst ∧ s.id = m.id := by
  obtain ⟨_, _, _, rfl⟩ := hs
  exact ⟨rfl, rfl, rfl⟩

theorem sending_used {s : Stream} (hs : Stamped (m.sending x) s) :
    (s.state = .sending ∨ s.state = .draining) ∧ s.peer = m.dst ∧ s.id = m.id := by
  obtain ⟨_, _, _, rfl⟩ := hs
  refine ⟨?_, rfl, rfl⟩
  show (if m.chunks ≤ x.next then StreamState.draining else .sending) = _ ∨
    (if m.chunks ≤ x.next then StreamState.draining else .sending) = _
  split
  · exact Or.inr rfl
  · exact Or.inl rfl

theorem out_half : outSlot ∈ Data.half true ∧ outSlot ∉ Data.half false := by decide

/-- The stream is steered, and the window filled. -/
theorem pumped_after (d : Data) (now : Time) {s : Stream} (hx : x.Ready m.chunks m.window.toNat m.every) (hs : Stamped (m.steering x) s) :
    ∃ s', Stamped (m.sending (x.pump m.chunks m.window.toNat)) s' ∧
      pumpSender (d.after outSlot s []) outSlot now =
        d.after outSlot s' ((x.burst m.chunks m.window.toNat).map m.chunk) := by
  obtain ⟨s', hs', hpump⟩ := pumped (d.after outSlot s []) now hx (by rwa [Data.after_self])
  have hpeer : s.peer = s'.peer := by
    obtain ⟨_, _, _, rfl⟩ := hs
    obtain ⟨_, _, _, rfl⟩ := hs'
    rfl
  exact ⟨s', hs', hpump.trans (Data.after_after d outSlot s s' [] _ hpeer)⟩

/-- The sender begins. -/
theorem rx_accept (h : d.Alone outSlot) (hs : Stamped m.offering (d.s outSlot)) (now : Time) (dst : Addr)
    (repeats : Nat) (app : Fin 2 → App) :
    ∃ s', Stamped (m.sending (Flow.start m.chunks m.window.toNat repeats)) s' ∧
      dataRx d (dataFrame m.dst dst m.accept) now app =
        d.after outSlot s' ((Flow.start m.chunks m.window.toNat repeats).items.map m.chunk) := by
  obtain ⟨hst, hpeer, hid⟩ := offering_used hs
  have hrx := h.answer out_half.1 (by rw [hst]; decide) opAccept (Or.inl rfl) dst [m.given] now app
  rw [hpeer, hid] at hrx
  obtain ⟨lastRx, lastTx, retries, hs⟩ := hs
  have hsteer : Stamped (m.steering (Flow.poised repeats))
      (Stream.resume (Stream.takeWindow [m.given] 0 { d.s outSlot with lastRx := now, retries := 0 })) := by
    refine ⟨now, lastTx, 0, ?_⟩
    rw [hs]
    have hwindow : m.window = if m.given > 0 then m.given else m.own := rfl
    by_cases hgiven : m.given > 0
    · rw [if_pos hgiven] at hwindow
      rw [Stream.takeWindow, if_pos ⟨Nat.le_refl 1, hgiven⟩, Stream.resume, Stream.stamped, steering, hwindow]
      rfl
    · rw [if_neg hgiven] at hwindow
      rw [Stream.takeWindow, if_neg fun h => hgiven h.2, Stream.resume, Stream.stamped, steering, hwindow]
      rfl
  obtain ⟨s', hs', hpump⟩ := pumped_after d now (Flow.ready_poised _ _ _ repeats) hsteer
  refine ⟨s', hs', hrx.trans ?_⟩
  have hnow : ((d.upd outSlot fun s => { s with lastRx := now, retries := 0 }).s outSlot).state = .offering := by
    rw [Data.upd_self]
    exact hst
  show rxAccept (d.upd outSlot fun s => { s with lastRx := now, retries := 0 }) outSlot [m.given] now = _
  rw [rxAccept, if_pos hnow]
  rw [Data.upd_upd, Data.upd_upd, Data.upd_after]
  exact hpump

/-- What an ACK does to the stream that goes out, before the window is filled. -/
theorem rxAck_steers (d : Data) (x : Flow) (now : Time) {p : List Byte} {n : Nat} (hn : n < 65535) (hacked : x.acked < 65536)
    (hnext : x.next < 65536) (hrewound : ∀ k ∈ x.rewound, k < 65535) (hp : get16 p 0 = UInt16.ofNat n) (hgiven : byteAt p 2 = m.given) (hlen : 2 ≤ p.length)
    (hs : Stamped (m.sending x) (d.s outSlot)) :
    ∃ s r, Stamped (m.steering (x.steer n)) s ∧ (x.steer n).rewinds = x.rewinds + r ∧
      rxAck d outSlot p now =
        pumpSender (({ d with nRetransmits := d.nRetransmits + UInt32.ofNat r } : Data).after outSlot s []) outSlot now := by
  have hadvance : (x.advance n).next = x.next ∧ (x.advance n).rewinds = x.rewinds ∧
      ∀ k ∈ (x.advance n).rewound, k < 65535 := by
    unfold Flow.advance
    split
    · exact ⟨rfl, rfl, fun k hk => by cases hk⟩
    · exact ⟨rfl, rfl, hrewound⟩
  have hstate := (sending_used hs).1
  obtain ⟨lastRx, lastTx, retries, hs⟩ := hs
  have hprogress : Stream.progress (UInt16.ofNat n) (d.s outSlot) =
      { (m.steering (x.advance n)).stamped lastRx lastTx retries with
        state := if m.chunks ≤ x.next then .draining else .sending } := by
    rw [hs]
    exact progress_steering (by omega) hacked _ lastRx lastTx retries
  -- from here on only the state differs from what is asked for
  have hlast (s : Stream) (y : Flow) (st : StreamState)
      (h : s = { (m.steering y).stamped lastRx lastTx retries with state := st }) :
      Stamped (m.steering y) (Stream.resume (s.takeWindow p 2)) := by
    rw [takeWindow_same hgiven (by rw [h]; rfl), h]
    exact ⟨lastRx, lastTx, retries, rfl⟩
  simp only [rxAck]
  rw [if_pos ⟨hlen, hstate⟩, hp, Data.upd_self]
  rcases rewind_steering hn (by rw [hadvance.1]; exact hnext) hadvance.2.2 hprogress with ⟨hback, hcount, hrewind⟩ | ⟨hno, hsame⟩
  · refine ⟨_, 1, hlast _ _ _ hrewind, hcount.trans (by rw [hadvance.2.1]), ?_⟩
    rw [if_pos hback]
    show pumpSender ((((({ d with nRetransmits := d.nRetransmits + 1 } : Data).upd outSlot _).upd outSlot _).upd outSlot _).upd
      outSlot _) outSlot now = _
    rw [Data.upd_upd, Data.upd_upd, Data.upd_upd, Data.upd_after]
    rfl
  · refine ⟨_, 0, hlast _ (x.steer n) _ (hprogress.trans (by rw [Flow.steer, hsame])), ?_, ?_⟩
    · rw [Flow.steer, hsame, hadvance.2.1, Nat.add_zero]
    · rw [if_neg hno, Data.upd_upd, Data.upd_upd, Data.upd_after]
      show _ = pumpSender (({ d with nRetransmits := d.nRetransmits + 0 } : Data).after outSlot _ []) outSlot now
      rw [UInt32.add_zero]

theorem rx_ack (h : d.Alone outSlot) (hx : x.Sound m.chunks m.window.toNat m.every) {n : Nat} {rest : List Nat}
    (hacks : x.acks = n :: rest) (hs : Stamped (m.sending x) (d.s outSlot)) (now : Time) (dst : Addr)
    (app : Fin 2 → App) :
    ∃ s' r more, Stamped (m.sending (x.takeAck m.chunks m.window.toNat)) s' ∧
      (x.takeAck m.chunks m.window.toNat).items = x.items ++ more ∧
      (x.takeAck m.chunks m.window.toNat).rewinds = x.rewinds + r ∧
      dataRx d (dataFrame m.dst dst (m.ack n)) now app =
        ({ d with nRetransmits := d.nRetransmits + UInt32.ofNat r } : Data).after outSlot s' (more.map m.chunk) := by
  have hchunks := m.chunks_lt
  have hnext := hx.next_le
  have hacked := hx.acked_next
  have hn := hx.acks n (hacks ▸ List.mem_cons_self)
  have hready := hx.steered hacks
  obtain ⟨hst, hpeer, hid⟩ := sending_used hs
  have hused : (d.s outSlot).state ≠ .free := by
    rcases hst with hst | hst <;> rw [hst] <;> decide
  have hrx := h.answer out_half.1 hused opAck (Or.inr (Or.inl rfl)) dst (put16 (UInt16.ofNat n) ++ [m.given]) now app
  rw [hpeer, hid] at hrx
  have htouched : Stamped (m.sending { x with acks := rest })
      ((d.upd outSlot fun s => { s with lastRx := now, retries := 0 }).s outSlot) := by
    obtain ⟨_, lastTx, _, hs⟩ := hs
    exact ⟨now, lastTx, 0, by rw [Data.upd_self, hs]; rfl⟩
  obtain ⟨s, r, hs', hcount, hcode⟩ := rxAck_steers (d.upd outSlot fun s => { s with lastRx := now, retries := 0 })
    { x with acks := rest } now (n := n) (p := put16 (UInt16.ofNat n) ++ [m.given]) (by omega)
    (show x.acked < 65536 by omega) (show x.next < 65536 by omega)
    (fun k hk => by have := hx.rewound k hk; omega) (get16_put16 _ _) rfl (by show 2 ≤ 3; decide) htouched
  obtain ⟨s', hs'', hpump⟩ := pumped_after
    { d.upd outSlot fun s => { s with lastRx := now, retries := 0 } with
      nRetransmits := d.nRetransmits + UInt32.ofNat r } now hready hs'
  rw [Flow.takeAck_cons hacks]
  refine ⟨s', r, _, hs'', congrArg (· ++ _) (Flow.steer_keeps n { x with acks := rest }).1, hcount,
    hrx.trans (hcode.trans (hpump.trans ?_))⟩
  exact Data.upd_then_after ({ d with nRetransmits := d.nRetransmits + UInt32.ofNat r } : Data) outSlot s' _ fun s =>
    { s with lastRx := now, retries := 0 }

/-- The verdict ends the stream. -/
theorem rx_done (h : d.Alone outSlot) (hs : Stamped (m.sending x) (d.s outSlot)) (now : Time) (dst : Addr)
    (app : Fin 2 → App)
    (happ : ∀ d, app 0 d = d) :
    let d' := dataRx d (dataFrame m.dst dst m.done) now app
    d'.Vacant ∧ d'.out = d.out ∧ d'.notes = d.notes ++ [.sent outSlot m.verdict] ∧
      d'.nRetransmits = d.nRetransmits := by
  obtain ⟨hst, hpeer, hid⟩ := sending_used hs
  have hused : (d.s outSlot).state ≠ .free := by
    rcases hst with hst | hst <;> rw [hst] <;> decide
  have hrx := h.answer out_half.1 hused opDone (Or.inr (Or.inr rfl)) dst [m.verdict] now app
  rw [hpeer, hid] at hrx
  have htouch := upd_becomes d outSlot fun s => { s with lastRx := now, retries := 0 }
  have hend := ended_becomes (d.upd outSlot fun s => { s with lastRx := now, retries := 0 }) outSlot m.verdict
  have hcode : dataRx d (dataFrame m.dst dst m.done) now app =
      (d.upd outSlot fun s => { s with lastRx := now, retries := 0 }).ended outSlot m.verdict := by
    refine hrx.trans ?_
    show (d.upd outSlot fun s => { s with lastRx := now, retries := 0 }).finish outSlot m.verdict (app 0) = _
    rw [finish_eq, happ]
  have hnote : endNote ((d.upd outSlot fun s => { s with lastRx := now, retries := 0 }).s outSlot) outSlot m.verdict =
      .sent outSlot m.verdict := by
    obtain ⟨_, _, _, hs⟩ := hs
    rw [Data.upd_self, hs]
    rfl
  simp only [hcode]
  refine ⟨fun j => ?_, ?_, ?_, ?_⟩
  · by_cases hj : j = outSlot
    · rw [hj, hend.self]
      rfl
    · rw [hend.ne hj, htouch.ne hj]
      exact h j hj
  · rw [hend.out, htouch.out, List.append_nil, List.append_nil]
  · rw [hend.notes, htouch.notes, List.append_nil, hnote]
  · unfold Data.ended
    simp only
    split <;> rfl

/-- An offer is repeated at most. -/
theorem tick_offering (h : d.Alone outSlot) (hs : Stamped m.offering (d.s outSlot)) (hno : ¬ d.GivesUp now outSlot)
    (app : Handle → App) :
    dataTick d now app = d ∨ d.Overdue now outSlot ∧ ∃ s', Stamped m.offering s' ∧
      dataTick d now app = d.after outSlot s' [m.offer] := by
  have hst := (offering_used hs).1
  rcases tickSlot_goesOn now app hno with hstay | ⟨hover, hresend⟩
  · exact Or.inl ((h.tick now app (by rwa [hstay])).trans hstay)
  have hsent : resend (d.upd outSlot fun s => { s with retries := s.retries + 1 }) outSlot now =
      d.after outSlot { d.s outSlot with retries := (d.s outSlot).retries + 1, lastTx := now } [m.offer] := by
    have hnow : ((d.upd outSlot fun s => { s with retries := s.retries + 1 }).s outSlot).state = .offering := by
      rw [Data.upd_self]
      exact hst
    rw [resend]
    simp only [hnow]
    rw [Data.sendOp_after, Data.upd_self, Data.upd_then_after]
    obtain ⟨_, _, _, hs⟩ := hs
    rw [hs]
    rfl
  rw [hsent] at hresend
  refine Or.inr ⟨hover, _, ?_, (h.tick now app (by rw [hresend]; exact h.after _ _)).trans hresend⟩
  obtain ⟨lastRx, _, retries, hs⟩ := hs
  exact ⟨lastRx, now, retries + 1, by rw [hs]; rfl⟩

/-- The sender starts again from the last confirmed chunk at most. -/
theorem tick_sending (h : d.Alone outSlot) (hx : x.Sound m.chunks m.window.toNat m.every)
    (hs : Stamped (m.sending x) (d.s outSlot)) (hno : ¬ d.GivesUp now outSlot) (app : Handle → App) :
    dataTick d now app = d ∨ d.Overdue now outSlot ∧ ∃ s' more,
      Stamped (m.sending (x.restart m.chunks m.window.toNat)) s' ∧
      (x.restart m.chunks m.window.toNat).items = x.items ++ more ∧
      dataTick d now app =
        ({ d with nRetransmits := d.nRetransmits + 1 } : Data).after outSlot s' (more.map m.chunk) := by
  have hst := (sending_used hs).1
  rcases tickSlot_goesOn now app hno with hstay | ⟨hover, hresend⟩
  · exact Or.inl ((h.tick now app (by rwa [hstay])).trans hstay)
  have hsteer : Stamped (m.steering x.afresh)
      (Stream.restart { d.s outSlot with retries := (d.s outSlot).retries + 1 }) := by
    obtain ⟨lastRx, lastTx, retries, hs⟩ := hs
    exact ⟨lastRx, lastTx, retries + 1, by rw [hs]; rfl⟩
  obtain ⟨s', hs', hpump⟩ := pumped_after { d with nRetransmits := d.nRetransmits + 1 } now hx.afresh hsteer
  have hsent : resend (d.upd outSlot fun s => { s with retries := s.retries + 1 }) outSlot now =
      ({ d with nRetransmits := d.nRetransmits + 1 } : Data).after outSlot s'
        ((x.afresh.burst m.chunks m.window.toNat).map m.chunk) := by
    refine Eq.trans ?_ hpump
    have hnow : ((d.upd outSlot fun s => { s with retries := s.retries + 1 }).s outSlot).state = .sending ∨
        ((d.upd outSlot fun s => { s with retries := s.retries + 1 }).s outSlot).state = .draining := by
      rw [Data.upd_self]
      exact hst
    rw [resend]
    rcases hnow with hnow | hnow
    · simp only [hnow]
      rw [Data.upd_upd, Data.upd_after]
      rfl
    · simp only [hnow]
      rw [Data.upd_upd, Data.upd_after]
      rfl
  rw [hsent] at hresend
  have halone : (tickSlot now app d outSlot).Alone outSlot := by
    rw [hresend]
    exact h.after s' ((x.afresh.burst m.chunks m.window.toNat).map m.chunk)
  exact Or.inr ⟨hover, s', _, hs', rfl, (h.tick now app halone).trans hresend⟩

end Terms

end DeskHop.Bulk
