/-
  DeskHop.Bulk.Terminal — how a stream ends (`core/src/data.c`: `finish`, `rx_chunk`).

  A stream is under way on its handle from the log entry that begins or offers it to the
  one that says it has ended (`underWay`). `Closed` says that hooks are called only of
  streams under way, so at most one end is reported of each and nothing after it.

  Proved: where the application never cancels a stream from inside that stream's own chunk
  hook, every run is closed, and a verdict is sent only for a stream still being received,
  by the step that reports it (`one_end_each`). Where it does, the stream is reported twice,
  and sound the second time (`cancelled_then_sound`).
-/

import DeskHop.Bulk.Sending
import DeskHop.Bulk.Table

namespace DeskHop.Bulk

open DeskHop.Lib DeskHop.Wire

/-! ## The log of one handle -/

def underWayStep (h : Handle) (acc : Bool) : Note → Bool
  | .begun h' _ _ | .offered h' _ _ _ _ _ => if h' = h then true else acc
  | .received h' _ | .sent h' _ => if h' = h then false else acc
  | .chunk _ _ _ => acc

/-- A stream has begun or been offered on the handle, and no end of it has been reported. -/
def underWay (h : Handle) (notes : List Note) : Bool := notes.foldl (underWayStep h) false

theorem underWay_snoc (h : Handle) (notes : List Note) (n : Note) :
    underWay h (notes ++ [n]) = underWayStep h (underWay h notes) n := List.foldl_append

theorem underWay_other {h : Handle} (notes : List Note) {n : Note} (hn : n.handle ≠ h) :
    underWay h (notes ++ [n]) = underWay h notes := by
  rw [underWay_snoc]
  cases n <;> first | rfl | exact if_neg hn

/-- A hook is called of a stream under way. -/
def Timely (pre : List Note) : Note → Prop
  | .chunk h _ _ | .received h _ | .sent h _ => underWay h pre = true
  | .begun _ _ _ | .offered _ _ _ _ _ _ => True

/-- The streams in use are under way, and hooks are called only of such. -/
structure Closed (d : Data) : Prop where
  live : ∀ i, (d.s i).state ≠ .free → underWay i d.notes = true
  log : Each Timely d.notes

section turned

variable {d d' : Data} {i : Handle} {s : Stream} {msgs : List (Addr × List Byte)}

theorem Closed.silent (h : Closed d) (hw : Wrote d i s msgs [] d') (hs : s.state ≠ .free → (d.s i).state ≠ .free) :
    Closed d' := by
  have hnotes : d'.notes = d.notes := hw.notes.trans (List.append_nil _)
  refine ⟨fun j hj => ?_, hnotes ▸ h.log⟩
  rw [hnotes]
  by_cases hji : j = i
  · subst hji
    rw [hw.self] at hj
    exact h.live _ (hs hj)
  · rw [hw.ne hji] at hj
    exact h.live j hj

theorem Closed.says (h : Closed d) {n : Note} (hw : Wrote d i s msgs [n] d') (hn : n.handle = i) (ht : Timely d.notes n)
    (hs : s.state ≠ .free → underWayStep i (underWay i d.notes) n = true) : Closed d' := by
  refine ⟨fun j hj => ?_, ?_⟩
  · rw [hw.notes]
    by_cases hji : j = i
    · subst hji
      rw [hw.self] at hj
      rw [underWay_snoc]
      exact hs hj
    · rw [hw.ne hji] at hj
      rw [underWay_other _ fun hk => hji (hk.symm.trans hn)]
      exact h.live j hj
  · rw [hw.notes]
    exact each_snoc.mpr ⟨h.log, ht⟩

theorem timely_endNote {pre : List Note} {s : Stream} {i : Handle} {r : Byte} (h : underWay i pre = true) :
    Timely pre (endNote s i r) := by
  unfold endNote
  split <;> exact h

/-- Unless it is a second verdict. -/
theorem Turned.closed {m m' : Mid} (h : Turned m m') (hheld : ∀ i s, m.held = some (i, s) → m.d.s i ≠ .zero)
    (hm : Closed m.d) : Closed m'.d := by
  cases h with
  | goesOn hs _ _ hw => exact hm.silent hw fun hu hf => hu (hs.free.mpr hf)
  | @takes i s offset data hs hlive _ hw =>
    have hused : (m.d.s i).state ≠ .free := fun hf => by rw [hlive] at hf; cases hf
    exact hm.says hw rfl (hm.live i hused) fun _ => hm.live i hused
  | @ends i r msgs ns hns _ hw =>
    rcases hns with ⟨rfl, hu⟩ | ⟨rfl, -⟩
    · exact hm.says hw (endNote_handle _ i r) (timely_endNote (hm.live i hu)) fun hz => absurd rfl hz
    · exact hm.silent hw fun hz => absurd rfl hz
  | endsAgain hk hzero _ => exact absurd hzero (hheld _ _ hk)
  | begins _ _ hw => exact hm.says hw rfl trivial fun _ => if_pos rfl
  | opens _ _ _ hw => exact hm.says hw rfl trivial fun _ => if_pos rfl

end turned

/-! ## A stream held is not lost -/

/-- The stream whose chunk hook runs is as it was handed over. -/
def Mid.Intact (m : Mid) : Prop := ∀ i s, m.held = some (i, s) → m.d.s i = s ∧ s.state = .receiving

theorem Move.intact {g : Given} (hcalm : g.calm) {m m' : Mid} (hm : Move g m m') (hsorted : m.d.Sorted) (h : m.Intact) :
    m'.Intact := by
  have hnone (d : Data) : Mid.Intact ⟨d, none⟩ := fun _ _ hk => by cases hk
  cases hm with
  | @call d d' k hcall =>
    intro i s hk
    obtain ⟨hs, hrecv⟩ := h i s hk
    have hstate : (d.s i).state = .receiving := by
      rw [show d.s i = s from hs]
      exact hrecv
    refine ⟨(hcall.calm hcalm ?_ hstate ((hsorted i).inbound (Or.inr hstate)).2).trans hs, hrecv⟩
    rw [show k = some (i, s) from hk]
    rfl
  | hand _ _ _ hs _ hb =>
    intro i s hk
    cases hk
    refine ⟨rfl, ?_⟩
    rw [hb.self]
    exact hs
  | _ => exact hnone _

/-- What the steps of a calm run keep. -/
structure Endpoint.Settled (m : Endpoint) : Prop where
  sound : m.Sound
  intact : m.mid.Intact
  closed : Closed m.d

theorem Endpoint.Settled.step {m : Endpoint} (h : m.Settled) {e : Doing} (he : m.Calm e) : (m.step e).Settled := by
  obtain ⟨g, hg, -, hmoves⟩ := Endpoint.step_moves h.sound e True fun _ => he
  have hcalm : g.calm := hg ▸ trivial
  have hkept : (m.step e).mid.d.Sorted ∧ (m.step e).mid.Intact ∧ Closed (m.step e).mid.d := by
    refine moves_keep (P := fun n => n.d.Sorted ∧ n.Intact ∧ Closed n.d) hmoves ?_ ⟨h.sound.sorted, h.intact, h.closed⟩
    rintro n n' hmove ⟨hsorted, hintact, hclosed⟩
    refine ⟨hmove.sorted hsorted, hmove.intact hcalm hsorted hintact, ?_⟩
    refine (hmove.turned fun i s hk => (hintact i s hk).2).closed (fun i s hk hz => ?_) hclosed
    obtain ⟨hs, hrecv⟩ := hintact i s hk
    rw [← hs, hz] at hrecv
    cases hrecv
  exact ⟨Endpoint.step_sound h.sound e, hkept.2.1, hkept.2.2⟩

theorem Endpoint.Fresh.settled {m : Endpoint} (h : m.Fresh) : m.Settled := by
  have hsound := h.sound
  obtain ⟨d, place⟩ := m
  obtain ⟨⟨hs, -, -, -, hnotes⟩, hp⟩ := h
  have hplace : place = .idle := hp
  subst hplace
  refine ⟨hsound, fun _ _ hk => (by cases hk), fun i hi => ?_, ?_⟩
  · rw [hs] at hi
    exact absurd rfl hi
  · rw [hnotes]
    exact each_nil _

/-! ## Verdicts -/

/-- A verdict is sent and reported, or neither. -/
theorem afterChunk_verdict (d : Data) (i : Handle) (now : Time) (hs : (d.s i).outbound = false) :
    (∃ v, (afterChunk d i now id).out = d.out ++ [((d.s i).peer, [opDone, (d.s i).id, v])] ∧
      (afterChunk d i now id).notes = d.notes ++ [.received i v]) ∨
    ∃ msgs, (afterChunk d i now id).out = d.out ++ msgs ∧ NoVerdict msgs ∧ (afterChunk d i now id).notes = d.notes := by
  have hb := upd_becomes d i fun s => { s with nextSeq := s.nextSeq + 1, acked := s.nextSeq + 1 }
  simp only [afterChunk, Data.upd_self]
  split
  · left
    generalize (if (d.s i).running = (d.s i).crc then dataOk else dataCorrupt) = v
    have hdone := (hb.trans (sendOp_becomes _ i now opDone [v])).trans (ended_becomes _ i v)
    rw [Data.sendOp_self, Data.upd_self] at hdone
    refine ⟨v, ?_, ?_⟩
    · rw [finish_eq]
      exact hdone.out
    · have hend : (afterChunk d i now id).notes = _ := rfl
      rw [finish_eq]
      refine hdone.notes.trans ?_
      rw [endNote, if_neg (by simp [hs])]
      rfl
  · right
    split
    · exact ⟨_, rfl, noVerdict_one (by decide : opAck ≠ opDone), rfl⟩
    · exact ⟨[], (List.append_nil _).symm, noVerdict_nil, rfl⟩

/-- Each verdict among the messages is of a stream still being received, and the step that
    sends it reports it. -/
def Verdicts (m m' : Endpoint) : Prop :=
  ∃ msgs ns, m'.d.out = m.d.out ++ msgs ∧ m'.d.notes = m.d.notes ++ ns ∧ ∀ x ∈ msgs, byteAt x.2 0 = opDone →
    ∃ i v, (m.d.s i).state = .receiving ∧ x = ((m.d.s i).peer, [opDone, (m.d.s i).id, v]) ∧ ns = [.received i v]

theorem verdicts_of_none {m m' : Endpoint} {msgs : List (Addr × List Byte)} (hout : m'.d.out = m.d.out ++ msgs)
    (hnotes : m.d.notes <+: m'.d.notes) (hmsgs : NoVerdict msgs) : Verdicts m m' := by
  obtain ⟨ns, hns⟩ := hnotes
  exact ⟨msgs, ns, hout, hns.symm, fun x hx hop => absurd hop (hmsgs x hx)⟩

theorem step_notes {m : Endpoint} (h : m.Sound) (e : Doing) : m.d.notes <+: (m.step e).d.notes := by
  obtain ⟨g, -, -, hmoves⟩ := Endpoint.step_moves h e False False.elim
  exact moves_keep (P := fun n => m.d.notes <+: n.d.notes) hmoves (fun _ _ hm ih => ih.trans hm.grown)
    (List.prefix_refl _)

theorem Endpoint.Settled.verdicts {m : Endpoint} (h : m.Settled) (e : Doing) : Verdicts m (m.step e) := by
  cases hsend : e.isSend with
  | true =>
    obtain ⟨peer, kind, name, data, now, rfl⟩ := Watched.isSend_cases hsend
    rcases Watched.dataSend_cases m.d peer kind name data now with ⟨_, -, -, hout⟩ | ⟨i, s, -, -, hout, -⟩
    · exact verdicts_of_none (hout.trans (List.append_nil _).symm) (step_notes h.sound _) noVerdict_nil
    · exact verdicts_of_none hout (step_notes h.sound _) (noVerdict_one (by decide : opOffer ≠ opDone))
  | false =>
    by_cases hret : m.Returns e
    · obtain ⟨d, place⟩ := m
      obtain ⟨rfl, i, s, now, hp⟩ := hret
      have hplace : place = .inChunk i s now := hp
      subst hplace
      obtain ⟨hs, hrecv⟩ := h.intact i s rfl
      have hstate : (d.s i).state = .receiving := by
        rw [show d.s i = s from hs]
        exact hrecv
      have hin := ((h.sound.sorted i).inbound (Or.inr hstate)).1
      rcases afterChunk_verdict d i now hin with ⟨v, hout, hnotes⟩ | ⟨msgs, hout, hmsgs, -⟩
      · refine ⟨_, _, hout, hnotes, fun x hx _ => ⟨i, v, hstate, List.mem_singleton.mp hx, rfl⟩⟩
      · exact verdicts_of_none hout (step_notes h.sound _) hmsgs
    · obtain ⟨i, hi, -⟩ := m.step_utters hsend
      obtain ⟨msgs, hout, hfit⟩ := hi.out
      exact verdicts_of_none hout (step_notes h.sound e) fun x hx hop => hret ((hfit x hx).done hop)

/-! ## One end each -/

/-- What is promised of one more step. -/
structure OneEnd (m : Endpoint) (e : Doing) : Prop where
  /-- Hooks are called only of streams under way: one end each, and nothing after it. -/
  log : Each Timely (m.step e).d.notes
  /-- A stream that is cancelled is reported so, which is its end. -/
  cancelled : ∀ stream now i, e = .call (.cancel stream) now → m.d.byHandle stream = some i →
    (m.step e).d.notes = m.d.notes ++ [endNote (m.d.s i) i dataCancelled]
  verdicts : Verdicts m (m.step e)

theorem cancel_notes (m : Endpoint) {stream : UInt8} {i : Handle} (now : Time) (hi : m.d.byHandle stream = some i) :
    (m.step (.call (.cancel stream) now)).d.notes = m.d.notes ++ [endNote (m.d.s i) i dataCancelled] := by
  show (dataCancel m.d stream now id).notes = _
  rw [dataCancel, hi]
  show ((m.d.sendOp i opAbort [dataCancelled] now).finish i dataCancelled id).notes = _
  rw [finish_eq]
  exact (abort_becomes m.d i now dataCancelled dataCancelled).notes

/-- Where no stream is cancelled from inside its own chunk hook, each stream has one end. -/
theorem one_end_each {m : Endpoint} (h : Reach Endpoint.Fresh Endpoint.Calm Endpoint.step m) {e : Doing} (he : m.Calm e) :
    OneEnd m e := by
  have hsettled : m.Settled := h.inv (I := Endpoint.Settled) (fun _ h0 => h0.settled) fun _ _ hm he => hm.step he
  refine ⟨(hsettled.step he).closed.log, ?_, hsettled.verdicts e⟩
  rintro stream now i rfl hi
  exact cancel_notes m now hi

/-- A stream of 61 bytes is offered and accepted, and its first chunk is handed over. -/
def firstOfTwo : List Doing :=
  [.rx (dataFrame 2 1 (opOffer :: 1 :: offerExtra { Stream.zero with total := 61, crc := 5 })) 1000,
    .call (.accept 4) 1001,
    .rx (dataFrame 2 1 (opChunk :: 1 :: (put16 0 ++ List.replicate 60 7))) 1002]

/-- The application does nothing in the chunk hook. -/
theorem one_end_each_of_a_quiet_hook : OneEnd (freshEndpoint.run firstOfTwo) .goOn :=
  one_end_each (Reach.run (.init freshEndpoint_fresh) firstOfTwo ⟨trivial, fun _ _ _ _ => rfl, trivial, trivial⟩) trivial

/-- Cancelled in the chunk hook, the stream is reported a second time when the hook returns. -/
theorem cancelled_then_sound : ¬ ∀ m, Reach Endpoint.Fresh (fun _ _ => True) Endpoint.step m → ∀ e, OneEnd m e := by
  intro h
  have hreach : Reach Endpoint.Fresh (fun _ _ => True) Endpoint.step
      (freshEndpoint.run (firstOfTwo ++ [.call (.cancel 4) 1003])) :=
    Reach.run_free (fun _ _ => trivial) (.init freshEndpoint_fresh) _
  have hnotes : ((freshEndpoint.run (firstOfTwo ++ [.call (.cancel 4) 1003])).step .goOn).d.notes =
      [.offered 4 1 2 0 61 [], .chunk 4 0 (List.replicate 60 7), .received 4 dataCancelled] ++ .received 4 dataOk :: [] := by
    decide +kernel
  have hend := (h _ hreach .goOn).log _ _ _ hnotes
  exact absurd (show underWay 4 _ = true from hend) (by decide)

end DeskHop.Bulk
