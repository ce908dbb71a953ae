/-
  DeskHop.Bulk.Table — the table of streams (`core/src/data.c`: `slot_free`, `slot_find`).

  `Turned` says what a move makes of the table and of the log: one stream goes on as the
  stream it was, or ends, or a free entry is given to a stream that begins or is offered.

  Proved (`stream_table`): the halves are never mixed up, no two streams that come in have
  the same peer and id, and a send finds no stream exactly when four of the endpoint's own
  are unfinished, whatever the peers have offered.
-/

import DeskHop.Bulk.Endpoint
import DeskHop.Lib.Keyed

namespace DeskHop.Bulk

open DeskHop.Lib DeskHop.Wire

/-! ## What a move makes of the table -/

/-- `d'` is `d` with stream `i` replaced, give or take a count of sends. -/
structure Wrote (d : Data) (i : Handle) (s : Stream) (msgs : List (Addr × List Byte)) (ns : List Note) (d' : Data) :
    Prop where
  s : d'.s = Function.update d.s i s
  out : d'.out = d.out ++ msgs
  notes : d'.notes = d.notes ++ ns

theorem Becomes.wrote {d d' : Data} {i : Handle} {s : Stream} {msgs : List (Addr × List Byte)} {ns : List Note}
    (h : Becomes d i s msgs ns d') : Wrote d i s msgs ns d' := ⟨h.s, h.out, h.notes⟩

namespace Wrote

variable {d d' : Data} {i : Handle} {s : Stream} {msgs : List (Addr × List Byte)} {ns : List Note}

theorem self (h : Wrote d i s msgs ns d') : d'.s i = s := by rw [h.s, Function.update_self]

theorem ne (h : Wrote d i s msgs ns d') {j : Handle} (hj : j ≠ i) : d'.s j = d.s j := by
  rw [h.s, Function.update_of_ne hj]

end Wrote

/-- The same stream, in use as before. -/
structure GoesOn (s s' : Stream) : Prop where
  free : s'.state = .free ↔ s.state = .free
  id : s'.id = s.id
  peer : s'.peer = s.peer
  outbound : s'.outbound = s.outbound

theorem GoesOn.refl (s : Stream) : GoesOn s s := ⟨Iff.rfl, rfl, rfl, rfl⟩

/-- None of them gives a verdict. -/
def NoVerdict (msgs : List (Addr × List Byte)) : Prop := ∀ x ∈ msgs, byteAt x.2 0 ≠ opDone

theorem noVerdict_nil : NoVerdict [] := fun _ h => absurd h List.not_mem_nil

theorem noVerdict_one {peer : Addr} {op : Byte} {p : List Byte} (h : op ≠ opDone) : NoVerdict [(peer, op :: p)] := by
  intro x hx
  rw [List.mem_singleton.mp hx]
  exact h

inductive Turned (m m' : Mid) : Prop
  | goesOn {i : Handle} {s : Stream} {msgs : List (Addr × List Byte)} (hs : GoesOn (m.d.s i) s)
      (hrun : s.running = (m.d.s i).running) (hmsgs : NoVerdict msgs) (h : Wrote m.d i s msgs [] m'.d)
      (hid : m'.d.nextId = m.d.nextId)
  | takes {i : Handle} {s : Stream} {offset : UInt32} {data : List Byte} (hs : GoesOn (m.d.s i) s)
      (hlive : (m.d.s i).state = .receiving) (hrun : s.running = adler32Update (m.d.s i).running data)
      (h : Wrote m.d i s [] [.chunk i offset data] m'.d) (hid : m'.d.nextId = m.d.nextId)
  /-- Ended, and said so; or turned away. -/
  | ends {i : Handle} {r : Byte} {msgs : List (Addr × List Byte)} {ns : List Note}
      (hns : ns = [endNote (m.d.s i) i r] ∧ (m.d.s i).state ≠ .free ∨
        ns = [] ∧ ((m.d.s i).state = .offered ∨ (m.d.s i).state = .free))
      (hmsgs : NoVerdict msgs ∨ ns = [endNote (m.d.s i) i r] ∧ (m.d.s i).state = .receiving ∧
        msgs = [((m.d.s i).peer, [opDone, (m.d.s i).id, r])])
      (h : Wrote m.d i .zero msgs ns m'.d) (hid : m'.d.nextId = m.d.nextId)
  /-- The verdict on a stream that was cancelled from inside its own chunk hook. -/
  | endsAgain {i : Handle} {held : Stream} {r : Byte} (hheld : m.held = some (i, held)) (hzero : m.d.s i = .zero)
      (h : Wrote m.d i .zero [(0, [opDone, 0, r])] [.received i r] m'.d) (hid : m'.d.nextId = m.d.nextId)
  | begins {i : Handle} {s : Stream} (hfree : m.d.slotFree true = some i)
      (hs : s.state = .offering ∧ s.outbound = true ∧ s.id = m.d.nextId)
      (h : Wrote m.d i s [(s.peer, opOffer :: s.id :: offerExtra s)] [.begun i s.id s.src] m'.d)
      (hid : m'.d.nextId = if m.d.nextId + 1 = 0 then 1 else m.d.nextId + 1)
  | opens {i : Handle} {s : Stream} (hfree : m.d.slotFree false = some i)
      (hnone : m.d.slotFind s.peer s.id false = none)
      (hs : s.state = .offered ∧ s.outbound = false ∧ s.running = adlerInit)
      (h : Wrote m.d i s [] [.offered i s.id s.peer s.kind s.total s.name] m'.d) (hid : m'.d.nextId = m.d.nextId)

section becomes

variable {d d' : Data} {k k' : Option (Handle × Stream)} {i : Handle} {s : Stream} {msgs : List (Addr × List Byte)}
  {ns : List Note}

theorem Becomes.goesOn (h : Becomes d i s msgs [] d') (hs : GoesOn (d.s i) s) (hrun : s.running = (d.s i).running)
    (hmsgs : NoVerdict msgs) : Turned ⟨d, k⟩ ⟨d', k'⟩ := .goesOn hs hrun hmsgs h.wrote h.nextId

theorem Becomes.takes {offset : UInt32} {data : List Byte} (h : Becomes d i s [] [.chunk i offset data] d')
    (hs : GoesOn (d.s i) s) (hlive : (d.s i).state = .receiving)
    (hrun : s.running = adler32Update (d.s i).running data) : Turned ⟨d, k⟩ ⟨d', k'⟩ :=
  .takes hs hlive hrun h.wrote h.nextId

theorem Becomes.ends {r : Byte} (h : Becomes d i .zero msgs [endNote (d.s i) i r] d') (hlive : (d.s i).state ≠ .free)
    (hmsgs : NoVerdict msgs) : Turned ⟨d, k⟩ ⟨d', k'⟩ :=
  .ends (Or.inl ⟨rfl, hlive⟩) (Or.inl hmsgs) h.wrote h.nextId

theorem Becomes.turnsAway (h : Becomes d i .zero msgs [] d') (hs : (d.s i).state = .offered ∨ (d.s i).state = .free)
    (hmsgs : NoVerdict msgs) : Turned ⟨d, k⟩ ⟨d', k'⟩ :=
  .ends (r := 0) (Or.inr ⟨rfl, hs⟩) (Or.inl hmsgs) h.wrote h.nextId

end becomes

/-- A stream that changes state goes on if neither state is that of a free entry. -/
theorem free_iff {st st' : StreamState} (h : st ≠ .free) (h' : st' ≠ .free) : st' = .free ↔ st = .free :=
  ⟨fun hf => absurd hf h', fun hf => absurd hf h⟩

/-- A call of the application turns away, cancels or begins a stream, or leaves each as it is. -/
theorem CallMove.turned {calm : Prop} {now : Time} {k k' : Option (Handle × Stream)} {held : Option Handle} {d d' : Data}
    (hm : CallMove calm held now d d') : Turned ⟨d, k⟩ ⟨d', k'⟩ := by
  cases hm with
  | accept hs hb =>
    have hlive : (Data.s _ _).state ≠ .free := fun hf => by rw [hs] at hf; cases hf
    exact hb.goesOn ⟨free_iff hlive (fun hf => by cases hf), rfl, rfl, rfl⟩ rfl (noVerdict_one (by decide : opAccept ≠ opDone))
  | reject hs hb => exact hb.turnsAway (Or.inl hs) (noVerdict_one (by decide : opReject ≠ opDone))
  | cancel hs _ hb => exact hb.ends hs (noVerdict_one (by decide : opAbort ≠ opDone))
  | fail =>
    refine .goesOn (i := ⟨0, by decide⟩) (.refl _) rfl noVerdict_nil ⟨?_, ?_, ?_⟩ rfl
    · exact (Function.update_eq_self _ _).symm
    · exact (List.append_nil _).symm
    · exact (List.append_nil _).symm
  | send hfree hs hout hnotes hid => exact .begins hfree hs ⟨hout.1, hout.2, hnotes⟩ hid

theorem Move.turned {g : Given} {m m' : Mid} (hm : Move g m m')
    (hheld : ∀ i s, m.held = some (i, s) → s.state = .receiving) : Turned m m' := by
  cases hm with
  | call h => exact h.turned
  | stamp _ hb => exact hb.goesOn ⟨Iff.rfl, rfl, rfl, rfl⟩ rfl noVerdict_nil
  | decline _ _ hs _ hb =>
    have hmsgs {peer : Addr} {p : List Byte} := @noVerdict_one peer opReject p (by decide)
    rcases hs with rfl | ⟨hfree, rfl⟩
    · exact hb.goesOn (.refl _) rfl hmsgs
    · exact hb.turnsAway (Or.inr hfree) hmsgs
  | opened _ _ hnone hfree hs _ hb =>
    subst hs
    exact .opens hfree hnone ⟨rfl, rfl, rfl⟩ hb.wrote hb.nextId
  | ack _ hb => exact hb.goesOn ⟨Iff.rfl, rfl, rfl, rfl⟩ rfl (noVerdict_one (by decide : opAck ≠ opDone))
  | hand _ _ _ hs _ hb =>
    exact hb.takes ⟨Iff.rfl, rfl, rfl, rfl⟩ hs rfl
  | count hs _ hb =>
    subst hs
    exact hb.goesOn ⟨Iff.rfl, rfl, rfl, rfl⟩ rfl noVerdict_nil
  | @verdict d _ i s v hs _ hb =>
    have hrecv := hheld i s rfl
    rcases hs with hs | hs
    · rw [← hs] at hrecv
      have hlive : (d.s i).state ≠ .free := fun hf => by rw [hrecv] at hf; cases hf
      exact .ends (Or.inl ⟨rfl, hlive⟩) (Or.inr ⟨rfl, hrecv, rfl⟩) hb.wrote hb.nextId
    · rw [hs] at hb
      exact .endsAgain rfl hs hb.wrote hb.nextId
  | quit hs _ hmsgs hb =>
    refine hb.ends hs ?_
    rcases hmsgs with rfl | rfl
    · exact noVerdict_nil
    · exact noVerdict_one (by decide : opAbort ≠ opDone)
  | @told d _ i _ _ _ _ haddr hsame _ hb =>
    obtain ⟨_, _, _, hsame⟩ := hsame
    have hlive : (d.s i).state ≠ .free := by
      rw [hsame]
      exact (Data.addressee_some _ haddr).1
    exact hb.ends hlive noVerdict_nil
  | @steer d _ i _ _ _ _ hs hb =>
    have hlive : (d.s i).state ≠ .free := fun hf => by
      rcases hs with ⟨hs, -⟩ | hs | hs <;> rw [hs] at hf <;> cases hf
    exact hb.goesOn ⟨free_iff hlive (fun hf => by cases hf), rfl, rfl, rfl⟩ rfl noVerdict_nil
  | push _ hb => exact hb.goesOn ⟨Iff.rfl, rfl, rfl, rfl⟩ rfl (noVerdict_one (by decide : opChunk ≠ opDone))
  | @drain d _ i hs hb =>
    have hlive : (d.s i).state ≠ .free := fun hf => by rw [hs] at hf; cases hf
    exact hb.goesOn ⟨free_iff hlive (fun hf => by cases hf), rfl, rfl, rfl⟩ rfl noVerdict_nil
  | offer _ hb => exact hb.goesOn ⟨Iff.rfl, rfl, rfl, rfl⟩ rfl (noVerdict_one (by decide : opOffer ≠ opDone))

/-! ## The table and the log -/

theorem endNote_handle (s : Stream) (i : Handle) (r : Byte) : (endNote s i r).handle = i := by
  unfold endNote
  split <;> rfl

def Stream.used (s : Stream) : Bool := s.state != .free

theorem used_iff {s : Stream} : s.used = true ↔ s.state ≠ .free := bne_iff_ne

/-- What a peer calls a stream. -/
def Stream.key (s : Stream) : Addr × UInt8 := (s.peer, s.id)

def Note.isBegun : Note → Bool
  | .begun .. => true
  | _ => false

def Note.isSent : Note → Bool
  | .sent .. => true
  | _ => false

/-- The endpoint's own sends of which `onSent` has not been called. -/
def Unfinished (notes : List Note) (n : Nat) : Prop := notes.countP Note.isBegun = notes.countP Note.isSent + n

instance (notes : List Note) (n : Nat) : Decidable (Unfinished notes n) := Nat.decEq _ _

/-- How many streams go out. -/
def Data.outgoing (d : Data) : Nat := (Data.half true).countP fun i => (d.s i).used

/-- No two streams that come in are called the same. -/
def Data.Apart (outbound : Bool) (d : Data) : Prop :=
  KeysApart (· ∈ Data.half outbound) (fun s => s.used = true) Stream.key d.s

theorem half_nodup (outbound : Bool) : (Data.half outbound).Nodup := by
  revert outbound
  decide

section turned

variable {m m' : Mid}

theorem GoesOn.used {s s' : Stream} (h : GoesOn s s') : s'.used = s.used :=
  Bool.eq_iff_iff.mpr (used_iff.trans ((not_congr h.free).trans used_iff.symm))

theorem GoesOn.key {s s' : Stream} (h : GoesOn s s') : s'.key = s.key := Prod.ext h.peer h.id

/-- Of a stream that goes on or ends, no other is called the same anew. -/
theorem apart_goesOn {outbound : Bool} {d : Data} {i : Handle} {s : Stream} {msgs : List (Addr × List Byte)}
    {ns : List Note} {d' : Data} (h : d.Apart outbound) (hw : Wrote d i s msgs ns d') (hs : GoesOn (d.s i) s) :
    d'.Apart outbound := by
  rw [Data.Apart, hw.s]
  exact h.update fun _ hu => Or.inl ⟨hs.used ▸ hu, hs.key⟩

theorem apart_ends {outbound : Bool} {d : Data} {i : Handle} {msgs : List (Addr × List Byte)} {ns : List Note} {d' : Data}
    (h : d.Apart outbound) (hw : Wrote d i .zero msgs ns d') : d'.Apart outbound := by
  rw [Data.Apart, hw.s]
  exact h.update fun _ hu => by cases hu

/-- A search of a half that finds nothing. -/
theorem slotFind_none {d : Data} {peer : Addr} {id : UInt8} {outbound : Bool} (h : d.slotFind peer id outbound = none)
    {j : Handle} (hj : j ∈ Data.half outbound) (hu : (d.s j).used = true) : (d.s j).key ≠ (peer, id) := by
  intro hk
  have hmiss := List.find?_eq_none.mp h j hj
  obtain ⟨hpeer, hid⟩ := Prod.mk.inj hk
  exact hmiss (by simp [used_iff.mp hu, hpeer, hid])

/-- A stream is offered under a name that is not in use. -/
theorem Turned.apart (h : Turned m m') (hd : m.d.Apart false) : m'.d.Apart false := by
  cases h with
  | goesOn hs _ _ hw => exact apart_goesOn hd hw hs
  | takes hs _ _ hw => exact apart_goesOn hd hw hs
  | ends _ _ hw => exact apart_ends hd hw
  | endsAgain _ _ hw => exact apart_ends hd hw
  | begins hfree _ hw =>
    rw [Data.Apart, hw.s]
    exact hd.update fun hi _ => absurd (slotFree_half hfree) (half_disjoint hi)
  | opens _ hnone _ hw =>
    rw [Data.Apart, hw.s]
    exact hd.update fun _ _ => Or.inr fun j hj hu => slotFind_none hnone hj hu

/-- A stream in use goes out exactly if it is in the first half. -/
theorem Sided.out_iff {i : Handle} {s : Stream} (h : Sided i s) (hu : s.state ≠ .free) :
    s.outbound = true ↔ i ∈ Data.half true := by
  cases hs : s.state with
  | free => exact absurd hs hu
  | offering => exact ⟨fun _ => (h.outbound (Or.inl hs)).2, fun _ => (h.outbound (Or.inl hs)).1⟩
  | sending => exact ⟨fun _ => (h.outbound (Or.inr (Or.inl hs))).2, fun _ => (h.outbound (Or.inr (Or.inl hs))).1⟩
  | draining => exact ⟨fun _ => (h.outbound (Or.inr (Or.inr hs))).2, fun _ => (h.outbound (Or.inr (Or.inr hs))).1⟩
  | offered =>
    obtain ⟨hout, hi⟩ := h.inbound (Or.inl hs)
    exact ⟨fun ht => (by rw [hout] at ht; cases ht), fun ht => absurd ht (half_disjoint hi)⟩
  | receiving =>
    obtain ⟨hout, hi⟩ := h.inbound (Or.inr hs)
    exact ⟨fun ht => (by rw [hout] at ht; cases ht), fun ht => absurd ht (half_disjoint hi)⟩

/-- How many go out changes with the one stream. -/
theorem Wrote.outgoing {d d' : Data} {i : Handle} {s : Stream} {msgs : List (Addr × List Byte)} {ns : List Note}
    (hw : Wrote d i s msgs ns d') :
    if i ∈ Data.half true then
      d'.outgoing + (if (d.s i).used then 1 else 0) = d.outgoing + if s.used then 1 else 0
    else d'.outgoing = d.outgoing := by
  unfold Data.outgoing
  rw [hw.s]
  split
  · rename_i hi
    exact countP_update Stream.used d.s i s (half_nodup true) hi
  · rename_i hi
    exact countP_update_notMem Stream.used d.s i s hi

theorem Wrote.unfinished {d d' : Data} {i : Handle} {s : Stream} {msgs : List (Addr × List Byte)} {ns : List Note}
    (hw : Wrote d i s msgs ns d') {n k : Nat} (h : Unfinished d.notes n)
    (hk : n + ns.countP Note.isBegun = k + ns.countP Note.isSent) : Unfinished d'.notes k := by
  unfold Unfinished at h ⊢
  rw [hw.notes, List.countP_append, List.countP_append]
  omega

/-- The streams that go out are the sends that are unfinished. -/
theorem Turned.unfinished (h : Turned m m') (hsorted : m.d.Sorted) (hd : Unfinished m.d.notes m.d.outgoing) :
    Unfinished m'.d.notes m'.d.outgoing := by
  cases h with
  | goesOn hs _ _ hw =>
    have hout := hw.outgoing
    rw [hs.used] at hout
    refine hw.unfinished hd ?_
    split at hout <;> simp only [List.countP_nil] <;> omega
  | takes hs _ _ hw =>
    have hout := hw.outgoing
    rw [hs.used] at hout
    refine hw.unfinished hd ?_
    split at hout <;> simp only [List.countP_cons, List.countP_nil, Note.isBegun, Note.isSent] <;> simp <;> omega
  | @ends i r msgs ns hns _ hw =>
    have hout := hw.outgoing
    have hzero : Stream.zero.used = false := rfl
    rw [hzero, if_neg Bool.false_ne_true] at hout
    refine hw.unfinished hd ?_
    rcases hns with ⟨rfl, hu⟩ | ⟨rfl, hs⟩
    · by_cases ho : (m.d.s i).outbound = true
      · rw [if_pos (((hsorted i).out_iff hu).mp ho), if_pos (used_iff.mpr hu)] at hout
        rw [endNote, if_pos ho, List.countP_singleton, List.countP_singleton]
        simp only [Note.isBegun, Note.isSent, if_true, Bool.false_eq_true, if_false]
        omega
      · rw [if_neg fun hi => ho (((hsorted i).out_iff hu).mpr hi)] at hout
        rw [endNote, if_neg ho, List.countP_singleton, List.countP_singleton]
        simp only [Note.isBegun, Note.isSent, Bool.false_eq_true, if_false]
        omega
    · simp only [List.countP_nil]
      rcases hs with hs | hs
      · rw [if_neg (half_disjoint ((hsorted i).inbound (Or.inl hs)).2)] at hout
        omega
      · have hu : (m.d.s i).used = false := by rw [Stream.used, hs]; rfl
        rw [hu, if_neg Bool.false_ne_true] at hout
        split at hout <;> omega
  | endsAgain _ hzero hw =>
    have hout := hw.outgoing
    have hz : Stream.zero.used = false := rfl
    rw [hzero, hz, if_neg Bool.false_ne_true] at hout
    refine hw.unfinished hd ?_
    rw [List.countP_singleton, List.countP_singleton]
    simp only [Note.isBegun, Note.isSent, Bool.false_eq_true, if_false]
    split at hout <;> omega
  | @begins i s hfree hs hw =>
    have hout := hw.outgoing
    have hvacant : (m.d.s i).used = false := by rw [Stream.used, Data.slotFree_some _ hfree]; rfl
    have hu : s.used = true := by rw [Stream.used, hs.1]; rfl
    rw [if_pos (slotFree_half hfree), hvacant, hu, if_neg Bool.false_ne_true, if_pos rfl] at hout
    refine hw.unfinished hd ?_
    rw [List.countP_singleton, List.countP_singleton]
    simp only [Note.isBegun, Note.isSent, if_true, Bool.false_eq_true, if_false]
    omega
  | opens hfree _ _ hw =>
    have hout := hw.outgoing
    rw [if_neg (half_disjoint (slotFree_half hfree))] at hout
    refine hw.unfinished hd ?_
    rw [List.countP_singleton, List.countP_singleton]
    simp only [Note.isBegun, Note.isSent, Bool.false_eq_true, if_false]
    omega

end turned

/-! ## Every stop of every run -/

/-- What each stop finds. -/
structure Endpoint.Kept (m : Endpoint) : Prop where
  sound : m.Sound
  apart : m.d.Apart false
  unfinished : Unfinished m.d.notes m.d.outgoing

theorem Endpoint.Sound.receiving {m : Endpoint} (h : m.Sound) {i : Handle} {s : Stream} (hm : m.mid.held = some (i, s)) :
    s.state = .receiving := by
  obtain ⟨d, place⟩ := m
  cases place with
  | idle => cases hm
  | inTick => cases hm
  | inChunk j held now =>
    cases hm
    exact (h.held _ _ now rfl).2.1

/-- A stream whose chunk hook runs is one that is received. -/
def Mid.Receiving (m : Mid) : Prop := ∀ i s, m.held = some (i, s) → s.state = .receiving

theorem Move.receiving {g : Given} {m m' : Mid} (hm : Move g m m') (h : m.Receiving) : m'.Receiving := by
  have hnone (d : Data) : Mid.Receiving ⟨d, none⟩ := fun _ _ hk => by cases hk
  cases hm with
  | call _ => exact h
  | hand _ _ _ hs _ hb =>
    intro i s hk
    cases hk
    rw [hb.self]
    exact hs
  | _ => exact hnone _

/-- What every change of the table keeps, every step of a run keeps. -/
theorem turned_keeps {P : Data → Prop} (hP : ∀ m m' : Mid, m.d.Sorted → Turned m m' → P m.d → P m'.d) {m : Endpoint}
    (h : m.Sound) (e : Doing) (hm : P m.d) : P (m.step e).d := by
  obtain ⟨g, -, -, hmoves⟩ := Endpoint.step_moves h e False False.elim
  have hkept : (m.step e).mid.d.Sorted ∧ (m.step e).mid.Receiving ∧ P (m.step e).mid.d := by
    refine moves_keep (P := fun n => n.d.Sorted ∧ n.Receiving ∧ P n.d) hmoves ?_ ⟨h.sorted, fun _ _ => h.receiving, hm⟩
    rintro n n' hmove ⟨hsorted, hheld, hn⟩
    exact ⟨hmove.sorted hsorted, hmove.receiving hheld, hP n n' hsorted (hmove.turned hheld) hn⟩
  exact hkept.2.2

theorem Endpoint.Kept.step {m : Endpoint} (h : m.Kept) (e : Doing) : (m.step e).Kept where
  sound := Endpoint.step_sound h.sound e
  apart := turned_keeps (fun _ _ _ ht => ht.apart) h.sound e h.apart
  unfinished := turned_keeps (P := fun d => Unfinished d.notes d.outgoing) (fun _ _ hs ht => ht.unfinished hs) h.sound e
    h.unfinished

theorem Endpoint.Fresh.kept {m : Endpoint} (h : m.Fresh) : m.Kept := by
  have hsound := h.sound
  obtain ⟨⟨hs, -, -, -, hnotes⟩, -⟩ := h
  refine ⟨hsound, fun i j _ _ hu => ?_, ?_⟩
  · rw [hs] at hu
    cases hu
  · rw [Unfinished, Data.outgoing, hs, hnotes]
    rfl

/-- A half that has no free entry is in use throughout. -/
theorem slotFree_none_iff (d : Data) : d.slotFree true = none ↔ d.outgoing = 4 := by
  have hlen : (Data.half true).length = 4 := rfl
  rw [Data.slotFree, List.find?_eq_none, Data.outgoing, ← hlen, List.countP_eq_length]
  apply forall₂_congr
  intro i _
  rw [used_iff, beq_iff_eq]

theorem dataSend_noStream_iff (d : Data) (peer : Addr) (kind : UInt8) (name : List Byte) {data : List Byte} (now : Time)
    (hdata : data ≠ []) : (dataSend d peer kind name data now).1 = .error dataNoStream ↔ d.outgoing = 4 := by
  rw [← slotFree_none_iff, dataSend, if_neg fun h => hdata (List.length_eq_zero_iff.mp h)]
  have hsame : ({ d with sends := d.sends + 1 } : Data).slotFree true = d.slotFree true := rfl
  dsimp only
  rw [hsame]
  cases d.slotFree true with
  | none => exact ⟨fun _ => rfl, fun _ => rfl⟩
  | some i => exact ⟨fun h => (by cases h), fun h => (by cases h)⟩

/-- At every stop, whatever has arrived and whatever the application has called: an entry in
    use is of the half it is in, no two streams that come in are called the same by their
    peer, and a send finds no stream exactly when four of the endpoint's own are unfinished. -/
theorem stream_table {m : Endpoint} (h : Reach Endpoint.Fresh (fun _ _ => True) Endpoint.step m) :
    (∀ i, (m.d.s i).state ≠ .free →
      if i.val < 4 then (m.d.s i).outbound = true ∧
        ((m.d.s i).state = .offering ∨ (m.d.s i).state = .sending ∨ (m.d.s i).state = .draining)
      else (m.d.s i).outbound = false ∧ ((m.d.s i).state = .offered ∨ (m.d.s i).state = .receiving)) ∧
    (∀ i j, 4 ≤ i.val → 4 ≤ j.val → (m.d.s i).state ≠ .free → (m.d.s j).state ≠ .free →
      (m.d.s i).peer = (m.d.s j).peer → (m.d.s i).id = (m.d.s j).id → i = j) ∧
    ∀ (peer : Addr) (kind : UInt8) (name data : List Byte) (now : Time), data ≠ [] →
      ((dataSend m.d peer kind name data now).1 = .error dataNoStream ↔ Unfinished m.d.notes 4) := by
  have hkept : m.Kept := h.inv (I := Endpoint.Kept) (fun _ h0 => h0.kept) fun _ e hm _ => hm.step e
  have hhalf (i : Handle) : (i ∈ Data.half true ↔ i.val < 4) ∧ (i ∈ Data.half false ↔ 4 ≤ i.val) := by
    revert i
    decide
  refine ⟨fun i hu => ?_, fun i j hi hj hui huj hpeer hid => ?_, fun peer kind name data now hdata => ?_⟩
  · have hside := hkept.sound.sorted i
    split
    · rename_i hi
      have hout := (hside.out_iff hu).mpr ((hhalf i).1.mpr hi)
      refine ⟨hout, ?_⟩
      cases hs : (m.d.s i).state with
      | free => exact absurd hs hu
      | offering => exact Or.inl rfl
      | sending => exact Or.inr (Or.inl rfl)
      | draining => exact Or.inr (Or.inr rfl)
      | offered => exact absurd hout (by rw [(hside.inbound (Or.inl hs)).1]; decide)
      | receiving => exact absurd hout (by rw [(hside.inbound (Or.inr hs)).1]; decide)
    · rename_i hi
      have hout : (m.d.s i).outbound = false :=
        Bool.eq_false_iff.mpr fun ht => hi ((hhalf i).1.mp ((hside.out_iff hu).mp ht))
      refine ⟨hout, ?_⟩
      cases hs : (m.d.s i).state with
      | free => exact absurd hs hu
      | offered => exact Or.inl rfl
      | receiving => exact Or.inr rfl
      | offering => exact absurd (hside.outbound (Or.inl hs)).1 (by rw [hout]; decide)
      | sending => exact absurd (hside.outbound (Or.inr (Or.inl hs))).1 (by rw [hout]; decide)
      | draining => exact absurd (hside.outbound (Or.inr (Or.inr hs))).1 (by rw [hout]; decide)
  · exact hkept.apart i j ((hhalf i).2.mpr hi) ((hhalf j).2.mpr hj) (used_iff.mpr hui) (used_iff.mpr huj)
      (Prod.ext hpeer hid)
  · rw [dataSend_noStream_iff m.d peer kind name now hdata]
    have hcount := hkept.unfinished
    unfold Unfinished at hcount ⊢
    omega

/-- Four sends under way, and a peer that has offered as many streams and one more. -/
def flooded : List Doing :=
  let offer (id : UInt8) : Doing := .rx (dataFrame 2 1 (opOffer :: id :: offerExtra { Stream.zero with total := 5 })) 1000
  let send (id : Byte) : Doing := .call (.send 3 0 [] [id]) 1000
  [offer 1, send 1, offer 2, send 2, offer 3, send 3, offer 4, offer 5, send 4]

def freshEndpoint : Endpoint := ⟨dataInit, .idle⟩

theorem freshEndpoint_fresh : freshEndpoint.Fresh := ⟨⟨rfl, rfl, rfl, rfl, rfl⟩, rfl⟩

theorem stream_table_when_flooded :
    (dataSend (freshEndpoint.run flooded).d 3 0 [] [5] 1000).1 = .error dataNoStream := by
  have hreach : Reach Endpoint.Fresh (fun _ _ => True) Endpoint.step (freshEndpoint.run flooded) :=
    Reach.run_free (fun _ _ => trivial) (.init freshEndpoint_fresh) flooded
  exact ((stream_table hreach).2.2 3 0 [] [5] 1000 (by decide)).mpr (by decide +kernel)

end DeskHop.Bulk
