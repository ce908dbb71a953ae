/-
  DeskHop.Bulk.Hearing — what an endpoint makes of the streams it is sent.

  All of them come from one peer, whose ids tell them apart (`Inbox`). Of one id, what a
  turn does goes back to the message it was given (`Heard`): a stream is opened by an
  offer alone, and a chunk alone has the application handed anything, a DONE sent or
  the stream reported sound, which closes it.
-/

import DeskHop.Bulk.Speaking

namespace DeskHop.Bulk

open DeskHop.Lib DeskHop.Wire Relation

/-! ## What a log says of an id -/

/-- Something of stream `id` has been handed over. -/
def Started (notes : List Note) (id : UInt8) : Prop :=
  Ever (fun pre n => ∃ h off data, n = .chunk h off data ∧ streamOf h pre = some id) notes

theorem Started.mono {notes notes' : List Note} (h : notes <+: notes') {id : UInt8} (hs : Started notes id) :
    Started notes' id := by
  obtain ⟨more, rfl⟩ := h
  obtain ⟨pre, n, post, rfl, hn⟩ := hs
  exact ⟨pre, n, post ++ more, by simp, hn⟩

theorem started_snoc {notes : List Note} {n : Note} {id : UInt8} : Started (notes ++ [n]) id ↔
    Started notes id ∨ ∃ h off data, n = .chunk h off data ∧ streamOf h notes = some id := ever_snoc

theorem reported_iff (notes : List Note) (id : UInt8) : Reported notes id ↔
    Ever (fun pre n => ∃ h, n = .received h dataOk ∧ streamOf h pre = some id) notes := by
  constructor
  · rintro ⟨pre, h, post, rfl, hs⟩
    exact ⟨pre, _, post, rfl, h, rfl, hs⟩
  · rintro ⟨pre, _, post, rfl, h, rfl, hs⟩
    exact ⟨pre, h, post, rfl, hs⟩

theorem reported_snoc {notes : List Note} {n : Note} {id : UInt8} : Reported (notes ++ [n]) id ↔
    Reported notes id ∨ ∃ h, n = .received h dataOk ∧ streamOf h notes = some id := by
  rw [reported_iff, reported_iff, ever_snoc]

/-- Nothing new about inbound streams, but that some have ended. -/
structure Quiet (notes notes' : List Note) : Prop where
  log : ∀ k ∈ Data.half false, streamOf k notes' = streamOf k notes
  started : ∀ id, Started notes' id ↔ Started notes id
  reported : ∀ id, Reported notes' id ↔ Reported notes id

theorem Quiet.refl (notes : List Note) : Quiet notes notes := ⟨fun _ _ => rfl, fun _ => Iff.rfl, fun _ => Iff.rfl⟩

theorem quiet_snoc {notes : List Note} {n : Note} (hlog : ∀ k ∈ Data.half false, ∀ acc, streamStep k acc n = acc)
    (hchunk : ∀ h off data, n ≠ .chunk h off data) (hok : ∀ h, n ≠ .received h dataOk) : Quiet notes (notes ++ [n]) := by
  refine ⟨fun k hk => ?_, fun id => ?_, fun id => ?_⟩
  · rw [streamOf_snoc, hlog k hk]
  · rw [started_snoc]
    refine or_iff_left ?_
    rintro ⟨h, off, data, hn, -⟩
    exact hchunk h off data hn
  · rw [reported_snoc]
    refine or_iff_left ?_
    rintro ⟨h, hn, -⟩
    exact hok h hn

theorem quiet_end (notes : List Note) (s : Stream) (i : Handle) {r : Byte} (hr : s.outbound = true ∨ r ≠ dataOk) :
    Quiet notes (notes ++ [endNote s i r]) := by
  unfold endNote
  split
  · exact quiet_snoc (fun _ _ _ => rfl) (fun _ _ _ h => by cases h) fun _ h => by cases h
  · rename_i hout
    refine quiet_snoc (fun _ _ _ => rfl) (fun _ _ _ h => by cases h) fun h hn => ?_
    rcases hr with hr | hr
    · exact hout hr
    · exact hr (Note.received.inj hn).2

theorem quiet_begun (notes : List Note) {i : Handle} (hi : i ∈ Data.half true) (id : UInt8) (c : List Byte) :
    Quiet notes (notes ++ [.begun i id c]) := by
  refine quiet_snoc (fun k hk acc => if_neg ?_) (fun _ _ _ h => by cases h) fun _ h => by cases h
  rintro rfl
  exact half_disjoint hk hi

/-! ## Streams that come in -/

def Stream.comesIn (s : Stream) : Prop := s.state = .offered ∨ s.state = .receiving

structure Inbox (peer : Addr) (d : Data) : Prop where
  peers : ∀ k, (d.s k).comesIn → (d.s k).peer = peer
  unique : ∀ k l, (d.s k).comesIn → (d.s l).comesIn → (d.s k).id = (d.s l).id → k = l
  logged : ∀ k, (d.s k).comesIn → streamOf k d.notes = some (d.s k).id

def Receives (d : Data) (id : UInt8) : Prop := ∃ k, (d.s k).comesIn ∧ (d.s k).id = id

theorem not_comesIn_zero : ¬ Stream.zero.comesIn := by
  rintro (h | h) <;> cases h

/-- A stream that comes in under the same id and from the same peer. -/
def Continues (s s' : Stream) : Prop := s'.comesIn → s.comesIn ∧ s'.id = s.id ∧ s'.peer = s.peer

theorem Continues.of_same {s s' : Stream} (hst : s'.state = s.state) (hid : s'.id = s.id) (hpeer : s'.peer = s.peer) :
    Continues s s' := by
  intro h
  refine ⟨?_, hid, hpeer⟩
  rw [Stream.comesIn, hst] at h
  exact h

theorem continues_zero (s : Stream) : Continues s .zero := fun h => absurd h not_comesIn_zero

section inbox

variable {peer : Addr} {d d' : Data} {i : Handle} {s : Stream} {msgs : List (Addr × List Byte)} {ns : List Note}

theorem slot_continues (hb : Becomes d i s msgs ns d') (hs : Continues (d.s i) s) (k : Handle) :
    Continues (d.s k) (d'.s k) := by
  by_cases hki : k = i
  · subst hki
    rw [hb.self]
    exact hs
  · rw [hb.ne hki]
    exact fun h => ⟨h, rfl, rfl⟩

theorem Inbox.continues (h : Inbox peer d) (hd : d.Sorted) (hslot : ∀ k, Continues (d.s k) (d'.s k))
    (hlog : ∀ k ∈ Data.half false, streamOf k d'.notes = streamOf k d.notes) : Inbox peer d' := by
  refine ⟨fun k hk => ?_, fun k l hk hl hkl => ?_, fun k hk => ?_⟩
  · obtain ⟨hk, -, hp⟩ := hslot k hk
    exact hp.trans (h.peers k hk)
  · obtain ⟨hk, hkid, -⟩ := hslot k hk
    obtain ⟨hl, hlid, -⟩ := hslot l hl
    exact h.unique k l hk hl (by rw [← hkid, ← hlid]; exact hkl)
  · obtain ⟨hk, hkid, -⟩ := hslot k hk
    rw [hlog k ((hd k).inbound hk).2, hkid]
    exact h.logged k hk

theorem Receives.of_continues {id : UInt8} (hr : Receives d' id) (hslot : ∀ k, Continues (d.s k) (d'.s k)) :
    Receives d id := by
  obtain ⟨k, hk, hid⟩ := hr
  obtain ⟨hk, hkid, -⟩ := hslot k hk
  exact ⟨k, hk, hkid ▸ hid⟩

end inbox

/-! ## What a turn makes of an id -/

/-- While a chunk's hook runs: its stream is as it was handed over, or cancelled, and no
    other has its id. -/
structure Handed (g : Given) (d : Data) (i : Handle) (s : Stream) : Prop where
  state : s.state = .receiving
  half : i ∈ Data.half false
  same : d.s i = s ∨ d.s i = .zero
  logged : streamOf i d.notes = some s.id
  said : g.brings opChunk s.id
  receives : Receives g.start s.id
  started : Started d.notes s.id
  alone : ∀ k, (d.s k).comesIn → (d.s k).id = s.id → k = i

structure Heard (g : Given) (id : UInt8) (m : Mid) : Prop where
  sorted : m.d.Sorted
  inbox : Inbox g.src m.d
  started : Started m.d.notes id → Started g.start.notes id ∨ g.brings opChunk id
  receives : Receives m.d id → Receives g.start id ∨ g.brings opOffer id
  done : ∀ x ∈ m.d.out, Says opDone id x.2 → Receives g.start id ∧ Started m.d.notes id
  reported : Reported m.d.notes id →
    Reported g.start.notes id ∨ g.brings opChunk id ∧ Started m.d.notes id ∧ ¬ Receives m.d id
  held : ∀ i s, m.held = some (i, s) → Handed g m.d i s

section heard

variable {g : Given} {id : UInt8} {d d' : Data} {k k' : Option (Handle × Stream)}

/-- Nothing comes in, and nothing is said of what does. -/
theorem Heard.quiet (h : Heard g id ⟨d, k⟩) (hsorted : d'.Sorted) (hslot : ∀ k, Continues (d.s k) (d'.s k))
    (hquiet : Quiet d.notes d'.notes) (hout : ∀ x ∈ d'.out, Says opDone id x.2 → x ∈ d.out)
    (hheld : ∀ i s, k' = some (i, s) → Handed g d' i s) : Heard g id ⟨d', k'⟩ := by
  refine ⟨hsorted, h.inbox.continues h.sorted hslot hquiet.log, fun hs => ?_, fun hr => ?_, fun x hx hdone => ?_,
    fun hr => ?_, hheld⟩
  · exact h.started ((hquiet.started id).mp hs)
  · exact h.receives (hr.of_continues hslot)
  · obtain ⟨h1, h2⟩ := h.done x (hout x hx hdone) hdone
    exact ⟨h1, (hquiet.started id).mpr h2⟩
  · rcases h.reported ((hquiet.reported id).mp hr) with h1 | ⟨h1, h2, h3⟩
    · exact Or.inl h1
    · exact Or.inr ⟨h1, (hquiet.started id).mpr h2, fun hr => h3 (hr.of_continues hslot)⟩

theorem Handed.quiet {i : Handle} {s : Stream} (h : Handed g d i s) (hslot : ∀ k, Continues (d.s k) (d'.s k))
    (hquiet : Quiet d.notes d'.notes) (hsame : d'.s i = s ∨ d'.s i = .zero) : Handed g d' i s := by
  refine ⟨h.state, h.half, hsame, ?_, h.said, h.receives, (hquiet.started _).mpr h.started, fun k hk hid => ?_⟩
  · rw [hquiet.log i h.half]
    exact h.logged
  · obtain ⟨hk, hkid, -⟩ := hslot k hk
    exact h.alone k hk (hkid ▸ hid)

theorem out_other {msgs : List (Addr × List Byte)} (hout : d'.out = d.out ++ msgs)
    (hm : ∀ x ∈ msgs, byteAt x.2 0 ≠ opDone) : ∀ x ∈ d'.out, Says opDone id x.2 → x ∈ d.out := by
  intro x hx hdone
  rw [hout] at hx
  rcases List.mem_append.mp hx with hx | hx
  · exact hx
  · exact absurd hdone.1 (hm x hx)

theorem no_done {peer : Addr} {op : Byte} {id : UInt8} {extra : List Byte} (h : op ≠ opDone) :
    ∀ x ∈ [(peer, op :: id :: extra)], byteAt x.2 0 ≠ opDone := by
  intro x hx
  rw [List.mem_singleton.mp hx]
  exact h

theorem CallMove.slots {calm : Prop} {held : Option Handle} {now : Time} (hm : CallMove calm held now d d')
    (k : Handle) : Continues (d.s k) (d'.s k) := by
  cases hm with
  | accept hs hb => exact slot_continues hb (fun _ => ⟨Or.inl hs, rfl, rfl⟩) k
  | reject _ hb => exact slot_continues hb (continues_zero _) k
  | cancel _ _ hb => exact slot_continues hb (continues_zero _) k
  | fail => exact fun h => ⟨h, rfl, rfl⟩
  | @send _ i s _ hs hout =>
    rw [hout.1]
    by_cases hki : k = i
    · subst hki
      rw [Function.update_self]
      intro hin
      rw [Stream.comesIn, hs.1] at hin
      rcases hin with hin | hin <;> cases hin
    · rw [Function.update_of_ne hki]
      exact fun h => ⟨h, rfl, rfl⟩

theorem CallMove.quiet {calm : Prop} {held : Option Handle} {now : Time} (hm : CallMove calm held now d d') :
    Quiet d.notes d'.notes := by
  cases hm with
  | accept _ hb =>
    rw [hb.notes, List.append_nil]
    exact .refl _
  | reject _ hb =>
    rw [hb.notes, List.append_nil]
    exact .refl _
  | cancel _ _ hb =>
    rw [hb.notes]
    exact quiet_end _ _ _ (Or.inr (by decide))
  | fail => exact .refl _
  | send hfree _ _ hnotes =>
    rw [hnotes]
    exact quiet_begun _ (slotFree_half hfree) _ _

theorem CallMove.out {calm : Prop} {held : Option Handle} {now : Time} (hm : CallMove calm held now d d') :
    ∀ x ∈ d'.out, Says opDone id x.2 → x ∈ d.out := by
  cases hm with
  | accept _ hb => exact out_other hb.out (no_done (by decide))
  | reject _ hb => exact out_other hb.out (no_done (by decide))
  | cancel _ _ hb => exact out_other hb.out (no_done (by decide))
  | fail => exact fun _ hx _ => hx
  | send _ _ hout => exact out_other hout.2 (no_done (by decide))

theorem CallMove.heard (hm : CallMove g.calm (k.map Prod.fst) g.now d d') (h : Heard g id ⟨d, k⟩) :
    Heard g id ⟨d', k⟩ := by
  refine h.quiet (hm.sorted h.sorted) hm.slots hm.quiet hm.out fun i s hk => ?_
  have hi := h.held i s hk
  exact hi.quiet hm.slots hm.quiet (held_stays (.single hm) hi.half hi.state hi.same)

/-- A stream that comes in goes on or ends, with nothing handed over. -/
theorem Heard.becomes {i : Handle} {s : Stream} {msgs : List (Addr × List Byte)} {ns : List Note}
    (h : Heard g id ⟨d, k⟩) (hb : Becomes d i s msgs ns d') (hsorted : d'.Sorted) (hs : Continues (d.s i) s)
    (hquiet : Quiet d.notes (d.notes ++ ns)) (hm : ∀ x ∈ msgs, byteAt x.2 0 ≠ opDone) : Heard g id ⟨d', none⟩ :=
  h.quiet hsorted (slot_continues hb hs) (hb.notes ▸ hquiet) (out_other hb.out hm) fun _ _ hk => by cases hk

theorem quiet_nil (notes : List Note) : Quiet notes (notes ++ []) := by
  rw [List.append_nil]
  exact .refl _

theorem no_done_nil : ∀ x ∈ ([] : List (Addr × List Byte)), byteAt x.2 0 ≠ opDone :=
  fun _ hx => absurd hx List.not_mem_nil

/-- An offer opens a stream that was not there. -/
theorem Heard.opens {i : Handle} {p : List Byte} {s : Stream} (h : Heard g id ⟨g.start, none⟩) (hp : g.payload = some p)
    (hop : byteAt p 0 = opOffer) (hnone : g.start.slotFind g.src (byteAt p 1) false = none)
    (hs : s = inboundStream g.start g.src (byteAt p 1) (p.drop 2) g.now)
    (hb : Becomes g.start i s [] [.offered i s.id s.peer s.kind s.total s.name] d') (hsorted : d'.Sorted) :
    Heard g id ⟨d', none⟩ := by
  have hsid : s.id = byteAt p 1 := by rw [hs]; rfl
  have hspeer : s.peer = g.src := by rw [hs]; rfl
  have hnew : ∀ k, k ≠ i → (g.start.s k).comesIn → (g.start.s k).id ≠ s.id := by
    intro k _ hk hid
    have hhalf := ((h.sorted k).inbound hk).2
    have := List.find?_eq_none.mp hnone k hhalf
    have hused : (g.start.s k).state ≠ .free := by rcases hk with hk | hk <;> rw [hk] <;> decide
    simp [hused, hid, hsid] at this
    exact this (h.inbox.peers k hk)
  have hlog : ∀ k, k ≠ i → streamOf k d'.notes = streamOf k g.start.notes := by
    intro k hki
    rw [hb.notes]
    exact streamOf_other _ (Ne.symm hki)
  have hother : ∀ k, k ≠ i → d'.s k = g.start.s k := fun k hki => hb.ne hki
  have hstarted : Started d'.notes id ↔ Started g.start.notes id := by
    rw [hb.notes, started_snoc]
    exact or_iff_left fun ⟨_, _, _, hn, _⟩ => by cases hn
  have hreported : Reported d'.notes id ↔ Reported g.start.notes id := by
    rw [hb.notes, reported_snoc]
    exact or_iff_left fun ⟨_, hn, _⟩ => by cases hn
  refine ⟨hsorted, ⟨fun k hk => ?_, fun k l hk hl hkl => ?_, fun k hk => ?_⟩, fun hst => ?_, ?_, fun x hx hdone => ?_,
    fun hr => Or.inl (hreported.mp hr), fun _ _ hk => by cases hk⟩
  · by_cases hki : k = i
    · rw [hki, hb.self]
      exact hspeer
    · rw [hother k hki] at hk ⊢
      exact h.inbox.peers k hk
  · by_cases hki : k = i <;> by_cases hli : l = i
    · exact hki.trans hli.symm
    · rw [hki, hb.self, hother l hli] at hkl
      rw [hother l hli] at hl
      exact absurd hkl.symm (hnew l hli hl)
    · rw [hli, hb.self, hother k hki] at hkl
      rw [hother k hki] at hk
      exact absurd hkl (hnew k hki hk)
    · rw [hother k hki] at hk hkl
      rw [hother l hli] at hl hkl
      exact h.inbox.unique k l hk hl hkl
  · by_cases hki : k = i
    · rw [hki, hb.self, hb.notes, streamOf_snoc]
      exact if_pos rfl
    · rw [hother k hki] at hk ⊢
      rw [hlog k hki]
      exact h.inbox.logged k hk
  · exact h.started (hstarted.mp hst)
  · rintro ⟨k, hk, hid⟩
    by_cases hki : k = i
    · rw [hki, hb.self, hsid] at hid
      exact Or.inr ⟨p, hp, hop, hid⟩
    · rw [hother k hki] at hk hid
      exact Or.inl ⟨k, hk, hid⟩
  · rw [hb.out, List.append_nil] at hx
    obtain ⟨h1, h2⟩ := h.done x hx hdone
    exact ⟨h1, hstarted.mpr h2⟩

theorem handsChunk_some {p : List Byte} {i : Handle} (h : g.start.handsChunk g.src p = some i) :
    byteAt p 0 = opChunk ∧ (g.start.s i).id = byteAt p 1 ∧ (g.start.s i).state = .receiving := by
  obtain ⟨haddr, hcond⟩ := Option.filter_eq_some_iff.mp h
  simp only [Bool.and_eq_true, beq_iff_eq, decide_eq_true_eq] at hcond
  exact ⟨hcond.1.1.1.1, (g.start.addressee_some haddr).2.1, hcond.1.1.2⟩

/-- A chunk starts the stream of its id. -/
theorem Heard.hands {i : Handle} {p data : List Byte} {off crc : UInt32} (h : Heard g id ⟨d, none⟩)
    (hp : g.payload = some p) (hhand : g.start.handsChunk g.src p = some i) (hsame : Stamped (g.start.s i) (d.s i))
    (hs : (d.s i).state = .receiving) (hb : Becomes d i { d.s i with running := crc } [] [.chunk i off data] d')
    (hsorted : d'.Sorted) : Heard g id ⟨d', some (i, d'.s i)⟩ := by
  obtain ⟨hop, hid, hstart⟩ := handsChunk_some hhand
  have hsid : (d.s i).id = byteAt p 1 := by
    obtain ⟨_, _, _, hst⟩ := hsame
    rw [hst]
    exact hid
  have hlogged := h.inbox.logged i (Or.inr hs)
  have hlog : ∀ k, streamOf k d'.notes = streamOf k d.notes := fun k => by
    rw [hb.notes, streamOf_snoc]
    rfl
  have hstarted : ∀ id', Started d'.notes id' ↔ Started d.notes id' ∨ id' = (d.s i).id := by
    intro id'
    rw [hb.notes, started_snoc]
    refine or_congr_right ⟨?_, ?_⟩
    · rintro ⟨j, _, _, hn, hj⟩
      cases hn
      rw [hlogged] at hj
      exact (Option.some.inj hj).symm
    · rintro rfl
      exact ⟨i, off, data, rfl, hlogged⟩
  have hreported : Reported d'.notes id ↔ Reported d.notes id := by
    rw [hb.notes, reported_snoc]
    exact or_iff_left fun ⟨_, hn, _⟩ => by cases hn
  have hslot := slot_continues hb (.of_same rfl rfl rfl)
  refine ⟨hsorted, h.inbox.continues h.sorted hslot fun k _ => hlog k, fun hst => ?_,
    fun hr => h.receives (hr.of_continues hslot), fun x hx hdone => ?_, fun hr => ?_, fun j s hk => ?_⟩
  · rcases (hstarted id).mp hst with hst | rfl
    · exact h.started hst
    · exact Or.inr ⟨p, hp, hop, hsid.symm⟩
  · rw [hb.out, List.append_nil] at hx
    obtain ⟨h1, h2⟩ := h.done x hx hdone
    exact ⟨h1, (hstarted id).mpr (Or.inl h2)⟩
  · rcases h.reported (hreported.mp hr) with h1 | ⟨h1, h2, h3⟩
    · exact Or.inl h1
    · exact Or.inr ⟨h1, (hstarted id).mpr (Or.inl h2), fun hr => h3 (hr.of_continues hslot)⟩
  · cases hk
    rw [hb.self]
    refine ⟨hs, ((h.sorted i).inbound (Or.inr hs)).2, Or.inl hb.self, (hlog i).trans hlogged, ⟨p, hp, hop, hsid.symm⟩,
      ⟨i, Or.inr hstart, hid.trans hsid.symm⟩, (hstarted _).mpr (Or.inr rfl), fun k hk hid => ?_⟩
    obtain ⟨hk, hkid, -⟩ := hslot k hk
    exact h.inbox.unique k i hk (Or.inr hs) (hkid ▸ hid)

/-- The verdict closes the stream, and is about no other. -/
theorem Heard.closes {i : Handle} {s : Stream} {v : Byte} (h : Heard g id ⟨d, some (i, s)⟩) (hid0 : id ≠ 0)
    (hb : Becomes d i .zero [((d.s i).peer, [opDone, (d.s i).id, v])] [endNote (d.s i) i v] d') (hsorted : d'.Sorted) :
    Heard g id ⟨d', none⟩ := by
  have hi := h.held i s rfl
  have hout : (d.s i).outbound = false := by
    rcases hi.same with hs | hs
    · refine ((h.sorted i).inbound (Or.inr ?_)).1
      rw [hs]
      exact hi.state
    · rw [hs]
      rfl
  have hnote : endNote (d.s i) i v = .received i v := if_neg (by rw [hout]; decide)
  rw [hnote] at hb
  have hslot := slot_continues hb (continues_zero _)
  have hlog : ∀ k, streamOf k d'.notes = streamOf k d.notes := fun k => by
    rw [hb.notes, streamOf_snoc]
    rfl
  have hstarted : ∀ id', Started d'.notes id' ↔ Started d.notes id' := by
    intro id'
    rw [hb.notes, started_snoc]
    exact or_iff_left fun ⟨_, _, _, hn, _⟩ => by cases hn
  have hreported : Reported d'.notes id → Reported d.notes id ∨ id = s.id := by
    rw [hb.notes, reported_snoc]
    refine Or.imp_right ?_
    rintro ⟨j, hn, hj⟩
    cases hn
    rw [hi.logged] at hj
    exact (Option.some.inj hj).symm
  refine ⟨hsorted, h.inbox.continues h.sorted hslot fun k _ => hlog k,
    fun hst => h.started ((hstarted id).mp hst), fun hr => h.receives (hr.of_continues hslot), fun x hx hdone => ?_,
    fun hr => ?_, fun _ _ hk => by cases hk⟩
  · rw [hb.out] at hx
    rcases List.mem_append.mp hx with hx | hx
    · obtain ⟨h1, h2⟩ := h.done x hx hdone
      exact ⟨h1, (hstarted id).mpr h2⟩
    · rw [List.mem_singleton] at hx
      subst hx
      have hdid : (d.s i).id = id := hdone.2
      rcases hi.same with hs | hs
      · rw [hs] at hdid
        subst hdid
        exact ⟨hi.receives, (hstarted _).mpr hi.started⟩
      · rw [hs] at hdid
        exact absurd hdid.symm hid0
  · rcases hreported hr with hr | rfl
    · rcases h.reported hr with h1 | ⟨h1, h2, h3⟩
      · exact Or.inl h1
      · exact Or.inr ⟨h1, (hstarted id).mpr h2, fun hr => h3 (hr.of_continues hslot)⟩
    · refine Or.inr ⟨hi.said, (hstarted _).mpr hi.started, ?_⟩
      rintro ⟨k, hk, hkid⟩
      obtain ⟨hk', hkid', -⟩ := hslot k hk
      have hki := hi.alone k hk' (hkid' ▸ hkid)
      rw [hki, hb.self] at hk
      exact not_comesIn_zero hk

/-- A DONE ends a stream that goes out, and no other message says "sound". -/
theorem Heard.told {i : Handle} {p : List Byte} (h : Heard g id ⟨d, none⟩) (hsober : Sober p)
    (hop : byteAt p 0 = opReject ∨ byteAt p 0 = opDone ∨ byteAt p 0 = opAbort)
    (haddr : g.start.addressee g.src (byteAt p 1) (byteAt p 0) = some i) (hsame : Stamped (g.start.s i) (d.s i))
    (hb : Becomes d i .zero [] [endNote (d.s i) i (resultOf (p.drop 2) (defaultResult (byteAt p 0)))] d')
    (hsorted : d'.Sorted) : Heard g id ⟨d', none⟩ := by
  refine h.becomes hb hsorted (continues_zero _) (quiet_end _ _ _ ?_) no_done_nil
  rcases hop with hop | hop | hop
  · exact Or.inr (hsober (Or.inl hop))
  · left
    rw [hop] at haddr
    have hhalf : i ∈ Data.half true := slotFind_half haddr
    have hused := (g.start.addressee_some haddr).1
    have hst : (d.s i).state = (g.start.s i).state := by
      obtain ⟨_, _, _, hst⟩ := hsame
      rw [hst]
      rfl
    rw [← hst] at hused
    have hout := (h.sorted i).outbound
    have hin := (h.sorted i).inbound
    cases hstate : (d.s i).state with
    | free => exact absurd hstate hused
    | offering => exact (hout (Or.inl hstate)).1
    | sending => exact (hout (Or.inr (Or.inl hstate))).1
    | draining => exact (hout (Or.inr (Or.inr hstate))).1
    | offered => exact absurd hhalf (half_disjoint (hin (Or.inl hstate)).2)
    | receiving => exact absurd hhalf (half_disjoint (hin (Or.inr hstate)).2)
  · exact Or.inr (hsober (Or.inr hop))

theorem Move.heard {m m' : Mid} (hm : Move g m m') (hid : id ≠ 0) (hsober : ∀ p, g.payload = some p → Sober p)
    (h : Heard g id m) : Heard g id m' := by
  have hsorted := hm.sorted h.sorted
  cases hm with
  | call hm => exact hm.heard h
  | stamp _ hb => exact h.becomes hb hsorted (.of_same rfl rfl rfl) (quiet_nil _) no_done_nil
  | decline _ _ hs _ hb =>
    refine h.becomes hb hsorted ?_ (quiet_nil _) (no_done (by decide))
    rcases hs with rfl | ⟨-, rfl⟩
    · exact .of_same rfl rfl rfl
    · exact continues_zero _
  | opened hp hop hnone _ hs _ hb => exact h.opens hp hop hnone hs hb hsorted
  | ack _ hb => exact h.becomes hb hsorted (.of_same rfl rfl rfl) (quiet_nil _) (no_done (by decide))
  | hand hp hhand hsame hs _ hb => exact h.hands hp hhand hsame hs hb hsorted
  | count hs _ hb =>
    subst hs
    exact h.becomes hb hsorted (.of_same rfl rfl rfl) (quiet_nil _) no_done_nil
  | verdict _ _ hb => exact h.closes hid hb hsorted
  | quit _ hr hmsgs hb =>
    refine h.becomes hb hsorted (continues_zero _) (quiet_end _ _ _ (Or.inr hr)) ?_
    rcases hmsgs with rfl | rfl
    · exact no_done_nil
    · exact no_done (by decide)
  | told hp hop haddr hsame hr hb =>
    subst hr
    exact h.told (hsober _ hp) hop haddr hsame hb hsorted
  | @steer _ _ i _ _ _ _ _ hb =>
    refine h.becomes hb hsorted (fun hin => ?_) (quiet_nil _) no_done_nil
    rcases hin with hin | hin <;> cases hin
  | push _ hb => exact h.becomes hb hsorted (.of_same rfl rfl rfl) (quiet_nil _) (no_done (by decide))
  | drain _ hb =>
    refine h.becomes hb hsorted (fun hin => ?_) (quiet_nil _) no_done_nil
    rcases hin with hin | hin <;> cases hin
  | offer _ hb => exact h.becomes hb hsorted (.of_same rfl rfl rfl) (quiet_nil _) (no_done (by decide))

end heard

/-- What a turn makes of an id, from an empty outbox. -/
theorem Moves.heard {g : Given} {d' : Data} (hm : Moves g g.start d') {id : UInt8} (hid : id ≠ 0)
    (hsober : ∀ p, g.payload = some p → Sober p) (hsorted : g.start.Sorted) (hin : Inbox g.src g.start)
    (hout : g.start.out = []) : Heard g id ⟨d', none⟩ := by
  refine moves_keep hm (P := Heard g id) (fun _ _ hstep => hstep.heard hid hsober) ?_
  refine ⟨hsorted, hin, Or.inl, Or.inl, fun x hx => ?_, Or.inl, fun _ _ hk => by cases hk⟩
  rw [hout] at hx
  exact absurd hx List.not_mem_nil

end DeskHop.Bulk
