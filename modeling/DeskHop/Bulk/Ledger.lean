/-
  DeskHop.Bulk.Ledger — what the sending application is told of each stream.

  While its ids have not come round, a stream that goes out has had no word yet, and no
  id is spoken of before it is given out (`Ledger`). A turn tells it "sent and sound" of
  a stream only on a DONE for that stream (`Moves.tells`), and a stream that goes out is
  there until its end is told (`Moves.goes`).
-/

import DeskHop.Bulk.Hearing

namespace DeskHop.Bulk

open DeskHop.Lib DeskHop.Wire Relation

/-- The sending application has been told `r` of stream `id`. -/
def Sent (notes : List Note) (id : UInt8) (r : Byte) : Prop :=
  Ever (fun pre n => ∃ h, n = .sent h r ∧ streamOf h pre = some id) notes

theorem sent_snoc {notes : List Note} {n : Note} {id : UInt8} {r : Byte} : Sent (notes ++ [n]) id r ↔
    Sent notes id r ∨ ∃ h, n = .sent h r ∧ streamOf h notes = some id := ever_snoc

/-- Since the log was `base`, entry `n` has been made about stream `id`. -/
def Since (base notes : List Note) (n : Note) (id : UInt8) : Prop :=
  ∃ mid post, notes = base ++ mid ++ n :: post ∧ streamOf n.handle (base ++ mid) = some id

theorem Since.mono {base notes notes' : List Note} {n : Note} {id : UInt8} (h : Since base notes n id)
    (hn : notes <+: notes') : Since base notes' n id := by
  obtain ⟨more, rfl⟩ := hn
  obtain ⟨mid, post, rfl, hs⟩ := h
  exact ⟨mid, post ++ more, by simp, hs⟩

theorem Since.earlier {base base' notes : List Note} {n : Note} {id : UInt8} (h : Since base' notes n id)
    (hn : base <+: base') : Since base notes n id := by
  obtain ⟨more, rfl⟩ := hn
  obtain ⟨mid, post, rfl, hs⟩ := h
  exact ⟨more ++ mid, post, by simp, by rwa [← List.append_assoc]⟩

theorem since_snoc {base notes : List Note} {n : Note} {id : UInt8} (hb : base <+: notes)
    (hs : streamOf n.handle notes = some id) : Since base (notes ++ [n]) n id := by
  obtain ⟨mid, rfl⟩ := hb
  exact ⟨mid, [], rfl, hs⟩

theorem Since.longer {base notes : List Note} {n : Note} {id : UInt8} (h : Since base notes n id) :
    base.length < notes.length := by
  obtain ⟨mid, post, rfl, -⟩ := h
  simp only [List.length_append, List.length_cons]
  omega

theorem Since.sent {base notes : List Note} {i : Handle} {r : Byte} {id : UInt8}
    (h : Since base notes (.sent i r) id) : Sent notes id r := by
  obtain ⟨mid, post, rfl, hs⟩ := h
  exact ⟨base ++ mid, _, post, rfl, i, rfl, hs⟩

structure Ledger (d : Data) : Prop where
  logged : ∀ k, (d.s k).goesOut → streamOf k d.notes = some (d.s k).id
  pending : ∀ k, (d.s k).goesOut → ∀ r, ¬ Sent d.notes (d.s k).id r
  next : ∀ id : UInt8, d.nextId.toNat ≤ id.toNat → ∀ r, ¬ Sent d.notes id r

/-- What a turn has told the sending application. -/
structure Tells (g : Given) (m : Mid) : Prop where
  sorted : m.d.Sorted
  issued : Issued m.d
  ledger : Ledger m.d
  held : ∀ i s, m.held = some (i, s) → s.state = .receiving
  sound : ∀ id, Sent m.d.notes id dataOk → Sent g.start.notes id dataOk ∨ g.brings opDone id

section tells

variable {g : Given} {d d' : Data} {k k' : Option (Handle × Stream)} {i : Handle} {s : Stream}
  {msgs : List (Addr × List Byte)} {ns : List Note}

theorem goesOut_of_outbound (hs : Sided i s) (h : s.outbound = true) : s.goesOut := by
  cases hst : s.state with
  | free =>
    rw [hs.free hst] at h
    cases h
  | offered =>
    rw [(hs.inbound (Or.inl hst)).1] at h
    cases h
  | receiving =>
    rw [(hs.inbound (Or.inr hst)).1] at h
    cases h
  | offering => exact Or.inl hst
  | sending => exact Or.inr (Or.inl hst)
  | draining => exact Or.inr (Or.inr hst)

/-- A log that says nothing new about what goes out. -/
structure QuietOut (notes notes' : List Note) : Prop where
  log : ∀ k ∈ Data.half true, streamOf k notes' = streamOf k notes
  sent : ∀ id r, Sent notes' id r ↔ Sent notes id r

theorem quietOut_nil (notes : List Note) : QuietOut notes (notes ++ []) := by
  rw [List.append_nil]
  exact ⟨fun _ _ => rfl, fun _ _ => Iff.rfl⟩

theorem quietOut_snoc {notes : List Note} {n : Note} (hlog : ∀ k ∈ Data.half true, ∀ acc, streamStep k acc n = acc)
    (hsent : ∀ h r, n ≠ .sent h r) : QuietOut notes (notes ++ [n]) := by
  refine ⟨fun k hk => ?_, fun id r => ?_⟩
  · rw [streamOf_snoc, hlog k hk]
  · rw [sent_snoc]
    refine or_iff_left ?_
    rintro ⟨h, hn, -⟩
    exact hsent h r hn

/-- A stream goes on, or is none of ours. -/
theorem Tells.becomes (h : Tells g ⟨d, k⟩) (hb : Becomes d i s msgs ns d') (hsorted : d'.Sorted)
    (hs : s.goesOut → (d.s i).goesOut ∧ s.id = (d.s i).id) (hquiet : QuietOut d.notes (d.notes ++ ns))
    (hheld : ∀ i s, k' = some (i, s) → s.state = .receiving) : Tells g ⟨d', k'⟩ := by
  rw [← hb.notes] at hquiet
  have hslot : ∀ k, (d'.s k).goesOut → (d.s k).goesOut ∧ (d'.s k).id = (d.s k).id := by
    intro k hk
    by_cases hki : k = i
    · subst hki
      rw [hb.self] at hk ⊢
      exact hs hk
    · rw [hb.ne hki] at hk ⊢
      exact ⟨hk, rfl⟩
  refine ⟨hsorted, h.issued.becomes hb hs, ⟨fun k hk => ?_, fun k hk r hsent => ?_, fun id hid r hsent => ?_⟩, hheld,
    fun id hsent => h.sound id ((hquiet.sent id _).mp hsent)⟩
  · obtain ⟨hk, hid⟩ := hslot k hk
    rw [hquiet.log k ((h.sorted k).outbound hk).2, hid]
    exact h.ledger.logged k hk
  · obtain ⟨hk, hid⟩ := hslot k hk
    rw [hid] at hsent
    exact h.ledger.pending k hk r ((hquiet.sent _ r).mp hsent)
  · rw [hb.nextId] at hid
    exact h.ledger.next id hid r ((hquiet.sent id r).mp hsent)

/-- A stream ends, and the application is told so. -/
theorem Tells.ends {r : Byte} (h : Tells g ⟨d, k⟩) (hb : Becomes d i .zero msgs [endNote (d.s i) i r] d')
    (hsorted : d'.Sorted) (hr : (d.s i).goesOut → r = dataOk → g.brings opDone (d.s i).id)
    (hheld : ∀ i s, k' = some (i, s) → s.state = .receiving) : Tells g ⟨d', k'⟩ := by
  have hzero : Stream.zero.goesOut → (d.s i).goesOut ∧ Stream.zero.id = (d.s i).id := fun hz => absurd hz not_goesOut_zero
  by_cases hout : (d.s i).outbound = true
  swap
  · have hnote : endNote (d.s i) i r = .received i r := if_neg hout
    rw [hnote] at hb
    exact h.becomes hb hsorted hzero (quietOut_snoc (fun _ _ _ => rfl) fun _ _ hn => by cases hn) hheld
  have hgo := goesOut_of_outbound (h.sorted i) hout
  have hnote : endNote (d.s i) i r = .sent i r := if_pos hout
  rw [hnote] at hb
  have hlogged := h.ledger.logged i hgo
  have hsent : ∀ id r', Sent d'.notes id r' ↔ Sent d.notes id r' ∨ id = (d.s i).id ∧ r' = r := by
    intro id r'
    rw [hb.notes, sent_snoc]
    refine or_congr_right ⟨?_, ?_⟩
    · rintro ⟨j, hn, hj⟩
      cases hn
      rw [hlogged] at hj
      exact ⟨(Option.some.inj hj).symm, rfl⟩
    · rintro ⟨rfl, rfl⟩
      exact ⟨i, rfl, hlogged⟩
  have hslot : ∀ k, (d'.s k).goesOut → k ≠ i ∧ d'.s k = d.s k := by
    intro k hk
    by_cases hki : k = i
    · rw [hki, hb.self] at hk
      exact absurd hk not_goesOut_zero
    · exact ⟨hki, hb.ne hki⟩
  refine ⟨hsorted, h.issued.becomes hb hzero, ⟨fun k hk => ?_, fun k hk r' hs => ?_, fun id hid r' hs => ?_⟩, hheld,
    fun id hs => ?_⟩
  · obtain ⟨-, hsame⟩ := hslot k hk
    rw [hsame] at hk ⊢
    rw [hb.notes, streamOf_snoc]
    exact h.ledger.logged k hk
  · obtain ⟨hki, hsame⟩ := hslot k hk
    rw [hsame] at hk hs
    rcases (hsent _ r').mp hs with hs | ⟨hid, -⟩
    · exact h.ledger.pending k hk r' hs
    · exact hki (h.issued.unique k i hk hgo hid)
  · rw [hb.nextId] at hid
    rcases (hsent id r').mp hs with hs | ⟨rfl, -⟩
    · exact h.ledger.next id hid r' hs
    · have hlt : (d.s i).id.toNat < d.nextId.toNat := (h.issued.ids i hgo).2
      omega
  · rcases (hsent id _).mp hs with hs | ⟨rfl, hok⟩
    · exact h.sound id hs
    · exact Or.inr (hr hgo hok.symm)

/-- A stream begins, of which nothing has been said. -/
theorem Tells.begins (h : Tells g ⟨d, k⟩) (hfree : d.slotFree true = some i) (hlt : d'.sends < 255)
    (hs : s.state = .offering ∧ s.outbound = true ∧ s.id = d.nextId)
    (hout : d'.s = Function.update d.s i s ∧ d'.out = d.out ++ [(s.peer, opOffer :: s.id :: offerExtra s)])
    (hnotes : d'.notes = d.notes ++ [.begun i s.id s.src])
    (hid : d'.nextId = if d.nextId + 1 = 0 then 1 else d.nextId + 1) (hsends : d'.sends = d.sends + 1)
    (hsorted : d'.Sorted) : Tells g ⟨d', k⟩ := by
  have hnext : 1 ≤ d.nextId.toNat ∧ d.nextId.toNat ≤ d.sends + 1 := h.issued.next
  have hsucc := Sender.nextId_succ d.nextId (by omega)
  rw [← hid] at hsucc
  have hsent : ∀ id r, Sent d'.notes id r ↔ Sent d.notes id r := by
    intro id r
    rw [hnotes, sent_snoc]
    exact or_iff_left fun ⟨_, hn, _⟩ => by cases hn
  have hissued : Issued d' := by
    have hspeaks : Speaks d 0 { d with out := [] } := by
      refine ⟨⟨h.issued.next, h.issued.ids, h.issued.unique⟩, fun hf => ⟨hf, ?_⟩, ?_, List.Pairwise.nil⟩
      · exact fun _ hx => absurd hx List.not_mem_nil
      · exact fun _ hx => absurd hx List.not_mem_nil
    have hafter : Speaks d 0 { d' with out := [(s.peer, opOffer :: s.id :: offerExtra s)] } :=
      hspeaks.begins (i := i) hlt hs ⟨hout.1, rfl⟩ hid hsends
    exact ⟨hafter.issued.next, hafter.issued.ids, hafter.issued.unique⟩
  refine ⟨hsorted, hissued, ⟨fun j hj => ?_, fun j hj r hr => ?_, fun id hle r hr => ?_⟩, h.held,
    fun id hr => h.sound id ((hsent id _).mp hr)⟩
  · by_cases hji : j = i
    · subst hji
      rw [hout.1, Function.update_self, hnotes, streamOf_snoc]
      exact if_pos rfl
    · rw [hout.1, Function.update_of_ne hji] at hj ⊢
      rw [hnotes, streamOf_other d.notes (n := .begun i s.id s.src) (Ne.symm hji)]
      exact h.ledger.logged j hj
  · have hr' := (hsent _ r).mp hr
    by_cases hji : j = i
    · subst hji
      rw [hout.1, Function.update_self, hs.2.2] at hr'
      exact h.ledger.next _ (le_refl _) r hr'
    · rw [hout.1, Function.update_of_ne hji] at hj hr'
      exact h.ledger.pending j hj r hr'
  · have hle : d'.nextId.toNat ≤ id.toNat := hle
    have hle' : d.nextId.toNat ≤ id.toNat := by omega
    exact h.ledger.next id hle' r ((hsent id r).mp hr)

theorem CallMove.tells (hm : CallMove g.calm (k.map Prod.fst) g.now d d') (hlt : d'.sends < 255) (h : Tells g ⟨d, k⟩) :
    Tells g ⟨d', k⟩ := by
  have hsorted := hm.sorted h.sorted
  cases hm with
  | accept _ hb =>
    refine h.becomes hb hsorted (fun hgo => ?_) (quietOut_nil _) h.held
    rcases hgo with hgo | hgo | hgo <;> cases hgo
  | reject _ hb => exact h.becomes hb hsorted (fun hgo => absurd hgo not_goesOut_zero) (quietOut_nil _) h.held
  | cancel _ _ hb => exact h.ends hb hsorted (fun _ hr => absurd hr (by decide)) h.held
  | fail =>
    exact ⟨h.sorted, ⟨⟨h.issued.next.1, Nat.le_succ_of_le h.issued.next.2⟩, h.issued.ids, h.issued.unique⟩,
      ⟨h.ledger.logged, h.ledger.pending, h.ledger.next⟩, h.held, h.sound⟩
  | send hfree hs hout hnotes hid hsends => exact h.begins hfree hlt hs hout hnotes hid hsends hsorted

theorem Stamped.same {s s' : Stream} (h : Stamped s s') : s'.state = s.state ∧ s'.id = s.id ∧ s'.peer = s.peer := by
  obtain ⟨_, _, _, rfl⟩ := h
  exact ⟨rfl, rfl, rfl⟩

theorem Move.tells {m m' : Mid} (hm : Move g m m') (hsober : ∀ p, g.payload = some p → Sober p)
    (hlt : m'.d.sends < 255) (h : Tells g m) : Tells g m' := by
  have hsorted := hm.sorted h.sorted
  have hnone : ∀ (i : Handle) (s : Stream), (none : Option (Handle × Stream)) = some (i, s) → s.state = .receiving :=
    fun _ _ hk => by cases hk
  cases hm with
  | call hm => exact hm.tells hlt h
  | stamp _ hb => exact h.becomes hb hsorted (fun hgo => ⟨hgo, rfl⟩) (quietOut_nil _) hnone
  | decline _ _ hs _ hb =>
    refine h.becomes hb hsorted (fun hgo => ?_) (quietOut_nil _) hnone
    rcases hs with rfl | ⟨-, rfl⟩
    · exact ⟨hgo, rfl⟩
    · exact absurd hgo not_goesOut_zero
  | opened _ _ _ hfree hs _ hb =>
    subst hs
    refine h.becomes hb hsorted (fun hgo => ?_) (quietOut_snoc (fun j hj acc => if_neg ?_) fun _ _ hn => by cases hn)
      hnone
    · rcases hgo with hgo | hgo | hgo <;> cases hgo
    · rintro rfl
      exact half_disjoint (slotFree_half hfree) hj
  | ack _ hb => exact h.becomes hb hsorted (fun hgo => ⟨hgo, rfl⟩) (quietOut_nil _) hnone
  | hand _ _ _ hs _ hb =>
    refine h.becomes hb hsorted (fun hgo => ⟨hgo, rfl⟩)
      (quietOut_snoc (fun _ _ _ => rfl) fun _ _ hn => by cases hn) fun j s hk => ?_
    cases hk
    rw [hb.self]
    exact hs
  | count hs _ hb =>
    subst hs
    exact h.becomes hb hsorted (fun hgo => ⟨hgo, rfl⟩) (quietOut_nil _) hnone
  | @verdict d _ i s _ hs _ hb =>
    refine h.ends hb hsorted (fun hgo => ?_) hnone
    rcases hs with hs | hs
    · have hst : (d.s i).state = .receiving := by
        rw [hs]
        exact h.held i s rfl
      rcases hgo with hgo | hgo | hgo <;> rw [hst] at hgo <;> cases hgo
    · rw [hs] at hgo
      exact absurd hgo not_goesOut_zero
  | quit _ hr _ hb => exact h.ends hb hsorted (fun _ hok => absurd hok hr) hnone
  | @told d _ i p r hp hop haddr hsame hr hb =>
    refine h.ends hb hsorted (fun _ hok => ⟨p, hp, ?_, ?_⟩) hnone
    · rcases hop with hop | hop | hop
      · exact absurd (hr ▸ hok) (hsober p hp (Or.inl hop))
      · exact hop
      · exact absurd (hr ▸ hok) (hsober p hp (Or.inr hop))
    · rw [hsame.same.2.1]
      exact (g.start.addressee_some haddr).2.1.symm
  | steer hs hb => exact h.becomes hb hsorted (fun _ => ⟨hs.imp_left And.left, rfl⟩) (quietOut_nil _) hnone
  | push _ hb => exact h.becomes hb hsorted (fun hgo => ⟨hgo, rfl⟩) (quietOut_nil _) hnone
  | drain hs hb => exact h.becomes hb hsorted (fun _ => ⟨Or.inr (Or.inl hs), rfl⟩) (quietOut_nil _) hnone
  | offer _ hb => exact h.becomes hb hsorted (fun hgo => ⟨hgo, rfl⟩) (quietOut_nil _) hnone

end tells

theorem Moves.tells {g : Given} {d' : Data} (hm : Moves g g.start d') (hlt : d'.sends < 255)
    (hsober : ∀ p, g.payload = some p → Sober p) (hsorted : g.start.Sorted) (hi : Issued g.start)
    (hl : Ledger g.start) : Tells g ⟨d', none⟩ := by
  refine moves_keep hm (P := fun m => m.d.sends < 255 → Tells g m)
    (fun _ _ hstep ih hlt => hstep.tells hsober hlt (ih (Nat.lt_of_le_of_lt hstep.sends_le hlt))) (fun _ => ?_) hlt
  exact ⟨hsorted, hi, hl, fun _ _ hk => (by cases hk), fun _ => Or.inl⟩

/-! ## A stream that goes out -/

/-- Stream `id` to `peer`; on offer, if it waits. -/
structure Goes (waits : Prop) (id : UInt8) (peer : Addr) (s : Stream) : Prop where
  out : s.goesOut
  id : s.id = id
  peer : s.peer = peer
  offer : waits → s.state = .offering

/-- It goes out, or its end has been told since the log was `base`. -/
def GoesOrTold (base : List Note) (waits : Prop) (i : Handle) (id : UInt8) (peer : Addr) (d : Data) : Prop :=
  Goes waits id peer (d.s i) ∨ ∃ r, Since base d.notes (.sent i r) id

section goes

variable {g : Given} {base : List Note} {waits : Prop} {i j : Handle} {id : UInt8} {peer : Addr} {d d' : Data}
  {s : Stream} {msgs : List (Addr × List Byte)} {ns : List Note}

theorem GoesOrTold.becomes (h : GoesOrTold base waits i id peer d) (hb : Becomes d j s msgs ns d')
    (hs : j = i → Goes waits id peer (d.s i) → Goes waits id peer s) : GoesOrTold base waits i id peer d' := by
  rcases h with h | ⟨r, h⟩
  · by_cases hij : i = j
    · subst hij
      left
      rw [hb.self]
      exact hs rfl h
    · left
      rw [hb.ne hij]
      exact h
  · exact Or.inr ⟨r, h.mono ⟨_, hb.notes.symm⟩⟩

theorem GoesOrTold.ends {r : Byte} (h : GoesOrTold base waits i id peer d) (hsorted : d.Sorted) (hl : Ledger d)
    (hbase : base <+: d.notes) (hb : Becomes d j .zero msgs [endNote (d.s j) j r] d') :
    GoesOrTold base waits i id peer d' := by
  rcases h with h | ⟨r, h⟩
  · by_cases hij : i = j
    · subst hij
      refine Or.inr ⟨r, ?_⟩
      have hout := ((hsorted i).outbound h.out).1
      rw [hb.notes, endNote, if_pos hout]
      exact since_snoc hbase (h.id ▸ hl.logged i h.out)
    · left
      rw [hb.ne hij]
      exact h
  · exact Or.inr ⟨r, h.mono ⟨_, hb.notes.symm⟩⟩

theorem Goes.state_ne (h : Goes waits id peer s) {st : StreamState}
    (hst : st ≠ .offering ∧ st ≠ .sending ∧ st ≠ .draining) : s.state ≠ st := by
  rintro rfl
  rcases h.out with h | h | h
  · exact hst.1 h
  · exact hst.2.1 h
  · exact hst.2.2 h

theorem CallMove.goes {calm : Prop} {held : Option Handle} {now : Time} (hm : CallMove calm held now d d')
    (hsorted : d.Sorted) (hl : Ledger d) (hbase : base <+: d.notes) (h : GoesOrTold base waits i id peer d) :
    GoesOrTold base waits i id peer d' := by
  cases hm with
  | accept hs hb =>
    refine h.becomes hb fun hji hgo => ?_
    subst hji
    exact absurd hs (hgo.state_ne (by decide))
  | reject hs hb =>
    refine h.becomes hb fun hji hgo => ?_
    subst hji
    exact absurd hs (hgo.state_ne (by decide))
  | cancel _ _ hb => exact h.ends hsorted hl hbase hb
  | fail => exact h
  | @send _ j s hfree _ hout hnotes =>
    rcases h with h | ⟨r, h⟩
    · left
      have hij : i ≠ j := by
        rintro rfl
        exact absurd (Data.slotFree_some _ hfree) (h.state_ne (by decide))
      rwa [hout.1, Function.update_of_ne hij]
    · exact Or.inr ⟨r, h.mono ⟨_, hnotes.symm⟩⟩

theorem Move.goes {m m' : Mid} (hm : Move g m m') (hwaits : waits → ¬ g.brings opAccept id) (ht : Tells g m)
    (hstart : (g.start.s i).id = id) (hbase : base <+: m.d.notes) (h : GoesOrTold base waits i id peer m.d) :
    GoesOrTold base waits i id peer m'.d := by
  cases hm with
  | call hm => exact hm.goes ht.sorted ht.ledger hbase h
  | stamp _ hb =>
    refine h.becomes hb fun hji hgo => ?_
    subst hji
    exact ⟨hgo.out, hgo.id, hgo.peer, hgo.offer⟩
  | decline _ _ hs _ hb =>
    refine h.becomes hb fun hji hgo => ?_
    subst hji
    rcases hs with rfl | ⟨hfree, -⟩
    · exact hgo
    · exact absurd hfree (hgo.state_ne (by decide))
  | opened _ _ _ hfree _ _ hb =>
    refine h.becomes hb fun hji hgo => ?_
    subst hji
    exact absurd (Data.slotFree_some _ hfree) (hgo.state_ne (by decide))
  | ack hs hb =>
    refine h.becomes hb fun hji hgo => ?_
    subst hji
    exact absurd hs (hgo.state_ne (by decide))
  | hand _ _ _ hs _ hb =>
    refine h.becomes hb fun hji hgo => ?_
    subst hji
    exact absurd hs (hgo.state_ne (by decide))
  | @count _ _ _ s hs _ hb =>
    refine h.becomes hb fun hji hgo => ?_
    subst hji hs
    exact absurd (ht.held _ _ rfl) (hgo.state_ne (by decide))
  | verdict hs _ hb => exact h.ends ht.sorted ht.ledger hbase hb
  | quit _ _ _ hb => exact h.ends ht.sorted ht.ledger hbase hb
  | told _ _ _ _ _ hb => exact h.ends ht.sorted ht.ledger hbase hb
  | steer hs hb =>
    refine h.becomes hb fun hji hgo => ?_
    subst hji
    refine ⟨Or.inr (Or.inl rfl), hgo.id, hgo.peer, fun hw => ?_⟩
    rcases hs with ⟨-, p, hp, hop, haddr⟩ | hs | hs
    · exact absurd ⟨p, hp, hop, hstart ▸ (g.start.addressee_some haddr).2.1.symm⟩ (hwaits hw)
    · rw [hgo.offer hw] at hs
      cases hs
    · rw [hgo.offer hw] at hs
      cases hs
  | push hs hb =>
    refine h.becomes hb fun hji hgo => ?_
    subst hji
    exact ⟨hgo.out, hgo.id, hgo.peer, hgo.offer⟩
  | drain hs hb =>
    refine h.becomes hb fun hji hgo => ?_
    subst hji
    refine ⟨Or.inr (Or.inr rfl), hgo.id, hgo.peer, fun hw => ?_⟩
    rw [hgo.offer hw] at hs
    cases hs
  | offer _ hb =>
    refine h.becomes hb fun hji hgo => ?_
    subst hji
    exact ⟨hgo.out, hgo.id, hgo.peer, hgo.offer⟩

end goes

/-- A stream that goes out does so until its end is told; one that waits, waits for an ACCEPT. -/
theorem Moves.goes {g : Given} {d' : Data} (hm : Moves g g.start d') (hlt : d'.sends < 255)
    (hsober : ∀ p, g.payload = some p → Sober p) (hsorted : g.start.Sorted) (hi : Issued g.start)
    (hl : Ledger g.start) {waits : Prop} {i : Handle} {id : UInt8} {peer : Addr} (hwaits : waits → ¬ g.brings opAccept id)
    (h : Goes waits id peer (g.start.s i)) : GoesOrTold g.start.notes waits i id peer d' := by
  have hall := moves_keep hm
    (P := fun m => m.d.sends < 255 →
      Tells g m ∧ g.start.notes <+: m.d.notes ∧ GoesOrTold g.start.notes waits i id peer m.d)
    (fun _ _ hstep ih hlt => ?_)
    (fun _ => ⟨⟨hsorted, hi, hl, fun _ _ hk => (by cases hk), fun _ => Or.inl⟩, List.prefix_refl _, Or.inl h⟩) hlt
  · exact hall.2.2
  · obtain ⟨ht, hbase, hg⟩ := ih (Nat.lt_of_le_of_lt hstep.sends_le hlt)
    exact ⟨hstep.tells hsober hlt ht, hbase.trans hstep.grown, hstep.goes hwaits ht h.id hbase hg⟩

end DeskHop.Bulk
