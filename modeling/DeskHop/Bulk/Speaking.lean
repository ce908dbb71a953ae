/-
  DeskHop.Bulk.Speaking — what an endpoint says of the streams it sends.

  While its stream ids have not come round (fewer than 255 sends) an id stands for one
  stream for good (`Issued`). Before that stream is accepted its id is `Fresh`, and
  nothing is said under it but offers; chunks come after, and no offer after a chunk
  (`Spoken`). A stream that is still on offer waits: only an ACCEPT gets it going
  (`Waits`).

  A message that ends a stream never gives "sound" as the reason, except a DONE
  (`Sober`).
-/

import DeskHop.Bulk.Moves
import DeskHop.Bulk.Sender

namespace DeskHop.Bulk

open DeskHop.Lib DeskHop.Wire Relation

/-! ## Messages -/

def Says (op : Byte) (id : UInt8) (p : List Byte) : Prop := byteAt p 0 = op ∧ byteAt p 1 = id

instance (op : Byte) (id : UInt8) (p : List Byte) : Decidable (Says op id p) :=
  inferInstanceAs (Decidable (_ ∧ _))

theorem Says.length {op : Byte} {id : UInt8} {p : List Byte} (h : Says op id p) (hid : id ≠ 0) : 2 ≤ p.length := by
  by_contra hlt
  refine hid (h.2.symm.trans ?_)
  simp [byteAt, List.getElem?_eq_none (show p.length ≤ 1 by omega)]

def Given.brings (g : Given) (op : Byte) (id : UInt8) : Prop := ∃ p, g.payload = some p ∧ Says op id p

/-- A refusal or an abort, with a reason. -/
def Sober (p : List Byte) : Prop :=
  byteAt p 0 = opReject ∨ byteAt p 0 = opAbort → resultOf (p.drop 2) (defaultResult (byteAt p 0)) ≠ dataOk

theorem sober_of_op {op : Byte} (h : op ≠ opReject ∧ op ≠ opAbort) (id : UInt8) (extra : List Byte) :
    Sober (op :: id :: extra) := by
  rintro (hop | hop)
  · exact absurd hop h.1
  · exact absurd hop h.2

theorem sober_of_reason (op : Byte) (id : UInt8) {reason : Byte} (hr : reason ≠ dataOk) : Sober [op, id, reason] :=
  fun _ => hr

/-- No offer of a stream after a chunk of it. -/
def InOrder (id : UInt8) (l : List (List Byte)) : Prop := l.Pairwise fun p q => Says opChunk id p → ¬ Says opOffer id q

/-- What goes out next keeps the order if it is no offer, or no chunk has gone before. -/
theorem InOrder.append {id : UInt8} {l l' : List (List Byte)} (h : InOrder id l) (h' : InOrder id l')
    (hoffer : (∀ q ∈ l', ¬ Says opOffer id q) ∨ ∀ p ∈ l, ¬ Says opChunk id p) : InOrder id (l ++ l') := by
  refine List.pairwise_append.mpr ⟨h, h', fun p hp q hq hchunk => ?_⟩
  rcases hoffer with hno | hno
  · exact hno q hq
  · exact absurd hchunk (hno p hp)

/-! ## Ids given out -/

def Stream.goesOut (s : Stream) : Prop := s.state = .offering ∨ s.state = .sending ∨ s.state = .draining

instance (s : Stream) : Decidable s.goesOut := inferInstanceAs (Decidable (_ ∨ _))

/-- An id stands for one outbound stream, and is not given out again. -/
structure Issued (d : Data) : Prop where
  next : 1 ≤ d.nextId.toNat ∧ d.nextId.toNat ≤ d.sends + 1
  ids : ∀ k, (d.s k).goesOut → (d.s k).id ≠ 0 ∧ (d.s k).id.toNat < d.nextId.toNat
  unique : ∀ k l, (d.s k).goesOut → (d.s l).goesOut → (d.s k).id = (d.s l).id → k = l

/-- Not given out, or still on offer. -/
def Fresh (d : Data) (id : UInt8) : Prop :=
  d.nextId.toNat ≤ id.toNat ∨ ∃ k, (d.s k).state = .offering ∧ (d.s k).id = id

theorem not_goesOut_zero : ¬ Stream.zero.goesOut := by
  rintro (h | h | h) <;> cases h

section issued

variable {d d' : Data} {i : Handle} {s : Stream} {msgs : List (Addr × List Byte)} {ns : List Note}

/-- A stream replaced by itself under way, or by none. -/
theorem Issued.becomes (h : Issued d) (hb : Becomes d i s msgs ns d')
    (hs : s.goesOut → (d.s i).goesOut ∧ s.id = (d.s i).id) : Issued d' := by
  have hslot : ∀ k, (d'.s k).goesOut → (d.s k).goesOut ∧ (d'.s k).id = (d.s k).id := by
    intro k hk
    by_cases hki : k = i
    · subst hki
      rw [hb.self] at hk ⊢
      exact hs hk
    · rw [hb.ne hki] at hk ⊢
      exact ⟨hk, rfl⟩
  refine ⟨?_, fun k hk => ?_, fun k l hk hl hid => ?_⟩
  · rw [hb.nextId, hb.sends]
    exact h.next
  · obtain ⟨hk, hid⟩ := hslot k hk
    rw [hid, hb.nextId]
    exact h.ids k hk
  · obtain ⟨hk, hk'⟩ := hslot k hk
    obtain ⟨hl, hl'⟩ := hslot l hl
    exact h.unique k l hk hl (by rw [← hk', ← hl']; exact hid)

theorem Fresh.becomes {id : UInt8} (hf : Fresh d' id) (hb : Becomes d i s msgs ns d')
    (hs : s.state = .offering → (d.s i).state = .offering ∧ s.id = (d.s i).id) : Fresh d id := by
  rcases hf with hf | ⟨k, hk, hid⟩
  · exact Or.inl (hb.nextId ▸ hf)
  · refine Or.inr ⟨k, ?_⟩
    by_cases hki : k = i
    · subst hki
      rw [hb.self] at hk hid
      exact ⟨(hs hk).1, (hs hk).2 ▸ hid⟩
    · rw [hb.ne hki] at hk hid
      exact ⟨hk, hid⟩

end issued

/-! ## What is said under an id -/

/-- Since `d0`, with an empty outbox: under an id still fresh there is no chunk, an
    offer says that it was fresh, and chunks come last. -/
structure Spoken (d0 : Data) (id : UInt8) (d : Data) : Prop where
  fresh : Fresh d id → Fresh d0 id ∧ ∀ x ∈ d.out, ¬ Says opChunk id x.2
  offer : ∀ x ∈ d.out, Says opOffer id x.2 → Fresh d0 id
  order : InOrder id (d.out.map Prod.snd)

section spoken

variable {d0 d d' : Data} {id : UInt8} {i : Handle} {s : Stream} {msgs : List (Addr × List Byte)} {ns : List Note}

/-- Nothing said about a stream of ours. -/
theorem Spoken.becomes (h : Spoken d0 id d) (hb : Becomes d i s msgs ns d')
    (hs : s.state = .offering → (d.s i).state = .offering ∧ s.id = (d.s i).id)
    (hm : ∀ x ∈ msgs, byteAt x.2 0 ≠ opOffer ∧ byteAt x.2 0 ≠ opChunk) : Spoken d0 id d' := by
  have hmem : ∀ x ∈ d'.out, x ∈ d.out ∨ x ∈ msgs := fun x hx => List.mem_append.mp (hb.out ▸ hx)
  refine ⟨fun hf => ?_, fun x hx hoffer => ?_, ?_⟩
  · obtain ⟨h0, hout⟩ := h.fresh (hf.becomes hb hs)
    refine ⟨h0, fun x hx hchunk => ?_⟩
    rcases hmem x hx with hx | hx
    · exact hout x hx hchunk
    · exact (hm x hx).2 hchunk.1
  · rcases hmem x hx with hx | hx
    · exact h.offer x hx hoffer
    · exact absurd hoffer.1 (hm x hx).1
  · rw [hb.out, List.map_append]
    have hno : ∀ q ∈ msgs.map Prod.snd, ¬ Says opOffer id q := by
      intro q hq hoffer
      obtain ⟨x, hx, rfl⟩ := List.mem_map.mp hq
      exact (hm x hx).1 hoffer.1
    exact h.order.append (List.pairwise_of_forall_mem_list fun p _ q hq _ => hno q hq) (Or.inl hno)

/-- A chunk of a stream under way. -/
theorem Spoken.push (h : Spoken d0 id d) (hi : Issued d) (hs : (d.s i).state = .sending) {extra : List Byte}
    (hb : Becomes d i s [((d.s i).peer, opChunk :: (d.s i).id :: extra)] [] d')
    (hst : s.state = .sending) : Spoken d0 id d' := by
  have hfresh : Fresh d' id → Fresh d id := fun hf => hf.becomes hb fun ho => by
    rw [hst] at ho
    cases ho
  have hout : (d.s i).goesOut := Or.inr (Or.inl hs)
  have hgone : Fresh d id → (d.s i).id ≠ id := by
    rintro (hf | ⟨k, hk, hkid⟩) hidi
    · have := (hi.ids i hout).2
      rw [hidi] at this
      omega
    · have hki := hi.unique k i (Or.inl hk) hout (hkid.trans hidi.symm)
      rw [hki, hs] at hk
      cases hk
  refine ⟨fun hf => ?_, fun x hx hoffer => ?_, ?_⟩
  · obtain ⟨h0, hnone⟩ := h.fresh (hfresh hf)
    refine ⟨h0, fun x hx hchunk => ?_⟩
    rw [hb.out] at hx
    rcases List.mem_append.mp hx with hx | hx
    · exact hnone x hx hchunk
    · rw [List.mem_singleton] at hx
      subst hx
      exact hgone (hfresh hf) hchunk.2
  · rw [hb.out] at hx
    rcases List.mem_append.mp hx with hx | hx
    · exact h.offer x hx hoffer
    · rw [List.mem_singleton] at hx
      subst hx
      exact absurd hoffer.1 (by decide : opChunk ≠ opOffer)
  · rw [hb.out, List.map_append]
    refine h.order.append (List.pairwise_singleton _ _) (Or.inl fun q hq hoffer => ?_)
    rw [List.map_singleton, List.mem_singleton] at hq
    subst hq
    exact absurd hoffer.1 (by decide : opChunk ≠ opOffer)

/-- An offer, under an id that is fresh. -/
theorem Spoken.offered (h : Spoken d0 id d) {x : Addr × List Byte} (hout : d'.out = d.out ++ [x])
    (hop : byteAt x.2 0 = opOffer) (hx : Fresh d (byteAt x.2 1)) (hf : Fresh d' id → Fresh d id) :
    Spoken d0 id d' := by
  have hmem : ∀ y ∈ d'.out, y ∈ d.out ∨ y = x := fun y hy => by
    rw [hout] at hy
    exact (List.mem_append.mp hy).imp_right List.mem_singleton.mp
  have hno : ∀ p, byteAt p 0 = opOffer → ¬ Says opChunk id p := fun p h0 h1 => by
    rw [h1.1] at h0
    exact absurd h0 (by decide)
  refine ⟨fun hfresh => ?_, fun y hy hoffer => ?_, ?_⟩
  · obtain ⟨h0, hnone⟩ := h.fresh (hf hfresh)
    refine ⟨h0, fun y hy => ?_⟩
    rcases hmem y hy with hy | rfl
    · exact hnone y hy
    · exact hno _ hop
  · rcases hmem y hy with hy | rfl
    · exact h.offer y hy hoffer
    · rw [hoffer.2] at hx
      exact (h.fresh hx).1
  · rw [hout, List.map_append]
    refine h.order.append (List.pairwise_singleton _ _) ?_
    by_cases hid : byteAt x.2 1 = id
    · refine Or.inr fun p hp => ?_
      obtain ⟨y, hy, rfl⟩ := List.mem_map.mp hp
      rw [hid] at hx
      exact (h.fresh hx).2 y hy
    · refine Or.inl fun q hq hoffer => ?_
      rw [List.map_singleton, List.mem_singleton] at hq
      subst hq
      exact hid hoffer.2

end spoken

/-! ## Every move -/

theorem CallMove.sends_le {calm : Prop} {held : Option Handle} {now : Time} {d d' : Data}
    (h : CallMove calm held now d d') : d.sends ≤ d'.sends := by
  cases h with
  | accept _ hb => exact hb.sends.ge
  | reject _ hb => exact hb.sends.ge
  | cancel _ _ hb => exact hb.sends.ge
  | fail => exact Nat.le_succ _
  | send _ _ _ _ _ hsends => omega

theorem Move.sends_le {g : Given} {m m' : Mid} (h : Move g m m') : m.d.sends ≤ m'.d.sends := by
  cases h with
  | call h => exact h.sends_le
  | stamp _ hb => exact hb.sends.ge
  | decline _ _ _ _ hb => exact hb.sends.ge
  | opened _ _ _ _ _ _ hb => exact hb.sends.ge
  | ack _ hb => exact hb.sends.ge
  | hand _ _ _ _ _ hb => exact hb.sends.ge
  | count _ _ hb => exact hb.sends.ge
  | verdict _ _ hb => exact hb.sends.ge
  | quit _ _ _ hb => exact hb.sends.ge
  | told _ _ _ _ _ hb => exact hb.sends.ge
  | steer _ hb => exact hb.sends.ge
  | push _ hb => exact hb.sends.ge
  | drain _ hb => exact hb.sends.ge
  | offer _ hb => exact hb.sends.ge

/-- What is known of the ids, and what has been said under one of them. -/
structure Speaks (d0 : Data) (id : UInt8) (d : Data) : Prop where
  issued : Issued d
  spoken : Spoken d0 id d

section speaks

variable {d0 d d' : Data} {id : UInt8} {i : Handle} {s : Stream} {msgs : List (Addr × List Byte)} {ns : List Note}

/-- A stream goes on under its state, and nothing is said about one of ours. -/
theorem Speaks.stays (h : Speaks d0 id d) (hb : Becomes d i s msgs ns d') (hst : s.state = (d.s i).state)
    (hid : s.id = (d.s i).id) (hm : ∀ x ∈ msgs, byteAt x.2 0 ≠ opOffer ∧ byteAt x.2 0 ≠ opChunk) :
    Speaks d0 id d' := by
  refine ⟨h.issued.becomes hb fun hs => ⟨?_, hid⟩, h.spoken.becomes hb (fun hs => ⟨hst ▸ hs, hid⟩) hm⟩
  rw [Stream.goesOut, hst] at hs
  exact hs

/-- A stream is no longer one of ours, or under way. -/
theorem Speaks.leaves (h : Speaks d0 id d) (hb : Becomes d i s msgs ns d') (hst : s.state ≠ .offering)
    (hout : s.goesOut → (d.s i).goesOut ∧ s.id = (d.s i).id)
    (hm : ∀ x ∈ msgs, byteAt x.2 0 ≠ opOffer ∧ byteAt x.2 0 ≠ opChunk) : Speaks d0 id d' :=
  ⟨h.issued.becomes hb hout, h.spoken.becomes hb (fun hs => absurd hs hst) hm⟩

theorem Speaks.ends (h : Speaks d0 id d) (hb : Becomes d i .zero msgs ns d')
    (hm : ∀ x ∈ msgs, byteAt x.2 0 ≠ opOffer ∧ byteAt x.2 0 ≠ opChunk) : Speaks d0 id d' :=
  h.leaves hb (by decide) (fun hs => absurd hs not_goesOut_zero) hm

/-- One message that is neither offer nor chunk. -/
theorem says_other {peer : Addr} {op : Byte} {id : UInt8} {extra : List Byte} (h : op ≠ opOffer ∧ op ≠ opChunk) :
    ∀ x ∈ [(peer, op :: id :: extra)], byteAt x.2 0 ≠ opOffer ∧ byteAt x.2 0 ≠ opChunk := by
  intro x hx
  rw [List.mem_singleton.mp hx]
  exact h

theorem says_nothing : ∀ x ∈ ([] : List (Addr × List Byte)), byteAt x.2 0 ≠ opOffer ∧ byteAt x.2 0 ≠ opChunk :=
  fun _ hx => absurd hx List.not_mem_nil

/-- A stream begins, under the next id. -/
theorem Speaks.begins (h : Speaks d0 id d) (hlt : d'.sends < 255)
    (hs : s.state = .offering ∧ s.outbound = true ∧ s.id = d.nextId)
    (hout : d'.s = Function.update d.s i s ∧ d'.out = d.out ++ [(s.peer, opOffer :: s.id :: offerExtra s)])
    (hid : d'.nextId = if d.nextId + 1 = 0 then 1 else d.nextId + 1) (hsends : d'.sends = d.sends + 1) :
    Speaks d0 id d' := by
  have hnext := h.issued.next
  have hsucc := Sender.nextId_succ d.nextId (by omega)
  rw [← hid] at hsucc
  have hslot : ∀ k, (d'.s k).goesOut → k = i ∧ (d'.s k).id = d.nextId ∨ k ≠ i ∧ d'.s k = d.s k := by
    intro k hk
    rw [hout.1] at hk ⊢
    by_cases hki : k = i
    · subst hki
      rw [Function.update_self] at hk ⊢
      exact Or.inl ⟨rfl, hs.2.2⟩
    · rw [Function.update_of_ne hki] at hk ⊢
      exact Or.inr ⟨hki, rfl⟩
  refine ⟨⟨by omega, fun k hk => ?_, fun k l hk hl hkl => ?_⟩, ?_⟩
  · rcases hslot k hk with ⟨-, hkid⟩ | ⟨-, hsame⟩
    · rw [hkid]
      refine ⟨fun h0 => ?_, by omega⟩
      rw [h0] at hnext
      exact absurd hnext.1 (by decide)
    · rw [hsame] at hk ⊢
      exact ⟨(h.issued.ids k hk).1, by have := (h.issued.ids k hk).2; omega⟩
  · rcases hslot k hk with ⟨rfl, hkid⟩ | ⟨hki, hsk⟩ <;> rcases hslot l hl with ⟨rfl, hlid⟩ | ⟨hli, hsl⟩
    · rfl
    · -- an id in use is below the next
      rw [hsl] at hl hkl
      have := (h.issued.ids l hl).2
      rw [← hkl, hkid] at this
      omega
    · rw [hsk] at hk hkl
      have := (h.issued.ids k hk).2
      rw [hkl, hlid] at this
      omega
    · rw [hsk] at hk hkl
      rw [hsl] at hl hkl
      exact h.issued.unique k l hk hl hkl
  · refine h.spoken.offered hout.2 rfl (Or.inl ?_) ?_
    · show d.nextId.toNat ≤ s.id.toNat
      rw [hs.2.2]
    · rintro (hf | ⟨k, hk, hkid⟩)
      · exact Or.inl (by omega)
      · rcases hslot k (Or.inl hk) with ⟨-, hnew⟩ | ⟨-, hsame⟩
        · exact Or.inl (by rw [← hkid, hnew])
        · rw [hsame] at hk hkid
          exact Or.inr ⟨k, hk, hkid⟩

theorem CallMove.speaks {calm : Prop} {held : Option Handle} {now : Time} (hm : CallMove calm held now d d')
    (hlt : d'.sends < 255) (h : Speaks d0 id d) : Speaks d0 id d' := by
  cases hm with
  | accept hs hb =>
    refine h.leaves hb (fun hst => by cases hst) (fun hgo => ?_) (says_other (by decide))
    rcases hgo with hgo | hgo | hgo <;> cases hgo
  | reject _ hb => exact h.ends hb (says_other (by decide))
  | cancel _ _ hb => exact h.ends hb (says_other (by decide))
  | fail =>
    refine ⟨⟨⟨h.issued.next.1, Nat.le_succ_of_le h.issued.next.2⟩, h.issued.ids, h.issued.unique⟩, ?_⟩
    exact ⟨h.spoken.fresh, h.spoken.offer, h.spoken.order⟩
  | send _ hs hout _ hid hsends => exact h.begins hlt hs hout hid hsends

theorem Move.speaks {g : Given} {m m' : Mid} (hm : Move g m m') (hlt : m'.d.sends < 255) (h : Speaks d0 id m.d) :
    Speaks d0 id m'.d := by
  cases hm with
  | call hm => exact hm.speaks hlt h
  | stamp _ hb => exact h.stays hb rfl rfl says_nothing
  | decline _ _ hs _ hb =>
    rcases hs with rfl | ⟨-, rfl⟩
    · exact h.stays hb rfl rfl (says_other (by decide))
    · exact h.ends hb (says_other (by decide))
  | opened _ _ _ _ hs _ hb =>
    subst hs
    refine h.leaves hb (fun hst => by cases hst) (fun hgo => ?_) says_nothing
    rcases hgo with hgo | hgo | hgo <;> cases hgo
  | ack _ hb => exact h.stays hb rfl rfl (says_other (by decide))
  | hand _ _ _ _ _ hb => exact h.stays hb rfl rfl says_nothing
  | count hs _ hb =>
    subst hs
    exact h.stays hb rfl rfl says_nothing
  | verdict _ _ hb => exact h.ends hb (says_other (by decide))
  | quit _ _ hmsgs hb =>
    rcases hmsgs with rfl | rfl
    · exact h.ends hb says_nothing
    · exact h.ends hb (says_other (by decide))
  | told _ _ _ _ _ hb => exact h.ends hb says_nothing
  | steer hs hb => exact h.leaves hb (fun hst => by cases hst) (fun _ => ⟨hs.imp_left And.left, rfl⟩) says_nothing
  | push hs hb =>
    have hmoved := h.issued.becomes hb fun _ => ⟨Or.inr (Or.inl hs), rfl⟩
    exact ⟨hmoved, h.spoken.push h.issued hs hb hs⟩
  | drain hs hb => exact h.leaves hb (fun hst => by cases hst) (fun _ => ⟨Or.inr (Or.inl hs), rfl⟩) says_nothing
  | @offer d _ i hs hb =>
    refine ⟨h.issued.becomes hb fun _ => ⟨Or.inl hs, rfl⟩, h.spoken.offered hb.out rfl ?_ ?_⟩
    · exact Or.inr ⟨i, hs, rfl⟩
    · exact fun hf => hf.becomes hb fun _ => ⟨hs, rfl⟩

end speaks

/-- What a turn says, from an empty outbox. -/
theorem Moves.speaks {g : Given} {d d' : Data} (hm : Moves g d d') (hlt : d'.sends < 255) (hi : Issued d)
    (hout : d.out = []) (id : UInt8) : Speaks d id d' := by
  have h0 : Speaks d id d := by
    refine ⟨hi, fun hf => ⟨hf, ?_⟩, ?_, ?_⟩ <;> rw [hout]
    · exact fun _ hx => absurd hx List.not_mem_nil
    · exact fun _ hx => absurd hx List.not_mem_nil
    · exact List.Pairwise.nil
  exact moves_keep hm (P := fun m => m.d.sends < 255 → Speaks d id m.d)
    (fun _ _ hstep ih hlt => hstep.speaks hlt (ih (Nat.lt_of_le_of_lt hstep.sends_le hlt))) (fun _ => h0) hlt

/-! ## Reasons -/

/-- What is in the outbox is sober. -/
def SoberOut (d : Data) : Prop := ∀ x ∈ d.out, Sober x.2

section sober

variable {d d' : Data} {i : Handle} {s : Stream} {msgs : List (Addr × List Byte)} {ns : List Note}

theorem SoberOut.append (h : SoberOut d) (hout : d'.out = d.out ++ msgs) (hm : ∀ x ∈ msgs, Sober x.2) : SoberOut d' := by
  intro x hx
  rw [hout] at hx
  rcases List.mem_append.mp hx with hx | hx
  · exact h x hx
  · exact hm x hx

theorem SoberOut.silent (h : SoberOut d) (hb : Becomes d i s [] ns d') : SoberOut d' :=
  h.append hb.out fun _ hx => absurd hx List.not_mem_nil

theorem SoberOut.snoc (h : SoberOut d) {x : Addr × List Byte} (hout : d'.out = d.out ++ [x]) (hx : Sober x.2) :
    SoberOut d' :=
  h.append hout fun y hy => by
    rw [List.mem_singleton.mp hy]
    exact hx

theorem CallMove.sober {calm : Prop} {held : Option Handle} {now : Time} (hm : CallMove calm held now d d')
    (h : SoberOut d) : SoberOut d' := by
  cases hm with
  | accept _ hb => exact h.snoc hb.out (sober_of_op (by decide) _ _)
  | reject _ hb => exact h.snoc hb.out (sober_of_reason _ _ (by decide))
  | cancel _ _ hb => exact h.snoc hb.out (sober_of_reason _ _ (by decide))
  | fail => exact h
  | send _ _ hout => exact h.snoc hout.2 (sober_of_op (by decide) _ _)

theorem Move.sober {g : Given} {m m' : Mid} (hm : Move g m m') (h : SoberOut m.d) : SoberOut m'.d := by
  cases hm with
  | call hm => exact hm.sober h
  | stamp _ hb => exact h.silent hb
  | decline _ _ _ hr hb => exact h.snoc hb.out (sober_of_reason _ _ hr)
  | opened _ _ _ _ _ _ hb => exact h.silent hb
  | ack _ hb => exact h.snoc hb.out (sober_of_op (by decide) _ _)
  | hand _ _ _ _ _ hb => exact h.silent hb
  | count _ _ hb => exact h.silent hb
  | verdict _ _ hb => exact h.snoc hb.out (sober_of_op (by decide) _ _)
  | quit _ hr hmsgs hb =>
    rcases hmsgs with rfl | rfl
    · exact h.silent hb
    · exact h.snoc hb.out (sober_of_reason _ _ hr)
  | told _ _ _ _ _ hb => exact h.silent hb
  | steer _ hb => exact h.silent hb
  | push _ hb => exact h.snoc hb.out (sober_of_op (by decide) _ _)
  | drain _ hb => exact h.silent hb
  | offer _ hb => exact h.snoc hb.out (sober_of_op (by decide) _ _)

end sober

theorem Moves.sober {g : Given} {d d' : Data} (hm : Moves g d d') (hout : d.out = []) : SoberOut d' := by
  refine moves_keep hm (P := fun m => SoberOut m.d) (fun _ _ hstep => hstep.sober) fun x hx => ?_
  rw [hout] at hx
  exact absurd hx List.not_mem_nil

end DeskHop.Bulk
