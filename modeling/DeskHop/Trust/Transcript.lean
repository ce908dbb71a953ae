/-
  DeskHop.Trust.Transcript — what an exchange derives, from the two offers.

  Everything that comes of an exchange is a function of the shared secret and of the
  transcript, the two offers in the order of their uids (`transcript`), under one of
  three context strings. Both sides build the same transcript (`transcript_comm`), and
  one transcript is of one pair of offers (`transcript_inj`).

  `pairRx_spec` says all that a received message does to an exchange: it leaves it,
  completes it, brings it its peer, or aborts it.
-/

import DeskHop.Core.Fields
import DeskHop.Trust.Pair

namespace DeskHop.Trust

open DeskHop.Lib DeskHop.Wire

def Offer.bytes (o : Offer) : List Byte := put64 o.uid ++ o.publicKey.val ++ o.nonce.val

/-- The two offers, the one of the smaller uid first. -/
def transcript (x y : Offer) : List Byte := if x.uid < y.uid then x.bytes ++ y.bytes else y.bytes ++ x.bytes

def keyInfo (x y : Offer) : List Byte := infoKey ++ transcript x y
def sasInfo (x y : Offer) : List Byte := infoSas ++ transcript x y

/-- What the confirmation of the board `uid` is computed over. -/
def tagInfo (x y : Offer) (uid : Uid) : List Byte := infoConfirm ++ transcript x y ++ put64 uid

theorem buildTranscript_eq {p : Pair} {o : Offer} (h : peerOffer p = some o) :
    buildTranscript p = transcript (ownOffer p) o := by
  obtain ⟨-, rfl⟩ := peerOffer_some h
  rfl

theorem transcript_comm {x y : Offer} (h : x.uid ≠ y.uid) : transcript x y = transcript y x := by
  unfold transcript
  have hne : x.uid.toNat ≠ y.uid.toNat := fun e => h (UInt64.toNat_inj.mp e)
  by_cases hlt : x.uid < y.uid
  · rw [if_pos hlt, if_neg (by rw [UInt64.lt_iff_toNat_lt] at hlt ⊢; omega)]
  · rw [if_neg hlt, if_pos (by rw [UInt64.lt_iff_toNat_lt] at hlt ⊢; omega)]

theorem offerField : Field 48 Offer.bytes
    (fun b off => ⟨get64 b off, slice b (off + 8) _, slice b (off + (8 + dhBytes)) _⟩) :=
  (field64.pair (bytesField dhBytes) |>.pair (bytesField nonceBytes)).map
    ⟨fun t => Offer.mk t.1.1 t.1.2 t.2, fun o => ((o.uid, o.publicKey), o.nonce), fun _ => rfl, fun _ => rfl⟩

theorem length_bytes (o : Offer) : o.bytes.length = 48 := offerField.length_put o

theorem bytes_inj {x y : Offer} (h : x.bytes = y.bytes) : x = y := offerField.put_inj h

/-- Two boards that agree on the transcript agree on who offered what. -/
theorem transcript_inj {x y x' y' : Offer} (hne : x.uid ≠ y.uid) (hx : x'.uid = y.uid) (hy : y'.uid = x.uid)
    (h : transcript x' y' = transcript x y) : x' = y ∧ y' = x := by
  rw [transcript_comm (show x'.uid ≠ y'.uid by rw [hx, hy]; exact hne.symm)] at h
  unfold transcript at h
  rw [hx, hy] at h
  split at h
  · obtain ⟨h1, h2⟩ := List.append_inj h ((length_bytes _).trans (length_bytes _).symm)
    exact ⟨bytes_inj h2, bytes_inj h1⟩
  · obtain ⟨h1, h2⟩ := List.append_inj h ((length_bytes _).trans (length_bytes _).symm)
    exact ⟨bytes_inj h1, bytes_inj h2⟩

theorem tagInfo_inj {x y x' y' : Offer} {u u' : Uid} (h : tagInfo x' y' u' = tagInfo x y u) :
    transcript x' y' = transcript x y := by
  have h' := (List.append_inj' h ((length_put64 _).trans (length_put64 _).symm)).1
  exact List.append_cancel_left h'

/-! ## A received message -/

/-- What the offers and the shared secret make of the exchange. -/
structure Derived (c : Crypto) (shared : Bytes dhBytes) (own peer : Offer) (p : Pair) : Prop where
  chainKey : p.chainKey = c.kdf 16 shared (keyInfo own peer)
  sas : p.sas = c.kdf sasBytes shared (sasInfo own peer)
  expectConfirm : p.expectConfirm = c.kdf confirmBytes shared (tagInfo own peer peer.uid)

/-- The exchange is as it was, but for its state and its events. -/
structure Rests (p p' : Pair) : Prop where
  own : ownOffer p' = ownOffer p
  peer : peerOffer p' = peerOffer p
  secret : p'.secret = p.secret
  chainKey : p'.chainKey = p.chainKey
  sas : p'.sas = p.sas
  expectConfirm : p'.expectConfirm = p.expectConfirm

/-- The message is the confirmation `tag` of the board `uid`. -/
structure Confirms (b : List Byte) (uid : Uid) (tag : Bytes confirmBytes) : Prop where
  type : byteAt b 0 = pairConfirm
  length : confirmLen ≤ b.length
  uid : get64 b 1 = uid
  tag : slice b 9 confirmBytes = tag

/-- The exchange has taken the offer in the message for its peer's. -/
structure Takes (p : Pair) (b : List Byte) (o : Offer) (p' : Pair) : Prop where
  unknown : peerOffer p = none
  offer : offerOf b = some o
  foreign : o.uid ≠ p.selfUid
  peer : peerOffer p' = some o

/-- The exchange is aborted, and nothing secret is left of it. -/
structure Wiped (p : Pair) (b : List Byte) (p' : Pair) : Prop where
  state : p'.state = .aborted
  own : ownOffer p' = ownOffer p
  chainKey : p'.chainKey = Bytes.zero 16
  secret : p'.secret = Bytes.zero _
  peer : peerOffer p' = peerOffer p ∨ ∃ o, Takes p b o p'

variable (c : Crypto)

theorem Rests.refl (p : Pair) : Rests p p := ⟨rfl, rfl, rfl, rfl, rfl, rfl⟩

/-- What a message does to an exchange. -/
inductive Effect (p : Pair) (b : List Byte) (p' : Pair) : Prop
  | rests : Rests p p' → p'.state = p.state → Effect p b p'
  | completes (o : Offer) : Rests p p' → p.state = .confirmWait → p'.state = .done → peerOffer p = some o →
      Confirms b o.uid p.expectConfirm → Effect p b p'
  | meets (o : Offer) (shared : Bytes dhBytes) : Takes p b o p' → p.state ≠ .idle → p.state ≠ .aborted →
      p'.state = .confirmWait → ownOffer p' = ownOffer p → p'.secret = p.secret → c.dhShared p.secret o.publicKey = some shared →
      Derived c shared (ownOffer p) o p' → Effect p b p'
  | aborts : p.state ≠ .idle → Wiped p b p' → Effect p b p'

theorem abortWith_wiped {p : Pair} (h : p.state ≠ .aborted) (b : List Byte) (why : PairAbort) :
    Wiped p b (abortWith p why) := by
  rw [abortWith, if_neg h]
  exact ⟨rfl, rfl, rfl, rfl, Or.inl rfl⟩

theorem derive_derived {p d : Pair} {o : Offer} (h : derive c p = some d) (ho : peerOffer p = some o) :
    ∃ shared, c.dhShared p.secret o.publicKey = some shared ∧ Derived c shared (ownOffer p) o d := by
  have ht := buildTranscript_eq ho
  obtain ⟨-, rfl⟩ := peerOffer_some ho
  unfold derive at h
  rw [ht] at h
  obtain ⟨shared, hs, rfl⟩ := Option.map_eq_some_iff.mp h
  exact ⟨shared, hs, rfl, rfl, rfl⟩

theorem rxOffer_effect {p : Pair} {b : List Byte} (hb : byteAt b 0 = pairOffer) (hidle : p.state ≠ .idle)
    (hab : p.state ≠ .aborted) : Effect c p b (rxOffer c p b) := by
  simp only [rxOffer]
  by_cases hl : b.length < offerLen
  · rw [if_pos hl]
    exact .rests (.refl p) rfl
  rw [if_neg hl]
  by_cases hown : get64 b 1 = p.selfUid
  · rw [if_pos hown]
    exact .rests (.refl p) rfl
  rw [if_neg hown]
  by_cases hp : p.havePeer = true
  · by_cases hu : get64 b 1 = p.peerUid
    · rw [if_pos (by simp [hp, hu])]
      split
      · exact .rests ⟨rfl, rfl, rfl, rfl, rfl, rfl⟩ rfl
      · exact .rests (.refl p) rfl
    · rw [if_neg (by simp [hu]), if_pos hp]
      obtain ⟨h1, h2, h3, h4, h5⟩ := abortWith_wiped (p := { p with offersSeen := p.offersSeen + 1 }) hab b .thirdParty
      refine .aborts hidle ⟨h1, h2, h3, h4, Or.inl (h5.resolve_right ?_)⟩
      rintro ⟨o, ht⟩
      have hnone := ht.unknown
      rw [peerOffer, if_pos hp] at hnone
      cases hnone
  · rw [if_neg (by simp [hp]), if_neg hp]
    -- the first offer from another board
    have hoffer : offerOf b = some ⟨get64 b 1, slice b 9 _, slice b (9 + dhBytes) _⟩ := if_pos ⟨hb, Nat.not_lt.mp hl⟩
    have hnone : peerOffer p = none := if_neg hp
    have hstored : peerOffer (storePeer p b) = some ⟨get64 b 1, slice b 9 _, slice b (9 + dhBytes) _⟩ := if_pos rfl
    cases hd : derive c (storePeer p b) with
    | none =>
      have hw := abortWith_wiped (p := storePeer p b) hab b .badKey
      have hpeer := (peerOffer_abortWith (storePeer p b) .badKey).trans hstored
      exact .aborts hidle ⟨hw.state, hw.own, hw.chainKey, hw.secret, Or.inr ⟨_, hnone, hoffer, hown, hpeer⟩⟩
    | some d =>
      obtain ⟨shared, hs, hder⟩ := derive_derived c hd hstored
      have hsame : ownOffer d = ownOffer p ∧ d.secret = p.secret ∧ peerOffer d = peerOffer (storePeer p b) := by
        unfold derive at hd
        obtain ⟨k, -, rfl⟩ := Option.map_eq_some_iff.mp hd
        exact ⟨rfl, rfl, rfl⟩
      exact .meets _ shared ⟨hnone, hoffer, hown, hsame.2.2.trans hstored⟩ hidle hab rfl hsame.1 hsame.2.1 hs
        ⟨hder.chainKey, hder.sas, hder.expectConfirm⟩

theorem rxConfirm_effect {p : Pair} {b : List Byte} (hb : byteAt b 0 = pairConfirm) (hidle : p.state ≠ .idle)
    (hab : p.state ≠ .aborted) : Effect c p b (rxConfirm p b) := by
  simp only [rxConfirm]
  split
  · exact .rests (.refl p) rfl
  rename_i hl
  simp only [Bool.or_eq_true, decide_eq_true_eq, Bool.not_eq_true', not_or, Bool.not_eq_false, not_lt] at hl
  split
  · exact .rests (.refl p) rfl
  rename_i hu
  split
  · exact .aborts hidle (abortWith_wiped hab b .badConfirm)
  rename_i htag
  split
  · rename_i hs
    refine .completes ⟨p.peerUid, p.peerPublic, p.peerNonce⟩ ⟨rfl, rfl, rfl, rfl, rfl, rfl⟩ hs rfl (if_pos hl.2)
      ⟨hb, hl.1, not_not.mp hu, ctEqual_slice.mp (by simpa using htag)⟩
  · exact .rests ⟨rfl, rfl, rfl, rfl, rfl, rfl⟩ rfl

theorem pairRx_effect (p : Pair) (b : List Byte) (now : Time) : Effect c p b (pairRx c p b now) := by
  unfold pairRx
  split
  · exact .rests (.refl p) rfl
  rename_i hlive
  simp only [Bool.or_eq_true, beq_iff_eq, not_or] at hlive
  obtain ⟨⟨-, hidle⟩, hab⟩ := hlive
  split
  · rename_i hb
    split
    · split
      · exact .aborts hidle (abortWith_wiped hab b .thirdParty)
      · exact .rests (.refl p) rfl
    · exact rxOffer_effect c hb hidle hab
  split
  · rename_i hb
    exact rxConfirm_effect c hb hidle hab
  split
  · exact .aborts hidle (abortWith_wiped hab b .peer)
  · exact .rests (.refl p) rfl

theorem pairTick_effect (p : Pair) (now : Time) :
    pairTick p now = p ∨ p.state ≠ .idle ∧ Wiped p [] (pairTick p now) := by
  unfold pairTick
  split
  · exact Or.inl rfl
  rename_i hs
  split
  · refine Or.inr ⟨fun h => hs (by rw [h]; exact ⟨by decide, by decide⟩), abortWith_wiped ?_ _ _⟩
    exact fun h => hs (by rw [h]; exact ⟨by decide, by decide⟩)
  · exact Or.inl rfl

end DeskHop.Trust
