/-
  DeskHop.Trust.Payloads — what an OFFER and a CONFIRM say, and what the exchange does
  with that (`core/src/auth.c`).

  `dhp_pair_build_offer` and `dhp_pair_build_confirm` write them; `dhp_pair_rx`, `rx_offer`
  and `rx_confirm` read one field after another, each where it needs it. `hearOffer` and
  `hearConfirm` are the same handling of a message that has been read already.

  Proved: the two payloads are written and read inversely (`offer_codec`,
  `confirm_codec`), the handling of a payload is that of what it reads as
  (`pairRx_offer`, `pairRx_confirm`), and so a board that receives what another has built
  handles just that board's fields (`pairRx_buildOffer`, `pairRx_buildConfirm`).
-/

import DeskHop.Trust.Transcript

namespace DeskHop.Trust

open DeskHop.Lib DeskHop.Wire

/-! ## The payloads -/

structure Confirm where
  uid : Uid
  tag : Bytes confirmBytes
  deriving DecidableEq

def offerPack (o : Offer) : List Byte := pairOffer :: o.bytes

def confirmPack (m : Confirm) : List Byte := pairConfirm :: put64 m.uid ++ m.tag.val

/-- The confirmation a payload carries, if it is a well-formed CONFIRM. -/
def confirmOf (b : List Byte) : Option Confirm :=
  if byteAt b 0 = pairConfirm ∧ confirmLen ≤ b.length then some ⟨get64 b 1, slice b 9 _⟩ else none

/-- To turn down what is short or of another kind is to take what is long enough and of its kind. -/
theorem read_iff {α : Type} {b : List Byte} {n : Nat} {op : Byte} (a : α) :
    (if b.length < n ∨ byteAt b 0 ≠ op then none else some a) = if byteAt b 0 = op ∧ n ≤ b.length then some a else none := by
  by_cases hop : byteAt b 0 = op
  · by_cases hn : n ≤ b.length
    · rw [if_neg (by simp [hop, hn]), if_pos ⟨hop, hn⟩]
    · rw [if_pos (Or.inl (by omega)), if_neg (by simp [hn])]
  · rw [if_pos (Or.inr hop), if_neg (by simp [hop])]

theorem offer_codec : Codec offerLen (fun b => byteAt b 0 = pairOffer) offerPack offerOf := by
  have h := byteField.tagged pairOffer offerField
  simp only [read_iff] at h
  exact h

theorem confirm_codec : Codec confirmLen (fun b => byteAt b 0 = pairConfirm) confirmPack confirmOf := by
  have fields := field64.pair (bytesField confirmBytes)
  have h := byteField.tagged pairConfirm (fields.map ⟨fun t => Confirm.mk t.1 t.2, fun m => (m.uid, m.tag),
    fun _ => rfl, fun _ => rfl⟩)
  simp only [read_iff] at h
  exact h

/-! ## The handling, once they are read -/

variable (c : Crypto)

def takeOffer (p : Pair) (o : Offer) : Pair :=
  if o.uid = p.selfUid then p
  else if p.havePeer && o.uid == p.peerUid then
    if p.state = .confirmWait then { p with ev := { p.ev with sendConfirm := true } } else p
  else if p.havePeer then abortWith { p with offersSeen := p.offersSeen + 1 } .thirdParty
  else
    let p := { p with
      peerUid := o.uid, peerPublic := o.publicKey, peerNonce := o.nonce, havePeer := true, offersSeen := 1 }
    match derive c p with
    | none => abortWith p .badKey
    | some p => { p with state := .confirmWait, ev := { p.ev with sendConfirm := true, sendOffer := true } }

/-- An exchange that is over only watches for a third party. -/
def hearOffer (p : Pair) (o : Offer) (now : Time) : Pair :=
  if p.state = .idle ∨ p.state = .aborted then p
  else if p.state = .done then
    if windowOpen p now ∧ o.uid ≠ p.peerUid ∧ o.uid ≠ p.selfUid then abortWith p .thirdParty else p
  else takeOffer c p o

def takeConfirm (p : Pair) (m : Confirm) : Pair :=
  if p.havePeer = false then p
  else if m.uid ≠ p.peerUid then p
  else if m.tag ≠ p.expectConfirm then abortWith p .badConfirm
  else
    let p := { p with peerConfirmed := true }
    if p.state = .confirmWait then { p with state := .done, ev := { p.ev with completed := true } } else p

def hearConfirm (p : Pair) (m : Confirm) : Pair :=
  if p.state = .idle ∨ p.state = .aborted then p else takeConfirm p m

/-! ## The handling of a payload -/

variable {c}

theorem confirmOf_some {b : List Byte} {m : Confirm} (h : confirmOf b = some m) :
    byteAt b 0 = pairConfirm ∧ confirmLen ≤ b.length ∧ m = ⟨get64 b 1, slice b 9 _⟩ := by
  unfold confirmOf at h
  split at h
  · rename_i hb
    cases h
    exact ⟨hb.1, hb.2, rfl⟩
  · cases h

/-- A payload that reads as an offer is handled as that offer. -/
theorem pairRx_offer {b : List Byte} {o : Offer} (h : offerOf b = some o) (p : Pair) (now : Time) :
    pairRx c p b now = hearOffer c p o now := by
  obtain ⟨hop, hlen, rfl⟩ := offerOf_some h
  have hlong : 49 ≤ b.length := hlen
  by_cases hover : p.state = .idle ∨ p.state = .aborted
  · rw [pairRx, hearOffer, if_pos hover, if_pos (by rcases hover with hs | hs <;> simp [hs])]
  obtain ⟨hidle, haborted⟩ := not_or.mp hover
  have hnil : b ≠ [] := List.ne_nil_of_length_pos (by omega)
  rw [pairRx, hearOffer, if_neg hover, if_neg (by simp [hidle, haborted, hnil]), if_pos hop]
  by_cases hdone : p.state = .done
  · rw [if_pos hdone, if_pos hdone]
    have hfirst : 9 ≤ b.length := by omega
    simp only [Bool.and_eq_true, decide_eq_true_eq, bne_iff_ne, hfirst, and_true, and_assoc]
  · rw [if_neg hdone, if_neg hdone, rxOffer, if_neg (Nat.not_lt.mpr hlen)]
    rfl

theorem rxConfirm_eq (p : Pair) {b : List Byte} (hlen : confirmLen ≤ b.length) :
    rxConfirm p b = takeConfirm p ⟨get64 b 1, slice b 9 _⟩ := by
  have hguard : ((b.length < confirmLen || !p.havePeer) = true) = (p.havePeer = false) := by
    rw [decide_eq_false (Nat.not_lt.mpr hlen), Bool.false_or, Bool.not_eq_true']
  have htag : ((!ctEqual (b.drop 9) p.expectConfirm.val confirmBytes) = true) = (slice b 9 confirmBytes ≠ p.expectConfirm) := by
    rw [Bool.not_eq_true', ← Bool.not_eq_true, ctEqual_slice]
  simp only [rxConfirm, takeConfirm, hguard, htag]

/-- And one that reads as a confirmation as that. -/
theorem pairRx_confirm {b : List Byte} {m : Confirm} (h : confirmOf b = some m) (p : Pair) (now : Time) :
    pairRx c p b now = hearConfirm p m := by
  obtain ⟨hop, hlen, rfl⟩ := confirmOf_some h
  have hlong : 25 ≤ b.length := hlen
  have hnil : b ≠ [] := List.ne_nil_of_length_pos (by omega)
  have hoffer : byteAt b 0 ≠ pairOffer := by
    rw [hop]
    decide
  by_cases hover : p.state = .idle ∨ p.state = .aborted
  · rw [hearConfirm, if_pos hover, pairRx, if_pos (by rcases hover with hs | hs <;> simp [hs])]
  obtain ⟨hidle, haborted⟩ := not_or.mp hover
  rw [hearConfirm, if_neg hover, pairRx, if_neg (by simp [hidle, haborted, hnil]), if_neg hoffer, if_pos hop,
    rxConfirm_eq p hlen]

/-! ## Between two boards -/

theorem pairBuildOffer_eq {cap : Nat} (hcap : offerLen ≤ cap) (p : Pair) : pairBuildOffer p cap = offerPack (ownOffer p) :=
  if_neg (Nat.not_lt.mpr hcap)

theorem pairBuildConfirm_eq {cap : Nat} (hcap : confirmLen ≤ cap) {p : Pair} (hpeer : p.havePeer = true)
    {tag : Bytes confirmBytes} (htag : buildOwnConfirm c p = some tag) :
    pairBuildConfirm c p cap = confirmPack ⟨p.selfUid, tag⟩ := by
  rw [pairBuildConfirm, if_neg (by simp [hpeer]; exact hcap), htag]
  rfl

theorem pairRx_buildOffer {cap : Nat} (hcap : offerLen ≤ cap) (p q : Pair) (now : Time) :
    pairRx c q (pairBuildOffer p cap) now = hearOffer c q (ownOffer p) now := by
  rw [pairBuildOffer_eq hcap]
  exact pairRx_offer (offer_codec.unpack_pack _) q now

theorem pairRx_buildConfirm {cap : Nat} (hcap : confirmLen ≤ cap) {p : Pair} (hpeer : p.havePeer = true)
    {tag : Bytes confirmBytes} (htag : buildOwnConfirm c p = some tag) (q : Pair) (now : Time) :
    pairRx c q (pairBuildConfirm c p cap) now = hearConfirm q ⟨p.selfUid, tag⟩ := by
  rw [pairBuildConfirm_eq hcap hpeer htag]
  exact pairRx_confirm (confirm_codec.unpack_pack _) q now

/-- A board without a peer keeps what it was offered, whether or not it takes the key. -/
theorem hearOffer_keeps {q : Pair} {o : Offer} (hrun : q.state = .waiting ∨ q.state = .confirmWait)
    (hpeer : q.havePeer = false) (hown : o.uid ≠ q.selfUid) (now : Time) :
    peerOffer (hearOffer c q o now) = some o := by
  have hidle : ¬ (q.state = .idle ∨ q.state = .aborted) := by
    rcases hrun with hs | hs <;> simp [hs]
  have hdone : q.state ≠ .done := by
    rcases hrun with hs | hs <;> simp [hs]
  rw [hearOffer, if_neg hidle, if_neg hdone, takeOffer, if_neg hown, if_neg (by simp [hpeer]), if_neg (by simp [hpeer])]
  simp only
  cases hd : derive c { q with
    peerUid := o.uid, peerPublic := o.publicKey, peerNonce := o.nonce, havePeer := true, offersSeen := 1 } with
  | none => exact peerOffer_abortWith _ _
  | some d =>
    obtain ⟨-, hhave, huid, hpublic, hnonce⟩ := derive_same c hd
    rw [peerOffer, if_pos hhave]
    show some (Offer.mk d.peerUid d.peerPublic d.peerNonce) = _
    rw [huid, hpublic, hnonce]

/-! ## An offer in the middle of an exchange -/

variable (c)

/-- The first offer of a board that waits for one is taken up. -/
theorem pairRx_first {p : Pair} {b : List Byte} (now : Time) {o : Offer} (hw : p.state = .waiting)
    (ho : offerOf b = some o) (hpeer : peerOffer p = none) (hown : o.uid ≠ p.selfUid) :
    peerOffer (pairRx c p b now) = some o := by
  have hnone : p.havePeer = false := by
    rw [← Bool.not_eq_true]
    intro hp
    rw [peerOffer, if_pos hp] at hpeer
    cases hpeer
  rw [pairRx_offer ho]
  exact hearOffer_keeps (Or.inl hw) hnone hown now

/-- An offer from a uid that is neither the board's nor its peer's, inside the window. -/
theorem pairRx_third_party {p : Pair} {b : List Byte} {now : Time} {o peer : Offer} (hidle : p.state ≠ .idle)
    (hopen : windowOpen p now = true) (ho : offerOf b = some o) (hpeer : peerOffer p = some peer)
    (hown : o.uid ≠ p.selfUid) (hne : o.uid ≠ peer.uid) : (pairRx c p b now).state = .aborted := by
  obtain ⟨hp, rfl⟩ := peerOffer_some hpeer
  rw [pairRx_offer ho, hearOffer]
  by_cases hab : p.state = .aborted
  · rw [if_pos (Or.inr hab)]
    exact hab
  rw [if_neg (by simp [hidle, hab])]
  by_cases hdone : p.state = .done
  · rw [if_pos hdone, if_pos ⟨hopen, hne, hown⟩]
    exact abortWith_state _ _
  · rw [if_neg hdone, takeOffer, if_neg hown, if_neg (by simp [hne]), if_pos hp]
    exact abortWith_state _ _

end DeskHop.Trust
