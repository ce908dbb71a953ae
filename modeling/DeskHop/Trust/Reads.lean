/-
  DeskHop.Trust.Reads — what the pairing machine reads of a payload (`core/src/auth.c`).

  `pairRxRead` is `dhp_pair_rx` once more, with every read of the payload failing past its
  end. Proved: no read fails, so it is `pairRx` (`pairRxRead_eq`); and a message without
  the fields that are read of it changes nothing (`pairRx_short`).
-/

import DeskHop.Core.Reads
import DeskHop.Trust.Pair

namespace DeskHop.Trust

open DeskHop.Wire

variable (c : Crypto)

def rxOfferRead (p : Pair) (b : List Byte) : Option Pair :=
  if b.length < offerLen then some p
  else do
    let uid ← read64 b 1
    if uid = p.selfUid then return p
    else if p.havePeer && uid == p.peerUid then
      return if p.state = .confirmWait then { p with ev := { p.ev with sendConfirm := true } } else p
    else if p.havePeer then return abortWith { p with offersSeen := p.offersSeen + 1 } .thirdParty
    else
      let peerPublic ← readSlice b 9 dhBytes
      let peerNonce ← readSlice b (9 + dhBytes) nonceBytes
      let p := { p with
        peerUid := uid, peerPublic := peerPublic, peerNonce := peerNonce, havePeer := true, offersSeen := 1 }
      match derive c p with
      | none => return abortWith p .badKey
      | some p => return { p with state := .confirmWait, ev := { p.ev with sendConfirm := true, sendOffer := true } }

def rxConfirmRead (p : Pair) (b : List Byte) : Option Pair :=
  if b.length < confirmLen || !p.havePeer then some p
  else do
    let uid ← read64 b 1
    if uid ≠ p.peerUid then return p
    else
      let tag ← readSlice b 9 confirmBytes
      if !ctEqual tag.val p.expectConfirm.val confirmBytes then return abortWith p .badConfirm
      else
        let p := { p with peerConfirmed := true }
        return if p.state = .confirmWait then { p with state := .done, ev := { p.ev with completed := true } } else p

/-- The uid of an offer that comes once the exchange is done is read twice. -/
def rxLateOfferRead (p : Pair) (b : List Byte) (now : Time) : Option Pair :=
  if windowOpen p now && 9 ≤ b.length then do
    let uid ← read64 b 1
    if uid = p.peerUid then return p
    else
      let uid ← read64 b 1
      return if uid = p.selfUid then p else abortWith p .thirdParty
  else some p

def pairRxRead (p : Pair) (payload : List Byte) (now : Time) : Option Pair :=
  if payload.length < 1 || p.state == .idle || p.state == .aborted then some p
  else do
    let op ← readByte payload 0
    if op = pairOffer then
      if p.state = .done then rxLateOfferRead p payload now else rxOfferRead c p payload
    else if op = pairConfirm then rxConfirmRead p payload
    else return if op = pairAbort then abortWith p .peer else p

/-! ## No read fails -/

theorem rxOfferRead_eq (p : Pair) (b : List Byte) : rxOfferRead c p b = some (rxOffer c p b) := by
  simp only [rxOfferRead, rxOffer]
  by_cases hl : b.length < offerLen
  · rw [if_pos hl, if_pos hl]
  rw [if_neg hl, if_neg hl]
  have hlen : 49 ≤ b.length := Nat.not_lt.mp hl
  have huid : read64 b 1 = some (get64 b 1) := read64_inside (by omega)
  have hpublic : readSlice b 9 dhBytes = some (slice b 9 dhBytes) := readSlice_inside (by rw [dhBytes]; omega)
  have hnonce : readSlice b (9 + dhBytes) nonceBytes = some (slice b (9 + dhBytes) nonceBytes) :=
    readSlice_inside (by rw [dhBytes, nonceBytes]; omega)
  rw [huid]
  simp only [Option.bind_eq_bind, Option.bind_some, hpublic, hnonce]
  split
  · rfl
  split
  · rfl
  split
  · rfl
  · show (match derive c (storePeer p b) with
      | none => _
      | some p => _) = _
    cases derive c (storePeer p b) <;> rfl

theorem rxConfirmRead_eq (p : Pair) (b : List Byte) : rxConfirmRead p b = some (rxConfirm p b) := by
  simp only [rxConfirmRead, rxConfirm]
  by_cases hl : (b.length < confirmLen || !p.havePeer) = true
  · rw [if_pos hl, if_pos hl]
  rw [if_neg hl, if_neg hl]
  have hlen : 25 ≤ b.length := by
    have hlong : ¬ b.length < confirmLen := fun hshort => hl (by simp [hshort])
    exact Nat.not_lt.mp hlong
  have huid : read64 b 1 = some (get64 b 1) := read64_inside (by omega)
  have htag : readSlice b 9 confirmBytes = some (slice b 9 confirmBytes) :=
    readSlice_inside (by rw [confirmBytes]; omega)
  have hsame : ctEqual (slice b 9 confirmBytes).val p.expectConfirm.val confirmBytes =
      ctEqual (b.drop 9) p.expectConfirm.val confirmBytes := by
    rw [Bool.eq_iff_iff, ctEqual_slice, ctEqual_iff]
    exact ⟨fun h => Bytes.ext_byteAt h, fun h i _ => by rw [h]⟩
  rw [huid]
  simp only [Option.bind_eq_bind, Option.bind_some, htag, hsame]
  split
  · rfl
  split <;> rfl

theorem rxLateOfferRead_eq (p : Pair) (b : List Byte) (now : Time) : rxLateOfferRead p b now = some
    (if windowOpen p now && 9 ≤ b.length && get64 b 1 != p.peerUid && get64 b 1 != p.selfUid then
      abortWith p .thirdParty
    else p) := by
  rw [rxLateOfferRead]
  by_cases hl : (windowOpen p now && 9 ≤ b.length) = true
  · have hlen : 9 ≤ b.length := by simpa using (Bool.and_eq_true_iff.mp hl).2
    have huid : read64 b 1 = some (get64 b 1) := read64_inside (by omega)
    rw [if_pos hl, huid, hl]
    simp only [Option.bind_eq_bind, Option.bind_some, Bool.true_and]
    by_cases hp : get64 b 1 = p.peerUid
    · simp [hp]
    · by_cases hs : get64 b 1 = p.selfUid <;> simp [hp, hs]
  · rw [if_neg hl, if_neg (by simp [hl])]

theorem pairRxRead_eq (p : Pair) (payload : List Byte) (now : Time) :
    pairRxRead c p payload now = some (pairRx c p payload now) := by
  rw [pairRxRead, pairRx]
  by_cases hl : (payload.length < 1 || p.state == .idle || p.state == .aborted) = true
  · rw [if_pos hl, if_pos hl]
  have hlen : 0 < payload.length := by
    simp only [Bool.or_eq_true, decide_eq_true_eq, not_or] at hl
    omega
  rw [if_neg hl, if_neg hl, readByte_inside hlen]
  simp only [Option.bind_eq_bind, Option.bind_some, rxLateOfferRead_eq, rxOfferRead_eq, rxConfirmRead_eq]
  split
  · split <;> rfl
  split
  · rfl
  split <;> rfl

/-! ## What is too short -/

/-- The fields read of a message; of an offer to an exchange that is done, its uid. -/
def pairMin (p : Pair) (payload : List Byte) : Nat :=
  if byteAt payload 0 = pairOffer then if p.state = .done then 9 else offerLen
  else if byteAt payload 0 = pairConfirm then confirmLen
  else 1

theorem pairRx_short {p : Pair} {payload : List Byte} (h : payload.length < pairMin p payload) (now : Time) :
    pairRx c p payload now = p := by
  unfold pairMin at h
  unfold pairRx
  split
  · rfl
  rename_i hl
  have hlen : 0 < payload.length := by
    simp only [Bool.or_eq_true, decide_eq_true_eq, not_or] at hl
    omega
  split at h
  · rename_i hb
    rw [if_pos hb]
    split at h
    · rename_i hdone
      have hshort : decide (9 ≤ payload.length) = false := decide_eq_false (by omega)
      rw [if_pos hdone, hshort]
      simp
    · rename_i hdone
      rw [if_neg hdone, rxOffer, if_pos h]
  · rename_i hb
    rw [if_neg hb]
    split at h
    · rename_i hc
      rw [if_pos hc, rxConfirm, if_pos (by simp [h])]
    · omega

end DeskHop.Trust
