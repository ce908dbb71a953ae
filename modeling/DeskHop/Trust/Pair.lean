/-
  DeskHop.Trust.Pair — trust establishment between two boards
  (`core/include/dhp/auth.h`, `core/src/auth.c`).

  The caller's primitives are a parameter (`Crypto`). What the caller's randomness
  yields, a key pair and a nonce, comes with the call that asks for it (`Fresh`).

  Proved: an aborted exchange stays aborted whatever it receives (`pairRx_aborted`,
  `pairTick_aborted`), and what a received message can do to an exchange in progress
  (`pairRx_cases`).
-/

import DeskHop.Core.Types
import DeskHop.Wire.Integrity

namespace DeskHop.Trust

open DeskHop.Wire

def dhBytes : Nat := 32
def nonceBytes : Nat := 8
def confirmBytes : Nat := 16
def sasBytes : Nat := 3

/-- The primitives supplied by the caller. -/
structure Crypto where
  /-- `none` for a degenerate peer key. -/
  dhShared : Bytes dhBytes → Bytes dhBytes → Option (Bytes dhBytes)
  /-- A PRF over key material and a context string. -/
  kdf : (outLen : Nat) → Bytes dhBytes → List Byte → Bytes outLen

structure Fresh where
  secret : Bytes dhBytes
  publicKey : Bytes dhBytes
  nonce : Bytes nonceBytes
  deriving DecidableEq

def pairOffer : Byte := 0
def pairConfirm : Byte := 1
def pairAbort : Byte := 2

inductive PairState where
  | idle
  | waiting
  | confirmWait
  | done
  | aborted
  deriving DecidableEq, Repr

inductive PairAbort where
  | none
  | thirdParty
  | timeout
  | badConfirm
  | badKey
  | peer
  deriving DecidableEq, Repr

def PairAbort.code : PairAbort → Byte
  | .none => 0
  | .thirdParty => 1
  | .timeout => 2
  | .badConfirm => 3
  | .badKey => 4
  | .peer => 5

/-- `dhp_pair_abort_name`. -/
def PairAbort.name : PairAbort → String
  | .none => "none"
  | .thirdParty => "third party joined"
  | .timeout => "timed out"
  | .badConfirm => "confirmation mismatch"
  | .badKey => "bad public key"
  | .peer => "peer aborted"

/-- One-shot outputs. -/
structure PairEvents where
  sendOffer : Bool
  sendConfirm : Bool
  sendAbort : Bool
  completed : Bool
  aborted : Bool
  abortReason : Byte
  deriving DecidableEq, Repr

def PairEvents.clear : PairEvents := ⟨false, false, false, false, false, 0⟩

structure Pair where
  selfUid : Uid
  state : PairState
  tStarted : Time
  windowMs : UInt16
  secret : Bytes dhBytes
  selfPublic : Bytes dhBytes
  selfNonce : Bytes nonceBytes
  peerUid : Uid
  peerPublic : Bytes dhBytes
  peerNonce : Bytes nonceBytes
  havePeer : Bool
  offersSeen : UInt8
  chainKey : Key
  expectConfirm : Bytes confirmBytes
  sas : Bytes sasBytes
  peerConfirmed : Bool
  abortReason : PairAbort
  ev : PairEvents
  deriving DecidableEq

/-- Zeroed but for the identity. -/
def pairInit (uid : Uid) : Pair :=
  { selfUid := uid, state := .idle, tStarted := 0, windowMs := 0, secret := Bytes.zero _, selfPublic := Bytes.zero _,
    selfNonce := Bytes.zero _, peerUid := 0, peerPublic := Bytes.zero _, peerNonce := Bytes.zero _, havePeer := false,
    offersSeen := 0, chainKey := Bytes.zero 16, expectConfirm := Bytes.zero _, sas := Bytes.zero _,
    peerConfirmed := false, abortReason := .none, ev := .clear }

def pairBegin (p : Pair) (now : Time) (windowMs : UInt16) (fresh : Fresh) : Pair :=
  { pairInit p.selfUid with
    state := .waiting, tStarted := now, windowMs := if windowMs ≠ 0 then windowMs else 30000,
    secret := fresh.secret, selfPublic := fresh.publicKey, selfNonce := fresh.nonce,
    ev := { PairEvents.clear with sendOffer := true } }

/-- Reaching `done` stays revocable; only an already aborted exchange is inert. -/
def abortWith (p : Pair) (why : PairAbort) : Pair :=
  if p.state = .aborted then p
  else
    { p with
      state := .aborted, abortReason := why, chainKey := Bytes.zero 16, secret := Bytes.zero _,
      ev := { p.ev with sendAbort := true, aborted := true, abortReason := why.code } }

/-! ## What both sides derive -/

/-- A context string, with the terminator that `sizeof` counts. -/
def info (s : String) : List Byte := s.toList.map (fun ch => UInt8.ofNat ch.toNat) ++ [0]

def infoKey : List Byte := info "dhp/v1 chain-key"
def infoConfirm : List Byte := info "dhp/v1 confirm"
def infoSas : List Byte := info "dhp/v1 sas"

/-- Ordered by uid, so that both boards build the same. -/
def buildTranscript (p : Pair) : List Byte :=
  let self := put64 p.selfUid ++ p.selfPublic.val ++ p.selfNonce.val
  let peer := put64 p.peerUid ++ p.peerPublic.val ++ p.peerNonce.val
  if p.selfUid < p.peerUid then self ++ peer else peer ++ self

variable (c : Crypto)

def derive (p : Pair) : Option Pair :=
  (c.dhShared p.secret p.peerPublic).map fun shared =>
    let transcript := buildTranscript p
    { p with
      chainKey := c.kdf 16 shared (infoKey ++ transcript)
      sas := c.kdf sasBytes shared (infoSas ++ transcript)
      expectConfirm := c.kdf confirmBytes shared (infoConfirm ++ transcript ++ put64 p.peerUid) }

def buildOwnConfirm (p : Pair) : Option (Bytes confirmBytes) :=
  (c.dhShared p.secret p.peerPublic).map fun shared =>
    c.kdf confirmBytes shared (infoConfirm ++ buildTranscript p ++ put64 p.selfUid)

/-! ## Receiving -/

def offerLen : Nat := 1 + 8 + dhBytes + nonceBytes
def confirmLen : Nat := 1 + 8 + confirmBytes

/-- The peer of an offer, while none is known. -/
def storePeer (p : Pair) (b : List Byte) : Pair :=
  { p with
    peerUid := get64 b 1, peerPublic := slice b 9 dhBytes, peerNonce := slice b (9 + dhBytes) nonceBytes,
    havePeer := true, offersSeen := 1 }

def rxOffer (p : Pair) (b : List Byte) : Pair :=
  if b.length < offerLen then p
  else
    let uid := get64 b 1
    if uid = p.selfUid then p -- our own offer echoed back
    else if p.havePeer && uid == p.peerUid then
      if p.state = .confirmWait then { p with ev := { p.ev with sendConfirm := true } } else p
    else if p.havePeer then abortWith { p with offersSeen := p.offersSeen + 1 } .thirdParty
    else
      let p := storePeer p b
      match derive c p with
      | none => abortWith p .badKey
      | some p => { p with state := .confirmWait, ev := { p.ev with sendConfirm := true, sendOffer := true } }

def rxConfirm (p : Pair) (b : List Byte) : Pair :=
  if b.length < confirmLen || !p.havePeer then p
  else if get64 b 1 ≠ p.peerUid then p
  else if !ctEqual (b.drop 9) p.expectConfirm.val confirmBytes then abortWith p .badConfirm
  else
    let p := { p with peerConfirmed := true }
    if p.state = .confirmWait then { p with state := .done, ev := { p.ev with completed := true } } else p

/-- The pairing button's window has not closed. -/
def windowOpen (p : Pair) (now : Time) : Bool := !timeAfter now (p.tStarted + p.windowMs.toUInt32)

def pairRx (p : Pair) (payload : List Byte) (now : Time) : Pair :=
  if payload.length < 1 || p.state == .idle || p.state == .aborted then p
  else if byteAt payload 0 = pairOffer then
    if p.state = .done then
      if windowOpen p now && 9 ≤ payload.length && get64 payload 1 != p.peerUid && get64 payload 1 != p.selfUid then
        abortWith p .thirdParty
      else p
    else rxOffer c p payload
  else if byteAt payload 0 = pairConfirm then rxConfirm p payload
  else if byteAt payload 0 = pairAbort then abortWith p .peer
  else p

def pairTick (p : Pair) (now : Time) : Pair :=
  if p.state ≠ .waiting ∧ p.state ≠ .confirmWait then p
  else if !windowOpen p now then abortWith p .timeout
  else p

/-! ## Sending -/

def pairTakeEvents (p : Pair) : PairEvents × Pair := (p.ev, { p with ev := .clear })

/-- The payloads; empty for "nothing to send". -/
def pairBuildOffer (p : Pair) (cap : Nat) : List Byte :=
  if cap < offerLen then [] else pairOffer :: put64 p.selfUid ++ p.selfPublic.val ++ p.selfNonce.val

def pairBuildConfirm (p : Pair) (cap : Nat) : List Byte :=
  if cap < confirmLen || !p.havePeer then []
  else
    match buildOwnConfirm c p with
    | none => []
    | some tag => pairConfirm :: put64 p.selfUid ++ tag.val

def pairBuildAbort (p : Pair) (cap : Nat) : List Byte := if cap < 2 then [] else [pairAbort, p.abortReason.code]

/-- Only a completed exchange gives its key away. -/
def pairChainKey (p : Pair) : Option Key := if p.state = .done then some p.chainKey else none

def hexDigit (n : UInt8) : Char := "0123456789ABCDEF".toList.getD n.toNat '0'

def pairSasString (p : Pair) : String :=
  String.ofList (p.sas.val.flatMap fun b : Byte => [hexDigit (b >>> 4 &&& 0xF), hexDigit (b &&& 0xF)])

/-! ## The mock backend of `tests/test_auth.c` -/

def mockMask : Byte := 0x5A

/-- `memcmp (a, b) < 0`. -/
def memLess : List Byte → List Byte → Bool
  | a :: as, b :: bs => if a = b then memLess as bs else a < b
  | _, _ => false

def mockPublic (secret : Bytes dhBytes) : Bytes dhBytes := ⟨secret.val.map (· ^^^ mockMask), by simp [secret.property]⟩

/-- The two secrets in an order both sides agree on. -/
def mockShared (secret peerPub : Bytes dhBytes) : Option (Bytes dhBytes) :=
  if peerPub.val.all (· == 0) then none
  else
    let peerSecret := mockPublic peerPub
    let (a, b) := if memLess secret.val peerSecret.val then (secret, peerSecret) else (peerSecret, secret)
    some ⟨List.zipWith (fun x y => x + y * 3) a.val b.val, by simp [a.property, b.property]⟩

/-- SipHash in counter mode. -/
def mockKdf (outLen : Nat) (ikm : Bytes dhBytes) (info : List Byte) : Bytes outLen :=
  let key := slice ikm.val 0 16
  slice ((List.range ((outLen + 7) / 8)).flatMap fun block =>
    put64 (siphash24 (info.take 255 ++ [UInt8.ofNat block]) key)) 0 outLen

def mockCrypto : Crypto := ⟨mockShared, mockKdf⟩

/-- What a board draws whose secret is `n` over and over. -/
def mockFresh (n : Byte) : Fresh :=
  let secret : Bytes dhBytes := ⟨List.replicate dhBytes n, List.length_replicate⟩
  ⟨secret, mockPublic secret, ⟨List.replicate nonceBytes n, List.length_replicate⟩⟩

/-- A board that has just begun, with `n` for its randomness. -/
def sample (uid : Uid) (n : Byte) : Pair := pairBegin (pairInit uid) 1000 30000 (mockFresh n)

def sampleOffer (uid : Uid) (n : Byte) : List Byte := pairBuildOffer (sample uid n) 64

def sampleConfirm (uid : Uid) (n : Byte) (offer : List Byte) : List Byte :=
  pairBuildConfirm mockCrypto (pairRx mockCrypto (sample uid n) offer 1000) 64

/-! ## An aborted exchange -/

@[simp] theorem abortWith_state (p : Pair) (why : PairAbort) : (abortWith p why).state = .aborted := by
  unfold abortWith
  split
  · assumption
  · rfl

theorem pairRx_aborted {p : Pair} (h : p.state = .aborted) (payload : List Byte) (now : Time) :
    pairRx c p payload now = p := if_pos (by simp [h])

theorem pairTick_aborted {p : Pair} (h : p.state = .aborted) (now : Time) : pairTick p now = p :=
  if_pos (by simp [h])

theorem pairChainKey_aborted {p : Pair} (h : p.state = .aborted) : pairChainKey p = none := if_neg (by simp [h])

/-! ## What a message does to an exchange in progress -/

structure Offer where
  uid : Uid
  publicKey : Bytes dhBytes
  nonce : Bytes nonceBytes
  deriving DecidableEq

/-- The offer a payload carries, if it is a well-formed OFFER. -/
def offerOf (b : List Byte) : Option Offer :=
  if byteAt b 0 = pairOffer ∧ offerLen ≤ b.length then some ⟨get64 b 1, slice b 9 _, slice b (9 + dhBytes) _⟩ else none

def ownOffer (p : Pair) : Offer := ⟨p.selfUid, p.selfPublic, p.selfNonce⟩

/-- What the peer offered, once it did. -/
def peerOffer (p : Pair) : Option Offer := if p.havePeer then some ⟨p.peerUid, p.peerPublic, p.peerNonce⟩ else none

theorem offerOf_some {b : List Byte} {o : Offer} (h : offerOf b = some o) : byteAt b 0 = pairOffer ∧ offerLen ≤ b.length ∧
    o = ⟨get64 b 1, slice b 9 _, slice b (9 + dhBytes) _⟩ := by
  unfold offerOf at h
  split at h
  · rename_i hb
    cases h
    exact ⟨hb.1, hb.2, rfl⟩
  · cases h

theorem peerOffer_some {p : Pair} {o : Offer} (h : peerOffer p = some o) :
    p.havePeer = true ∧ o = ⟨p.peerUid, p.peerPublic, p.peerNonce⟩ := by
  unfold peerOffer at h
  split at h
  · rename_i hp
    cases h
    exact ⟨hp, rfl⟩
  · cases h

theorem peerOffer_abortWith (p : Pair) (why : PairAbort) : peerOffer (abortWith p why) = peerOffer p := by
  unfold abortWith
  split
  · rfl
  · rfl

/-- The exchange goes on with the peer it has. -/
structure GoesOn (p p' : Pair) : Prop where
  self : p'.selfUid = p.selfUid
  peer : peerOffer p' = peerOffer p
  state : p'.state = p.state ∨ p.state = .confirmWait ∧ p'.state = .done

/-- The exchange has found its peer in `b`. -/
structure Meets (p : Pair) (b : List Byte) (p' : Pair) : Prop where
  unknown : peerOffer p = none
  offer : ∃ o, offerOf b = some o ∧ peerOffer p' = some o ∧ o.uid ≠ p.selfUid
  state : p'.state = .confirmWait
  self : p'.selfUid = p.selfUid

theorem GoesOn.refl (p : Pair) : GoesOn p p := ⟨rfl, rfl, Or.inl rfl⟩

theorem derive_same {p d : Pair} (h : derive c p = some d) : d.selfUid = p.selfUid ∧ d.havePeer = p.havePeer ∧
    d.peerUid = p.peerUid ∧ d.peerPublic = p.peerPublic ∧ d.peerNonce = p.peerNonce := by
  unfold derive at h
  obtain ⟨shared, -, rfl⟩ := Option.map_eq_some_iff.mp h
  exact ⟨rfl, rfl, rfl, rfl, rfl⟩

theorem rxOffer_cases {p : Pair} {b : List Byte} (hb : byteAt b 0 = pairOffer) :
    (rxOffer c p b).state = .aborted ∨ GoesOn p (rxOffer c p b) ∨ Meets p b (rxOffer c p b) := by
  simp only [rxOffer]
  by_cases hl : b.length < offerLen
  · rw [if_pos hl]
    exact Or.inr (Or.inl (.refl p))
  rw [if_neg hl]
  by_cases hown : get64 b 1 = p.selfUid
  · rw [if_pos hown]
    exact Or.inr (Or.inl (.refl p))
  rw [if_neg hown]
  by_cases hp : p.havePeer = true
  · by_cases hu : get64 b 1 = p.peerUid
    · rw [if_pos (by simp [hp, hu])]
      split
      · exact Or.inr (Or.inl ⟨rfl, rfl, Or.inl rfl⟩)
      · exact Or.inr (Or.inl (.refl p))
    · rw [if_neg (by simp [hu]), if_pos hp]
      exact Or.inl (abortWith_state _ _)
  · rw [if_neg (by simp [hp]), if_neg hp]
    cases hd : derive c (storePeer p b) with
    | none => exact Or.inl (abortWith_state _ _)
    | some d =>
      obtain ⟨h1, h2, h3, h4, h5⟩ := derive_same c hd
      refine Or.inr (Or.inr ⟨if_neg hp, ⟨_, if_pos ⟨hb, Nat.not_lt.mp hl⟩, ?_, hown⟩, rfl, h1⟩)
      rw [peerOffer, if_pos (show d.havePeer = true from h2)]
      show some (Offer.mk d.peerUid d.peerPublic d.peerNonce) = _
      rw [h3, h4, h5]
      rfl

theorem rxConfirm_cases (p : Pair) (b : List Byte) :
    (rxConfirm p b).state = .aborted ∨ GoesOn p (rxConfirm p b) := by
  simp only [rxConfirm]
  split
  · exact Or.inr (.refl p)
  split
  · exact Or.inr (.refl p)
  split
  · exact Or.inl (abortWith_state _ _)
  split
  · rename_i hs
    exact Or.inr ⟨rfl, rfl, Or.inr ⟨hs, rfl⟩⟩
  · exact Or.inr ⟨rfl, rfl, Or.inl rfl⟩

/-- A message aborts the exchange, leaves its peer alone, or brings the first peer. -/
theorem pairRx_cases (p : Pair) (b : List Byte) (now : Time) :
    (pairRx c p b now).state = .aborted ∨ GoesOn p (pairRx c p b now) ∨ Meets p b (pairRx c p b now) := by
  unfold pairRx
  split
  · exact Or.inr (Or.inl (.refl p))
  split
  · rename_i hb
    split
    · split
      · exact Or.inl (abortWith_state _ _)
      · exact Or.inr (Or.inl (.refl p))
    · exact rxOffer_cases c hb
  split
  · rcases rxConfirm_cases p b with h | h
    · exact Or.inl h
    · exact Or.inr (Or.inl h)
  split
  · exact Or.inl (abortWith_state _ _)
  · exact Or.inr (Or.inl (.refl p))

theorem pairTick_cases (p : Pair) (now : Time) : (pairTick p now).state = .aborted ∨ pairTick p now = p := by
  unfold pairTick
  split
  · exact Or.inr rfl
  split
  · exact Or.inl (abortWith_state _ _)
  · exact Or.inr rfl

/-! ## Tearing down -/

/-- Of the messages a completed exchange may receive, those that abort it. -/
def tearsDown (p : Pair) (b : List Byte) (now : Time) : Bool :=
  byteAt b 0 == pairOffer && windowOpen p now && 9 ≤ b.length && get64 b 1 != p.peerUid && get64 b 1 != p.selfUid ||
  byteAt b 0 == pairConfirm && confirmLen ≤ b.length && p.havePeer && get64 b 1 == p.peerUid &&
    !ctEqual (b.drop 9) p.expectConfirm.val confirmBytes ||
  byteAt b 0 == pairAbort

/-- The others leave it as it is; at most it notes the confirmation again. -/
theorem pairRx_done {p : Pair} (h : p.state = .done) {b : List Byte} {now : Time} (ht : tearsDown p b now = false) :
    ∃ confirmed, pairRx c p b now = { p with peerConfirmed := confirmed } := by
  have hsame : ∃ confirmed, p = { p with peerConfirmed := confirmed } := ⟨p.peerConfirmed, rfl⟩
  simp only [tearsDown, Bool.or_eq_false_iff] at ht
  obtain ⟨⟨hoffer, hconfirm⟩, habort⟩ := ht
  unfold pairRx
  split
  · exact hsame
  split
  · rename_i hb
    rw [if_neg (by simpa [hb] using hoffer)]
    exact hsame
  split
  · rename_i hb
    simp only [rxConfirm]
    split
    · exact hsame
    rename_i hl
    split
    · exact hsame
    rename_i hu
    simp only [Bool.or_eq_true, decide_eq_true_eq, Bool.not_eq_true', not_or, Bool.not_eq_false, not_lt] at hl
    simp only [hb, BEq.rfl, hl.1, decide_true, hl.2, not_not.mp hu, Bool.true_and] at hconfirm
    rw [if_neg (by simp [hconfirm]), if_neg (by simp [h])]
    exact ⟨true, rfl⟩
  · rename_i hb
    rw [if_neg (by simpa using habort)]
    exact hsame

/-- Each of these does abort it. -/
theorem pairRx_tornDown {p : Pair} (h : p.state = .done) {b : List Byte} {now : Time} (ht : tearsDown p b now = true) :
    (pairRx c p b now).state = .aborted := by
  have hnil : b.length < 1 → tearsDown p b now = false := by
    intro hl
    obtain rfl : b = [] := List.length_eq_zero_iff.mp (by omega)
    simp [tearsDown, byteAt, pairConfirm, pairAbort]
  have hlen : ¬ b.length < 1 := fun hl => absurd (ht.symm.trans (hnil hl)) (by decide)
  simp only [tearsDown, Bool.or_eq_true] at ht
  unfold pairRx
  rw [if_neg (by simpa [h] using hlen)]
  rcases ht with (ht | ht) | ht
  · simp only [Bool.and_eq_true, beq_iff_eq] at ht
    obtain ⟨⟨⟨⟨hb, hopen⟩, hl⟩, hpeer⟩, hown⟩ := ht
    rw [if_pos hb, if_pos h, if_pos (by rw [hopen, hl, hpeer, hown]; rfl)]
    exact abortWith_state _ _
  · simp only [Bool.and_eq_true, beq_iff_eq, decide_eq_true_eq] at ht
    obtain ⟨⟨⟨⟨hb, hl⟩, hp⟩, hu⟩, htag⟩ := ht
    rw [if_neg (by rw [hb]; decide), if_pos hb, rxConfirm, if_neg (by simpa [hp] using hl), if_neg (not_not.mpr hu),
      if_pos htag]
    exact abortWith_state _ _
  · have hb : byteAt b 0 = pairAbort := beq_iff_eq.mp ht
    rw [if_neg (by rw [hb]; decide), if_neg (by rw [hb]; decide), if_pos hb]
    exact abortWith_state _ _

theorem pairTick_done {p : Pair} (h : p.state = .done) (now : Time) : pairTick p now = p := if_pos (by simp [h])

end DeskHop.Trust
