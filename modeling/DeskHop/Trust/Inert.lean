/-
  DeskHop.Trust.Inert — a pairing whose window has closed.

  Times are real milliseconds here; the machine sees them modulo 2^32.

  Proved, for every completed exchange, every later time and every message
  (`settled_pairing_inert_iff`): the message leaves the state, the key and the reason as
  they are and raises nothing, exactly when it is not an ABORT, not a CONFIRM from the
  peer with a wrong tag, and not a third board's OFFER at a time when the wrapped clock
  has the window open again (`Disturbs`). The machine asks whether the window is open for
  an OFFER only, and forgets on which side of the window it is (`late_abort_tears_down`).
-/

import DeskHop.Trust.Pair

namespace DeskHop.Trust

/-- When the window of a board that began at `t0` closes. -/
def Pair.closes (p : Pair) (t0 : Nat) : Nat := t0 + p.windowMs.toNat

/-- The message leaves what has been agreed as it is, and raises nothing. -/
structure Inert (c : Crypto) (p : Pair) (b : List Byte) (now : Time) : Prop where
  state : (pairRx c p b now).state = p.state
  chainKey : (pairRx c p b now).chainKey = p.chainKey
  abortReason : (pairRx c p b now).abortReason = p.abortReason
  ev : (pairRx c p b now).ev = p.ev

/-- The messages a completed exchange answers `since` ms after its window closed: a third
    board's OFFER while the clock, wrapped, reads less than the deadline; the peer's
    CONFIRM with a wrong tag; an ABORT. -/
def Disturbs (p : Pair) (b : List Byte) (since : Nat) : Prop :=
  (byteAt b 0 = pairOffer ∧ 9 ≤ b.length ∧ get64 b 1 ≠ p.peerUid ∧ get64 b 1 ≠ p.selfUid ∧ 2 ^ 31 ≤ since % 2 ^ 32) ∨
  (byteAt b 0 = pairConfirm ∧ confirmLen ≤ b.length ∧ p.havePeer = true ∧ get64 b 1 = p.peerUid ∧
    Wire.ctEqual (b.drop 9) p.expectConfirm.val confirmBytes = false) ∨
  byteAt b 0 = pairAbort

instance (p : Pair) (b : List Byte) (since : Nat) : Decidable (Disturbs p b since) :=
  inferInstanceAs (Decidable (_ ∨ _ ∨ _))

/-- The closed window looks open for the second half of every 2^32 ms. -/
theorem windowOpen_wrapped {p : Pair} {t0 now : Nat} (ht : p.tStarted = UInt32.ofNat t0) (hw : p.closes t0 ≤ now) :
    windowOpen p (UInt32.ofNat now) = true ↔ 2 ^ 31 ≤ (now - p.closes t0) % 2 ^ 32 := by
  have hsub : (UInt32.ofNat now - UInt32.ofNat (p.closes t0)).toNat = (now - p.closes t0) % 2 ^ 32 := by
    rw [UInt32.toNat_sub, UInt32.toNat_ofNat', UInt32.toNat_ofNat']
    omega
  have hiff := timeAfter_iff (UInt32.ofNat now) (UInt32.ofNat (p.closes t0))
  rw [hsub] at hiff
  rw [windowOpen, ht, ofNat_add_toUInt32, Bool.not_eq_true', Bool.eq_false_iff]
  exact (not_congr hiff).trans Nat.not_lt

theorem tearsDown_iff {p : Pair} {t0 now : Nat} (ht : p.tStarted = UInt32.ofNat t0) (hw : p.closes t0 ≤ now)
    (b : List Byte) : tearsDown p b (UInt32.ofNat now) = true ↔ Disturbs p b (now - p.closes t0) := by
  have hopen := windowOpen_wrapped ht hw
  simp only [tearsDown, Disturbs, Bool.or_eq_true, Bool.and_eq_true, beq_iff_eq, bne_iff_ne, ne_eq, decide_eq_true_eq,
    Bool.not_eq_true', hopen]
  constructor
  · rintro ((⟨⟨⟨⟨h1, h2⟩, h3⟩, h4⟩, h5⟩ | ⟨⟨⟨⟨h1, h2⟩, h3⟩, h4⟩, h5⟩) | h)
    · exact Or.inl ⟨h1, h3, h4, h5, h2⟩
    · exact Or.inr (Or.inl ⟨h1, h2, h3, h4, h5⟩)
    · exact Or.inr (Or.inr h)
  · rintro (⟨h1, h3, h4, h5, h2⟩ | ⟨h1, h2, h3, h4, h5⟩ | h)
    · exact Or.inl (Or.inl ⟨⟨⟨⟨h1, h2⟩, h3⟩, h4⟩, h5⟩)
    · exact Or.inl (Or.inr ⟨⟨⟨⟨h1, h2⟩, h3⟩, h4⟩, h5⟩)
    · exact Or.inr h

/-- A completed exchange whose window has closed is inert to a message exactly when the
    message is none of those. -/
theorem settled_pairing_inert_iff (c : Crypto) {p : Pair} (hs : p.state = .done) {t0 now : Nat}
    (ht : p.tStarted = UInt32.ofNat t0) (hw : p.closes t0 ≤ now) (b : List Byte) :
    Inert c p b (UInt32.ofNat now) ↔ ¬ Disturbs p b (now - p.closes t0) := by
  rw [← tearsDown_iff ht hw, Bool.not_eq_true]
  constructor
  · intro h
    by_contra htd
    have hab := pairRx_tornDown c hs (Bool.not_eq_false _ ▸ htd)
    rw [h.state, hs] at hab
    cases hab
  · intro h
    obtain ⟨confirmed, hp⟩ := pairRx_done c hs h
    constructor <;> rw [hp]

/-! ## A late ABORT -/

/-- Two boards that have paired: the first, between 1000 and its window's end at 31000. -/
def settledPair : Pair :=
  let p := pairRx mockCrypto (sample 0x1111 1) (sampleOffer 0x2222 2) 1000
  (pairTakeEvents (pairRx mockCrypto p (sampleConfirm 0x2222 2 (sampleOffer 0x1111 1)) 1500)).2

theorem settledPair_done : settledPair.state = .done ∧ settledPair.tStarted = UInt32.ofNat 1000 ∧
    settledPair.closes 1000 = 31000 := by decide +kernel

/-- What `dhp_pair_build_abort` sends for an exchange that timed out. -/
def timeoutAbort : List Byte := [pairAbort, PairAbort.timeout.code]

theorem late_abort_tears_down :
    ¬ ∀ (c : Crypto) (p : Pair) (t0 now : Nat) (b : List Byte), p.state = .done → p.tStarted = UInt32.ofNat t0 →
      p.closes t0 ≤ now → Inert c p b (UInt32.ofNat now) := by
  intro h
  obtain ⟨hdone, hstart, hcloses⟩ := settledPair_done
  have hs := (h mockCrypto settledPair 1000 1000000 timeoutAbort hdone hstart (by omega)).state
  have htorn : tearsDown settledPair timeoutAbort (UInt32.ofNat 1000000) = true := by
    rw [tearsDown, show byteAt timeoutAbort 0 = pairAbort from rfl]
    simp
  have hab := pairRx_tornDown mockCrypto hdone htorn
  rw [hs, hdone] at hab
  cases hab

/-- Another pair's OFFER, long after. -/
theorem settled_pairing_inert_to_an_offer :
    Inert mockCrypto settledPair (sampleOffer 0x3333 3) (UInt32.ofNat 1000000) := by
  obtain ⟨hdone, hstart, hcloses⟩ := settledPair_done
  have hoffer : byteAt (sampleOffer 0x3333 3) 0 = pairOffer := by decide +kernel
  refine (settled_pairing_inert_iff mockCrypto hdone hstart (by omega) _).mpr ?_
  rw [hcloses, Disturbs, hoffer]
  rintro (⟨-, -, -, -, h⟩ | ⟨h, -⟩ | h)
  · exact absurd h (by decide)
  · exact absurd h (by decide)
  · exact absurd h (by decide)

end DeskHop.Trust
