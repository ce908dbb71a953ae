/-
  DeskHop.Trust.ThirdParty — a third participant aborts the exchange.

  A run is one exchange, from `pairBegin` on, and whatever messages and ticks it is
  given while its window is open. Beside the machine it records the well-formed offers
  the board has processed, its own left out (`Exchange`).

  Proved, for every run in which an offer that repeats a uid, the board's or an
  earlier offer's, repeats the public key and the nonce too (`third_party_aborts`): two
  offers that differ have aborted the exchange, and nothing brings it back.

  The machine tells participants apart by the uid alone. An offer with the peer's uid
  and another key passes for a retransmission (`relayed_uid_is_not_noticed`).
-/

import DeskHop.Lib.Reach
import DeskHop.Trust.Payloads

namespace DeskHop.Trust

open DeskHop.Lib

structure Exchange where
  p : Pair
  /-- The offers processed that are not the board's own, latest first. -/
  offers : List Offer
  deriving DecidableEq

/-- A well-formed offer that is not the board's own. -/
def foreign (p : Pair) (b : List Byte) : Option Offer := (offerOf b).filter (· ≠ ownOffer p)

namespace Exchange

inductive Event where
  | rx (payload : List Byte) (now : Time)
  | tick (now : Time)
  | takeEvents

def step (c : Crypto) (x : Exchange) : Event → Exchange
  | .rx payload now => ⟨pairRx c x.p payload now, (foreign x.p payload).toList ++ x.offers⟩
  | .tick now => ⟨pairTick x.p now, x.offers⟩
  | .takeEvents => ⟨(pairTakeEvents x.p).2, x.offers⟩

def Begun (x : Exchange) : Prop := ∃ p now windowMs fresh, x = ⟨pairBegin p now windowMs fresh, []⟩

/-- The window is open. -/
def InWindow (x : Exchange) : Event → Prop
  | .rx _ now | .tick now => windowOpen x.p now = true
  | .takeEvents => True

/-- An offer that repeats a uid repeats the rest. -/
def steady (x : Exchange) (o : Offer) : Bool := o.uid != x.p.selfUid && x.offers.all fun o' => o'.uid != o.uid || o' == o

def Steady (x : Exchange) (e : Event) : Prop :=
  InWindow x e ∧
    match e with
    | .rx payload _ => (foreign x.p payload).all x.steady = true
    | _ => True

instance (x : Exchange) (e : Event) : Decidable (InWindow x e) := by
  unfold InWindow
  cases e <;> infer_instance

instance (x : Exchange) (e : Event) : Decidable (Steady x e) := by
  unfold Steady
  cases e <;> infer_instance

/-- Of two different offers no key is left, nor ever comes of the exchange. -/
def AbortsOnThirdParty (c : Crypto) (x : Exchange) : Prop :=
  ∀ o ∈ x.offers, ∀ o' ∈ x.offers, o ≠ o' →
    ∀ es : List Event, (es.foldl (step c) x).p.state = .aborted ∧ pairChainKey (es.foldl (step c) x).p = none

variable (c : Crypto)

/-! ## Aborted for good -/

theorem step_aborted {x : Exchange} (h : x.p.state = .aborted) (e : Event) : (step c x e).p.state = .aborted := by
  cases e with
  | rx payload now => exact (congrArg Pair.state (pairRx_aborted c h payload now)).trans h
  | tick now => exact (congrArg Pair.state (pairTick_aborted h now)).trans h
  | takeEvents => exact h

theorem run_aborted {x : Exchange} (h : x.p.state = .aborted) (es : List Event) :
    (es.foldl (step c) x).p.state = .aborted := by
  induction es generalizing x with
  | nil => exact h
  | cons e es ih => exact ih (step_aborted c h e)

/-! ## The offers of an exchange in progress -/

/-- While the exchange is in progress it has seen no offer but its peer's. -/
structure Inv (x : Exchange) : Prop where
  begun : x.p.state ≠ .idle
  waiting : peerOffer x.p = none → x.p.state = .waiting ∨ x.p.state = .aborted
  offers : x.p.state ≠ .aborted → ∀ o ∈ x.offers, peerOffer x.p = some o
  peer : ∀ o, peerOffer x.p = some o → x.p.state = .aborted ∨ o ∈ x.offers

theorem begun_inv {x : Exchange} (h : Begun x) : Inv x := by
  obtain ⟨p, now, windowMs, fresh, rfl⟩ := h
  exact ⟨fun h => (by cases h), fun _ => Or.inl rfl, fun _ _ ho => absurd ho List.not_mem_nil, fun _ ho => (by cases ho)⟩

/-- Once aborted, nothing is left to show. -/
theorem inv_of_aborted {x : Exchange} (h : x.p.state = .aborted) : Inv x :=
  ⟨fun h' => (by rw [h] at h'; cases h'), fun _ => Or.inr h, fun h' => absurd h h', fun _ _ => Or.inl h⟩

/-- The same peer, and no offer but the peer's. -/
theorem inv_of_goesOn {x : Exchange} (hi : Inv x) {p : Pair} (h : GoesOn x.p p) {os : List Offer}
    (hos : x.p.state ≠ .aborted → ∀ o ∈ os, peerOffer x.p = some o) : Inv ⟨p, os ++ x.offers⟩ := by
  have hst : p.state ≠ .aborted → x.p.state ≠ .aborted := by
    intro hp hx
    rcases h.state with h' | ⟨h', -⟩
    · exact hp (h'.trans hx)
    · rw [h'] at hx
      cases hx
  refine ⟨?_, ?_, ?_, ?_⟩
  · intro hp
    rcases h.state with h' | ⟨-, h'⟩
    · exact hi.begun (h'.symm.trans hp)
    · rw [h'] at hp
      cases hp
  · intro hp
    have hw := hi.waiting (h.peer.symm.trans hp)
    rcases h.state with h' | ⟨h', -⟩
    · rw [h']
      exact hw
    · rw [h'] at hw
      rcases hw with hw | hw <;> cases hw
  · intro hp o ho
    rw [h.peer]
    rcases List.mem_append.mp ho with ho | ho
    · exact hos (hst hp) o ho
    · exact hi.offers (hst hp) o ho
  · intro o ho
    by_cases hp : p.state = .aborted
    · exact Or.inl hp
    rw [h.peer] at ho
    rcases hi.peer o ho with h' | h'
    · exact absurd h' (hst hp)
    · exact Or.inr (List.mem_append_right _ h')

theorem rx_inv {x : Exchange} (hi : Inv x) {payload : List Byte} {now : Time} (hok : Steady x (.rx payload now)) :
    Inv (step c x (.rx payload now)) := by
  obtain ⟨hopen, hsteady⟩ := hok
  by_cases hab : (pairRx c x.p payload now).state = .aborted
  · exact inv_of_aborted hab
  have hnow : x.p.state ≠ .aborted := fun h => hab (by rw [pairRx_aborted c h]; exact h)
  show Inv ⟨pairRx c x.p payload now, (foreign x.p payload).toList ++ x.offers⟩
  cases hf : foreign x.p payload with
  | none =>
    rcases pairRx_cases c x.p payload now with h | h | h
    · exact absurd h hab
    · exact inv_of_goesOn hi h fun _ _ ho => absurd ho List.not_mem_nil
    · -- the board does not take its own offer for a peer's
      obtain ⟨o, ho, -, hne⟩ := h.offer
      rw [foreign, ho, Option.filter_some] at hf
      split at hf
      · cases hf
      · rename_i hown
        exact absurd (congrArg Offer.uid (of_decide_eq_true (by simpa using hown))) hne
  | some o =>
    obtain ⟨ho, -⟩ := Option.filter_eq_some_iff.mp hf
    simp only [hf, Option.all_some, steady, Bool.and_eq_true, bne_iff_ne, ne_eq, List.all_eq_true, Bool.or_eq_true,
      beq_iff_eq] at hsteady
    obtain ⟨hown, hrep⟩ := hsteady
    cases hpeer : peerOffer x.p with
    | none =>
      have hw : x.p.state = .waiting := (hi.waiting hpeer).resolve_right hnow
      have hnone : x.offers = [] := by
        rw [List.eq_nil_iff_forall_not_mem]
        intro o' ho'
        have := hi.offers hnow o' ho'
        rw [hpeer] at this
        cases this
      have hp := pairRx_first c now hw ho hpeer hown
      rw [hnone]
      refine ⟨?_, fun h => (by rw [hp] at h; cases h), ?_, ?_⟩
      · intro h
        rcases pairRx_cases c x.p payload now with h' | h' | h'
        · exact hab h'
        · have := h'.peer
          rw [hp, hpeer] at this
          cases this
        · exact absurd (h.symm.trans h'.state) (by decide)
      · intro _ o' ho'
        rw [List.append_nil, Option.mem_toList] at ho'
        exact hp.trans ho'
      · intro o' ho'
        rw [hp] at ho'
        cases ho'
        exact Or.inr (by simp)
    | some peer =>
      have hmem : peer ∈ x.offers := (hi.peer peer hpeer).resolve_left hnow
      by_cases hu : peer.uid = o.uid
      · have he : peer = o := (hrep peer hmem).resolve_left (fun h => h hu)
        rcases pairRx_cases c x.p payload now with h | h | h
        · exact absurd h hab
        · refine inv_of_goesOn hi h fun _ o' ho' => ?_
          rw [hpeer, he]
          exact Option.mem_toList.mp ho'
        · have := h.unknown
          rw [hpeer] at this
          cases this
      · exact absurd (pairRx_third_party c hi.begun hopen ho hpeer hown fun h => hu h.symm) hab

theorem step_inv {x : Exchange} (hi : Inv x) {e : Event} (hok : Steady x e) : Inv (step c x e) := by
  cases e with
  | rx payload now => exact rx_inv c hi hok
  | tick now =>
    rcases pairTick_cases x.p now with h | h
    · exact inv_of_aborted h
    · show Inv ⟨pairTick x.p now, x.offers⟩
      rw [h]
      exact hi
  | takeEvents => exact ⟨hi.begun, hi.waiting, hi.offers, hi.peer⟩

/-- Two offers that differ abort the exchange, as long as no uid comes with two keys or
    two nonces; and nothing that arrives afterwards brings it back. -/
theorem third_party_aborts {x : Exchange} (h : Reach Begun Steady (step c) x) : AbortsOnThirdParty c x := by
  intro o ho o' ho' hne es
  have hi : Inv x := h.inv (fun _ => begun_inv) fun _ _ hi hok => step_inv c hi hok
  have hab : x.p.state = .aborted := by
    by_contra hab
    have h1 := hi.offers hab o ho
    have h2 := hi.offers hab o' ho'
    exact hne (Option.some.inj (h1.symm.trans h2))
  have hrun := run_aborted c hab es
  exact ⟨hrun, pairChainKey_aborted hrun⟩

/-! ## Two runs -/

def sampleOfferOf (uid : Uid) (n : Byte) : Offer := ⟨uid, (mockFresh n).publicKey, (mockFresh n).nonce⟩

def sampleStart : Exchange := ⟨sample 0x1111 1, []⟩

theorem sampleStart_begun : Begun sampleStart := ⟨pairInit 0x1111, 1000, 30000, mockFresh 1, rfl⟩

def thirdBoard : List Event := [.rx (sampleOffer 0x2222 2) 1000, .takeEvents, .rx (sampleOffer 0x3333 3) 1500]

theorem third_party_aborts_third_board : (thirdBoard.foldl (step mockCrypto) sampleStart).p.state = .aborted :=
  (third_party_aborts mockCrypto (Reach.run (.init sampleStart_begun) thirdBoard (by decide +kernel))
    (sampleOfferOf 0x2222 2) (by decide +kernel) (sampleOfferOf 0x3333 3) (by decide +kernel) (by decide +kernel) []).1

/-- A second offer under the peer's uid, with a key and a nonce of its own, between the
    peer's offer and the peer's confirmation. -/
def relayedUid : List Event :=
  [.rx (sampleOffer 0x2222 2) 1000, .rx (sampleOffer 0x2222 3) 1000,
    .rx (sampleConfirm 0x2222 2 (sampleOffer 0x1111 1)) 1500]

/-- The exchange completes over it. -/
theorem relayed_uid_is_not_noticed :
    ¬ ∀ (c : Crypto) (x : Exchange), Reach Begun InWindow (step c) x → AbortsOnThirdParty c x := by
  intro h
  have hr : Reach Begun InWindow (step mockCrypto) (relayedUid.foldl (step mockCrypto) sampleStart) :=
    Reach.run (.init sampleStart_begun) relayedUid (by decide +kernel)
  have hab := (h mockCrypto _ hr (sampleOfferOf 0x2222 2) (by decide +kernel) (sampleOfferOf 0x2222 3)
    (by decide +kernel) (by decide +kernel) []).1
  have hdone : (relayedUid.foldl (step mockCrypto) sampleStart).p.state = .done := by decide +kernel
  exact absurd (hdone.symm.trans hab) (by decide)

end Exchange

end DeskHop.Trust
